import ErizoController.Core.Handlers

/-!
# What publishing does

A publish request files a publisher whose SSRCs are whatever memory held, and the answer
of the erizo files it again with the SSRCs of the stream.
-/

open Json ACLRedis

namespace ErizoController

variable (self : ErizoController)

/-- The message that announces a publisher to its erizo. -/
def publisherMessage (client : Client) (p : Publisher) : String × Message :=
  (p.erizo_id, .addPublisher client.room_id p.client_id p.id p.label self.getReplyTo
    (isp2String client.ip_info.isp))

def publishReply (p : Publisher) : Value :=
  .arrayValue [.stringValue p.id, .stringValue p.erizo_id]

theorem exec_publishLocked (client : Client) (p : Publisher) (w : World) :
    exec (self.publishLocked client p) w =
      if w.oracle.writeFault.head then (.nullValue, w.drawWrite)
      else (publishReply p, w.drawWrite.effect
        (w.redis.update .publisher client.room_id ((w.redis .publisher client.room_id).set p))
        [self.publisherMessage client p]) := by
  rw [publishLocked, exec_bind, RedisHelper.addPublisher]
  by_cases hfault : w.oracle.writeFault.head = true
  · rw [RedisHelper.exec_add_fault hfault, if_pos hfault]
    rfl
  · rw [RedisHelper.exec_add_write (Bool.eq_false_of_not_eq_true hfault), if_neg hfault]
    dsimp only
    rw [if_neg (by decide), exec_bind, addPublisher, exec_rpcNotReply]
    simp [publisherMessage, publishReply]

/-- A stored publisher with the SSRCs of its stream. -/
def answered (p : Publisher) (video_ssrc audio_ssrc : UInt32) : Publisher :=
  { p with video_ssrc, audio_ssrc }

/-- The publisher that a Redis read of the room returns. -/
def readPublisher? (w : World) (room_id stream_id : String) : Option Publisher :=
  if w.oracle.readFault.head then none else (w.redis .publisher room_id).get? (c_str stream_id)

theorem readPublisher?_ok {w : World} {room_id stream_id : String} (h : w.ReadsSucceed) :
    readPublisher? w room_id stream_id = (w.redis .publisher room_id).get? (c_str stream_id) := by
  rw [readPublisher?, h.head, if_neg Bool.false_ne_true]

/-- What is read is stored under the id as the client library is given it. -/
theorem mem_of_readPublisher? {w : World} {room_id stream_id : String} {p : Publisher}
    (h : readPublisher? w room_id stream_id = some p) :
    p ∈ w.redis .publisher room_id ∧ p.id = c_str stream_id := by
  rw [readPublisher?] at h
  split at h
  · cases h
  · exact Table.get?_eq_some_iff.mp h

theorem exec_publisherAnswerLocked (room_id stream_id : String) (video_ssrc audio_ssrc : UInt32)
    (w : World) :
    exec (publisherAnswerLocked room_id stream_id video_ssrc audio_ssrc) w =
      match readPublisher? w room_id stream_id with
      | none => (false, w.drawRead)
      | some p =>
          if w.oracle.writeFault.head then (false, w.drawRead.drawWrite)
          else (true, w.drawRead.drawWrite.effect (w.redis.update .publisher room_id
            ((w.redis .publisher room_id).set (answered p video_ssrc audio_ssrc))) []) := by
  have hread : exec (RedisHelper.getPublisher room_id stream_id) w =
      (readPublisher? w room_id stream_id, w.drawRead) := RedisHelper.exec_get _ _ _ _
  rw [publisherAnswerLocked, exec_bind, hread]
  cases readPublisher? w room_id stream_id with
  | none => rfl
  | some p =>
      dsimp only
      rw [exec_bind, RedisHelper.addPublisher]
      by_cases hfault : w.oracle.writeFault.head = true
      · rw [RedisHelper.exec_add_fault (w := w.drawRead) hfault, if_pos hfault]
        rfl
      · rw [RedisHelper.exec_add_write (w := w.drawRead) (Bool.eq_false_of_not_eq_true hfault),
          if_neg hfault]
        rfl

end ErizoController
