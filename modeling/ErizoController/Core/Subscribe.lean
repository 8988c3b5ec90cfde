import ErizoController.Core.Bridges
import ErizoController.Core.Publish

/-!
# What handleSubscribe does

A subscribe request that passes the gate on the SSRCs stores the subscriber first and
then counts it on its bridge. Both writes may fail on their own, so the request is all or
nothing only when nothing fails in between.
-/

open RefCount Json ACLRedis

/-- The messages that set up a subscription. -/
def Message.SetsUp : Message → Prop
  | .addSubscriber .. => True
  | .addVirtualPublisher .. => True
  | .addVirtualSubscriber .. => True
  | _ => False

namespace ErizoController

/-- Between the two worlds nothing of a subscription was stored or sent. -/
structure NothingDone (room_id : String) (w w' : World) : Prop where
  subscriber : w'.redis .subscriber room_id = w.redis .subscriber room_id
  bridge_stream : w'.redis .bridge_stream room_id = w.redis .bridge_stream room_id
  publisher : w'.redis .publisher room_id = w.redis .publisher room_id
  outbox : ∀ m ∈ w'.outbox.drop w.outbox.length, ¬ m.2.SetsUp

theorem NothingDone.of_eq {room_id : String} {w w' : World} (hredis : w'.redis = w.redis)
    (houtbox : w'.outbox = w.outbox) : NothingDone room_id w w' where
  subscriber := by rw [hredis]
  bridge_stream := by rw [hredis]
  publisher := by rw [hredis]
  outbox m hm := by
    rw [houtbox, List.drop_length] at hm
    cases hm

variable (self : ErizoController)

/-! ## One try, step by step -/

/-- The bridge that `setUpBridge` sees: none when the listing fails. -/
def seenBridge? (w : World) (room_id : String) (s : Subscriber) : Option BridgeStream :=
  if w.oracle.readFault.head then none else find? (pairOf s) (w.redis .bridge_stream room_id)

theorem seenBridge?_ok {w : World} {room_id : String} {s : Subscriber} (h : w.ReadsSucceed) :
    seenBridge? w room_id s = find? (pairOf s) (w.redis .bridge_stream room_id) := by
  rw [seenBridge?, h.head, if_neg Bool.false_ne_true]

/-- The messages that set a bridge up. -/
def setup (p : Publisher) (b : BridgeStream) : List (String × Message) :=
  [(b.recver_erizo_id, .addVirtualPublisher b.id b.src_stream_id b.sender_ip b.sender_port
      p.video_ssrc p.audio_ssrc),
    (b.sender_erizo_id, .addVirtualSubscriber b.id b.src_stream_id b.recver_ip b.recver_port)]

theorem exec_setUpBridge_seen {w : World} {client : Client} {p : Publisher} {s : Subscriber}
    {b : BridgeStream} (hseen : seenBridge? w client.room_id s = some b) :
    exec (setUpBridge client p s) w =
      exec (RedisHelper.addBridgeStream client.room_id
        { b with subscribe_count := b.subscribe_count + 1 }) w.drawRead := by
  rw [setUpBridge, exec_bind, RedisHelper.getAllBridgeStream, RedisHelper.exec_getAll,
    List.filter_true]
  have hfind : (if w.oracle.readFault.head then [] else
      (w.redis .bridge_stream client.room_id).rows).find? (fun bridge_stream =>
        bridge_stream.src_stream_id == s.subscribe_to &&
          bridge_stream.recver_erizo_id == s.erizo_id) = some b := by
    rw [← hseen, seenBridge?]
    split <;> rfl
  dsimp only
  rw [hfind]

theorem exec_setUpBridge_unseen {w : World} {client : Client} {p : Publisher} {s : Subscriber}
    (hseen : seenBridge? w client.room_id s = none) :
    exec (setUpBridge client p s) w =
      match if w.oracle.readFault.tail.head then none
        else (w.redis .publisher client.room_id).get? (c_str s.subscribe_to) with
      | none => (1, w.drawRead.drawStreamId.drawRead)
      | some p' =>
          let b := newBridgeStream client p s.subscribe_to w.oracle.streamId.head
          if w.oracle.writeFault.head then (1, w.drawRead.drawStreamId.drawRead.drawWrite)
          else (0, w.drawRead.drawStreamId.drawRead.drawWrite.effect
            (w.redis.update .bridge_stream client.room_id
              ((w.redis .bridge_stream client.room_id).set b)) (setup p' b)) := by
  rw [setUpBridge, exec_bind, RedisHelper.getAllBridgeStream, RedisHelper.exec_getAll,
    List.filter_true]
  have hfind : (if w.oracle.readFault.head then [] else
      (w.redis .bridge_stream client.room_id).rows).find? (fun bridge_stream =>
        bridge_stream.src_stream_id == s.subscribe_to &&
          bridge_stream.recver_erizo_id == s.erizo_id) = none := by
    rw [← hseen, seenBridge?]
    split <;> rfl
  dsimp only
  rw [hfind]
  dsimp only
  rw [exec_bind, exec_getStreamID]
  dsimp only
  rw [exec_bind, RedisHelper.getPublisher, RedisHelper.exec_get]
  have hread : (if w.oracle.readFault.tail.head then none
      else (w.redis .publisher client.room_id).get? (c_str s.subscribe_to)) =
      if w.drawRead.drawStreamId.oracle.readFault.head then none
        else (w.drawRead.drawStreamId.redis .publisher client.room_id).get?
          (c_str (newBridgeStream client p s.subscribe_to
            w.drawRead.oracle.streamId.head).src_stream_id) :=
    rfl
  rw [hread]
  generalize (if w.drawRead.drawStreamId.oracle.readFault.head then none
        else (w.drawRead.drawStreamId.redis .publisher client.room_id).get?
          (c_str (newBridgeStream client p s.subscribe_to
            w.drawRead.oracle.streamId.head).src_stream_id)) =
    read
  cases read with
  | none => rfl
  | some p' =>
      dsimp only
      rw [exec_bind, RedisHelper.addBridgeStream]
      by_cases hfault : w.oracle.writeFault.head = true
      · rw [RedisHelper.exec_add_fault (w := w.drawRead.drawStreamId.drawRead) hfault,
          if_pos hfault]
        rfl
      · rw [RedisHelper.exec_add_write (w := w.drawRead.drawStreamId.drawRead)
          (Bool.eq_false_of_not_eq_true hfault), if_neg hfault]
        simp [addVirtualPublisher, addVirtualSubscriber, setup, World.drawStreamId,
          World.drawRead, World.drawWrite, World.effect]

/-- The row that counts the new use: a seen bridge bumped, or a new one. -/
def countedBridge (w : World) (client : Client) (p : Publisher) (s : Subscriber) : BridgeStream :=
  match seenBridge? w client.room_id s with
  | some b => { b with subscribe_count := b.subscribe_count + 1 }
  | none => newBridgeStream client p s.subscribe_to w.oracle.streamId.head

/-- The id drawn for a new bridge. -/
def usedForBridge (w : World) (room_id : String) (s : Subscriber) : List String :=
  match seenBridge? w room_id s with
  | some _ => []
  | none => [w.oracle.streamId.head]

/-- The messages about the bridge of a new use, with the publisher that is read for them. -/
def setupMessages (w : World) (client : Client) (p p' : Publisher) (s : Subscriber) :
    List (String × Message) :=
  match seenBridge? w client.room_id s with
  | some _ => []
  | none => setup p' (newBridgeStream client p s.subscribe_to w.oracle.streamId.head)

/-- A command of `setUpBridge` fails in a way that it notices. -/
def SetUpFails (w : World) (room_id : String) (s : Subscriber) : Prop :=
  w.oracle.writeFault.head = true ∨
    seenBridge? w room_id s = none ∧ w.oracle.readFault.tail.head = true

instance (w : World) (room_id : String) (s : Subscriber) : Decidable (SetUpFails w room_id s) :=
  inferInstanceAs (Decidable (_ ∨ _ ∧ _))

section SetUpBridge

variable {w : World} {client : Client} {p : Publisher} {s : Subscriber}

theorem exec_setUpBridge_fails (h : SetUpFails w client.room_id s) :
    ∃ w', exec (setUpBridge client p s) w = (1, w') ∧ w'.redis = w.redis ∧
      w'.outbox = w.outbox := by
  cases hseen : seenBridge? w client.room_id s with
  | some b =>
      have hfault : w.drawRead.oracle.writeFault.head = true := by
        rcases h with hfault | ⟨hnone, -⟩
        · exact hfault
        · exact absurd (hseen.symm.trans hnone) (Option.some_ne_none b)
      rw [exec_setUpBridge_seen hseen, RedisHelper.addBridgeStream,
        RedisHelper.exec_add_fault hfault]
      exact ⟨_, rfl, rfl, rfl⟩
  | none =>
      rw [exec_setUpBridge_unseen hseen]
      split
      · exact ⟨_, rfl, rfl, rfl⟩
      · rename_i hread
        have hfault : w.oracle.writeFault.head = true := by
          rcases h with hfault | ⟨-, hfault⟩
          · exact hfault
          · rw [hfault] at hread
            cases hread
        rw [if_pos hfault]
        exact ⟨_, rfl, rfl, rfl⟩

theorem exec_setUpBridge_succeeds {p' : Publisher} (h : ¬ SetUpFails w client.room_id s)
    (hp : (w.redis .publisher client.room_id).get? (c_str s.subscribe_to) = some p') :
    ∃ w', exec (setUpBridge client p s) w = (0, w') ∧
      w'.redis = w.redis.update .bridge_stream client.room_id
        ((w.redis .bridge_stream client.room_id).set (countedBridge w client p s)) ∧
      w'.used = usedForBridge w client.room_id s ++ w.used ∧
      w'.outbox = w.outbox ++ setupMessages w client p p' s := by
  obtain ⟨hwrite, hread⟩ := not_or.mp h
  rw [countedBridge, usedForBridge, setupMessages]
  cases hseen : seenBridge? w client.room_id s with
  | some b =>
      rw [exec_setUpBridge_seen hseen, RedisHelper.addBridgeStream,
        RedisHelper.exec_add_write (w := w.drawRead) (Bool.eq_false_of_not_eq_true hwrite)]
      exact ⟨_, rfl, rfl, rfl, rfl⟩
  | none =>
      have htail : ¬ w.oracle.readFault.tail.head = true := fun hfault => hread ⟨hseen, hfault⟩
      rw [exec_setUpBridge_unseen hseen, if_neg htail, hp]
      dsimp only
      rw [if_neg hwrite]
      exact ⟨_, rfl, rfl, rfl, rfl⟩

end SetUpBridge

/-- The SSRCs of a publisher are known. -/
def Publisher.Known (p : Publisher) : Prop := ¬ (p.video_ssrc = 0 ∨ p.audio_ssrc = 0)

instance (p : Publisher) : Decidable (Publisher.Known p) := inferInstanceAs (Decidable (¬ _))

def subscribeReply (s : Subscriber) : Value :=
  .arrayValue [.booleanValue true, .stringValue s.erizo_id]

/-- The message that announces a subscriber to its erizo. -/
def subscriberMessage (client : Client) (p : Publisher) (s : Subscriber) : String × Message :=
  (s.erizo_id, .addSubscriber s.client_id s.subscribe_to p.label self.getReplyTo
    (isp2String client.ip_info.isp))

section SubscribeLocked

variable {self} {w : World} {client : Client} {stream_id : String}

theorem exec_subscribeLocked_missing (h : readPublisher? w client.room_id stream_id = none) :
    exec (self.subscribeLocked client stream_id) w = (some .nullValue, w.drawRead) := by
  rw [subscribeLocked, exec_bind, RedisHelper.getPublisher, RedisHelper.exec_get]
  rw [readPublisher?] at h
  rw [h]
  rfl

theorem exec_subscribeLocked_unknown {p : Publisher}
    (h : readPublisher? w client.room_id stream_id = some p) (hp : ¬ Publisher.Known p) :
    exec (self.subscribeLocked client stream_id) w = (none, w.drawRead) := by
  rw [subscribeLocked, exec_bind, RedisHelper.getPublisher, RedisHelper.exec_get]
  rw [readPublisher?] at h
  rw [h]
  dsimp only
  rw [if_pos (not_not.mp hp)]
  rfl

/-- The subscriber that a request stores. -/
def subscriberOf (self : ErizoController) (w : World) (client : Client) (p : Publisher)
    (stream_id : String) : Subscriber :=
  self.newSubscriber client p stream_id w.oracle.streamId.head

/-- The world once the subscriber is stored. -/
def stored (w : World) (room_id : String) (s : Subscriber) : World :=
  w.drawRead.drawStreamId.drawWrite.effect
    (w.redis.update .subscriber room_id ((w.redis .subscriber room_id).set s)) []

theorem readsSucceed_stored (h : w.ReadsSucceed) {room_id : String} {s : Subscriber} :
    (stored w room_id s).ReadsSucceed := by
  rw [World.ReadsSucceed] at h ⊢
  change w.oracle.readFault.tail = _
  rw [h, Stream'.tail_const]

theorem writesSucceed_stored (h : w.WritesSucceed) {room_id : String} {s : Subscriber} :
    (stored w room_id s).WritesSucceed := by
  rw [World.WritesSucceed] at h ⊢
  change w.oracle.writeFault.tail = _
  rw [h, Stream'.tail_const]

theorem exec_subscribeLocked_fault {p : Publisher}
    (h : readPublisher? w client.room_id stream_id = some p) (hp : Publisher.Known p)
    (hfault : w.oracle.writeFault.head = true) :
    exec (self.subscribeLocked client stream_id) w =
      (some .nullValue, w.drawRead.drawStreamId.drawWrite) := by
  rw [subscribeLocked, exec_bind, RedisHelper.getPublisher, RedisHelper.exec_get]
  rw [readPublisher?] at h
  rw [h]
  dsimp only
  rw [if_neg hp, exec_bind, exec_getStreamID]
  dsimp only
  rw [exec_bind, RedisHelper.addSubscriber,
    RedisHelper.exec_add_fault (w := w.drawRead.drawStreamId) hfault]
  rfl

theorem exec_subscribeLocked_stored {p : Publisher}
    (h : readPublisher? w client.room_id stream_id = some p) (hp : Publisher.Known p)
    (hfault : w.oracle.writeFault.head = false) :
    exec (self.subscribeLocked client stream_id) w =
      if (subscriberOf self w client p stream_id).is_bridge then
        match exec (setUpBridge client p (subscriberOf self w client p stream_id))
          (stored w client.room_id (subscriberOf self w client p stream_id)) with
        | (rc, w') =>
            if rc ≠ 0 then (some .nullValue, w')
            else (some (subscribeReply (subscriberOf self w client p stream_id)),
              w'.effect w'.redis
                [self.subscriberMessage client p (subscriberOf self w client p stream_id)])
      else
        (some (subscribeReply (subscriberOf self w client p stream_id)),
          (stored w client.room_id (subscriberOf self w client p stream_id)).effect
            (stored w client.room_id (subscriberOf self w client p stream_id)).redis
            [self.subscriberMessage client p (subscriberOf self w client p stream_id)]) := by
  rw [subscribeLocked, exec_bind, RedisHelper.getPublisher, RedisHelper.exec_get]
  rw [readPublisher?] at h
  rw [h]
  dsimp only
  rw [if_neg hp, exec_bind, exec_getStreamID]
  dsimp only
  rw [exec_bind, RedisHelper.addSubscriber,
    RedisHelper.exec_add_write (w := w.drawRead.drawStreamId) hfault]
  dsimp only
  rw [if_neg (by decide)]
  have hs : self.newSubscriber client p stream_id w.drawRead.oracle.streamId.head =
      subscriberOf self w client p stream_id := rfl
  rw [hs]
  change exec (if (subscriberOf self w client p stream_id).is_bridge = true then _ else _)
    (stored w client.room_id (subscriberOf self w client p stream_id)) = _
  split
  · rw [exec_bind]
    by_cases hrc : (exec (setUpBridge client p (subscriberOf self w client p stream_id))
        (stored w client.room_id (subscriberOf self w client p stream_id))).1 ≠ 0
    · rw [if_pos hrc, if_pos hrc]
      rfl
    · rw [if_neg hrc, if_neg hrc]
      rfl
  · rfl

/-- Without failures the new use is a `RefCount.retain`. -/
theorem set_countedBridge (hr : w.ReadsSucceed) (p : Publisher) (s : Subscriber) :
    (w.redis .bridge_stream client.room_id).set (countedBridge w client p s) =
      retain (pairOf s) (newBridgeStream client p s.subscribe_to w.oracle.streamId.head)
        (w.redis .bridge_stream client.room_id) := by
  rw [countedBridge, retain, seenBridge?_ok hr]
  cases find? (pairOf s) (w.redis .bridge_stream client.room_id) with
  | none => rfl
  | some b => exact congrArg _ (setCount_add b 1).symm

/-- The hashes after a subscription. -/
def subscribed (w : World) (client : Client) (p : Publisher) (s : Subscriber) : Redis :=
  if s.is_bridge then (stored w client.room_id s).redis.update .bridge_stream client.room_id
    (retain (pairOf s) (newBridgeStream client p s.subscribe_to w.oracle.streamId.tail.head)
      (w.redis .bridge_stream client.room_id))
  else (stored w client.room_id s).redis

/-- The ids used after a subscription, and the messages of it. -/
def subscribedIds (w : World) (client : Client) (s : Subscriber) : List String :=
  (if s.is_bridge then usedForBridge (stored w client.room_id s) client.room_id s else []) ++
    w.oracle.streamId.head :: w.used

def subscribeMessages (self : ErizoController) (w : World) (client : Client) (p : Publisher)
    (s : Subscriber) : List (String × Message) :=
  (if s.is_bridge then setupMessages (stored w client.room_id s) client p p s else []) ++
    [self.subscriberMessage client p s]

/-- A try without failures on a stream whose SSRCs are known. -/
theorem exec_subscribeLocked_ok {p : Publisher} (hr : w.ReadsSucceed) (hw : w.WritesSucceed)
    (h : (w.redis .publisher client.room_id).get? (c_str stream_id) = some p)
    (hp : Publisher.Known p) :
    ∃ w', exec (self.subscribeLocked client stream_id) w =
        (some (subscribeReply (subscriberOf self w client p stream_id)), w') ∧
      w'.redis = subscribed w client p (subscriberOf self w client p stream_id) ∧
      w'.used = subscribedIds w client (subscriberOf self w client p stream_id) ∧
      w'.outbox = w.outbox ++
        subscribeMessages self w client p (subscriberOf self w client p stream_id) := by
  rw [exec_subscribeLocked_stored ((readPublisher?_ok hr).trans h) hp hw.head, subscribed,
    subscribedIds, subscribeMessages]
  generalize hs : subscriberOf self w client p stream_id = s
  have hto : s.subscribe_to = stream_id := by rw [← hs]; rfl
  have hr' : (stored w client.room_id s).ReadsSucceed := readsSucceed_stored hr
  have hw' : (stored w client.room_id s).WritesSucceed := writesSucceed_stored hw
  by_cases hbridge : s.is_bridge = true
  · have hfails : ¬ SetUpFails (stored w client.room_id s) client.room_id s := by
      rintro (hwrite | ⟨-, hread⟩)
      · rw [hw'.head] at hwrite
        cases hwrite
      · rw [hr'] at hread
        cases hread
    have hpublisher : ((stored w client.room_id s).redis .publisher client.room_id).get?
        (c_str s.subscribe_to) = some p := by
      simpa [stored, hto] using h
    obtain ⟨w', hexec, hredis, hused, houtbox⟩ :=
      exec_setUpBridge_succeeds (p := p) hfails hpublisher
    rw [if_pos hbridge, if_pos hbridge, if_pos hbridge, if_pos hbridge, hexec]
    refine ⟨_, rfl, ?_, ?_, ?_⟩
    · have hbridges : (stored w client.room_id s).redis .bridge_stream client.room_id =
          w.redis .bridge_stream client.room_id := by simp [stored]
      rw [World.effect_redis, hredis, set_countedBridge hr', hbridges]
      rfl
    · exact hused
    · rw [World.effect_outbox, houtbox, List.append_assoc]
      simp [stored]
      rfl
  · rw [if_neg hbridge, if_neg hbridge, if_neg hbridge, if_neg hbridge]
    refine ⟨_, rfl, rfl, rfl, ?_⟩
    simp [stored]
    rfl

end SubscribeLocked

end ErizoController
