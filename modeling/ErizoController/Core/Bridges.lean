import ErizoController.Core.Handlers

/-!
# What the bridge operations do

`removeBridgeStreamSub` gives back one use of a bridge: on the table of bridges it is
`RefCount.drop`, and the messages tear the bridge down when nothing is left of it. It
writes exactly when it finds a bridge, and returns 1 exactly when that write fails.
-/

open RefCount

namespace ErizoController

/-- The resource a subscriber uses when it is bridged. -/
def pairOf (s : Subscriber) : String × String := (s.subscribe_to, s.erizo_id)

theorem setCount_add (b : BridgeStream) (n : ℤ) :
    Counted.setCount b (Counted.count b + n) =
      { b with subscribe_count := b.subscribe_count + Int32.ofInt n } := by
  simp [Counted.setCount, Counted.count, Int32.ofInt_add]

theorem setCount_sub_one (b : BridgeStream) :
    Counted.setCount b (Counted.count b - 1) =
      { b with subscribe_count := b.subscribe_count - 1 } := by
  simp [Counted.setCount, Counted.count, Int32.ofInt_sub]

theorem count_nonpos_iff (b : BridgeStream) : Counted.count b ≤ 0 ↔ b.subscribe_count ≤ 0 :=
  by
  change b.subscribe_count.toInt ≤ (0 : Int32).toInt ↔ _
  exact Int32.le_iff_toInt_le.symm

/-- The messages that tear a bridge down. -/
def teardown (b : BridgeStream) : List (String × Message) :=
  [(b.sender_erizo_id, .removeVirtualSubscriber b.id b.src_stream_id),
    (b.recver_erizo_id, .removeVirtualPublisher b.src_stream_id)]

/-- The messages of giving back one use of a bridge. -/
def dropMessages (pair : String × String) (t : Table BridgeStream) : List (String × Message) :=
  match find? pair t with
  | none => []
  | some b => if b.subscribe_count - 1 ≤ 0 then teardown b else []

section RemoveBridgeStreamSub

variable {w : World} (room_id st erizo : String)

/-- Where the listing fails no bridge is found, and 0 is returned. -/
theorem exec_removeBridgeStreamSub_unheard (h : w.oracle.readFault.head = true) :
    exec (removeBridgeStreamSub room_id st erizo) w = (0, w.drawRead) := by
  rw [removeBridgeStreamSub, exec_bind, RedisHelper.getAllBridgeStream, RedisHelper.exec_getAll,
    if_pos h]
  rfl

theorem exec_removeBridgeStreamSub_heard (h : w.oracle.readFault.head = false) :
    exec (removeBridgeStreamSub room_id st erizo) w =
      if find? (st, erizo) (w.redis .bridge_stream room_id) = none then (0, w.drawRead)
      else if w.oracle.writeFault.head then
        (1, w.drawRead.drawWrite.effect w.redis
          (dropMessages (st, erizo) (w.redis .bridge_stream room_id)))
      else
        (0, w.drawRead.drawWrite.effect
          (w.redis.update .bridge_stream room_id
            (drop (st, erizo) (w.redis .bridge_stream room_id)))
          (dropMessages (st, erizo) (w.redis .bridge_stream room_id))) := by
  rw [removeBridgeStreamSub, exec_bind, RedisHelper.getAllBridgeStream, RedisHelper.exec_getAll,
    h, if_neg Bool.false_ne_true]
  dsimp only
  rw [List.filter_true]
  change exec (match find? (st, erizo) (w.redis .bridge_stream room_id) with
    | none => _
    | some it => _) w.drawRead = _
  cases hfound : find? (st, erizo) (w.redis .bridge_stream room_id) with
  | none => rfl
  | some b =>
      rw [if_neg (Option.some_ne_none b), dropMessages, drop, hfound]
      dsimp only
      simp only [setCount_sub_one, count_nonpos_iff]
      by_cases hlast : b.subscribe_count - 1 ≤ 0
      · simp only [if_pos hlast, removeVirtualSubscriber, removeVirtualPublisher, exec_bind,
          exec_rpcNotReply, RedisHelper.removeBridgeStream, RedisHelper.exec_remove,
          World.effect_redis, World.effect_effect, World.effect_oracle]
        by_cases hfault : w.oracle.writeFault.head = true <;>
          simp [hfault, World.effect, World.drawRead, World.drawWrite, World.store, teardown]
      · simp only [if_neg hlast, RedisHelper.addBridgeStream, RedisHelper.exec_add]
        by_cases hfault : w.oracle.writeFault.head = true <;>
          simp [hfault, World.effect, World.drawRead, World.drawWrite, World.store]

end RemoveBridgeStreamSub

theorem exec_removeBridgeStreamSub {w : World} (h : w.ReadsSucceed) (room_id st erizo : String) :
    exec (removeBridgeStreamSub room_id st erizo) w =
      if find? (st, erizo) (w.redis .bridge_stream room_id) = none then (0, w)
      else if w.oracle.writeFault.head then
        (1, w.drawWrite.effect w.redis (dropMessages (st, erizo) (w.redis .bridge_stream room_id)))
      else
        (0, w.drawWrite.effect
          (w.redis.update .bridge_stream room_id
            (drop (st, erizo) (w.redis .bridge_stream room_id)))
          (dropMessages (st, erizo) (w.redis .bridge_stream room_id))) := by
  rw [exec_removeBridgeStreamSub_heard room_id st erizo h.head, h.drawRead]

end ErizoController
