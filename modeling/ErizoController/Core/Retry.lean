import ErizoController.Core.Exactness

/-!
# A removal that is aborted and run again

`removeClient` returns early when the update of a bridge fails. By then it has given back
the uses of the bridges it wrote before, and the subscribers that held them are still
stored, so a second run gives them back again.
-/

open RefCount

namespace ErizoController

/-- Whether removing a subscriber writes a bridge. -/
def WritesBridge (s : Subscriber) (t : Table BridgeStream) : Prop :=
  s.is_bridge = true ∧ find? (pairOf s) t ≠ none

instance (s : Subscriber) (t : Table BridgeStream) : Decidable (WritesBridge s t) :=
  inferInstanceAs (Decidable (_ ∧ _))

/-- The resources of the bridges that a list of removals writes, in order. -/
def bridgeWrites : List Subscriber → Table BridgeStream → List (String × String)
  | [], _ => []
  | s :: ss, t =>
      if WritesBridge s t then pairOf s :: bridgeWrites ss (leave s t) else bridgeWrites ss t

theorem leave_of_not_writes {s : Subscriber} {t : Table BridgeStream} (h : ¬ WritesBridge s t) :
    leave s t = t := by
  rw [leave]
  split
  · rename_i hbridge
    have hnone : find? (pairOf s) t = none := by
      by_contra hsome
      exact h ⟨hbridge, hsome⟩
    rw [drop, hnone]
  · rfl

theorem leave_of_writes {s : Subscriber} {t : Table BridgeStream} (h : WritesBridge s t) :
    leave s t = drop (pairOf s) t := if_pos h.1

/-! ## One removal, with failing writes -/

section DropSubscriber

variable {w : World} {room_id : String} {s : Subscriber}

theorem exec_dropSubscriber_idle (hr : w.ReadsSucceed)
    (h : ¬ WritesBridge s (w.redis .bridge_stream room_id)) :
    ∃ messages, exec (dropSubscriber room_id s) w = (some [s.id], w.effect w.redis messages) := by
  rw [dropSubscriber]
  by_cases hbridge : s.is_bridge = true
  · have hnone : find? (s.subscribe_to, s.erizo_id) (w.redis .bridge_stream room_id) = none := by
      by_contra hsome
      exact h ⟨hbridge, hsome⟩
    simp [hbridge, exec_removeBridgeStreamSub hr, hnone, removeSubscriber,
      notifyToRemoveSubscriber]
  · simp [hbridge, removeSubscriber, notifyToRemoveSubscriber]

theorem exec_dropSubscriber_fault (hr : w.ReadsSucceed)
    (h : WritesBridge s (w.redis .bridge_stream room_id))
    (hfault : w.oracle.writeFault.head = true) :
    ∃ messages, exec (dropSubscriber room_id s) w =
      (none, w.drawWrite.effect w.redis messages) := by
  have hsome : find? (s.subscribe_to, s.erizo_id) (w.redis .bridge_stream room_id) ≠ none := h.2
  refine ⟨dropMessages (pairOf s) (w.redis .bridge_stream room_id), ?_⟩
  rw [dropSubscriber, if_pos h.1, exec_bind, exec_removeBridgeStreamSub hr, if_neg hsome,
    if_pos hfault]
  rfl

theorem exec_dropSubscriber_write (hr : w.ReadsSucceed)
    (h : WritesBridge s (w.redis .bridge_stream room_id))
    (hfault : w.oracle.writeFault.head = false) :
    ∃ messages, exec (dropSubscriber room_id s) w =
      (some [s.id], w.drawWrite.effect (w.redis.update .bridge_stream room_id
        (leave s (w.redis .bridge_stream room_id))) messages) := by
  have hsome : find? (s.subscribe_to, s.erizo_id) (w.redis .bridge_stream room_id) ≠ none := h.2
  rw [dropSubscriber, if_pos h.1, exec_bind, exec_removeBridgeStreamSub hr, if_neg hsome, hfault,
    leave_of_writes h]
  simp [removeSubscriber, notifyToRemoveSubscriber, pairOf]

end DropSubscriber

/-! ## The loop, with failing writes -/

/-- The loop stops at the first write that fails, with the uses before it given back. -/
theorem exec_collect_abort {room_id : String} {ss : List Subscriber} {w : World} {n : ℕ}
    (hr : w.ReadsSucceed)
    (hn : n < (bridgeWrites ss (w.redis .bridge_stream room_id)).length)
    (hfirst : ∀ i < n, w.oracle.writeFault.get i = false)
    (hfail : w.oracle.writeFault.get n = true) :
    ∃ w', exec (Prog.collect (dropSubscriber room_id) ss) w = (none, w') ∧
      w'.redis = w.redis.update .bridge_stream room_id
        (dropAll ((bridgeWrites ss (w.redis .bridge_stream room_id)).take n)
          (w.redis .bridge_stream room_id)) := by
  induction ss generalizing w n with
  | nil => exact absurd hn (Nat.not_lt_zero n)
  | cons s ss ih =>
      rw [Prog.collect, exec_bind]
      by_cases hwrites : WritesBridge s (w.redis .bridge_stream room_id)
      · rw [bridgeWrites, if_pos hwrites] at hn ⊢
        cases n with
        | zero =>
            obtain ⟨messages, hexec⟩ := exec_dropSubscriber_fault hr hwrites hfail
            rw [hexec]
            exact ⟨_, rfl, by simp [dropAll]⟩
        | succ n =>
            obtain ⟨messages, hexec⟩ :=
              exec_dropSubscriber_write hr hwrites (hfirst 0 (Nat.succ_pos n))
            rw [hexec]
            dsimp only
            obtain ⟨w', hrest, hredis⟩ := ih (w := w.drawWrite.effect
              (w.redis.update .bridge_stream room_id
                (leave s (w.redis .bridge_stream room_id))) messages) (n := n) hr
              (by simpa using hn) (fun i hi => hfirst (i + 1) (Nat.succ_lt_succ hi)) hfail
            rw [exec_bind, hrest]
            refine ⟨w', rfl, hredis.trans ?_⟩
            simp [dropAll_cons, leave_of_writes hwrites]
      · rw [bridgeWrites, if_neg hwrites] at hn ⊢
        obtain ⟨messages, hexec⟩ := exec_dropSubscriber_idle hr hwrites
        rw [hexec]
        dsimp only
        obtain ⟨w', hrest, hredis⟩ := ih (w := w.effect w.redis messages) hr hn hfirst hfail
        rw [exec_bind, hrest]
        exact ⟨w', rfl, hredis⟩

/-- The loop comes to its end when none of its writes fails. -/
theorem exec_collect_complete {room_id : String} {ss : List Subscriber} {w : World}
    (hr : w.ReadsSucceed)
    (hfirst : ∀ i < (bridgeWrites ss (w.redis .bridge_stream room_id)).length,
      w.oracle.writeFault.get i = false) :
    ∃ w', exec (Prog.collect (dropSubscriber room_id) ss) w = (some (ss.map Subscriber.id), w') ∧
      w'.ReadsSucceed ∧ w'.redis = w.redis.update .bridge_stream room_id
        (dropAll (bridgedPairs ss) (w.redis .bridge_stream room_id)) := by
  induction ss generalizing w with
  | nil => exact ⟨w, rfl, hr, by simp [bridgedPairs, dropAll]⟩
  | cons s ss ih =>
      rw [Prog.collect, exec_bind, dropAll_bridgedPairs_cons]
      by_cases hwrites : WritesBridge s (w.redis .bridge_stream room_id)
      · rw [bridgeWrites, if_pos hwrites, List.length_cons] at hfirst
        obtain ⟨messages, hexec⟩ :=
          exec_dropSubscriber_write hr hwrites (hfirst 0 (Nat.succ_pos _))
        rw [hexec]
        dsimp only
        obtain ⟨w', hrest, hr', hredis⟩ := ih (w := w.drawWrite.effect
              (w.redis.update .bridge_stream room_id
                (leave s (w.redis .bridge_stream room_id))) messages) hr
          (fun i hi => hfirst (i + 1) (Nat.succ_lt_succ (by simpa using hi)))
        rw [exec_bind, hrest]
        exact ⟨w', rfl, hr', hredis.trans (by simp)⟩
      · rw [bridgeWrites, if_neg hwrites] at hfirst
        obtain ⟨messages, hexec⟩ := exec_dropSubscriber_idle hr hwrites
        rw [hexec, leave_of_not_writes hwrites]
        dsimp only
        obtain ⟨w', hrest, hr', hredis⟩ := ih (w := w.effect w.redis messages) hr hfirst
        rw [exec_bind, hrest]
        exact ⟨w', rfl, hr', hredis⟩

/-! ## Removing a client, with failing writes -/

theorem exec_collect_dropPublisher_idle {room_id : String} {ps : List Publisher} {w : World}
    (hr : w.ReadsSucceed)
    (hnone : ∀ p ∈ ps, ∀ b ∈ w.redis .bridge_stream room_id, b.src_stream_id ≠ p.id) :
    ∃ messages, exec (Prog.collect (dropPublisher room_id) ps) w =
      (some (ps.map Publisher.id), w.effect w.redis messages) := by
  induction ps generalizing w with
  | nil => exact ⟨[], by rw [World.effect_nil]; rfl⟩
  | cons p ps ih =>
      have hsent : (w.redis .bridge_stream room_id).rows.find? (fun b =>
          b.src_stream_id == p.id && b.sender_erizo_id == p.erizo_id) = none := by
        rw [List.find?_eq_none]
        intro b hb hsent
        exact hnone p List.mem_cons_self b hb (beq_iff_eq.mp (Bool.and_eq_true_iff.mp hsent).1)
      have hfirst : exec (dropPublisher room_id p) w =
          (some [p.id], w.effect w.redis [(p.erizo_id, .removePublisher p.client_id p.id)]) := by
        have hbridges : exec (removeBridgeStreamPub room_id p.id p.erizo_id) w = (0, w) := by
          rw [removeBridgeStreamPub, exec_bind, RedisHelper.getAllBridgeStream,
            RedisHelper.exec_getAll_ok hr, List.filter_true]
          dsimp only
          rw [hsent]
          rfl
        rw [dropPublisher, exec_bind, hbridges]
        rfl
      obtain ⟨messages, hrest⟩ := ih (w := w.effect w.redis
        [(p.erizo_id, .removePublisher p.client_id p.id)]) hr
        fun q hq => hnone q (List.mem_cons_of_mem _ hq)
      rw [Prog.collect, exec_bind, hfirst]
      dsimp only
      rw [exec_bind, hrest]
      exact ⟨_, by simp; rfl⟩

section RemoveClient

variable {client : Client} {w : World}

/-- The resources of the bridges that a removal writes. -/
def removalWrites (client : Client) (r : Redis) : List (String × String) :=
  bridgeWrites (visited client r) (r .bridge_stream client.room_id)

theorem removeClientLocked_abort {n : ℕ} (hr : w.ReadsSucceed)
    (hn : n < (removalWrites client w.redis).length)
    (hfirst : ∀ i < n, w.oracle.writeFault.get i = false)
    (hfail : w.oracle.writeFault.get n = true) :
    ∃ w', exec (removeClientLocked client) w = (false, w') ∧
      w'.redis = w.redis.update .bridge_stream client.room_id
        (dropAll ((removalWrites client w.redis).take n)
          (w.redis .bridge_stream client.room_id)) := by
  obtain ⟨w', hloop, hredis⟩ := exec_collect_abort hr hn hfirst hfail
  rw [exec_removeClientLocked hr, hloop]
  exact ⟨w', rfl, hredis⟩

/-- Past the updates of the bridges no failing write makes a removal return early. -/
theorem removeClientLocked_complete (hexact : ExactBridges w.redis client.room_id)
    (hr : w.ReadsSucceed)
    (hfirst : ∀ i < (removalWrites client w.redis).length, w.oracle.writeFault.get i = false) :
    (exec (removeClientLocked client) w).1 = true := by
  obtain ⟨w', hloop, hr', hredis⟩ := exec_collect_complete hr hfirst
  have hnone : ∀ p ∈ published client w.redis, ∀ b ∈ w'.redis .bridge_stream client.room_id,
      b.src_stream_id ≠ p.id := by
    intro p hp b hb
    rw [hredis, Redis.update_self] at hb
    exact hexact.src_ne_published hp hb
  obtain ⟨messages, hpublishers⟩ := exec_collect_dropPublisher_idle hr' hnone
  rw [exec_removeClientLocked hr, hloop]
  dsimp only
  rw [hpublishers]
  simp [removeRecords]

/-- A removal whose first failing write is the `n`-th returns early exactly when that
write updates a bridge. -/
theorem removeClientLocked_early_iff {n : ℕ} (hexact : ExactBridges w.redis client.room_id)
    (hr : w.ReadsSucceed) (hfirst : ∀ i < n, w.oracle.writeFault.get i = false)
    (hfail : w.oracle.writeFault.get n = true) :
    (exec (removeClientLocked client) w).1 = false ↔
      n < (removalWrites client w.redis).length := by
  constructor
  · intro hearly
    by_contra hle
    have hdone := removeClientLocked_complete hexact hr fun i hi =>
      hfirst i (lt_of_lt_of_le hi (Nat.le_of_not_lt hle))
    rw [hearly] at hdone
    exact absurd hdone (by decide)
  · intro hn
    obtain ⟨w', hexec, -⟩ := removeClientLocked_abort hr hn hfirst hfail
    rw [hexec]

end RemoveClient

/-! ## The second run -/

theorem mem_of_mem_unpublishAll {ps : List Publisher} {t : Table BridgeStream} {b : BridgeStream}
    (h : b ∈ unpublishAll ps t) : b ∈ t := by
  induction ps generalizing t with
  | nil => exact h
  | cons p ps ih =>
      have hb : b ∈ unpublish p t := ih h
      unfold unpublish at hb
      split at hb
      · exact hb
      · exact (Table.mem_erase.mp hb).1

section Retry

variable {client : Client} {r : Redis} {pairs : List (String × String)}

/-- Every bridged subscriber of a resource leaves with the client. -/
def AllLeave (client : Client) (r : Redis) (pair : String × String) : Prop :=
  ∀ s ∈ r .subscriber client.room_id, s.is_bridge = true → pairOf s = pair →
    Leaves client (r .publisher client.room_id).rows s

instance (client : Client) (r : Redis) (pair : String × String) :
    Decidable (AllLeave client r pair) :=
  inferInstanceAs (Decidable (∀ s ∈ (r .subscriber client.room_id).rows, _))

/-- A resource whose users all leave is given back as often as it is used. -/
theorem allLeave_iff {pair : String × String} :
    AllLeave client r pair ↔
      usesIn (r .subscriber client.room_id).rows pair ≤ usesIn (visited client r) pair := by
  have hsub : usesIn (r .subscriber client.room_id).rows pair -
      usesIn (viewings client (r .subscriber client.room_id).rows
        (r .publisher client.room_id).rows) pair = _ := usesIn_sub_viewings
  rw [visited, ← Nat.sub_eq_zero_iff_le, hsub, usesIn, List.countP_eq_zero]
  constructor
  · intro h s hs huses
    have huses := of_decide_eq_true huses
    exact of_decide_eq_true (List.mem_filter.mp hs).2
      (h s (List.mem_filter.mp hs).1 huses.1 huses.2)
  · intro h s hs hbridge hpair
    by_contra hstays
    exact h s (List.mem_filter.mpr ⟨hs, decide_eq_true hstays⟩) (decide_eq_true ⟨hbridge, hpair⟩)

/-- Giving uses back twice does not show on the resources whose users all leave. -/
theorem dropAll_again_of_allLeave (hexact : ExactBridges r client.room_id)
    (h : ∀ pair ∈ pairs, AllLeave client r pair) :
    dropAll (bridgedPairs (visited client r)) (dropAll pairs (r .bridge_stream client.room_id)) =
      dropAll (bridgedPairs (visited client r)) (r .bridge_stream client.room_id) := by
  rw [← dropAll_append]
  ext b
  rw [hexact.proper.mem_dropAll, hexact.proper.mem_dropAll]
  refine exists_congr fun v => and_congr_right fun hv => ?_
  by_cases hpair : Counted.pair v ∈ pairs
  · have hle := allLeave_iff.mp (h _ hpair)
    rw [List.count_append, count_bridgedPairs, hexact.count v hv]
    constructor <;> rintro ⟨hlt, -⟩ <;> exact absurd hlt (by omega)
  · rw [List.count_append, List.count_eq_zero.mpr hpair, Nat.zero_add]

/-- On a resource with a user that stays it shows. -/
theorem removedBridges_again_ne (hexact : ExactBridges r client.room_id) {pair : String × String}
    (hpair : pair ∈ pairs) (h : ¬ AllLeave client r pair) :
    unpublishAll (published client r) (dropAll (bridgedPairs (visited client r))
        (dropAll pairs (r .bridge_stream client.room_id))) ≠ removedBridges client r := by
  rw [allLeave_iff, not_le] at h
  obtain ⟨v, hv, rfl⟩ := hexact.complete pair (by omega)
  have hcount := hexact.count v hv
  have hwritten : 0 < pairs.count (Counted.pair v) := List.count_pos_iff.mpr hpair
  intro heq
  have hleft : Counted.setCount v (Counted.count v -
      (bridgedPairs (visited client r)).count (Counted.pair v)) ∈ removedBridges client r := by
    rw [hexact.removedBridges_eq, hexact.proper.mem_dropAll]
    refine ⟨v, hv, ?_, rfl⟩
    rw [count_bridgedPairs, hcount]
    omega
  rw [← heq] at hleft
  have hagain := mem_of_mem_unpublishAll hleft
  rw [← dropAll_append, hexact.proper.mem_dropAll] at hagain
  obtain ⟨u, hu, hlt, hset⟩ := hagain
  obtain rfl : v = u := Table.eq_of_key_eq hv hu (by
    rw [← Counted.key_setCount v, hset, Counted.key_setCount])
  have hcounts := congrArg Counted.count hset
  rw [count_setCount_sub hexact.proper hv (Nat.cast_nonneg _) (by
      rw [count_bridgedPairs, hcount]
      omega),
    count_setCount_sub hexact.proper hv (Nat.cast_nonneg _) hlt, List.count_append] at hcounts
  omega

end Retry

/-- The hashes of a room agree. -/
def SameRoom (room_id : String) (r r' : Redis) : Prop :=
  r .client room_id = r' .client room_id ∧ r .publisher room_id = r' .publisher room_id ∧
    r .subscriber room_id = r' .subscriber room_id ∧
    r .bridge_stream room_id = r' .bridge_stream room_id

/-- A removal that returns early at the `n`-th write and is run again without failures
leaves the room as one uninterrupted removal does exactly when, for each bridge written
before that write, every bridged subscriber of it leaves with the client. -/
theorem retry_converges_iff {client : Client} {w : World} {o : Oracle} {n : ℕ}
    (hexact : ExactBridges w.redis client.room_id) (hr : w.ReadsSucceed)
    (hfirst : ∀ i < n, w.oracle.writeFault.get i = false)
    (hfail : w.oracle.writeFault.get n = true)
    (hearly : (exec (removeClientLocked client) w).1 = false)
    (hro : (w.withOracle o).ReadsSucceed) (hwo : (w.withOracle o).WritesSucceed) :
    SameRoom client.room_id
        (exec (removeClientLocked client)
          ((exec (removeClientLocked client) w).2.withOracle o)).2.redis
        (exec (removeClientLocked client) (w.withOracle o)).2.redis ↔
      ∀ pair ∈ (removalWrites client w.redis).take n, AllLeave client w.redis pair := by
  have hn := (removeClientLocked_early_iff hexact hr hfirst hfail).mp hearly
  obtain ⟨w', haborted, hredis⟩ := removeClientLocked_abort hr hn hfirst hfail
  rw [haborted, exec_removeClientLocked_ok (w := w'.withOracle o) hro hwo,
    exec_removeClientLocked_ok (w := w.withOracle o) hro hwo]
  have hvisited : visited client w'.redis = visited client w.redis := by
    simp [visited, hredis]
  have hpublished : published client w'.redis = published client w.redis := by
    simp [published, hredis]
  have hsame : SameRoom client.room_id (removed client w'.redis) (removed client w.redis) ↔
      removedBridges client w'.redis = removedBridges client w.redis := by
    simp only [SameRoom, removed_client, removed_publisher, removed_subscriber,
      removed_bridge_stream, hvisited, hpublished]
    simp [hredis]
  have hagain : removedBridges client w'.redis = unpublishAll (published client w.redis)
      (dropAll (bridgedPairs (visited client w.redis))
        (dropAll ((removalWrites client w.redis).take n)
          (w.redis .bridge_stream client.room_id))) := by
    rw [removedBridges, hvisited, hpublished, hredis, Redis.update_self]
  refine hsame.trans ?_
  rw [hagain]
  constructor
  · intro heq pair hpair
    by_contra hstays
    exact removedBridges_again_ne hexact hpair hstays heq
  · intro hall
    rw [dropAll_again_of_allLeave hexact hall, removedBridges]

instance (room_id : String) (r r' : Redis) : Decidable (SameRoom room_id r r') :=
  inferInstanceAs (Decidable (_ ∧ _))

/-! A room in which client `c` views two streams of client `a` from another agent; client
`b` views the first of them from the same erizo. -/

def sampleSubscriber (id client_id subscribe_to : String) : Subscriber where
  id := id
  client_id := client_id
  erizo_id := "e2"
  agent_id := "a2"
  subscribe_to := subscribe_to
  reply_to := "ec"
  is_bridge := true

def sampleBridge (id src_stream_id : String) (subscribe_count : Int32) : BridgeStream where
  id := id
  sender_erizo_id := "e1"
  sender_ip := "10.0.0.1"
  sender_port := 1
  recver_erizo_id := "e2"
  recver_ip := "10.0.0.2"
  recver_port := 2
  src_stream_id := src_stream_id
  subscribe_count := subscribe_count

def sampleRoom : Redis :=
  ((Redis.empty.update .subscriber "room"
    (((∅ : Table Subscriber).set (sampleSubscriber "1" "c" "p")).set
      (sampleSubscriber "2" "b" "p") |>.set (sampleSubscriber "3" "c" "q"))).update .bridge_stream
    "room" (((∅ : Table BridgeStream).set (sampleBridge "4" "p" 2)).set (sampleBridge "5" "q" 1)))

/-- Without client `b` the retry converges, also when the second update fails. -/
theorem retry_converges_alone :
    SameRoom "room"
      (exec (removeClientLocked { id := "c", room_id := "room" })
        (World.withOracle (exec (removeClientLocked { id := "c", room_id := "room" })
          (World.failing (removed { id := "b", room_id := "room" } sampleRoom) 1)).2
          .quiet)).2.redis
      (exec (removeClientLocked { id := "c", room_id := "room" })
        (World.withOracle (World.failing (removed { id := "b", room_id := "room" } sampleRoom) 1)
          .quiet)).2.redis := by
  refine (retry_converges_iff (n := 1) ?_ ?_ ?_ ?_ ?_ ?_ ?_).mpr ?_
  case refine_2 => rfl
  case refine_4 => rfl
  case refine_6 => rfl
  case refine_7 => rfl
  all_goals decide

/-- Client `c` leaves and its second bridge update fails: after the second run the bridge
of the first stream is gone, with client `b` still viewing it. -/
theorem retry_diverges_shared :
    ¬ ∀ (client : Client) (w : World) (o : Oracle) (n : ℕ), ExactBridges w.redis client.room_id →
      w.ReadsSucceed → (∀ i < n, w.oracle.writeFault.get i = false) →
      w.oracle.writeFault.get n = true → (exec (removeClientLocked client) w).1 = false →
      (w.withOracle o).ReadsSucceed → (w.withOracle o).WritesSucceed →
      SameRoom client.room_id
        (exec (removeClientLocked client)
          ((exec (removeClientLocked client) w).2.withOracle o)).2.redis
        (exec (removeClientLocked client) (w.withOracle o)).2.redis := by
  intro h
  have hsame := h { id := "c", room_id := "room" } (World.failing sampleRoom 1) .quiet 1
    (by decide) rfl (by decide) rfl (by decide) rfl rfl
  exact absurd hsame (by decide)

end ErizoController
