import ErizoController.Core.Exactness
import ErizoController.Core.Sections
import ErizoController.Core.Subscribe

/-!
# Bridge counts in every run

Every section of a room lock keeps the counts of the bridges exact: a subscription takes
one use, a removal gives back the uses of the subscribers it removes, and the other
sections touch neither subscribers nor bridges. So the counts are exact whenever the
lock is free, in every interleaving of the handlers.
-/

open RefCount Json Locked

namespace ErizoController

/-! ## The sections keep the counts -/

/-- Fewer than `2 ^ 31` subscribers are stored in the room. -/
def FewSubscribers (w : World) (room_id : String) : Prop :=
  (w.redis .subscriber room_id).rows.length < 2 ^ 31

/-- What the sections of a room keep: the ids of its subscribers and bridges are used, and
its counts are exact. -/
structure RoomCounted (room_id : String) (w : World) : Prop where
  subscriber_ids : ∀ s ∈ w.redis .subscriber room_id, s.id ∈ w.used
  bridge_ids : ∀ b ∈ w.redis .bridge_stream room_id, b.id ∈ w.used
  exact : FewSubscribers w room_id → ExactBridges w.redis room_id

theorem RoomCounted.of_eq {room_id : String} {w w' : World} (h : RoomCounted room_id w)
    (hsubscriber : w'.redis .subscriber room_id = w.redis .subscriber room_id)
    (hbridge : w'.redis .bridge_stream room_id = w.redis .bridge_stream room_id)
    (hused : w.used ⊆ w'.used) : RoomCounted room_id w' where
  subscriber_ids s hs := hused (h.subscriber_ids s (hsubscriber ▸ hs))
  bridge_ids b hb := hused (h.bridge_ids b (hbridge ▸ hb))
  exact hfew := by
    rw [ExactBridges, hsubscriber, hbridge]
    rw [FewSubscribers, hsubscriber] at hfew
    exact h.exact hfew

section Removal

variable {client : Client} {w : World}

/-- A removal keeps the counts. -/
theorem RoomCounted.removeClientLocked (hw : w.Fits) (hfew : FewSubscribers w client.room_id)
    (h : RoomCounted client.room_id w) :
    RoomCounted client.room_id (exec (removeClientLocked client) w).2 := by
  have hexact := h.exact hfew
  rw [exec_removeClientLocked_ok hw.readsSucceed hw.writesSucceed]
  refine ⟨fun s hs => ?_, fun b hb => ?_, fun _ => hexact.removed⟩
  · simp only [World.effect_redis, removed_subscriber, Table.mem_erase] at hs
    exact h.subscriber_ids s hs.1
  · simp only [World.effect_redis, removed_bridge_stream, hexact.removedBridges_eq] at hb
    obtain ⟨b₀, hb₀, -, rfl⟩ := hexact.proper.mem_dropAll.mp hb
    exact h.bridge_ids b₀ hb₀

end Removal

section Subscription

variable {client : Client} {w : World} {p : Publisher} {s : Subscriber}

/-- The uses after one more subscriber. -/
theorem usesIn_set {t : Table Subscriber} (hnew : ∀ s₀ ∈ t, s₀.id ≠ s.id)
    (pair : String × String) :
    usesIn (t.set s).rows pair =
      usesIn t.rows pair + if s.is_bridge = true ∧ pairOf s = pair then 1 else 0 := by
  rw [usesIn, Table.countP_set_of_new hnew, usesIn]
  simp

theorem subscribed_subscriber :
    (subscribed w client p s) .subscriber client.room_id =
      (w.redis .subscriber client.room_id).set s := by
  rw [subscribed]
  split <;> simp [stored]

/-- A subscription with new ids takes one use of its bridge. -/
theorem exactBridges_subscribed (h : ExactBridges w.redis client.room_id)
    (hnew : ∀ s₀ ∈ w.redis .subscriber client.room_id, s₀.id ≠ s.id)
    (hbridge : ∀ b ∈ w.redis .bridge_stream client.room_id, b.id ≠ w.oracle.streamId.tail.head)
    (herizo : s.erizo_id = client.erizo_id)
    (hfew : (w.redis .subscriber client.room_id).rows.length + 1 < 2 ^ 31) :
    ExactBridges (subscribed w client p s) client.room_id := by
  rw [ExactBridges, subscribed_subscriber]
  by_cases hs : s.is_bridge = true
  · have hbridges : (subscribed w client p s) .bridge_stream client.room_id =
        retain (pairOf s) (newBridgeStream client p s.subscribe_to w.oracle.streamId.tail.head)
          (w.redis .bridge_stream client.room_id) := by
      rw [subscribed, if_pos hs, Redis.update_self]
    have huses : (usesIn (w.redis .subscriber client.room_id).rows (pairOf s) : ℤ) <
        Counted.limit BridgeStream := by
      have hle : usesIn (w.redis .subscriber client.room_id).rows (pairOf s) ≤
          (w.redis .subscriber client.room_id).rows.length := List.countP_le_length
      change _ < (2 ^ 31 - 1 : ℤ)
      omega
    rw [hbridges]
    have hpairOf : Counted.pair
        (newBridgeStream client p s.subscribe_to w.oracle.streamId.tail.head) = pairOf s :=
      congrArg (Prod.mk s.subscribe_to) herizo.symm
    have hretain := Exact.retain h hpairOf rfl hbridge huses
    refine Eq.mp (congrArg _ (funext fun pair => ?_)) hretain
    rw [usesIn_set hnew]
    by_cases hpair : pair = pairOf s
    · simp [hs, hpair]
    · simp [hpair, Ne.symm hpair]
  · have hbridges : (subscribed w client p s) .bridge_stream client.room_id =
        w.redis .bridge_stream client.room_id := by
      rw [subscribed, if_neg hs]
      simp [stored]
    rw [hbridges]
    refine Eq.mp (congrArg _ (funext fun pair => ?_)) h
    rw [usesIn_set hnew]
    simp [hs]

/-- The bridges after a subscription have used ids. -/
theorem subscribed_bridge_ids (h : ∀ b ∈ w.redis .bridge_stream client.room_id, b.id ∈ w.used)
    {b : BridgeStream} (hb : b ∈ subscribed w client p s .bridge_stream client.room_id) :
    b.id ∈ subscribedIds w client s := by
  have hold : ∀ b₀ ∈ w.redis .bridge_stream client.room_id, b₀.id ∈ subscribedIds w client s :=
    fun b₀ hb₀ => List.mem_append_right _ (List.mem_cons_of_mem _ (h b₀ hb₀))
  rw [subscribed] at hb
  split at hb
  · rename_i hs
    rw [Redis.update_self, retain] at hb
    split at hb
    · rename_i hnone
      rcases Table.mem_set.mp hb with rfl | ⟨hb, -⟩
      · have hseen : seenBridge? (stored w client.room_id s) client.room_id s = none := by
          rw [seenBridge?]
          split
          · rfl
          · simpa [stored] using hnone
        rw [subscribedIds, if_pos hs, usedForBridge, hseen]
        exact List.mem_cons_self
      · exact hold b hb
    · rename_i b₁ hsome
      rcases Table.mem_set.mp hb with rfl | ⟨hb, -⟩
      · exact hold b₁ (find?_some hsome).1
      · exact hold b hb
  · exact hold b (by simpa [stored] using hb)

/-- A subscription that was stored: its publisher was there, and its ids are new. -/
structure Subscribes (client : Client) (stream_id : String) (w w' : World) (p : Publisher)
    (s : Subscriber) : Prop where
  publisher : p ∈ w.redis .publisher client.room_id
  publisher_id : p.id = ACLRedis.c_str stream_id
  subscribe_to : s.subscribe_to = stream_id
  erizo_id : s.erizo_id = client.erizo_id
  new : ∀ s₀ ∈ w.redis .subscriber client.room_id, s₀.id ≠ s.id
  bridge_new : ∀ b ∈ w.redis .bridge_stream client.room_id, b.id ≠ w.oracle.streamId.tail.head
  redis : w'.redis = subscribed w client p s
  subscriber_ids : ∀ s₀ ∈ w'.redis .subscriber client.room_id, s₀.id ∈ w'.used
  bridge_ids : ∀ b ∈ w'.redis .bridge_stream client.room_id, b.id ∈ w'.used

variable {self : ErizoController} {stream_id : String}

/-- A try without failures stores nothing, or a subscription with new ids. -/
theorem subscribeLocked_cases (hw : w.Fits)
    (hsubscribers : ∀ s ∈ w.redis .subscriber client.room_id, s.id ∈ w.used)
    (hbridges : ∀ b ∈ w.redis .bridge_stream client.room_id, b.id ∈ w.used) :
    ∃ reply w', exec (self.subscribeLocked client stream_id) w = (reply, w') ∧
      ((w'.redis = w.redis ∧ w'.used = w.used) ∨ ∃ p s, Subscribes client stream_id w w' p s) := by
  have hread : readPublisher? w client.room_id stream_id =
      (w.redis .publisher client.room_id).get? (ACLRedis.c_str stream_id) :=
    readPublisher?_ok hw.readsSucceed
  cases hget : (w.redis .publisher client.room_id).get? (ACLRedis.c_str stream_id) with
  | none => exact ⟨_, _, exec_subscribeLocked_missing (hread.trans hget), .inl ⟨rfl, rfl⟩⟩
  | some p =>
      by_cases hp : Publisher.Known p
      · obtain ⟨w', hexec, hredis, hused, -⟩ :
            ∃ w', exec (self.subscribeLocked client stream_id) w = (_, w') ∧ _ ∧ _ ∧ _ :=
          exec_subscribeLocked_ok hw.readsSucceed hw.writesSucceed hget hp
        refine ⟨_, w', hexec, .inr ⟨p, _, (Table.get?_eq_some_iff.mp hget).1,
          (Table.get?_eq_some_iff.mp hget).2, rfl, rfl, ?_, ?_, hredis, ?_, ?_⟩⟩
        · intro s₀ hs₀ heq
          have hmem := hsubscribers s₀ hs₀
          rw [heq] at hmem
          exact hw.fresh 0 hmem
        · intro b hb heq
          have hmem := hbridges b hb
          rw [heq] at hmem
          exact hw.fresh 1 hmem
        · intro s₀ hs₀
          rw [hredis, subscribed_subscriber, Table.mem_set] at hs₀
          rw [hused]
          refine List.mem_append_right _ ?_
          rcases hs₀ with rfl | ⟨hs₀, -⟩
          · exact List.mem_cons_self
          · exact List.mem_cons_of_mem _ (hsubscribers s₀ hs₀)
        · intro b hb
          rw [hredis] at hb
          rw [hused]
          exact subscribed_bridge_ids hbridges hb
      · exact ⟨_, _, exec_subscribeLocked_unknown (hread.trans hget) hp, .inl ⟨rfl, rfl⟩⟩

/-- A subscription keeps the counts. -/
theorem RoomCounted.subscribeLocked (hw : w.Fits) (hfew : FewSubscribers w client.room_id)
    (h : RoomCounted client.room_id w) :
    RoomCounted client.room_id (exec (self.subscribeLocked client stream_id) w).2 := by
  obtain ⟨reply, w', hexec, ⟨hredis, hused⟩ | ⟨p, s, hs⟩⟩ :=
    @subscribeLocked_cases client w self stream_id hw h.subscriber_ids h.bridge_ids
  · rw [hexec]
    exact h.of_eq (by rw [hredis]) (by rw [hredis]) (hused ▸ List.Subset.refl _)
  · rw [hexec]
    refine ⟨hs.subscriber_ids, hs.bridge_ids, fun hfew' => ?_⟩
    rw [hs.redis]
    refine exactBridges_subscribed (h.exact hfew) hs.new hs.bridge_new hs.erizo_id ?_
    rwa [FewSubscribers, hs.redis, subscribed_subscriber, Table.length_set_of_new hs.new] at hfew'

end Subscription

/-! ## Every run -/

/-- A room that is ready for a section: no command will fail, ids will be new, and the
counts cannot overflow. -/
def CountReady (room_id : String) (v : World) : Prop := v.Fits ∧ FewSubscribers v room_id

theorem RoomCounted.withOracle {room_id : String} {v : World} (h : RoomCounted room_id v)
    (o : Oracle) : RoomCounted room_id (v.withOracle o) :=
  h.of_eq rfl rfl (List.Subset.refl _)

/-- A section of commands that write neither subscribers nor bridges keeps the counts. -/
theorem wlp_roomCounted {α : Type} {body : Handler α} {room_id : String} {v : World}
    (hv : v.Fits) (h : RoomCounted room_id v)
    (hbody : ∀ w : World, w.Fits →
      (exec body w).2.redis .subscriber room_id = w.redis .subscriber room_id ∧
      (exec body w).2.redis .bridge_stream room_id = w.redis .bridge_stream room_id ∧
      w.used ⊆ (exec body w).2.used) :
    body.Wlp Room.sem (fun _ => RoomCounted room_id) v := by
  refine Room.wlp_of_exec hv fun o ho => ?_
  obtain ⟨hsubscriber, hbridge, hused⟩ := hbody _ ho
  exact (h.withOracle o).of_eq hsubscriber hbridge hused

/-- Every section keeps the counts of its room. -/
theorem IsSection.counted {β : Type} {room_id : String} {body : Handler β}
    (h : IsSection room_id body) : Room.guard.Section CountReady RoomCounted room_id body := by
  refine ⟨h.each, fun v hready hkeeps => ?_⟩
  cases h with
  | removeClient client =>
      exact Room.wlp_of_exec hready.1 fun o ho =>
        (hkeeps.withOracle o).removeClientLocked ho hready.2
  | subscribe self client stream_id =>
      exact Room.wlp_of_exec hready.1 fun o ho =>
        (hkeeps.withOracle o).subscribeLocked ho hready.2
  | publish self client publisher =>
      refine wlp_roomCounted hready.1 hkeeps fun w hw => ?_
      rw [exec_publishLocked, hw.writesSucceed.head, if_neg Bool.false_ne_true]
      exact ⟨by simp, by simp, List.Subset.refl _⟩
  | publisher_answer room_id stream_id video_ssrc audio_ssrc =>
      refine wlp_roomCounted hready.1 hkeeps fun w hw => ?_
      rw [exec_publisherAnswerLocked, hw.writesSucceed.head]
      split
      · exact ⟨rfl, rfl, List.Subset.refl _⟩
      · rw [if_neg Bool.false_ne_true]
        exact ⟨by simp, by simp, List.Subset.refl _⟩
  | ready room_id client_id stream_id =>
      exact Room.wlp_of_exec hready.1 fun o ho => hkeeps.of_eq rfl rfl (List.Subset.refl _)

/-- The threads of any number of controllers on one store. They start with no room in
use, and with answers of the outside that fit. -/
def threads (T : Type) [DecidableEq T] :
    Machine (Action T Job) (Pool Command Command.Reply String T World) :=
  Locked.machine perform Job.script fun w =>
    w.Fits ∧ ∀ k, k.Guarded → ∀ room_id, w.redis k room_id = ∅

/-- The counts of a room as a user of the store sees them. -/
structure CountsExact (r : Redis) (room_id : String) : Prop where
  count : ∀ b ∈ r .bridge_stream room_id, 1 ≤ b.subscribe_count.toInt ∧
    b.subscribe_count.toInt = (r .subscriber room_id).rows.countP fun s =>
      s.is_bridge ∧ s.subscribe_to = b.src_stream_id ∧ s.erizo_id = b.recver_erizo_id
  unique : ∀ b ∈ r .bridge_stream room_id, ∀ b' ∈ r .bridge_stream room_id,
    b.src_stream_id = b'.src_stream_id → b.recver_erizo_id = b'.recver_erizo_id → b = b'
  complete : ∀ s ∈ r .subscriber room_id, s.is_bridge = true →
    ∃ b ∈ r .bridge_stream room_id,
      b.src_stream_id = s.subscribe_to ∧ b.recver_erizo_id = s.erizo_id

theorem ExactBridges.countsExact {r : Redis} {room_id : String} (h : ExactBridges r room_id) :
    CountsExact r room_id := by
  obtain ⟨hcount, hunique, hcomplete⟩ := exactBridges_iff.mp h
  refine ⟨fun b hb => ?_, fun b hb b' hb' hsrc hrecver => ?_, fun s hs hbridge => ?_⟩
  · obtain ⟨heq, hpos⟩ := hcount b hb
    have huses : usesIn (r .subscriber room_id).rows (Counted.pair b) =
        (r .subscriber room_id).rows.countP fun s =>
          s.is_bridge ∧ s.subscribe_to = b.src_stream_id ∧ s.erizo_id = b.recver_erizo_id := by
      simp only [usesIn, pairOf, Counted.pair, Prod.mk.injEq]
    rw [← huses]
    exact ⟨by rw [show b.subscribe_count.toInt = _ from heq]; exact_mod_cast hpos, heq⟩
  · exact hunique b hb b' hb' (Prod.ext hsrc hrecver)
  · obtain ⟨b, hb, hpair⟩ := hcomplete s hs hbridge
    exact ⟨b, hb, congrArg Prod.fst hpair, congrArg Prod.snd hpair⟩

/-- As long as every room holds fewer than `2 ^ 31` subscribers, the counts of a room are
exact whenever no handler holds its lock. -/
theorem counts_exact {T : Type} [DecidableEq T] {s : Pool Command Command.Reply String T World}
    (hs : (threads T).Reaches (fun _ s => ∀ room_id, FewSubscribers s.shared room_id) s)
    {room_id : String} (hfew : FewSubscribers s.shared room_id) (hfree : s.owner room_id = none) :
    CountsExact s.shared.redis room_id := by
  have hready : ∀ (_ : Action T Job) (s : Pool Command Command.Reply String T World) room_id v,
      (∀ room_id, FewSubscribers s.shared room_id) → Room.guard.Sees room_id v s.shared →
        CountReady room_id v := by
    intro _ w room_id v hbelow hv
    refine ⟨hv.fits, ?_⟩
    rw [FewSubscribers, hv.redis .subscriber trivial]
    exact hbelow room_id
  have hinit : ∀ w : World, (w.Fits ∧ ∀ k, k.Guarded → ∀ room_id, w.redis k room_id = ∅) →
      Room.guard.Inv w ∧ ∀ room_id, ∃ v, Room.guard.Sees room_id v w ∧ RoomCounted room_id v := by
    rintro w ⟨hfits, hempty⟩
    refine ⟨hfits, fun room_id => ⟨w, ⟨fun _ _ => rfl, List.Subset.refl _, hfits⟩, ?_⟩⟩
    have hsubscriber := hempty .subscriber trivial room_id
    have hbridge := hempty .bridge_stream trivial room_id
    refine ⟨fun s hs => ?_, fun b hb => ?_, fun _ => ?_⟩
    · rw [hsubscriber] at hs
      exact absurd hs (Table.not_mem_empty s)
    · rw [hbridge] at hb
      exact absurd hb (Table.not_mem_empty b)
    · rw [ExactBridges, hsubscriber, hbridge]
      exact exact_empty
  obtain ⟨v, hv, hkeeps⟩ := Guard.keeps_of_free
    (fun _ job _ _ => job.all_script.mono fun _ _ h => h.counted) hready hinit hs hfree
  have hsubscriber := hv.redis .subscriber trivial
  have hbridge := hv.redis .bridge_stream trivial
  rw [FewSubscribers, ← hsubscriber] at hfew
  have hexact := hkeeps.exact hfew
  rw [ExactBridges, hsubscriber, hbridge] at hexact
  exact ExactBridges.countsExact hexact

/-- A command adds at most one subscriber to a room. -/
theorem length_perform_le (c : Command) (w : World) (room_id : String) :
    ((perform c w).2.redis .subscriber room_id).rows.length ≤
      (w.redis .subscriber room_id).rows.length + 1 := by
  cases c with
  | hset k name row =>
      rw [perform]
      split
      · exact Nat.le_succ _
      · by_cases h : k = .subscriber ∧ name = room_id
        · obtain ⟨rfl, rfl⟩ := h
          simp only [World.store, Redis.update_self]
          exact Table.length_set_le _ _
        · simp only [World.store]
          rw [Room.update_other fun hk hname => h ⟨hk, hname⟩]
          exact Nat.le_succ _
  | hdel k name fields =>
      rw [perform]
      split
      · exact Nat.le_succ _
      · by_cases h : k = .subscriber ∧ name = room_id
        · obtain ⟨rfl, rfl⟩ := h
          simp only [World.store, Redis.update_self]
          exact (List.length_filter_le _ _).trans (Nat.le_succ _)
        · simp only [World.store]
          rw [Room.update_other fun hk hname => h ⟨hk, hname⟩]
          exact Nat.le_succ _
  | hget k name field =>
      rw [perform]
      split <;> exact Nat.le_succ _
  | hvals k name =>
      rw [perform]
      split <;> exact Nat.le_succ _
  | _ => exact Nat.le_succ _

/-- A run of fewer than `2 ^ 31` steps stores fewer than `2 ^ 31` subscribers in a room. -/
theorem reaches_of_run {T : Type} [DecidableEq T] {as : List (Action T Job)}
    {s s' : Pool Command Command.Reply String T World} {n : ℕ}
    (hs : (threads T).Reaches (fun _ s => ∀ room_id, FewSubscribers s.shared room_id) s)
    (hn : ∀ room_id, (s.shared.redis .subscriber room_id).rows.length ≤ n)
    (hlength : n + as.length < 2 ^ 31) (hrun : (threads T).run as s = some s') :
    (threads T).Reaches (fun _ s => ∀ room_id, FewSubscribers s.shared room_id) s' ∧
      ∀ room_id, FewSubscribers s'.shared room_id := by
  have hfew : ∀ room_id, FewSubscribers s.shared room_id :=
    fun room_id => (hn room_id).trans_lt (Nat.lt_of_le_of_lt (Nat.le_add_right _ _) hlength)
  induction as generalizing s n with
  | nil =>
      obtain rfl : s = s' := by simpa using hrun
      exact ⟨hs, hfew⟩
  | cons a as ih =>
      rw [Machine.run_cons] at hrun
      obtain ⟨t, ht, hrest⟩ := Option.bind_eq_some_iff.mp hrun
      have hnext : ∀ room_id, (t.shared.redis .subscriber room_id).rows.length ≤ n + 1 := by
        intro room_id
        rcases poolStep_shared ht with heq | ⟨c, heq⟩
        · rw [heq]
          exact (hn room_id).trans (Nat.le_succ n)
        · rw [heq]
          exact (length_perform_le c _ room_id).trans (Nat.succ_le_succ (hn room_id))
      have hlength' : n + 1 + as.length < 2 ^ 31 := by
        rw [List.length_cons] at hlength
        omega
      exact ih (.step hs hfew ht) hnext hlength' hrest fun room_id =>
        (hnext room_id).trans_lt (Nat.lt_of_le_of_lt (Nat.le_add_right _ _) hlength')

/-! Client `a` publishes, the answer of its erizo arrives, and the clients `b` and `c` of
another agent subscribe; `b` asks while the answer is being stored. -/

/-- The ids are `x`, `xx`, `xxx` and so on. -/
def freshOracle : Oracle :=
  { Oracle.quiet with streamId := fun n => String.ofList (List.replicate (n + 1) 'x') }

theorem freshOracle_fits : (World.start .empty freshOracle).Fits where
  reads := rfl
  writes := rfl
  fresh _ := List.not_mem_nil
  injective m n h := by
    have hlength := congrArg List.length (String.ofList_injective h)
    simpa using hlength

def startPool : Pool Command Command.Reply String Bool World where
  shared := .start .empty freshOracle
  thread _ := .outside (.ret ())
  owner _ := none

theorem startPool_init : (threads Bool).init startPool :=
  ⟨⟨freshOracle_fits, fun _ _ _ => rfl⟩, fun _ => rfl, fun _ => rfl⟩

def sampleClient (id agent_id erizo_id : String) : Client :=
  { id, agent_id, erizo_id, room_id := "room" }

def sampleEvent (client : Client) (name : String) (data : List (String × Value)) : Job :=
  .onMessage (.ofId "ec") client (some (.arrayValue [.stringValue name, .objectValue data]))

def sampleAnswer : Job :=
  .onSignalingMessage (.ofId "ec") (.objectValue [("data", .objectValue
    [("type", .stringValue "publisher_answer"), ("clientId", .stringValue "a"),
      ("streamId", .stringValue "x"), ("sdp", .stringValue ""), ("roomId", .stringValue "room"),
      ("videoSSRC", .uintValue 7), ("audioSSRC", .uintValue 8)])])

def twoViewers : List (Action Bool Job) :=
  [.start false (sampleEvent (sampleClient "a" "a1" "e1") "publish" [("label", .stringValue "l")]),
    .command false, .command false, .command false, .acquire false, .command false,
    .command false, .release false, .start true sampleAnswer, .acquire true, .command true,
    .start false (sampleEvent (sampleClient "b" "a2" "e2") "subscribe"
      [("streamId", .stringValue "x")]),
    .command true, .release true, .acquire false, .command false, .command true,
    .start true (sampleEvent (sampleClient "c" "a2" "e2") "subscribe"
      [("streamId", .stringValue "x")])] ++
    List.replicate 9 (.command false) ++ [.release false, .acquire true] ++
    List.replicate 6 (.command true) ++ [.release true]

theorem counts_exact_two_viewers :
    ∃ s, (threads Bool).run twoViewers startPool = some s ∧
      (s.shared.redis .bridge_stream "room").rows.map BridgeStream.subscribe_count = [2] ∧
      CountsExact s.shared.redis "room" := by
  have hrun : ((threads Bool).run twoViewers startPool).map (fun s => (s.owner "room",
      (s.shared.redis .bridge_stream "room").rows.map BridgeStream.subscribe_count)) =
        some (none, [2]) := by
    decide
  obtain ⟨s, hs, hend⟩ := Option.map_eq_some_iff.mp hrun
  obtain ⟨hfree, hcounts⟩ := Prod.ext_iff.mp hend
  obtain ⟨hreach, hfew⟩ :=
    reaches_of_run (.init startPool_init) (fun _ => Nat.le_refl 0) (by decide) hs
  exact ⟨s, hs, hcounts, counts_exact hreach (hfew "room") hfree⟩

end ErizoController
