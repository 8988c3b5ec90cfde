import ErizoController.Core.References
import ErizoController.Core.Registration
import ErizoController.Core.Serializable

/-!
# Removals in any order

Connections close, and controllers remove the clients of a controller that has expired, side
by side. In a room whose counts are exact the order of the removals does not matter: what is
left only depends on which clients were removed, once or more often, and so it is the same in
every interleaving.
-/

open RefCount Locked Room

namespace ErizoController

/-! ## Lists of removals -/

section RemovedAll

variable {clients clients' : List Client} {r : Redis} {name : String}

theorem removedAll_cons (client : Client) : removedAll (client :: clients) r =
    removedAll clients (removed client r) := rfl

theorem removedAll_append_singleton (client : Client) : removedAll (clients ++ [client]) r =
    removed client (removedAll clients r) := List.foldl_append

theorem ExactBridges.of_eq {r r' : Redis} (h : ExactBridges r name)
    (hsubscriber : r' .subscriber name = r .subscriber name)
    (hbridge : r' .bridge_stream name = r .bridge_stream name) : ExactBridges r' name := by
  rw [ExactBridges, hsubscriber, hbridge]
  exact h

theorem ExactBridges.removedAll (h : ExactBridges r name) :
    ExactBridges (removedAll clients r) name := by
  induction clients generalizing r with
  | nil => exact h
  | cons client clients ih =>
      refine ih ?_
      by_cases hname : name = client.room_id
      · subst hname
        exact h.removed
      · exact h.of_eq (removed_other (fun h => hname h.2) fun h => by cases h.1)
          (removed_other (fun h => hname h.2) fun h => by cases h.1)

/-- A bridge that is left was there, up to its count. -/
theorem exists_bridge_of_removedAll {b' : BridgeStream}
    (h : b' ∈ removedAll clients r .bridge_stream name) :
    ∃ b ∈ r .bridge_stream name, ∃ n, b' = Counted.setCount b n := by
  induction clients generalizing r with
  | nil => exact ⟨b', h, Counted.count b', (Counted.setCount_count b').symm⟩
  | cons client clients ih =>
      rw [removedAll_cons] at h
      obtain ⟨b, hb, n, rfl⟩ := ih h
      by_cases hname : name = client.room_id
      · subst hname
        obtain ⟨b₀, hb₀, heq⟩ := footprintGone_removed.bridge_left b hb
        refine ⟨b₀, hb₀, n, ?_⟩
        rw [heq]
        rfl
      · rw [removed_other (fun h => hname h.2) fun h => by cases h.1] at hb
        exact ⟨b, hb, n, rfl⟩

theorem forall_client_congr (hsame : ∀ c, c ∈ clients ↔ c ∈ clients') {Q : Client → Prop} :
    (∀ c ∈ clients, Q c) ↔ ∀ c ∈ clients', Q c :=
  forall_congr' fun c => imp_congr (hsame c) Iff.rfl

/-- In a room with exact counts it only matters which clients are removed, not in what order or
how often. -/
theorem removedAll_congr (h : ExactBridges r name) (hsame : ∀ c, c ∈ clients ↔ c ∈ clients')
    {k : Kind} (hk : k.Guarded) : removedAll clients r k name = removedAll clients' r k name := by
  have hsubscriber : removedAll clients r .subscriber name =
      removedAll clients' r .subscriber name := by
    ext s
    rw [mem_removedAll_subscriber, mem_removedAll_subscriber, forall_client_congr hsame]
  cases k with
  | publisher =>
      ext p
      rw [mem_removedAll_publisher, mem_removedAll_publisher, forall_client_congr hsame]
  | subscriber => exact hsubscriber
  | bridge_stream =>
      have hexact : Exact (removedAll clients' r .bridge_stream name)
          (usesIn (removedAll clients r .subscriber name).rows) := by
        rw [hsubscriber]
        exact h.removedAll
      exact Exact.eq_of_versions h.unique h.removedAll hexact
        (fun _ => exists_bridge_of_removedAll) fun _ => exists_bridge_of_removedAll
  | client => exact hk.elim
  | ec => exact hk.elim
  | erizo_agent => exact hk.elim
  | heartbeat => exact hk.elim

end RemovedAll

/-! ## Removals side by side -/

/-- The section of a removal, as it is entered. -/
def removal (client : Client) : Σ β : Type, Handler β := ⟨Bool, removeClientLocked client⟩

section Serial

variable {T : Type} {room_id : String} {w₀ w : World}

/-- Sections that are removals leave what the removals leave, in the order in which they were
entered. -/
theorem SerialSections.removals {l : List (Event Command Command.Reply T)}
    (h : SerialSections room_id w₀ l w) {clients : List Client}
    (hl : l.filterMap Event.entered? = clients.map removal) :
    w.redis = removedAll clients w₀.redis := by
  induction h generalizing clients with
  | nil =>
      obtain rfl : clients = [] := List.map_eq_nil_iff.mp hl.symm
      rfl
  | @snoc l w β body h t hsection o ho ih =>
      rw [List.filterMap_append, filterMap_entered_whole] at hl
      obtain ⟨before, last, rfl, hbefore, hlast⟩ := List.map_eq_append_iff.mp hl.symm
      obtain ⟨client, rfl, hclient⟩ := List.map_eq_singleton_iff.mp hlast
      obtain ⟨rfl, hbody⟩ := Sigma.mk.inj_iff.mp hclient
      obtain rfl := eq_of_heq hbody
      rw [exec_removeClientLocked_ok ho.readsSucceed ho.writesSucceed, World.effect_redis,
        removedAll_append_singleton, ← ih hbefore.symm]
      rfl

end Serial

variable {T : Type} [DecidableEq T] {s s' : Pool Command Command.Reply String T World}

theorem exactBridges_of_free
    (hs : (threads T).Reaches (fun _ s => ∀ room_id, FewSubscribers s.shared room_id) s)
    {room_id : String} (hfew : FewSubscribers s.shared room_id) (hfree : s.owner room_id = none) :
    ExactBridges s.shared.redis room_id := by
  have hready : ∀ (_ : Action T Job) (s : Pool Command Command.Reply String T World) room_id v,
      (∀ room_id, FewSubscribers s.shared room_id) → Room.guard.Sees room_id v s.shared →
        CountReady room_id v := by
    intro _ w room_id v hbelow hv
    refine ⟨hv.fits, ?_⟩
    rw [FewSubscribers, hv.redis .subscriber trivial]
    exact hbelow room_id
  have hinit : ∀ w : World, (w.Fits ∧ ∀ k, k.Guarded → ∀ room_id, w.redis k room_id = ∅) →
      Room.guard.Inv w ∧ ∀ room_id, ∃ v, Room.guard.Sees room_id v w ∧ RoomCounted room_id v := by
    rintro w ⟨hfits, hempty⟩
    refine ⟨hfits, fun room_id => ⟨w, ⟨fun _ _ => rfl, List.Subset.refl _, hfits⟩, ?_⟩⟩
    have hreferenced : RoomReferenced room_id w :=
      .of_empty (hempty .subscriber trivial room_id) (hempty .bridge_stream trivial room_id)
    refine ⟨hreferenced.subscriber_ids, hreferenced.bridge_ids, fun _ => ?_⟩
    rw [ExactBridges, hempty .subscriber trivial, hempty .bridge_stream trivial]
    exact exact_empty
  obtain ⟨v, hv, hkeeps⟩ := Guard.keeps_of_free
    (fun _ job _ _ => job.all_script.mono fun _ _ h => h.counted) hready hinit hs hfree
  have hsubscriber := hv.redis .subscriber trivial
  rw [FewSubscribers, ← hsubscriber] at hfew
  exact (hkeeps.exact hfew).of_eq hsubscriber.symm (hv.redis .bridge_stream trivial).symm

/-- In whatever order and interleaving removals are run in a room, by whatever threads and
controllers, and however often one client is removed: what they leave is what removing each of
the clients once leaves. -/
theorem removals_confluent {as : List (Action T Job)} {clients clients' : List Client}
    (hs : (threads T).Reaches (fun _ s => ∀ room_id, FewSubscribers s.shared room_id) s)
    {room_id : String} (hfew : FewSubscribers s.shared room_id) (hstart : s.owner room_id = none)
    (hrun : (threads T).run as s = some s') (hfree : s'.owner room_id = none)
    (hentered : ((threads T).outputs (events room_id) as s).filterMap Event.entered? =
      clients.map removal)
    (hsame : ∀ c, c ∈ clients ↔ c ∈ clients') (k : Kind) (hk : k.Guarded) :
    s'.shared.redis k room_id = removedAll clients' s.shared.redis k room_id := by
  obtain ⟨w, hserial, hredis⟩ := exists_serialSections hs.reachable room_id hstart hrun hfree
  rw [hredis k hk, hserial.removals hentered]
  exact removedAll_congr (exactBridges_of_free hs hfew hstart) hsame hk

/-- The connections of `a` and `b` close at the same time, and that of `a` gets the lock. -/
def closings : List (Action Bool Job) :=
  [.start true (.onClose (sampleClient "a" "a1" "e1")),
    .start false (.onClose (sampleClient "b" "a2" "e2")), .acquire true] ++
    List.replicate 18 (.command true) ++ [.release true, .acquire false] ++
    List.replicate 4 (.command false) ++ [.release false]

theorem removals_confluent_closings : ∃ s s',
    (threads Bool).run twoViewers startPool = some s ∧ (threads Bool).run closings s = some s' ∧
    (s.shared.redis .bridge_stream "room").rows.map BridgeStream.subscribe_count = [2] ∧
    ∀ k, k.Guarded → s'.shared.redis k "room" = removedAll
      [sampleClient "b" "a2" "e2", sampleClient "a" "a1" "e1", sampleClient "b" "a2" "e2"]
      s.shared.redis k "room" := by
  have hsame : ∀ a b c : Client, c ∈ [a, b] ↔ c ∈ [b, a, b] := by
    intro a b c
    simp only [List.mem_cons, List.not_mem_nil, or_false]
    tauto
  have hviewers : ((threads Bool).run twoViewers startPool).map (fun s => (s.owner "room",
      (s.shared.redis .bridge_stream "room").rows.map BridgeStream.subscribe_count)) =
        some (none, [2]) := by
    decide
  obtain ⟨s, hs, hend⟩ := Option.map_eq_some_iff.mp hviewers
  obtain ⟨hfree, hcounts⟩ := Prod.ext_iff.mp hend
  have hclose : ((threads Bool).run (twoViewers ++ closings) startPool).any (fun s' =>
      s'.owner "room" = none) = true := by
    decide
  rw [Machine.run_append, hs, Option.bind_some] at hclose
  obtain ⟨s', hs', hfree'⟩ := (Option.any_eq_true _ _).mp hclose
  have hentered : ((threads Bool).run twoViewers startPool).map (fun s =>
      ((threads Bool).outputs (events "room") closings s).filterMap Event.entered?) =
        some ([sampleClient "a" "a1" "e1", sampleClient "b" "a2" "e2"].map removal) := rfl
  rw [hs, Option.map_some] at hentered
  obtain ⟨hreach, hfew⟩ :=
    reaches_of_run (.init startPool_init) (fun _ => Nat.le_refl 0) (by decide) hs
  exact ⟨s, s', hs, hs', hcounts, removals_confluent hreach (hfew "room") hfree hs'
    (of_decide_eq_true hfree') (Option.some.inj hentered) (hsame _ _)⟩

end ErizoController
