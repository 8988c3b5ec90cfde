import ErizoController.Core.Removal

/-!
# The bridge counts of a room

A bridge of a room counts the bridged subscribers of one stream on one erizo. Removing a
client keeps the counts exact: an entry of the client's own streams may be visited twice,
but then every user of that bridge goes, and the bridge with it.
-/

open RefCount

namespace ErizoController

/-- The bridged subscribers of a list that use a resource. -/
def usesIn (ss : List Subscriber) (pair : String × String) : ℕ :=
  ss.countP fun s => s.is_bridge ∧ pairOf s = pair

/-- The counts of the bridges of a room are exact. -/
def ExactBridges (r : Redis) (room_id : String) : Prop :=
  Exact (r .bridge_stream room_id) (usesIn (r .subscriber room_id).rows)

/-- Exactness only concerns the stored bridges and subscribers, so it can be checked. -/
theorem exactBridges_iff {r : Redis} {room_id : String} :
    ExactBridges r room_id ↔
      (∀ b ∈ (r .bridge_stream room_id).rows,
        Counted.count b = usesIn (r .subscriber room_id).rows (Counted.pair b) ∧
          0 < usesIn (r .subscriber room_id).rows (Counted.pair b)) ∧
      (∀ b ∈ (r .bridge_stream room_id).rows, ∀ b' ∈ (r .bridge_stream room_id).rows,
        Counted.pair b = Counted.pair b' → b = b') ∧
      ∀ s ∈ (r .subscriber room_id).rows, s.is_bridge = true →
        ∃ b ∈ (r .bridge_stream room_id).rows, Counted.pair b = pairOf s := by
  constructor
  · intro h
    refine ⟨fun b hb => ⟨h.count b hb, h.pos b hb⟩, h.unique, fun s hs hbridge => ?_⟩
    exact h.complete _ (List.countP_pos_iff.mpr ⟨s, hs, decide_eq_true ⟨hbridge, rfl⟩⟩)
  · rintro ⟨hcount, hunique, hcomplete⟩
    refine ⟨fun b hb => (hcount b hb).1, fun b hb => (hcount b hb).2, hunique, fun p hp => ?_⟩
    obtain ⟨s, hs, huses⟩ := List.countP_pos_iff.mp hp
    obtain ⟨hbridge, hpair⟩ := of_decide_eq_true huses
    exact hpair ▸ hcomplete s hs hbridge

instance (r : Redis) (room_id : String) : Decidable (ExactBridges r room_id) :=
  decidable_of_iff _ exactBridges_iff.symm

theorem count_bridgedPairs (ss : List Subscriber) (pair : String × String) :
    (bridgedPairs ss).count pair = usesIn ss pair := by
  rw [bridgedPairs, List.count, List.countP_map, List.countP_filter, usesIn]
  refine List.countP_congr fun s _ => ?_
  simp [and_comm]

/-- A subscriber that a removal of the client erases. -/
def Leaves (client : Client) (publishers : List Publisher) (s : Subscriber) : Prop :=
  s.client_id = client.id ∨ ∃ p ∈ ownPublishers client publishers, s.subscribe_to = p.id

instance (client : Client) (publishers : List Publisher) (s : Subscriber) :
    Decidable (Leaves client publishers s) :=
  inferInstanceAs (Decidable (_ ∨ _))

section Viewings

variable {client : Client} {subscribers : List Subscriber} {publishers : List Publisher}
variable {pair : String × String}

theorem usesIn_viewings_cons (s : Subscriber) :
    usesIn (viewings client (s :: subscribers) publishers) pair =
      usesIn (viewingsOf client publishers s) pair +
        usesIn (viewings client subscribers publishers) pair := by
  rw [viewings, List.flatMap_cons, usesIn, List.countP_append]
  rfl

/-- Every use of a stream of the client is given back at least once. -/
theorem usesIn_le_viewings (hown : ∃ p ∈ ownPublishers client publishers, pair.1 = p.id) :
    usesIn subscribers pair ≤ usesIn (viewings client subscribers publishers) pair := by
  induction subscribers with
  | nil => simp [usesIn]
  | cons s ss ih =>
      rw [usesIn_viewings_cons]
      have hs : usesIn [s] pair ≤ usesIn (viewingsOf client publishers s) pair := by
        rw [usesIn, List.countP_singleton]
        split
        · rename_i huses
          obtain ⟨p, hp, hid⟩ := hown
          have hto : s.subscribe_to = p.id := by
            have hpair : pairOf s = pair := (of_decide_eq_true huses).2
            rw [← hid, ← hpair, pairOf]
          have hmem : s ∈ viewingsOf client publishers s := by
            have hvis : s ∈ viewings client [s] publishers :=
              mem_viewings.mpr ⟨List.mem_singleton_self s, .inr ⟨p, hp, hto⟩⟩
            rwa [viewings, List.flatMap_singleton] at hvis
          exact List.countP_pos_iff.mpr ⟨s, hmem, huses⟩
        · exact Nat.zero_le _
      have hcons : usesIn (s :: ss) pair = usesIn [s] pair + usesIn ss pair := by
        rw [usesIn, ← List.singleton_append, List.countP_append]
        rfl
      omega

/-- A use of another stream is given back when the subscriber is the client's. -/
theorem usesIn_viewings_of_foreign
    (hforeign : ∀ p ∈ ownPublishers client publishers, pair.1 ≠ p.id) :
    usesIn (viewings client subscribers publishers) pair =
      usesIn (subscribers.filter fun s => s.client_id = client.id) pair := by
  induction subscribers with
  | nil => rfl
  | cons s ss ih =>
      rw [usesIn_viewings_cons, ih, List.filter_cons]
      by_cases hpair : pairOf s = pair
      · have hnone : (publishers.filter fun p =>
            p.client_id = client.id ∧ s.subscribe_to = p.id) = [] := by
          rw [List.filter_eq_nil_iff]
          intro p hp hcond
          obtain ⟨hclient, hto⟩ := of_decide_eq_true hcond
          refine hforeign p (List.mem_filter.mpr ⟨hp, by simpa using hclient⟩) ?_
          rw [← hpair, pairOf, hto]
        rw [viewingsOf, hnone]
        by_cases hown : s.client_id = client.id
        · simp [hown, usesIn, List.countP_cons, Nat.add_comm]
        · simp [hown, usesIn]
      · have hzero : usesIn (viewingsOf client publishers s) pair = 0 := by
          rw [usesIn, List.countP_eq_zero]
          intro s' hs'
          have hsame : s' = s := by
            simp only [viewingsOf, List.mem_append, List.mem_map, List.mem_ite_nil_right,
              List.mem_singleton] at hs'
            rcases hs' with ⟨_, _, rfl⟩ | ⟨_, rfl⟩ <;> rfl
          simp [hsame, hpair]
        rw [hzero, Nat.zero_add]
        split
        · simp [usesIn, hpair]
        · rfl

/-- The uses left are the uses less those given back. -/
theorem usesIn_sub_viewings :
    usesIn subscribers pair - usesIn (viewings client subscribers publishers) pair =
      usesIn (subscribers.filter fun s => ¬ Leaves client publishers s) pair := by
  by_cases hown : ∃ p ∈ ownPublishers client publishers, pair.1 = p.id
  · rw [Nat.sub_eq_zero_of_le (usesIn_le_viewings hown), eq_comm, usesIn, List.countP_eq_zero]
    intro s hs huses
    obtain ⟨p, hp, hid⟩ := hown
    have hpair : pairOf s = pair := (of_decide_eq_true huses).2
    have hstays := of_decide_eq_true (List.mem_filter.mp hs).2
    refine hstays (.inr ⟨p, hp, ?_⟩)
    rw [← hid, ← hpair, pairOf]
  · have hforeign : ∀ p ∈ ownPublishers client publishers, pair.1 ≠ p.id :=
      fun p hp hid => hown ⟨p, hp, hid⟩
    have hsplit := List.countP_eq_countP_filter_add subscribers
      (fun s => s.is_bridge ∧ pairOf s = pair) (fun s => s.client_id = client.id)
    have hstays : usesIn (subscribers.filter fun s => ¬ Leaves client publishers s) pair =
        (subscribers.filter fun s => !decide (s.client_id = client.id)).countP
          fun s => s.is_bridge ∧ pairOf s = pair := by
      rw [usesIn, List.countP_filter, List.countP_filter]
      refine List.countP_congr fun s _ => ?_
      simp only [Bool.and_eq_true, Bool.not_eq_true', decide_eq_true_eq, decide_eq_false_iff_not,
        and_congr_right_iff, Leaves, not_or]
      intro huses
      refine and_iff_left ?_
      rintro ⟨p, hp, hto⟩
      exact hforeign p hp (by rw [← huses.2, pairOf, hto])
    rw [usesIn_viewings_of_foreign hforeign, hstays]
    simp only [usesIn]
    omega

end Viewings

/-- What is left of the subscribers of the room. -/
theorem rows_erase_visited (client : Client) (r : Redis) :
    ((r .subscriber client.room_id).erase ((visited client r).map Subscriber.id)).rows =
      (r .subscriber client.room_id).rows.filter fun s =>
        ¬ Leaves client (r .publisher client.room_id).rows s := by
  rw [Table.erase, Table.rows_filter]
  refine List.filter_congr fun s hs => ?_
  rw [decide_eq_decide, not_iff_not, List.mem_map]
  constructor
  · rintro ⟨s', hs', hid⟩
    obtain ⟨hmem, hleaves⟩ := mem_viewings.mp hs'
    rw [Table.eq_of_key_eq hmem hs hid] at hleaves
    exact hleaves
  · intro hleaves
    exact ⟨s, mem_viewings.mpr ⟨hs, hleaves⟩, rfl⟩

/-- Giving back the uses of a removal keeps the counts exact for the subscribers left. -/
theorem ExactBridges.dropAll {client : Client} {r : Redis} (h : ExactBridges r client.room_id) :
    Exact (dropAll (bridgedPairs (visited client r)) (r .bridge_stream client.room_id))
      (usesIn ((r .subscriber client.room_id).erase
        ((visited client r).map Subscriber.id)).rows) := by
  have hall := Exact.dropAll h (bridgedPairs (visited client r))
  simp only [count_bridgedPairs] at hall
  rw [rows_erase_visited]
  convert hall using 1
  exact funext fun pair => usesIn_sub_viewings.symm

/-- No bridge of the client's streams is left for the loop over the publishers. -/
theorem ExactBridges.src_ne_published {client : Client} {r : Redis}
    (h : ExactBridges r client.room_id) {p : Publisher} (hp : p ∈ published client r)
    {b : BridgeStream}
    (hb : b ∈ RefCount.dropAll (bridgedPairs (visited client r))
      (r .bridge_stream client.room_id)) :
    b.src_stream_id ≠ p.id := by
  intro hsrc
  have hpos := h.dropAll.pos b hb
  rw [rows_erase_visited, usesIn, List.countP_pos_iff] at hpos
  obtain ⟨s, hs, huses⟩ := hpos
  have hpair : pairOf s = Counted.pair b := (of_decide_eq_true huses).2
  have hstays := of_decide_eq_true (List.mem_filter.mp hs).2
  exact hstays (.inr ⟨p, hp, (congrArg Prod.fst hpair).trans hsrc⟩)

theorem ExactBridges.removedBridges_eq {client : Client} {r : Redis}
    (h : ExactBridges r client.room_id) :
    removedBridges client r =
      RefCount.dropAll (bridgedPairs (visited client r)) (r .bridge_stream client.room_id) :=
  unpublishAll_of_none fun _ hp _ hb => h.src_ne_published hp hb

/-- Removing a client keeps the counts of its room exact. -/
theorem ExactBridges.removed {client : Client} {r : Redis}
    (h : ExactBridges r client.room_id) : ExactBridges (removed client r) client.room_id := by
  rw [ExactBridges, removed_bridge_stream, removed_subscriber, h.removedBridges_eq]
  exact h.dropAll

end ErizoController
