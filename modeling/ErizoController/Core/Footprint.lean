import ErizoController.Core.Retry

/-!
# The footprint of a client

A removal that meets no failure takes out of the store exactly what is there because of
the client: its subscriptions and those to its streams, its publishers, and the client
itself. This holds of every store, whether or not the counts of its bridges are right. A
second removal finds nothing left to do.
-/

open RefCount

namespace ErizoController

/-- The bridges that `removeClient` has no business with: their source stays, and they are
not the bridge of a subscriber that goes. -/
def Untouched (client : Client) (r : Redis) (b : BridgeStream) : Prop :=
  (∀ p ∈ r .publisher client.room_id, p.client_id = client.id → b.src_stream_id ≠ p.id) ∧
  ∀ s ∈ r .subscriber client.room_id,
    Leaves client (r .publisher client.room_id).rows s → s.is_bridge = true →
      (b.src_stream_id, b.recver_erizo_id) ≠ (s.subscribe_to, s.erizo_id)

/-- From `r` to `r'` exactly the footprint of the client is gone. -/
structure FootprintGone (client : Client) (r r' : Redis) : Prop where
  subscribers : ∀ s, s ∈ r' .subscriber client.room_id ↔
    s ∈ r .subscriber client.room_id ∧ s.client_id ≠ client.id ∧
      ∀ p ∈ r .publisher client.room_id, p.client_id = client.id → s.subscribe_to ≠ p.id
  publishers : ∀ p, p ∈ r' .publisher client.room_id ↔
    p ∈ r .publisher client.room_id ∧ p.client_id ≠ client.id
  clients : ∀ c, c ∈ r' .client client.room_id ↔ c ∈ r .client client.room_id ∧ c.id ≠ client.id
  controller_clients : ∀ c, c ∈ r' .ec client.reply_to ↔
    c ∈ r .ec client.reply_to ∧ c.id ≠ client.id
  bridge_kept : ∀ b ∈ r .bridge_stream client.room_id, Untouched client r b →
    b ∈ r' .bridge_stream client.room_id
  bridge_left : ∀ b' ∈ r' .bridge_stream client.room_id, ∃ b ∈ r .bridge_stream client.room_id,
    b' = { b with subscribe_count := b'.subscribe_count }
  other : ∀ k name, ¬ (k ∈ [.client, .publisher, .subscriber, .bridge_stream] ∧
    name = client.room_id) → ¬ (k = .ec ∧ name = client.reply_to) → r' k name = r k name

variable {client : Client} {r : Redis}

theorem mem_visited {s : Subscriber} :
    s ∈ visited client r ↔ s ∈ r .subscriber client.room_id ∧
      Leaves client (r .publisher client.room_id).rows s := mem_viewings

theorem mem_published {p : Publisher} :
    p ∈ published client r ↔ p ∈ r .publisher client.room_id ∧ p.client_id = client.id := by
  rw [published, ownPublishers, List.mem_filter, decide_eq_true_eq, Table.mem_rows]

theorem not_leaves_iff {s : Subscriber} :
    ¬ Leaves client (r .publisher client.room_id).rows s ↔ s.client_id ≠ client.id ∧
      ∀ p ∈ r .publisher client.room_id, p.client_id = client.id → s.subscribe_to ≠ p.id := by
  have hown : ∀ p, p ∈ ownPublishers client (r .publisher client.room_id).rows ↔
      p ∈ r .publisher client.room_id ∧ p.client_id = client.id := fun _ => mem_published
  simp only [Leaves, not_or, not_exists, not_and, hown, and_imp, ne_eq]

/-! ## The loop over the publishers, on any table -/

theorem mem_unpublish {p : Publisher} {t : Table BridgeStream} {b : BridgeStream} (hb : b ∈ t)
    (hp : b.src_stream_id ≠ p.id) : b ∈ unpublish p t := by
  rw [unpublish]
  cases hsent : sentBridge? p t with
  | none => exact hb
  | some b₀ =>
      have hsrc : b₀.src_stream_id = p.id := by
        have htest := List.find?_some hsent
        exact beq_iff_eq.mp (Bool.and_eq_true_iff.mp htest).1
      refine Table.mem_erase.mpr ⟨hb, ?_⟩
      rw [List.mem_singleton, key_bridgeStream]
      intro hid
      have hrow : b = b₀ := Table.eq_of_key_eq hb (List.mem_of_find?_eq_some hsent) hid
      exact hp (hrow ▸ hsrc)

theorem mem_unpublishAll {ps : List Publisher} {t : Table BridgeStream} {b : BridgeStream}
    (hb : b ∈ t) (hps : ∀ p ∈ ps, b.src_stream_id ≠ p.id) : b ∈ unpublishAll ps t := by
  induction ps generalizing t with
  | nil => exact hb
  | cons p ps ih =>
      exact ih (mem_unpublish hb (hps p List.mem_cons_self))
        fun q hq => hps q (List.mem_cons_of_mem _ hq)

/-! ## One removal -/

theorem Untouched.mem_removedBridges {b : BridgeStream} (hb : b ∈ r .bridge_stream client.room_id)
    (h : Untouched client r b) : b ∈ removedBridges client r := by
  refine mem_unpublishAll (mem_dropAll_of_ne hb fun pair hpair => ?_) fun p hp => ?_
  · obtain ⟨s, hs, rfl⟩ := List.mem_map.mp hpair
    obtain ⟨hvisited, hbridge⟩ := List.mem_filter.mp hs
    obtain ⟨hmem, hleaves⟩ := mem_visited.mp hvisited
    exact h.2 s hmem hleaves hbridge
  · obtain ⟨hmem, hown⟩ := mem_published.mp hp
    exact h.1 p hmem hown

theorem exists_of_mem_removedBridges {b' : BridgeStream} (h : b' ∈ removedBridges client r) :
    ∃ b ∈ r .bridge_stream client.room_id, b' =
      { b with subscribe_count := b'.subscribe_count } := by
  obtain ⟨b, hb, n, rfl⟩ := exists_of_mem_dropAll (mem_of_mem_unpublishAll h)
  exact ⟨b, hb, rfl⟩

/-- The ids that are erased are those of the rows that go: an id names one row. -/
theorem key_mem_visited {s : Subscriber} (hs : s ∈ r .subscriber client.room_id) :
    s.id ∈ (visited client r).map Subscriber.id ↔
      Leaves client (r .publisher client.room_id).rows s := by
  rw [List.mem_map]
  constructor
  · rintro ⟨s', hs', hid⟩
    obtain ⟨hmem, hleaves⟩ := mem_visited.mp hs'
    rwa [← (Table.eq_of_key_eq hmem hs hid : s' = s)]
  · exact fun h => ⟨s, mem_visited.mpr ⟨hs, h⟩, rfl⟩

theorem key_mem_published {p : Publisher} (hp : p ∈ r .publisher client.room_id) :
    p.id ∈ (published client r).map Publisher.id ↔ p.client_id = client.id := by
  rw [List.mem_map]
  constructor
  · rintro ⟨p', hp', hid⟩
    obtain ⟨hmem, hown⟩ := mem_published.mp hp'
    rwa [← (Table.eq_of_key_eq hmem hp hid : p' = p)]
  · exact fun h => ⟨p, mem_published.mpr ⟨hp, h⟩, rfl⟩

theorem removed_other {k : Kind} {name : String}
    (hroom : ¬ (k ∈ [.client, .publisher, .subscriber, .bridge_stream] ∧ name = client.room_id))
    (hec : ¬ (k = .ec ∧ name = client.reply_to)) : removed client r k name = r k name := by
  have hupdate : ∀ (r : Redis) (k' : Kind) (name' : String) (t : Table k'.Rec),
      ¬ (k = k' ∧ name = name') → r.update k' name' t k name = r k name := by
    intro r k' name' t hne
    by_cases hk : k = k'
    · subst hk
      exact Redis.update_name r k t fun hname => hne ⟨rfl, hname⟩
    · exact Redis.update_kind r name' name t hk
  rw [removed, hupdate _ _ _ _ hec]
  iterate 4 rw [hupdate _ _ _ _ fun h => hroom ⟨by simp [h.1], h.2⟩]

theorem footprintGone_removed : FootprintGone client r (removed client r) where
  subscribers s := by
    rw [removed_subscriber, Table.mem_erase, key_subscriber]
    refine and_congr_right fun hs => ?_
    rw [key_mem_visited hs, not_leaves_iff]
  publishers p := by
    rw [removed_publisher, Table.mem_erase, key_publisher]
    refine and_congr_right fun hp => ?_
    rw [key_mem_published hp]
  clients c := by
    rw [removed_client, Table.mem_erase, key_client, List.mem_singleton]
  controller_clients c := by
    have hec : removed client r .ec client.reply_to =
        (r .ec client.reply_to).erase [client.id] := by simp [removed]
    rw [hec, Table.mem_erase]
    exact and_congr_right fun _ => not_congr List.mem_singleton
  bridge_kept b hb h := by
    rw [removed_bridge_stream]
    exact h.mem_removedBridges hb
  bridge_left b' h := by
    rw [removed_bridge_stream] at h
    exact exists_of_mem_removedBridges h
  other k name hroom hec := removed_other hroom hec

/-! ## A second removal -/

theorem visited_removed : visited client (removed client r) = [] := by
  refine List.eq_nil_iff_forall_not_mem.mpr fun s hs => ?_
  obtain ⟨hmem, hleaves⟩ := mem_visited.mp hs
  have hgone := (footprintGone_removed.subscribers s).mp hmem
  refine not_leaves_iff.mpr ⟨hgone.2.1, fun p hp hown => ?_⟩ hleaves
  exact absurd hown ((footprintGone_removed.publishers p).mp hp).2

theorem published_removed : published client (removed client r) = [] := by
  refine List.eq_nil_iff_forall_not_mem.mpr fun p hp => ?_
  obtain ⟨hmem, hown⟩ := mem_published.mp hp
  exact absurd hown ((footprintGone_removed.publishers p).mp hmem).2

/-- Erasing rows that are not there changes nothing. -/
theorem erase_of_not_mem {k : Kind} {t : Table k.Rec} {ids : List String}
    (h : ∀ v ∈ t, Keyed.key v ∉ ids) : t.erase ids = t := by
  ext v
  rw [Table.mem_erase]
  exact and_iff_left_of_imp fun hv => h v hv

/-- A removal of a client that has left no footprint changes nothing and sends nothing. -/
theorem removed_idempotent : removed client (removed client r) = removed client r ∧
    removalMessages client (removed client r) = [] := by
  have hclient : (removed client r .client client.room_id).erase [client.id] =
      removed client r .client client.room_id :=
    erase_of_not_mem fun c hc hmem =>
      ((footprintGone_removed.clients c).mp hc).2 (List.mem_singleton.mp hmem)
  have hec : (removed client r .ec client.reply_to).erase [client.id] =
      removed client r .ec client.reply_to :=
    erase_of_not_mem fun c hc hmem =>
      ((footprintGone_removed.controller_clients c).mp hc).2 (List.mem_singleton.mp hmem)
  constructor
  · have hsubscribers : (removed client r .subscriber client.room_id).erase [] =
        removed client r .subscriber client.room_id := erase_nil _
    have hpublishers : (removed client r .publisher client.room_id).erase [] =
        removed client r .publisher client.room_id := erase_nil _
    rw [removed, removedBridges, visited_removed, published_removed]
    simp only [List.map_nil, bridgedPairs, List.filter_nil, dropAll, List.foldl_nil, unpublishAll,
      Redis.update_eq_self]
    rw [hsubscribers, Redis.update_eq_self, hpublishers, Redis.update_eq_self, hclient,
      Redis.update_eq_self, hec, Redis.update_eq_self]
  · rw [removalMessages, visited_removed, published_removed]
    rfl

/-- `removeClient` without failures takes out exactly the footprint of the client. Running
it again changes no hash and sends no message, event or task: it only asks for the lock. -/
theorem removeClient_footprint {w : World} (hr : w.ReadsSucceed) (hw : w.WritesSucceed)
    (hlock : (tryLock client.room_id w).1 = true) :
    ∃ w', execSession (removeClient client) w = (some true, w') ∧
      FootprintGone client w.redis w'.redis ∧
      ((tryLock client.room_id w').1 = true →
        execSession (removeClient client) w' = (some true, (tryLock client.room_id w').2)) := by
  have hrun := execSession_removeClient_ok hr hw hlock
  refine ⟨_, hrun, footprintGone_removed, fun hlock' => ?_⟩
  generalize hw' : (tryLock client.room_id w).2.effect (removed client w.redis)
    (removalMessages client w.redis) = w' at hlock' ⊢
  have hr' : (tryLock client.room_id w').2.ReadsSucceed := by
    rw [← hw']
    exact hr
  have hwrites : (tryLock client.room_id w').2.WritesSucceed := by
    rw [← hw']
    exact hw
  have hredis : (tryLock client.room_id w').2.redis = removed client w.redis := by
    rw [← hw']
    rfl
  obtain ⟨hsame, hsilent⟩ := @removed_idempotent client w.redis
  rw [removeClient, execSession_withLock, if_pos hlock', exec_removeClientLocked_ok hr' hwrites,
    hredis, hsame, hsilent, ← hredis, World.effect_nil]

/-- In a room in which another client views the same stream, only that one stays. -/
theorem removeClient_footprint_viewer :
    ∃ w', execSession (removeClient { id := "c", room_id := "room" })
        (World.start sampleRoom .quiet) = (some true, w') ∧
      FootprintGone { id := "c", room_id := "room" } sampleRoom w'.redis ∧
      execSession (removeClient { id := "c", room_id := "room" }) w' =
        (some true, (tryLock "room" w').2) := by
  obtain ⟨w', hrun, hgone, hagain⟩ := @removeClient_footprint { id := "c", room_id := "room" }
    (World.start sampleRoom .quiet) rfl rfl rfl
  refine ⟨w', hrun, hgone, hagain ?_⟩
  obtain rfl := congrArg Prod.snd hrun
  rfl

end ErizoController
