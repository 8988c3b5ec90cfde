import ErizoController.Core.Counts
import ErizoController.Core.Footprint

/-!
# The messages of a removal

A removal without failures sends what belongs to the records it deletes: two messages for each
entry of a subscriber that it visits, one for each publisher and two for each bridge, whatever
the counts of the bridges are. A subscriber that is the client's own and views a stream of the
client stands twice among the entries.
-/

open RefCount

namespace ErizoController

/-- The messages about a subscriber that is gone. -/
def subscriberMessages (s : Subscriber) : List (String × Message) :=
  [(s.erizo_id, .removeSubscriber s.client_id s.subscribe_to),
    (s.reply_to, .remove_subscriber s.subscribe_to s.client_id)]

/-- The message about a publisher that is gone. -/
def unpublishedMessage (p : Publisher) : String × Message :=
  (p.erizo_id, .removePublisher p.client_id p.id)

/-! ## The messages about bridges -/

/-- What the bridges of a table would be torn down with. -/
def teardowns (t : Table BridgeStream) : List (String × Message) := t.rows.flatMap teardown

theorem perm_teardowns_drop (pair : String × String) (t : Table BridgeStream) :
    (dropMessages pair t ++ teardowns (drop pair t)).Perm (teardowns t) := by
  rw [dropMessages, drop]
  cases hfound : find? pair t with
  | none => exact List.Perm.refl _
  | some b =>
      have hmem : b ∈ t := (find?_some hfound).1
      simp only [setCount_sub_one]
      have hcount : Counted.count { b with subscribe_count := b.subscribe_count - 1 } ≤ 0 ↔
          b.subscribe_count - 1 ≤ 0 := count_nonpos_iff _
      by_cases hlast : b.subscribe_count - 1 ≤ 0
      · rw [if_pos hlast, if_pos (hcount.mpr hlast)]
        exact (Table.perm_flatMap_erase hmem teardown).symm
      · rw [if_neg hlast, if_neg (mt hcount.mp hlast), List.nil_append]
        have hsame : teardowns (t.set { b with subscribe_count := b.subscribe_count - 1 }) =
            teardowns t := Table.flatMap_set hmem (by rfl) (by rfl)
        rw [hsame]

theorem perm_teardowns_leave (s : Subscriber) (t : Table BridgeStream) :
    (leaveMessages s t ++ teardowns (leave s t)).Perm (subscriberMessages s ++ teardowns t) := by
  rw [leaveMessages, leave]
  split
  · refine (List.perm_append_comm.append_right _).trans ?_
    rw [List.append_assoc]
    exact (perm_teardowns_drop (pairOf s) t).append_left _
  · exact List.Perm.refl _

theorem perm_viewerMessages (ss : List Subscriber) (t : Table BridgeStream) :
    (viewerMessages ss t ++ teardowns (dropAll (bridgedPairs ss) t)).Perm
      (ss.flatMap subscriberMessages ++ teardowns t) := by
  induction ss generalizing t with
  | nil => exact List.Perm.refl _
  | cons s ss ih =>
      rw [viewerMessages, dropAll_bridgedPairs_cons, List.append_assoc, List.flatMap_cons,
        List.append_assoc]
      refine ((ih (leave s t)).append_left _).trans ?_
      refine (List.perm_append_comm_assoc _ _ _).trans ?_
      refine ((perm_teardowns_leave s t).append_left _).trans ?_
      exact List.perm_append_comm_assoc _ _ _

theorem perm_teardowns_unpublish (p : Publisher) (t : Table BridgeStream) :
    (unpublishMessages p t ++ teardowns (unpublish p t)).Perm
    (unpublishedMessage p :: teardowns t) := by
  rw [unpublishMessages, unpublish]
  cases hfound : sentBridge? p t with
  | none => exact List.Perm.refl _
  | some b =>
      have hmem : b ∈ t := List.mem_of_find?_eq_some hfound
      refine (List.perm_append_comm.append_right _).trans ?_
      rw [List.append_assoc]
      exact ((Table.perm_flatMap_erase hmem teardown).symm).cons _

theorem perm_publisherMessages (ps : List Publisher) (t : Table BridgeStream) :
    (publisherMessages ps t ++ teardowns (unpublishAll ps t)).Perm
      (ps.map unpublishedMessage ++ teardowns t) := by
  induction ps generalizing t with
  | nil => exact List.Perm.refl _
  | cons p ps ih =>
      rw [publisherMessages, List.append_assoc, List.map_cons, List.cons_append]
      refine ((ih (unpublish p t)).append_left _).trans ?_
      refine (List.perm_append_comm_assoc _ _ _).trans ?_
      refine ((perm_teardowns_unpublish p t).append_left _).trans ?_
      exact List.perm_middle

/-! ## The records that are deleted -/

/-- The records of a hash that another state of the store does not have. -/
def deleted (k : Kind) (name : String) (r r' : Redis) : List k.Rec :=
  Table.gone (r k name) (r' k name)

section Removed

variable (client : Client) (r : Redis)

theorem perm_teardowns_removed :
    (teardowns (r .bridge_stream client.room_id)).Perm
      ((deleted .bridge_stream client.room_id r (removed client r)).flatMap teardown ++
        teardowns (removedBridges client r)) := by
  rw [deleted, removed_bridge_stream]
  refine Table.perm_flatMap_gone fun b' hb' => ?_
  obtain ⟨b, hb, hsame⟩ := exists_of_mem_removedBridges hb'
  refine ⟨b, hb, ?_, ?_⟩
  · rw [hsame]
    rfl
  · rw [hsame]
    rfl

theorem deleted_publisher :
    deleted .publisher client.room_id r (removed client r) = published client r := by
  rw [deleted, removed_publisher, Table.gone_erase, published, ownPublishers]
  refine List.filter_congr fun p hp => ?_
  exact decide_eq_decide.mpr (key_mem_published hp)

theorem deleted_subscriber :
    deleted .subscriber client.room_id r (removed client r) =
      (r .subscriber client.room_id).rows.filter fun s =>
        Leaves client (r .publisher client.room_id).rows s := by
  rw [deleted, removed_subscriber, Table.gone_erase]
  refine List.filter_congr fun s hs => ?_
  exact decide_eq_decide.mpr (key_mem_visited hs)

/-- The messages of a removal are those of the entries it visits and of the publishers and
bridges it deletes. -/
theorem perm_removalMessages :
    (removalMessages client r).Perm ((visited client r).flatMap subscriberMessages ++
      ((deleted .publisher client.room_id r (removed client r)).map unpublishedMessage ++
        (deleted .bridge_stream client.room_id r (removed client r)).flatMap teardown)) := by
  rw [deleted_publisher]
  have hviewers := perm_viewerMessages (visited client r) (r .bridge_stream client.room_id)
  have hpublishers := perm_publisherMessages (published client r)
    (dropAll (bridgedPairs (visited client r)) (r .bridge_stream client.room_id))
  have hall : (removalMessages client r ++ teardowns (removedBridges client r)).Perm
      ((visited client r).flatMap subscriberMessages ++
        ((published client r).map unpublishedMessage ++
          teardowns (r .bridge_stream client.room_id))) := by
    rw [removalMessages, List.append_assoc, removedBridges]
    refine (hpublishers.append_left _).trans ?_
    refine (List.perm_append_comm_assoc _ _ _).trans ?_
    refine (hviewers.append_left _).trans ?_
    exact List.perm_append_comm_assoc _ _ _
  have hkept := ((perm_teardowns_removed client r).append_left
    ((published client r).map unpublishedMessage)).append_left
      ((visited client r).flatMap subscriberMessages)
  refine (List.perm_append_right_iff (teardowns (removedBridges client r))).mp ?_
  rw [List.append_assoc, List.append_assoc]
  exact hall.trans hkept

end Removed

/-! ## Entries that stand twice -/

/-- A subscriber of the client views a stream of the client. -/
def OwnViewer (client : Client) (r : Redis) (s : Subscriber) : Prop :=
  s ∈ r .subscriber client.room_id ∧ s.client_id = client.id ∧
    ∃ p ∈ r .publisher client.room_id, p.client_id = client.id ∧ s.subscribe_to = p.id

section Entries

variable {client : Client} {r : Redis}

/-- At most one publisher has the id of a stream. -/
theorem filter_publisher_cases (t : Table Publisher) (client : Client) (s : Subscriber) :
    (t.rows.filter fun p => p.client_id = client.id ∧ s.subscribe_to = p.id) = [] ∨
      ∃ p ∈ t, p.client_id = client.id ∧ s.subscribe_to = p.id ∧
        (t.rows.filter fun p => p.client_id = client.id ∧ s.subscribe_to = p.id) = [p] := by
  cases hfilter : t.rows.filter fun p => p.client_id = client.id ∧ s.subscribe_to = p.id with
  | nil => exact .inl rfl
  | cons p ps =>
      have hmem : ∀ q ∈ p :: ps, q ∈ t ∧ q.client_id = client.id ∧ s.subscribe_to = q.id := by
        intro q hq
        rw [← hfilter] at hq
        obtain ⟨hq, hcond⟩ := List.mem_filter.mp hq
        exact ⟨hq, of_decide_eq_true hcond⟩
      have hnodup := t.nodup.filter fun p => p.client_id = client.id ∧ s.subscribe_to = p.id
      rw [hfilter, List.nodup_cons] at hnodup
      obtain ⟨hp, hclient, hto⟩ := hmem p List.mem_cons_self
      refine .inr ⟨p, hp, hclient, hto,
        congrArg (List.cons p) (List.eq_nil_iff_forall_not_mem.mpr ?_)⟩
      intro q hq
      obtain ⟨hqt, -, hqto⟩ := hmem q (List.mem_cons_of_mem _ hq)
      have heq : q = p := Table.eq_of_key_eq hqt hp (hqto.symm.trans hto)
      exact hnodup.1 (heq ▸ hq)

/-- The entries of a subscriber: none if it stays, two if it is an own viewer, and one
otherwise. -/
theorem viewingsOf_cases {s : Subscriber} (hs : s ∈ r .subscriber client.room_id) :
    (¬ Leaves client (r .publisher client.room_id).rows s ∧
      viewingsOf client (r .publisher client.room_id).rows s = []) ∨
    (Leaves client (r .publisher client.room_id).rows s ∧ OwnViewer client r s ∧
      viewingsOf client (r .publisher client.room_id).rows s = [s, s]) ∨
    (Leaves client (r .publisher client.room_id).rows s ∧ ¬ OwnViewer client r s ∧
      viewingsOf client (r .publisher client.room_id).rows s = [s]) := by
  have hviews : ∀ {p}, p ∈ r .publisher client.room_id → p.client_id = client.id →
      p ∈ ownPublishers client (r .publisher client.room_id).rows := fun hp hclient =>
    List.mem_filter.mpr ⟨hp, decide_eq_true hclient⟩
  rw [viewingsOf]
  by_cases hown : s.client_id = client.id
  · rw [if_pos hown]
    rcases filter_publisher_cases (r .publisher client.room_id) client s with
      hnil | ⟨p, hp, hclient, hto, hone⟩
    · rw [hnil]
      refine .inr (.inr ⟨.inl hown, ?_, rfl⟩)
      rintro ⟨-, -, p, hp, hclient, hto⟩
      exact List.filter_eq_nil_iff.mp hnil p hp (decide_eq_true ⟨hclient, hto⟩)
    · rw [hone]
      exact .inr (.inl ⟨.inl hown, ⟨hs, hown, p, hp, hclient, hto⟩, rfl⟩)
  · rw [if_neg hown, List.append_nil]
    have hother : ¬ OwnViewer client r s := fun h => hown h.2.1
    rcases filter_publisher_cases (r .publisher client.room_id) client s with
      hnil | ⟨p, hp, hclient, hto, hone⟩
    · rw [hnil]
      refine .inl ⟨?_, rfl⟩
      rintro (h | ⟨p, hp, hto⟩)
      · exact hown h
      · obtain ⟨hp, hclient⟩ := List.mem_filter.mp hp
        exact List.filter_eq_nil_iff.mp hnil p hp
          (decide_eq_true ⟨of_decide_eq_true hclient, hto⟩)
    · rw [hone]
      exact .inr (.inr ⟨.inr ⟨p, hviews hp hclient, hto⟩, hother, rfl⟩)

theorem visited_eq_deleted (hnone : ∀ s, ¬ OwnViewer client r s) :
    visited client r = deleted .subscriber client.room_id r (removed client r) := by
  rw [deleted_subscriber, visited, viewings]
  have hrows : ∀ ss : List Subscriber, (∀ s ∈ ss, s ∈ r .subscriber client.room_id) →
      ss.flatMap (viewingsOf client (r .publisher client.room_id).rows) =
        ss.filter fun s => Leaves client (r .publisher client.room_id).rows s := by
    intro ss hss
    induction ss with
    | nil => rfl
    | cons s ss ih =>
        rw [List.flatMap_cons, List.filter_cons, ih fun s hs => hss s (List.mem_cons_of_mem _ hs)]
        rcases viewingsOf_cases (hss s List.mem_cons_self) with
          ⟨hstays, heq⟩ | ⟨-, hown, -⟩ | ⟨hleaves, -, heq⟩
        · rw [heq, if_neg (by simpa using hstays)]
          rfl
        · exact absurd hown (hnone s)
        · rw [heq, if_pos (by simpa using hleaves)]
          rfl
  exact hrows _ fun s hs => hs

theorem length_deleted_lt (h : ∃ s, OwnViewer client r s) :
    (deleted .subscriber client.room_id r (removed client r)).length <
    (visited client r).length := by
  rw [deleted_subscriber, visited, viewings]
  have hrows : ∀ ss : List Subscriber, (∀ s ∈ ss, s ∈ r .subscriber client.room_id) →
      (ss.filter fun s => Leaves client (r .publisher client.room_id).rows s).length ≤
        (ss.flatMap (viewingsOf client (r .publisher client.room_id).rows)).length ∧
      ((∃ s ∈ ss, OwnViewer client r s) →
        (ss.filter fun s => Leaves client (r .publisher client.room_id).rows s).length <
          (ss.flatMap (viewingsOf client (r .publisher client.room_id).rows)).length) := by
    intro ss hss
    induction ss with
    | nil =>
        refine ⟨Nat.le_refl _, ?_⟩
        rintro ⟨s, hs, -⟩
        exact absurd hs List.not_mem_nil
    | cons s ss ih =>
        obtain ⟨hle, hlt⟩ := ih fun s hs => hss s (List.mem_cons_of_mem _ hs)
        rw [List.flatMap_cons, List.filter_cons, List.length_append]
        rcases viewingsOf_cases (hss s List.mem_cons_self) with
          ⟨hstays, heq⟩ | ⟨hleaves, hown, heq⟩ | ⟨hleaves, hnot, heq⟩
        · rw [heq, if_neg (by simpa using hstays), List.length_nil, Nat.zero_add]
          refine ⟨hle, ?_⟩
          rintro ⟨s', hs', hown⟩
          rcases List.mem_cons.mp hs' with rfl | hs'
          · exact absurd (.inl hown.2.1) hstays
          · exact hlt ⟨s', hs', hown⟩
        · rw [heq, if_pos (by simpa using hleaves)]
          simp only [List.length_cons, List.length_nil]
          omega
        · rw [heq, if_pos (by simpa using hleaves)]
          simp only [List.length_cons, List.length_nil]
          refine ⟨by omega, ?_⟩
          rintro ⟨s', hs', hown⟩
          rcases List.mem_cons.mp hs' with rfl | hs'
          · exact absurd hown hnot
          · have hstrict := hlt ⟨s', hs', hown⟩
            omega
  obtain ⟨s, hown⟩ := h
  exact (hrows _ fun s hs => hs).2 ⟨s, hown.1, hown⟩

end Entries

/-! ## Exactly once -/

/-- What was sent between two states of the world is what belongs to the deleted records of a
room, once for each of them. -/
def TeardownOnce (room_id : String) (w w' : World) : Prop :=
  ∃ messages, w'.outbox = w.outbox ++ messages ∧ messages.Perm
    ((deleted .subscriber room_id w.redis w'.redis).flatMap subscriberMessages ++
      ((deleted .publisher room_id w.redis w'.redis).map unpublishedMessage ++
        (deleted .bridge_stream room_id w.redis w'.redis).flatMap teardown))

theorem flatMap_subscriberMessages_length (ss : List Subscriber) :
    (ss.flatMap subscriberMessages).length = 2 * ss.length := by
  induction ss with
  | nil => rfl
  | cons s ss ih =>
      rw [List.flatMap_cons, List.length_append, ih, List.length_cons]
      simp only [subscriberMessages, List.length_cons, List.length_nil]
      omega

/-- The messages of a removal belong to what it deletes, once for each record, if and only if
no subscriber of the client views a stream of the client. -/
theorem teardownOnce_effect (w : World) (client : Client) :
    TeardownOnce client.room_id w ((tryLock client.room_id w).2.effect (removed client w.redis)
        (removalMessages client w.redis)) ↔ ∀ s, ¬ OwnViewer client w.redis s := by
  constructor
  · rintro ⟨messages, houtbox, hperm⟩ s hown
    obtain rfl := List.append_cancel_left houtbox
    rw [World.effect_redis] at hperm
    have hsame := (perm_removalMessages client w.redis).symm.trans hperm
    have hlength := ((List.perm_append_right_iff _).mp hsame).length_eq
    rw [flatMap_subscriberMessages_length, flatMap_subscriberMessages_length] at hlength
    have hlt := length_deleted_lt ⟨s, hown⟩
    omega
  · intro hnone
    refine ⟨removalMessages client w.redis, rfl, ?_⟩
    rw [World.effect_redis, ← visited_eq_deleted hnone]
    exact perm_removalMessages client w.redis

/-- A removal without failures sends the messages of what it deletes exactly once, if and only
if no subscriber of the client views a stream of the client. -/
theorem teardown_once_iff {w : World} (hr : w.ReadsSucceed) (hw : w.WritesSucceed)
    {client : Client} (hlock : (tryLock client.room_id w).1 = true) :
    ∃ w', execSession (removeClient client) w = (some true, w') ∧
      (TeardownOnce client.room_id w w' ↔ ∀ s, ¬ OwnViewer client w.redis s) :=
  ⟨_, execSession_removeClient_ok hr hw hlock, teardownOnce_effect w client⟩

/-- The client of two subscribers leaves, and the bridge of one of them goes. -/
theorem teardown_once_viewer :
    ∃ w', execSession (removeClient { id := "c", room_id := "room" })
        (World.start sampleRoom .quiet) = (some true, w') ∧
      TeardownOnce "room" (World.start sampleRoom .quiet) w' := by
  obtain ⟨w', hrun, hiff⟩ := @teardown_once_iff (World.start sampleRoom .quiet) rfl rfl
    { id := "c", room_id := "room" } rfl
  refine ⟨w', hrun, hiff.mpr ?_⟩
  rintro s ⟨-, -, p, hp, -⟩
  exact absurd (show p ∈ [] from hp) List.not_mem_nil

/-- The world in which the client `a` has published the stream `x` and subscribed to it. -/
def ownViewerWorld : World :=
  let ec := ErizoController.ofId "ec"
  let client := sampleClient "a" "a1" "e1"
  let w := (execSession (ec.handlePublish client (.objectValue [("label", .stringValue "l")]))
    (.start .empty freshOracle)).2
  let w := (execSession (publisherAnswer "a" (.objectValue
    [("streamId", .stringValue "x"), ("sdp", .stringValue ""), ("roomId", .stringValue "room"),
      ("videoSSRC", .uintValue 7), ("audioSSRC", .uintValue 8)])) w).2
  (execSession (ec.handleSubscribe client (.objectValue [("streamId", .stringValue "x")])) w).2

/-- Two messages of each kind go out for the one subscriber. -/
theorem own_viewer_told_twice :
    ∃ w', execSession (removeClient (sampleClient "a" "a1" "e1")) ownViewerWorld = (some true, w') ∧
      ¬ TeardownOnce "room" ownViewerWorld w' := by
  have hown : OwnViewer (sampleClient "a" "a1" "e1") ownViewerWorld.redis
      { id := "xx", client_id := "a", erizo_id := "e1", agent_id := "a1", subscribe_to := "x",
        reply_to := "ec", is_bridge := false } := by
    refine ⟨by decide, rfl, ?_⟩
    have hstored : (ownViewerWorld.redis .publisher "room").rows.map
        (fun p => (p.id, p.client_id)) = [("x", "a")] := by decide
    obtain ⟨p, hp, heq⟩ := List.mem_map.mp (hstored ▸ List.mem_singleton_self ("x", "a"))
    exact ⟨p, hp, congrArg Prod.snd heq, (congrArg Prod.fst heq).symm⟩
  exact ⟨_, execSession_removeClient_ok (w := ownViewerWorld) rfl rfl rfl, fun h =>
    (teardownOnce_effect ownViewerWorld (sampleClient "a" "a1" "e1")).mp h _ hown⟩

/-! ## The bridges of one stream -/

/-- The bridge carries the stream out of the erizo. -/
def Carries (stream_id erizo_id : String) (b : BridgeStream) : Prop :=
  b.src_stream_id = stream_id ∧ b.sender_erizo_id = erizo_id

instance (stream_id erizo_id : String) (b : BridgeStream) :
    Decidable (Carries stream_id erizo_id b) :=
  inferInstanceAs (Decidable (_ ∧ _))

/-- The bridges of a stream, one for each erizo that receives it. -/
def bridgesOf (stream_id erizo_id : String) (t : Table BridgeStream) : List BridgeStream :=
  t.rows.filter fun b => Carries stream_id erizo_id b

theorem mem_bridgesOf {stream_id erizo_id : String} {t : Table BridgeStream} {b : BridgeStream} :
    b ∈ bridgesOf stream_id erizo_id t ↔ b ∈ t ∧ Carries stream_id erizo_id b := by
  rw [bridgesOf, List.mem_filter, decide_eq_true_eq]
  rfl

/-- The bridges of the stream are gone, all of them are torn down, and the others are as they
were. -/
structure Unbridged (room_id stream_id erizo_id : String) (w w' : World) : Prop where
  gone : ∀ b ∈ w'.redis .bridge_stream room_id, ¬ Carries stream_id erizo_id b
  sent : w'.outbox = w.outbox ++
    (bridgesOf stream_id erizo_id (w.redis .bridge_stream room_id)).flatMap teardown
  others : ∀ b, ¬ Carries stream_id erizo_id b →
    (b ∈ w'.redis .bridge_stream room_id ↔ b ∈ w.redis .bridge_stream room_id)

section Unbridged

variable {room_id stream_id erizo_id : String} {w w' : World}

/-- Nothing is done where there is nothing to do, and only there. -/
theorem unbridged_idle_iff (hredis : w'.redis = w.redis) (houtbox : w'.outbox = w.outbox) :
    Unbridged room_id stream_id erizo_id w w' ↔
      bridgesOf stream_id erizo_id (w.redis .bridge_stream room_id) = [] := by
  constructor
  · intro h
    rw [List.eq_nil_iff_forall_not_mem]
    intro b hb
    obtain ⟨hb, hcarries⟩ := mem_bridgesOf.mp hb
    exact h.gone b (hredis ▸ hb) hcarries
  · intro hnil
    refine ⟨fun b hb hcarries => ?_, ?_, fun b _ => by rw [hredis]⟩
    · have hmem := mem_bridgesOf.mpr ⟨hredis ▸ hb, hcarries⟩
      rw [hnil] at hmem
      cases hmem
    · rw [hnil, houtbox]
      exact (List.append_nil _).symm

/-- One bridge is enough where there is no second one. -/
theorem unbridged_erase_iff {b : BridgeStream}
    (hb : b ∈ bridgesOf stream_id erizo_id (w.redis .bridge_stream room_id))
    (htable : w'.redis .bridge_stream room_id = (w.redis .bridge_stream room_id).erase [b.id])
    (houtbox : w'.outbox = w.outbox ++ teardown b) :
    Unbridged room_id stream_id erizo_id w w' ↔
      (bridgesOf stream_id erizo_id (w.redis .bridge_stream room_id)).length ≤ 1 := by
  have herased : ∀ b', b' ∈ w'.redis .bridge_stream room_id ↔
      b' ∈ w.redis .bridge_stream room_id ∧ b' ≠ b := by
    intro b'
    rw [htable, Table.mem_erase, List.mem_singleton]
    refine and_congr_right fun hb' => not_congr ⟨fun hkey => ?_, fun heq => congrArg _ heq⟩
    exact Table.eq_of_key_eq hb' (mem_bridgesOf.mp hb).1 hkey
  constructor
  · intro h
    have hone : ∀ b' ∈ bridgesOf stream_id erizo_id (w.redis .bridge_stream room_id), b' = b := by
      intro b' hb'
      obtain ⟨hmem, hcarries⟩ := mem_bridgesOf.mp hb'
      by_contra hne
      exact h.gone b' ((herased b').mpr ⟨hmem, hne⟩) hcarries
    have hnodup : (bridgesOf stream_id erizo_id (w.redis .bridge_stream room_id)).Nodup :=
      (Table.nodup _).filter _
    rw [List.eq_replicate_of_mem hone, List.nodup_replicate] at hnodup
    exact hnodup
  · intro hlength
    have hall : bridgesOf stream_id erizo_id (w.redis .bridge_stream room_id) = [b] := by
      rcases hbridges : bridgesOf stream_id erizo_id (w.redis .bridge_stream room_id) with
        _ | ⟨b₁, _ | ⟨b₂, bs⟩⟩
      · rw [hbridges] at hb
        cases hb
      · rw [hbridges] at hb
        rw [List.mem_singleton.mp hb]
      · rw [hbridges, List.length_cons, List.length_cons] at hlength
        omega
    refine ⟨fun b' hb' hcarries => ?_, ?_, fun b' hcarries => ?_⟩
    · obtain ⟨hmem, hne⟩ := (herased b').mp hb'
      have hb'' := mem_bridgesOf.mpr ⟨hmem, hcarries⟩
      rw [hall, List.mem_singleton] at hb''
      exact hne hb''
    · rw [hall, houtbox, List.flatMap_singleton]
    · rw [herased, and_iff_left_of_imp]
      rintro - rfl
      exact hcarries (mem_bridgesOf.mp hb).2

end Unbridged

/-- When `removeBridgeStreamPub` returns 0, it has removed all the bridges of the stream, if
and only if there is none; or their listing succeeds and there is but one, or the write
fails, so that it does not return 0. -/
theorem removeBridgeStreamPub_removes_all_iff (w : World) (room_id stream_id erizo_id : String) :
    ((exec (removeBridgeStreamPub room_id stream_id erizo_id) w).1 = 0 →
      Unbridged room_id stream_id erizo_id w
        (exec (removeBridgeStreamPub room_id stream_id erizo_id) w).2) ↔
    bridgesOf stream_id erizo_id (w.redis .bridge_stream room_id) = [] ∨
      (w.oracle.readFault.head = false ∧
        ((bridgesOf stream_id erizo_id (w.redis .bridge_stream room_id)).length ≤ 1 ∨
          w.oracle.writeFault.head = true)) := by
  -- The publisher whose bridges these are; its other fields are not read.
  let p : Publisher := ⟨stream_id, "", erizo_id, "", 0, "", "", 0, 0⟩
  have hfind : sentBridge? p (w.redis .bridge_stream room_id) =
      (bridgesOf stream_id erizo_id (w.redis .bridge_stream room_id)).head? := by
    rw [bridgesOf, List.head?_filter, sentBridge?]
    refine congrArg (fun f => List.find? f _) (funext fun b => ?_)
    rw [Bool.eq_iff_iff, Bool.and_eq_true, beq_iff_eq, beq_iff_eq, decide_eq_true_eq]
    rfl
  by_cases hread : w.oracle.readFault.head = true
  · rw [exec_removeBridgeStreamPub_unheard room_id p hread, hread]
    have hidle : Unbridged room_id stream_id erizo_id w w.drawRead ↔ _ := unbridged_idle_iff rfl rfl
    simp [hidle]
  · have hheard := exec_removeBridgeStreamPub_heard room_id p (Bool.eq_false_of_not_eq_true hread)
    rw [hfind] at hheard
    rw [hheard, Bool.eq_false_of_not_eq_true hread]
    cases hhead : (bridgesOf stream_id erizo_id (w.redis .bridge_stream room_id)).head? with
    | none =>
        have hnil := List.head?_eq_none_iff.mp hhead
        have hidle : Unbridged room_id stream_id erizo_id w w.drawRead ↔ _ :=
          unbridged_idle_iff rfl rfl
        exact iff_of_true (fun _ => hidle.mpr hnil) (.inl hnil)
    | some b =>
        have hb := List.mem_of_mem_head? hhead
        have hne : bridgesOf stream_id erizo_id (w.redis .bridge_stream room_id) ≠ [] :=
          List.ne_nil_of_mem hb
        dsimp only
        by_cases hwrite : w.oracle.writeFault.head = true
        · rw [if_pos hwrite]
          exact iff_of_true (fun hzero => absurd hzero one_ne_zero) (.inr ⟨rfl, .inr hwrite⟩)
        · rw [if_neg hwrite]
          have herase : Unbridged room_id stream_id erizo_id w (w.drawRead.drawWrite.effect
              (w.redis.update .bridge_stream room_id
                ((w.redis .bridge_stream room_id).erase [b.id])) (teardown b)) ↔ _ :=
            unbridged_erase_iff hb (by simp) rfl
          rw [herase]
          simp [hne, hwrite]

/-- A bridge of the stream `x` from the erizo `e1`. -/
def bridgeTo (id recver : String) : BridgeStream :=
  { id := id, sender_erizo_id := "e1", sender_ip := "", sender_port := 0,
    recver_erizo_id := recver, recver_ip := "", recver_port := 0, src_stream_id := "x",
    subscribe_count := 1 }

/-- Of two bridges the second one stays. -/
theorem second_bridge_stays :
    ¬ ∀ w room_id stream_id erizo_id,
      (exec (removeBridgeStreamPub room_id stream_id erizo_id) w).1 = 0 →
        Unbridged room_id stream_id erizo_id w
          (exec (removeBridgeStreamPub room_id stream_id erizo_id) w).2 := by
  intro h
  have hgone := (h (.start (Redis.update .empty .bridge_stream "room"
    ((∅ : Table BridgeStream).set (bridgeTo "b1" "e2") |>.set (bridgeTo "b2" "e3"))) .quiet)
    "room" "x" "e1" rfl).gone (bridgeTo "b2" "e3") (by decide)
  exact hgone (by decide)

end ErizoController
