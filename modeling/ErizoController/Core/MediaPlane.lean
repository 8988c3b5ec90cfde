import ErizoController.Library.Replay
import ErizoController.Core.References
import ErizoController.Core.Teardown

/-!
# The media plane

An erizo keeps what the messages of its queue tell it to keep. The messages are pushed
under the lock of the room, in the order in which the store changes, and in that order they
describe it: every section that changes what is recorded pushes the messages that say so.
-/

open Json Locked Prog Script Room RefCount

/-- What an erizo keeps: publishers and subscribers by client and stream, virtual publishers
by their source, and virtual subscribers by bridge and source. -/
inductive Entry where
  | publisher (client_id stream_id : String)
  | subscriber (client_id subscribe_to : String)
  | virtualPublisher (src_stream_id : String)
  | virtualSubscriber (bridge_id src_stream_id : String)
  deriving DecidableEq

/-- The entry that a message is about, and whether the message adds or removes it. -/
def Message.named? : Message → Option (Entry × Bool)
  | .addPublisher _ client_id stream_id _ _ _ => some (.publisher client_id stream_id, true)
  | .removePublisher client_id stream_id => some (.publisher client_id stream_id, false)
  | .addSubscriber client_id subscribe_to _ _ _ => some (.subscriber client_id subscribe_to, true)
  | .removeSubscriber client_id subscribe_to => some (.subscriber client_id subscribe_to, false)
  | .addVirtualPublisher _ src_stream_id _ _ _ _ => some (.virtualPublisher src_stream_id, true)
  | .removeVirtualPublisher src_stream_id => some (.virtualPublisher src_stream_id, false)
  | .addVirtualSubscriber bridge_id src_stream_id _ _ =>
      some (.virtualSubscriber bridge_id src_stream_id, true)
  | .removeVirtualSubscriber bridge_id src_stream_id =>
      some (.virtualSubscriber bridge_id src_stream_id, false)
  | _ => none

namespace ErizoController

/-! ## Erizos -/

/-- What the messages sent to the queue of an erizo say, in their order. -/
def entries (erizo_id : String) (messages : List (String × Message)) : List (Entry × Bool) :=
  messages.filterMap fun m => if m.1 = erizo_id then m.2.named? else none

/-- The state of an erizo after some messages, in the order of their arrival. -/
def erizo (erizo_id : String) (messages : List (String × Message)) : Finset Entry :=
  Replay.replay ∅ (entries erizo_id messages)

/-- The message is for the erizo and about the entry. -/
def About (erizo_id : String) (x : Entry) (m : String × Message) : Bool :=
  m.1 = erizo_id ∧ m.2.named?.map Prod.fst = some x

section Erizo

variable {e : String} {x : Entry} {messages messages' : List (String × Message)}

theorem mem_entries {entry : Entry × Bool} :
    entry ∈ entries e messages ↔ ∃ m ∈ messages, m.1 = e ∧ m.2.named? = some entry := by
  rw [entries, List.mem_filterMap]
  refine exists_congr fun m => and_congr_right fun _ => ?_
  by_cases hm : m.1 = e
  · simp [hm]
  · simp [hm]

theorem entries_append : entries e
    (messages ++ messages') = entries e messages ++ entries e messages' :=
  List.filterMap_append

theorem filter_entries : (entries e messages).filter (fun entry => entry.1 = x) =
    entries e (messages.filter (About e x)) := by
  induction messages with
  | nil => rfl
  | cons m messages ih =>
      rw [entries, List.filterMap_cons, List.filter_cons, About]
      rw [entries] at ih
      by_cases hm : m.1 = e
      · cases hentry : m.2.named? with
        | none =>
            simp only [hm, if_true]
            simpa [hentry] using ih
        | some entry =>
            by_cases hx : entry.1 = x
            · simp [hm, hentry, hx, ih, entries]
            · simp [hm, hx, ih]
      · simp [hm, ih]

/-- Only the messages about an entry matter for it. -/
theorem mem_erizo_congr (h : messages.filter (About e x) = messages'.filter (About e x)) :
    x ∈ erizo e messages ↔ x ∈ erizo e messages' := by
  rw [erizo, erizo, Replay.mem_replay_filter, filter_entries, h, ← filter_entries,
    ← Replay.mem_replay_filter]

/-- Messages that remove nothing. -/
theorem mem_erizo_append_of_adds
    (h : ∀ m ∈ messages', ∀ x, m.2.named? ≠ some (x, false)) :
    x ∈ erizo e (messages ++ messages') ↔
      x ∈ erizo e messages ∨ ∃ m ∈ messages', m.1 = e ∧ m.2.named? = some (x, true) := by
  have hnot : (x, false) ∉ entries e messages' := by
    rw [mem_entries]
    rintro ⟨m, hm, -, hentry⟩
    exact h m hm x hentry
  rw [erizo, entries_append, Replay.replay_append, Replay.mem_replay_of_inserts hnot, mem_entries]
  rfl

/-- Messages that add nothing. -/
theorem mem_erizo_append_of_removals
    (h : ∀ m ∈ messages', ∀ x, m.2.named? ≠ some (x, true)) :
    x ∈ erizo e (messages ++ messages') ↔
      x ∈ erizo e messages ∧ ¬ ∃ m ∈ messages', m.1 = e ∧ m.2.named? = some (x, false) := by
  have hnot : (x, true) ∉ entries e messages' := by
    rw [mem_entries]
    rintro ⟨m, hm, -, hentry⟩
    exact h m hm x hentry
  rw [erizo, entries_append, Replay.replay_append, Replay.mem_replay_of_removals hnot, mem_entries]
  rfl

end Erizo

/-! ## What the store records -/

/-- The entry is recorded for the erizo in the hashes of the room. -/
def Recorded (r : Redis) (room_id erizo_id : String) : Entry → Prop
  | .publisher client_id stream_id => ∃ p ∈ r .publisher room_id,
      p.erizo_id = erizo_id ∧ p.client_id = client_id ∧ p.id = stream_id
  | .subscriber client_id subscribe_to => ∃ s ∈ r .subscriber room_id,
      s.erizo_id = erizo_id ∧ s.client_id = client_id ∧ s.subscribe_to = subscribe_to
  | .virtualPublisher src_stream_id => ∃ b ∈ r .bridge_stream room_id,
      b.recver_erizo_id = erizo_id ∧ b.src_stream_id = src_stream_id
  | .virtualSubscriber bridge_id src_stream_id => ∃ b ∈ r .bridge_stream room_id,
      b.sender_erizo_id = erizo_id ∧ b.id = bridge_id ∧ b.src_stream_id = src_stream_id

instance (r : Redis) (room_id erizo_id : String) (x : Entry) :
    Decidable (Recorded r room_id erizo_id x) :=
  match x with
  | .publisher client_id stream_id => inferInstanceAs (Decidable
      (∃ p ∈ (r .publisher room_id).rows,
        p.erizo_id = erizo_id ∧ p.client_id = client_id ∧ p.id = stream_id))
  | .subscriber client_id subscribe_to => inferInstanceAs (Decidable
      (∃ s ∈ (r .subscriber room_id).rows,
        s.erizo_id = erizo_id ∧ s.client_id = client_id ∧ s.subscribe_to = subscribe_to))
  | .virtualPublisher src_stream_id => inferInstanceAs (Decidable
      (∃ b ∈ (r .bridge_stream room_id).rows,
        b.recver_erizo_id = erizo_id ∧ b.src_stream_id = src_stream_id))
  | .virtualSubscriber bridge_id src_stream_id => inferInstanceAs (Decidable
      (∃ b ∈ (r .bridge_stream room_id).rows,
        b.sender_erizo_id = erizo_id ∧ b.id = bridge_id ∧ b.src_stream_id = src_stream_id))

/-- The erizos that have got the messages keep what the store records for them. -/
def Agrees (r : Redis) (room_id : String) (messages : List (String × Message)) : Prop :=
  ∀ e x, x ∈ erizo e messages ↔ Recorded r room_id e x

theorem recorded_congr {r r' : Redis} {room_id e : String} {x : Entry}
    (hpublisher : r' .publisher room_id = r .publisher room_id)
    (hsubscriber : r' .subscriber room_id = r .subscriber room_id)
    (hbridge : r' .bridge_stream room_id = r .bridge_stream room_id) :
    Recorded r' room_id e x ↔ Recorded r room_id e x := by
  cases x <;> simp only [Recorded, hpublisher, hsubscriber, hbridge]

/-! ## A removal -/

section Removal

variable {client : Client} {r : Redis}

/-- The entries that the messages of a removal take back. -/
def TakenBack (client : Client) (r : Redis) (erizo_id : String) : Entry → Prop
  | .publisher client_id stream_id => ∃ p ∈ deleted .publisher client.room_id r (removed client r),
      p.erizo_id = erizo_id ∧ p.client_id = client_id ∧ p.id = stream_id
  | .subscriber client_id subscribe_to => ∃ s ∈ visited client r,
      s.erizo_id = erizo_id ∧ s.client_id = client_id ∧ s.subscribe_to = subscribe_to
  | .virtualPublisher src_stream_id =>
      ∃ b ∈ deleted .bridge_stream client.room_id r (removed client r),
        b.recver_erizo_id = erizo_id ∧ b.src_stream_id = src_stream_id
  | .virtualSubscriber bridge_id src_stream_id =>
      ∃ b ∈ deleted .bridge_stream client.room_id r (removed client r),
        b.sender_erizo_id = erizo_id ∧ b.id = bridge_id ∧ b.src_stream_id = src_stream_id

theorem mem_removalMessages {m : String × Message} :
    m ∈ removalMessages client r ↔
      (∃ s ∈ visited client r, m ∈ subscriberMessages s) ∨
      (∃ p ∈ deleted .publisher client.room_id r (removed client r), m = unpublishedMessage p) ∨
      ∃ b ∈ deleted .bridge_stream client.room_id r (removed client r), m ∈ teardown b := by
  rw [(perm_removalMessages client r).mem_iff, List.mem_append, List.mem_append, List.mem_flatMap,
    List.mem_map, List.mem_flatMap]
  simp only [eq_comm]

/-- The messages of a removal add nothing. -/
theorem entry_of_mem_removalMessages {m : String × Message} (hm : m ∈ removalMessages client r)
    (x : Entry) : m.2.named? ≠ some (x, true) := by
  rcases mem_removalMessages.mp hm with ⟨s, -, hs⟩ | ⟨p, -, rfl⟩ | ⟨b, -, hb⟩
  · rcases List.mem_pair.mp hs with rfl | rfl <;> simp [Message.named?]
  · simp [unpublishedMessage, Message.named?]
  · rcases List.mem_pair.mp hb with rfl | rfl <;> simp [Message.named?]

theorem takenBack_iff {e : String} {x : Entry} :
    (∃ m ∈ removalMessages client r, m.1 = e ∧ m.2.named? = some (x, false)) ↔
      TakenBack client r e x := by
  constructor
  · rintro ⟨m, hm, rfl, hentry⟩
    rcases mem_removalMessages.mp hm with ⟨s, hs, hmem⟩ | ⟨p, hp, rfl⟩ | ⟨b, hb, hmem⟩
    · rcases List.mem_pair.mp hmem with rfl | rfl
      · obtain rfl := congrArg Prod.fst (Option.some.inj hentry)
        exact ⟨s, hs, rfl, rfl, rfl⟩
      · cases hentry
    · obtain rfl := congrArg Prod.fst (Option.some.inj hentry)
      exact ⟨p, hp, rfl, rfl, rfl⟩
    · rcases List.mem_pair.mp hmem with rfl | rfl
      · obtain rfl := congrArg Prod.fst (Option.some.inj hentry)
        exact ⟨b, hb, rfl, rfl, rfl⟩
      · obtain rfl := congrArg Prod.fst (Option.some.inj hentry)
        exact ⟨b, hb, rfl, rfl⟩
  · intro h
    cases x with
    | publisher client_id id =>
        obtain ⟨p, hp, rfl, rfl, rfl⟩ := h
        exact ⟨_, mem_removalMessages.mpr (.inr (.inl ⟨p, hp, rfl⟩)), rfl, rfl⟩
    | subscriber client_id subscribe_to =>
        obtain ⟨s, hs, rfl, rfl, rfl⟩ := h
        exact ⟨_, mem_removalMessages.mpr (.inl ⟨s, hs, List.mem_cons_self⟩), rfl, rfl⟩
    | virtualPublisher src_stream_id =>
        obtain ⟨b, hb, rfl, rfl⟩ := h
        exact ⟨_, mem_removalMessages.mpr (.inr (.inr ⟨b, hb, List.mem_cons_of_mem _
          List.mem_cons_self⟩)), rfl, rfl⟩
    | virtualSubscriber id src_stream_id =>
        obtain ⟨b, hb, rfl, rfl, rfl⟩ := h
        exact ⟨_, mem_removalMessages.mpr (.inr (.inr ⟨b, hb, List.mem_cons_self⟩)), rfl, rfl⟩

/-- A bridge that is still there has its row, and one that is not is deleted. -/
theorem deleted_bridge_iff {b : BridgeStream} (hb : b ∈ r .bridge_stream client.room_id) :
    b ∈ deleted .bridge_stream client.room_id r (removed client r) ↔
      ∀ b' ∈ removed client r .bridge_stream client.room_id, b'.id ≠ b.id :=
  Table.mem_gone.trans (and_iff_right hb)

/-- The bridges that are left are those that are not deleted, up to their counts. -/
theorem exists_bridge_left_iff {Q : BridgeStream → Prop}
    (hQ : ∀ b n, Q { b with subscribe_count := n } ↔ Q b)
    (hsame : ∀ b ∈ r .bridge_stream client.room_id, ∀ b' ∈ r .bridge_stream client.room_id,
      Q b → Q b' → b = b') :
    (∃ b' ∈ removed client r .bridge_stream client.room_id, Q b') ↔
      (∃ b ∈ r .bridge_stream client.room_id, Q b) ∧
        ¬ ∃ b ∈ deleted .bridge_stream client.room_id r (removed client r), Q b := by
  constructor
  · rintro ⟨b', hb', hQb'⟩
    obtain ⟨b, hb, heq⟩ := footprintGone_removed.bridge_left b' hb'
    have hQb : Q b := (hQ b _).mp (heq ▸ hQb')
    refine ⟨⟨b, hb, hQb⟩, ?_⟩
    rintro ⟨b₁, hb₁, hQb₁⟩
    have hmem : b₁ ∈ r .bridge_stream client.room_id := (Table.mem_gone.mp hb₁).1
    obtain rfl := hsame b hb b₁ hmem hQb hQb₁
    exact (deleted_bridge_iff hb).mp hb₁ b' hb' (by rw [heq])
  · rintro ⟨⟨b, hb, hQb⟩, hnone⟩
    by_contra hleft
    refine hnone ⟨b, (deleted_bridge_iff hb).mpr fun b' hb' hid => ?_, hQb⟩
    obtain ⟨b₁, hb₁, heq⟩ := footprintGone_removed.bridge_left b' hb'
    have hid₁ : b₁.id = b.id := by rw [← hid, heq]
    have hrow : b₁ = b := Table.eq_of_key_eq hb₁ hb hid₁
    rw [hrow] at heq
    exact hleft ⟨b', hb', heq ▸ (hQ b _).mpr hQb⟩

/-- What is recorded after a removal was recorded before it and is not taken back. -/
theorem recorded_removed_iff {e : String} {x : Entry}
    (hunique : ∀ b ∈ r .bridge_stream client.room_id, ∀ b' ∈ r .bridge_stream client.room_id,
      Counted.pair b = Counted.pair b' → b = b') :
    Recorded (removed client r) client.room_id e x ↔
      Recorded r client.room_id e x ∧ ¬ TakenBack client r e x := by
  cases x with
  | publisher client_id id =>
      simp only [Recorded, TakenBack, deleted_publisher, mem_published,
        footprintGone_removed.publishers]
      constructor
      · rintro ⟨p, ⟨hp, hother⟩, rfl, rfl, rfl⟩
        refine ⟨⟨p, hp, rfl, rfl, rfl⟩, ?_⟩
        rintro ⟨p', ⟨-, hown⟩, -, hclient, -⟩
        exact hother (hclient ▸ hown)
      · rintro ⟨⟨p, hp, rfl, rfl, rfl⟩, hnone⟩
        exact ⟨p, ⟨hp, fun hown => hnone ⟨p, ⟨hp, hown⟩, rfl, rfl, rfl⟩⟩, rfl, rfl, rfl⟩
  | subscriber client_id subscribe_to =>
      simp only [Recorded, TakenBack, mem_visited, footprintGone_removed.subscribers]
      constructor
      · rintro ⟨s, ⟨hs, hstays⟩, rfl, rfl, rfl⟩
        refine ⟨⟨s, hs, rfl, rfl, rfl⟩, ?_⟩
        rintro ⟨s', ⟨-, hleaves⟩, -, hclient, hto⟩
        rw [Leaves, hclient, hto] at hleaves
        exact not_leaves_iff.mpr hstays hleaves
      · rintro ⟨⟨s, hs, rfl, rfl, rfl⟩, hnone⟩
        exact ⟨s, ⟨hs, not_leaves_iff.mp fun hleaves => hnone ⟨s, ⟨hs, hleaves⟩, rfl, rfl, rfl⟩⟩,
          rfl, rfl, rfl⟩
  | virtualPublisher src_stream_id =>
      refine exists_bridge_left_iff (fun _ _ => Iff.rfl) ?_
      rintro b hb b' hb' ⟨hrecver, hsrc⟩ ⟨hrecver', hsrc'⟩
      exact hunique b hb b' hb' (Prod.ext (hsrc.trans hsrc'.symm) (hrecver.trans hrecver'.symm))
  | virtualSubscriber id src_stream_id =>
      refine exists_bridge_left_iff (fun _ _ => Iff.rfl) ?_
      rintro b hb b' hb' ⟨-, hid, -⟩ ⟨-, hid', -⟩
      exact Table.eq_of_key_eq hb hb' (hid.trans hid'.symm)

theorem Agrees.removed {messages : List (String × Message)}
    (h : Agrees r client.room_id messages)
    (hunique : ∀ b ∈ r .bridge_stream client.room_id, ∀ b' ∈ r .bridge_stream client.room_id,
      Counted.pair b = Counted.pair b' → b = b') :
    Agrees (removed client r) client.room_id (messages ++ removalMessages client r) := by
  intro e x
  rw [mem_erizo_append_of_removals fun m hm => entry_of_mem_removalMessages hm,
    takenBack_iff, h e x,
    recorded_removed_iff hunique]

end Removal

/-! ## Sections that add entries -/

section Adds

variable {room_id : String} {r r' : Redis} {messages messages' : List (String × Message)}

theorem Agrees.adds (h : Agrees r room_id messages)
    (hadds : ∀ m ∈ messages', ∀ x, m.2.named? ≠ some (x, false))
    (hrecorded : ∀ e x, Recorded r' room_id e x ↔
      Recorded r room_id e x ∨ ∃ m ∈ messages', m.1 = e ∧ m.2.named? = some (x, true)) :
    Agrees r' room_id (messages ++ messages') := by
  intro e x
  rw [mem_erizo_append_of_adds hadds, h e x, hrecorded e x]

theorem Agrees.congr (h : Agrees r room_id messages)
    (hrecorded : ∀ e x, Recorded r' room_id e x ↔ Recorded r room_id e x) :
    Agrees r' room_id messages :=
  fun e x => (h e x).trans (hrecorded e x).symm

end Adds

section Publish

variable {self : ErizoController} {client : Client} {r : Redis} {p : Publisher}

/-- A publisher with a new id is recorded with those that were there. -/
theorem Agrees.published {messages : List (String × Message)}
    (h : Agrees r client.room_id messages) (hnew : ¬ Published r client.room_id p.id) :
    Agrees (r.update .publisher client.room_id ((r .publisher client.room_id).set p)) client.room_id
      (messages ++ [self.publisherMessage client p]) := by
  refine h.adds (by simp [publisherMessage, Message.named?]) fun e x => ?_
  cases x with
  | publisher client_id stream_id =>
      simp only [Recorded, Redis.update_self, Table.mem_set, List.mem_singleton, exists_eq_left,
        publisherMessage, Message.named?, Option.some.injEq, Prod.mk.injEq, Entry.publisher.injEq,
        and_true]
      constructor
      · rintro ⟨q, rfl | ⟨hq, -⟩, rfl, rfl, rfl⟩
        · exact .inr ⟨rfl, rfl, rfl⟩
        · exact .inl ⟨q, hq, rfl, rfl, rfl⟩
      · rintro (⟨q, hq, rfl, rfl, rfl⟩ | ⟨rfl, rfl, rfl⟩)
        · exact ⟨q, .inr ⟨hq, fun hkey => hnew ⟨q, hq, hkey⟩⟩, rfl, rfl, rfl⟩
        · exact ⟨p, .inl rfl, rfl, rfl, rfl⟩
  | _ => simp [Recorded, publisherMessage, Message.named?]

/-- An answer changes nothing of what is recorded of its publisher. -/
theorem Agrees.answered {messages : List (String × Message)} {room_id : String}
    {video_ssrc audio_ssrc : UInt32} (h : Agrees r room_id messages)
    (hp : p ∈ r .publisher room_id) :
    Agrees (r.update .publisher room_id
      ((r .publisher room_id).set (answered p video_ssrc audio_ssrc)))
      room_id messages := by
  refine h.congr fun e x => ?_
  cases x with
  | publisher client_id stream_id =>
      simp only [Recorded, Redis.update_self, Table.mem_set]
      constructor
      · rintro ⟨q, rfl | ⟨hq, -⟩, hq'⟩
        · exact ⟨p, hp, hq'⟩
        · exact ⟨q, hq, hq'⟩
      · rintro ⟨q, hq, hq'⟩
        by_cases hkey : q.id = p.id
        · obtain rfl : q = p := Table.eq_of_key_eq hq hp hkey
          exact ⟨answered q video_ssrc audio_ssrc, .inl rfl, hq'⟩
        · exact ⟨q, .inr ⟨hq, hkey⟩, hq'⟩
  | _ => simp [Recorded]

end Publish

section Subscription

variable {self : ErizoController} {client : Client} {w : World} {p : Publisher} {s : Subscriber}

/-- The subscription is the first one that needs its bridge. -/
def NeedsBridge (w : World) (client : Client) (s : Subscriber) : Prop :=
  s.is_bridge = true ∧ find? (pairOf s) (w.redis .bridge_stream client.room_id) = none

theorem mem_subscribeMessages (hr : w.ReadsSucceed) {m : String × Message} :
    m ∈ subscribeMessages self w client p s ↔
      (NeedsBridge w client s ∧
        m ∈ setup p (newBridgeStream client p s.subscribe_to w.oracle.streamId.tail.head)) ∨
      m = self.subscriberMessage client p s := by
  have hseen : seenBridge? (stored w client.room_id s) client.room_id s =
      find? (pairOf s) (w.redis .bridge_stream client.room_id) := by
    rw [seenBridge?_ok (readsSucceed_stored hr)]
    simp [stored]
  rw [subscribeMessages, List.mem_append, List.mem_singleton, NeedsBridge]
  refine or_congr_left ?_
  by_cases hs : s.is_bridge = true
  · rw [if_pos hs, setupMessages, hseen]
    cases find? (pairOf s) (w.redis .bridge_stream client.room_id) with
    | none => exact (and_iff_right ⟨hs, rfl⟩).symm
    | some b => simp
  · rw [if_neg hs]
    simp [hs]

theorem named_of_mem_subscribeMessages (hr : w.ReadsSucceed) {m : String × Message}
    (hm : m ∈ subscribeMessages self w client p s) (x : Entry) : m.2.named? ≠ some (x, false) := by
  rcases (mem_subscribeMessages hr).mp hm with ⟨-, hsetup⟩ | rfl
  · rcases List.mem_pair.mp hsetup with rfl | rfl <;> simp [Message.named?]
  · simp [subscriberMessage, Message.named?]

/-- The bridges after a subscription, up to their counts. -/
theorem exists_bridge_subscribed_iff {Q : BridgeStream → Prop}
    (hQ : ∀ b n, Q { b with subscribe_count := n } ↔ Q b)
    (hbridge : ∀ b ∈ w.redis .bridge_stream client.room_id, b.id ≠ w.oracle.streamId.tail.head) :
    (∃ b ∈ subscribed w client p s .bridge_stream client.room_id, Q b) ↔
      (∃ b ∈ w.redis .bridge_stream client.room_id, Q b) ∨
        NeedsBridge w client s ∧
          Q (newBridgeStream client p s.subscribe_to w.oracle.streamId.tail.head) := by
  rw [subscribed, NeedsBridge]
  by_cases hs : s.is_bridge = true
  · rw [if_pos hs, Redis.update_self, retain]
    cases hfind : find? (pairOf s) (w.redis .bridge_stream client.room_id) with
    | none =>
        dsimp only
        constructor
        · rintro ⟨b, hb, hQb⟩
          rcases Table.mem_set.mp hb with rfl | ⟨hb, -⟩
          · exact .inr ⟨⟨hs, rfl⟩, hQb⟩
          · exact .inl ⟨b, hb, hQb⟩
        · rintro (⟨b, hb, hQb⟩ | ⟨-, hQb⟩)
          · exact ⟨b, Table.mem_set.mpr (.inr ⟨hb, hbridge b hb⟩), hQb⟩
          · exact ⟨_, Table.mem_set_self _ _, hQb⟩
    | some b₀ =>
        dsimp only
        have hb₀ := (find?_some hfind).1
        constructor
        · rintro ⟨b, hb, hQb⟩
          rcases Table.mem_set.mp hb with rfl | ⟨hb, -⟩
          · exact .inl ⟨b₀, hb₀, (hQ b₀ _).mp hQb⟩
          · exact .inl ⟨b, hb, hQb⟩
        · rintro (⟨b, hb, hQb⟩ | ⟨⟨-, hnone⟩, -⟩)
          · by_cases hkey : b.id = b₀.id
            · obtain rfl : b = b₀ := Table.eq_of_key_eq hb hb₀ hkey
              exact ⟨_, Table.mem_set_self _ _, (hQ b _).mpr hQb⟩
            · exact ⟨b, Table.mem_set.mpr (.inr ⟨hb, hkey⟩), hQb⟩
          · cases hnone
  · rw [if_neg hs]
    simp [stored, hs]

/-- What is recorded after a subscription is what was recorded, and what its messages say. -/
theorem recorded_subscribed_iff (hr : w.ReadsSucceed)
    (hnew : ∀ s₀ ∈ w.redis .subscriber client.room_id, s₀.id ≠ s.id)
    (hbridge : ∀ b ∈ w.redis .bridge_stream client.room_id, b.id ≠ w.oracle.streamId.tail.head)
    {e : String} {x : Entry} :
    Recorded (subscribed w client p s) client.room_id e x ↔
      Recorded w.redis client.room_id e x ∨
        ∃ m ∈ subscribeMessages self w client p s, m.1 = e ∧ m.2.named? = some (x, true) := by
  have hnamed : (∃ m ∈ subscribeMessages self w client p s, m.1 = e ∧ m.2.named? = some (x, true)) ↔
      (NeedsBridge w client s ∧
        ((client.erizo_id = e ∧ .virtualPublisher s.subscribe_to = x) ∨
          p.erizo_id = e ∧ .virtualSubscriber w.oracle.streamId.tail.head s.subscribe_to = x)) ∨
      s.erizo_id = e ∧ .subscriber s.client_id s.subscribe_to = x := by
    simp only [mem_subscribeMessages hr, or_and_right, exists_or, exists_eq_left, and_assoc,
      exists_and_left, setup, List.mem_pair, subscriberMessage, Message.named?, newBridgeStream,
      Option.some.injEq, Prod.mk.injEq, and_true]
  rw [hnamed]
  cases x with
  | publisher client_id stream_id => simp [Recorded, subscribed_publisher]
  | subscriber client_id subscribe_to =>
      simp only [Recorded, subscribed_subscriber, Table.mem_set, reduceCtorEq, and_false, or_false,
        false_or, Entry.subscriber.injEq]
      constructor
      · rintro ⟨q, rfl | ⟨hq, -⟩, rfl, rfl, rfl⟩
        · exact .inr ⟨rfl, rfl, rfl⟩
        · exact .inl ⟨q, hq, rfl, rfl, rfl⟩
      · rintro (⟨q, hq, rfl, rfl, rfl⟩ | ⟨rfl, rfl, rfl⟩)
        · exact ⟨q, .inr ⟨hq, hnew q hq⟩, rfl, rfl, rfl⟩
        · exact ⟨s, .inl rfl, rfl, rfl, rfl⟩
  | virtualPublisher src_stream_id =>
      refine (exists_bridge_subscribed_iff (fun _ _ => Iff.rfl) hbridge).trans (or_congr_right ?_)
      simp [newBridgeStream]
  | virtualSubscriber bridge_id src_stream_id =>
      refine (exists_bridge_subscribed_iff (fun _ _ => Iff.rfl) hbridge).trans (or_congr_right ?_)
      simp [newBridgeStream]

end Subscription

/-! ## Every section keeps the agreement -/

/-- What the sections of the room keep: its references are valid, and the messages that were
pushed say what it records. -/
structure MediaKept (room_id : String) (w : World) : Prop where
  referenced : RoomReferenced room_id w
  agrees : Agrees w.redis room_id w.outbox

section Sections

variable {self : ErizoController} {client : Client} {w : World} {p : Publisher}

theorem MediaKept.withOracle {room_id : String} (h : MediaKept room_id w) (o : Oracle) :
    MediaKept room_id (w.withOracle o) := ⟨h.referenced.withOracle o, h.agrees⟩

theorem MediaKept.removeClientLocked (hw : w.Fits) (h : MediaKept client.room_id w) :
    MediaKept client.room_id (exec (removeClientLocked client) w).2 := by
  refine ⟨h.referenced.removeClientLocked hw, ?_⟩
  rw [exec_removeClientLocked_ok hw.readsSucceed hw.writesSucceed]
  exact h.agrees.removed h.referenced.backed.unique

theorem MediaKept.subscribeLocked {stream_id : String} (hw : w.Fits)
    (h : MediaKept client.room_id w) :
    MediaKept client.room_id (exec (self.subscribeLocked client stream_id) w).2 := by
  refine ⟨h.referenced.subscribeLocked hw, ?_⟩
  have hread : readPublisher? w client.room_id stream_id =
      (w.redis .publisher client.room_id).get? (ACLRedis.c_str stream_id) :=
    readPublisher?_ok hw.readsSucceed
  cases hget : (w.redis .publisher client.room_id).get? (ACLRedis.c_str stream_id) with
  | none =>
      rw [exec_subscribeLocked_missing (hread.trans hget)]
      exact h.agrees
  | some p =>
      by_cases hp : Publisher.Known p
      · obtain ⟨w', hexec, hredis, -, houtbox⟩ :=
          @exec_subscribeLocked_ok self w client stream_id p hw.readsSucceed
            hw.writesSucceed hget hp
        rw [hexec, hredis, houtbox]
        refine h.agrees.adds
          (fun m hm => named_of_mem_subscribeMessages hw.readsSucceed hm) fun e x =>
          recorded_subscribed_iff hw.readsSucceed (fun s hs heq => ?_) fun b hb heq => ?_
        · have hmem := h.referenced.subscriber_ids s hs
          rw [heq] at hmem
          exact hw.fresh 0 hmem
        · have hmem := h.referenced.bridge_ids b hb
          rw [heq] at hmem
          exact hw.fresh 1 hmem
      · rw [exec_subscribeLocked_unknown (hread.trans hget) hp]
        exact h.agrees

/-- A request files its publisher under an id that no publisher has. -/
theorem MediaKept.publishLocked (hw : w.Fits) (h : MediaKept client.room_id w)
    (hnew : ¬ Published w.redis client.room_id p.id) :
    MediaKept client.room_id (exec (self.publishLocked client p) w).2 := by
  rw [exec_publishLocked, hw.writesSucceed.head, if_neg Bool.false_ne_true]
  refine ⟨h.referenced.of_eq (by simp) (by simp) (fun _ => published_set) (List.Subset.refl _), ?_⟩
  exact h.agrees.published hnew

theorem MediaKept.publisherAnswerLocked {room_id stream_id : String}
    {video_ssrc audio_ssrc : UInt32} (hw : w.Fits) (h : MediaKept room_id w) :
    MediaKept room_id (exec (publisherAnswerLocked room_id stream_id video_ssrc audio_ssrc)
      w).2 := by
  rw [exec_publisherAnswerLocked, hw.writesSucceed.head, readPublisher?, hw.readsSucceed.head,
    if_neg Bool.false_ne_true]
  cases hget : (w.redis .publisher room_id).get? (ACLRedis.c_str stream_id) with
  | none => exact ⟨h.referenced.of_eq rfl rfl (fun _ hid => hid) (List.Subset.refl _), h.agrees⟩
  | some p =>
      dsimp only
      rw [if_neg Bool.false_ne_true]
      refine ⟨h.referenced.of_eq (by simp) (by simp) (fun _ => published_set)
        (List.Subset.refl _), ?_⟩
      rw [World.effect_outbox, List.append_nil]
      exact h.agrees.answered (Table.get?_eq_some_iff.mp hget).1

end Sections

end ErizoController
