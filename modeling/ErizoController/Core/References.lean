import ErizoController.Library.Token
import ErizoController.Core.Counts
import ErizoController.Core.Footprint

/-!
# References to streams

A stored subscription or bridge refers to a stored publisher whenever the lock of its room
is free, if the requests ask for streams by ids without a NUL: the id of a request is stored
whole, but Redis is asked for what precedes its first NUL. For the bridges this does not rest
on exact counts: a bridge is used up by as many removals as its stream has bridged
subscribers, even where its count has overflowed. A publisher that was removed is never filed
again, since its id was drawn once and an answer of an erizo only files what it has just read.
-/

open RefCount Json Locked Prog Script Room
open ACLRedis (c_str Plain c_str_of_plain)

namespace ErizoController

/-! ## The sections keep the references -/

/-- A publisher of the id is stored. -/
def Published (r : Redis) (room_id stream_id : String) : Prop :=
  ∃ p ∈ r .publisher room_id, p.id = stream_id

instance (r : Redis) (room_id stream_id : String) : Decidable (Published r room_id stream_id) :=
  inferInstanceAs (Decidable (∃ p ∈ (r .publisher room_id).rows, p.id = stream_id))

/-- The bridges of a room do not outlive their uses. -/
def BackedBridges (r : Redis) (room_id : String) : Prop :=
  Backed (r .bridge_stream room_id) (usesIn (r .subscriber room_id).rows)

/-- What the sections of a room keep: the ids of its subscribers and bridges are used, its
subscribers refer to its publishers unless they ask for an id with a NUL, and its bridges to
its subscribers. -/
structure RoomReferenced (room_id : String) (w : World) : Prop where
  subscriber_ids : ∀ s ∈ w.redis .subscriber room_id, s.id ∈ w.used
  bridge_ids : ∀ b ∈ w.redis .bridge_stream room_id, b.id ∈ w.used
  subscribers : ∀ s ∈ w.redis .subscriber room_id, Plain s.subscribe_to →
    Published w.redis room_id s.subscribe_to
  backed : BackedBridges w.redis room_id

/-- A bridge is for some subscriber's stream. -/
theorem BackedBridges.subscriber {r : Redis} {room_id : String} (h : BackedBridges r room_id)
    {b : BridgeStream} (hb : b ∈ r .bridge_stream room_id) :
    ∃ s ∈ r .subscriber room_id, s.subscribe_to = b.src_stream_id := by
  have hpos : 0 < usesIn (r .subscriber room_id).rows (Counted.pair b) := (h.used_up b hb).pos
  obtain ⟨s, hs, huses⟩ := List.countP_pos_iff.mp hpos
  have hpair : pairOf s = Counted.pair b := (of_decide_eq_true huses).2
  exact ⟨s, hs, congrArg Prod.fst hpair⟩

theorem RoomReferenced.of_eq {room_id : String} {w w' : World} (h : RoomReferenced room_id w)
    (hsubscriber : w'.redis .subscriber room_id = w.redis .subscriber room_id)
    (hbridge : w'.redis .bridge_stream room_id = w.redis .bridge_stream room_id)
    (hpublisher : ∀ stream_id, Published w.redis room_id stream_id →
      Published w'.redis room_id stream_id)
    (hused : w.used ⊆ w'.used) : RoomReferenced room_id w' where
  subscriber_ids s hs := hused (h.subscriber_ids s (hsubscriber ▸ hs))
  bridge_ids b hb := hused (h.bridge_ids b (hbridge ▸ hb))
  subscribers s hs hplain := hpublisher _ (h.subscribers s (hsubscriber ▸ hs) hplain)
  backed := by
    rw [BackedBridges, hsubscriber, hbridge]
    exact h.backed

/-- A room that is not in use. -/
theorem RoomReferenced.of_empty {room_id : String} {w : World}
    (hsubscriber : w.redis .subscriber room_id = ∅) (hbridge : w.redis .bridge_stream room_id = ∅) :
    RoomReferenced room_id w := by
  refine ⟨fun s hs => ?_, fun b hb => ?_, fun s hs => ?_, ?_⟩
  · rw [hsubscriber] at hs
    exact absurd hs (Table.not_mem_empty s)
  · rw [hbridge] at hb
    exact absurd hb (Table.not_mem_empty b)
  · rw [hsubscriber] at hs
    exact absurd hs (Table.not_mem_empty s)
  · rw [BackedBridges, hbridge]
    exact backed_empty _

section Removal

variable {client : Client} {w : World}

/-- A removal takes at least one step off a bridge for each user that goes. -/
theorem BackedBridges.removed {r : Redis} (h : BackedBridges r client.room_id) :
    BackedBridges (removed client r) client.room_id := by
  have hall := Backed.dropAll h (bridgedPairs (visited client r))
  simp only [count_bridgedPairs] at hall
  rw [BackedBridges, removed_bridge_stream, removed_subscriber, rows_erase_visited]
  refine Backed.subset ?_ fun b hb => mem_of_mem_unpublishAll hb
  convert hall using 1
  exact funext fun pair => usesIn_sub_viewings.symm

/-- A removal keeps the references: who views a stream of the client goes with it. -/
theorem RoomReferenced.removeClientLocked (hw : w.Fits) (h : RoomReferenced client.room_id w) :
    RoomReferenced client.room_id (exec (removeClientLocked client) w).2 := by
  rw [exec_removeClientLocked_ok hw.readsSucceed hw.writesSucceed]
  refine ⟨fun s hs => ?_, fun b hb => ?_, fun s hs hplain => ?_, h.backed.removed⟩
  · exact h.subscriber_ids s ((footprintGone_removed.subscribers s).mp hs).1
  · obtain ⟨b₀, hb₀, hb'⟩ := footprintGone_removed.bridge_left b hb
    rw [hb']
    exact h.bridge_ids b₀ hb₀
  · obtain ⟨hs, -, hstays⟩ := (footprintGone_removed.subscribers s).mp hs
    obtain ⟨p, hp, hid⟩ := h.subscribers s hs hplain
    refine ⟨p, (footprintGone_removed.publishers p).mpr ⟨hp, fun hown => ?_⟩, hid⟩
    exact hstays p hp hown hid.symm

end Removal

section Subscription

variable {client : Client} {w : World} {p : Publisher} {s : Subscriber}

/-- A bump is undone by the next drop, also where the count overflows. -/
theorem setCount_bump_undo (b : BridgeStream) :
    Counted.setCount b
      (Counted.count (Counted.setCount b (Counted.count b + 1)) - 1) = b := by
  have hbump := setCount_sub_one (Counted.setCount b (Counted.count b + 1))
  rw [Counted.setCount_setCount] at hbump
  rw [hbump, setCount_add]
  simp

/-- A subscription with new ids takes one use of its bridge. -/
theorem backedBridges_subscribed (h : BackedBridges w.redis client.room_id)
    (hnew : ∀ s₀ ∈ w.redis .subscriber client.room_id, s₀.id ≠ s.id)
    (hbridge : ∀ b ∈ w.redis .bridge_stream client.room_id, b.id ≠ w.oracle.streamId.tail.head)
    (herizo : s.erizo_id = client.erizo_id) :
    BackedBridges (subscribed w client p s) client.room_id := by
  rw [BackedBridges, subscribed_subscriber]
  by_cases hs : s.is_bridge = true
  · have hbridges : (subscribed w client p s) .bridge_stream client.room_id =
        retain (pairOf s) (newBridgeStream client p s.subscribe_to w.oracle.streamId.tail.head)
          (w.redis .bridge_stream client.room_id) := by
      rw [subscribed, if_pos hs, Redis.update_self]
    have hpairOf : Counted.pair
        (newBridgeStream client p s.subscribe_to w.oracle.streamId.tail.head) = pairOf s :=
      congrArg (Prod.mk s.subscribe_to) herizo.symm
    rw [hbridges]
    refine Eq.mp (congrArg _ (funext fun pair => ?_))
      (Backed.retain h hpairOf rfl hbridge setCount_bump_undo)
    rw [usesIn_set hnew, List.count_singleton]
    simp [hs]
  · have hbridges : (subscribed w client p s) .bridge_stream client.room_id =
        w.redis .bridge_stream client.room_id := by
      rw [subscribed, if_neg hs]
      simp [stored]
    rw [hbridges]
    refine Eq.mp (congrArg _ (funext fun pair => ?_)) h
    rw [usesIn_set hnew]
    simp [hs]

theorem subscribed_publisher :
    (subscribed w client p s) .publisher client.room_id = w.redis .publisher client.room_id := by
  rw [subscribed]
  split <;> simp [stored]

variable {self : ErizoController} {stream_id : String}

/-- A subscription keeps the references: it has just read its publisher. -/
theorem RoomReferenced.subscribeLocked (hw : w.Fits) (h : RoomReferenced client.room_id w) :
    RoomReferenced client.room_id (exec (self.subscribeLocked client stream_id) w).2 := by
  obtain ⟨reply, w', hexec, ⟨hredis, hused⟩ | ⟨p, s, hs⟩⟩ :=
    @subscribeLocked_cases client w self stream_id hw h.subscriber_ids h.bridge_ids
  · rw [hexec]
    exact h.of_eq (by rw [hredis]) (by rw [hredis]) (fun _ hid => hredis ▸ hid)
      (hused ▸ List.Subset.refl _)
  · have hpublished : ∀ id, Published w.redis client.room_id id →
        Published w'.redis client.room_id id := by
      intro id hid
      rwa [Published, hs.redis, subscribed_publisher]
    rw [hexec]
    refine ⟨hs.subscriber_ids, hs.bridge_ids, fun s₀ hs₀ hplain => ?_, ?_⟩
    · rw [hs.redis, subscribed_subscriber, Table.mem_set] at hs₀
      rcases hs₀ with rfl | ⟨hs₀, -⟩
      · have hid : p.id = s₀.subscribe_to := by
          rw [hs.publisher_id, ← hs.subscribe_to, c_str_of_plain hplain]
        exact hpublished _ ⟨p, hs.publisher, hid⟩
      · exact hpublished _ (h.subscribers s₀ hs₀ hplain)
    · rw [BackedBridges, hs.redis]
      exact backedBridges_subscribed h.backed hs.new hs.bridge_new hs.erizo_id

end Subscription

theorem RoomReferenced.withOracle {room_id : String} {v : World} (h : RoomReferenced room_id v)
    (o : Oracle) : RoomReferenced room_id (v.withOracle o) :=
  h.of_eq rfl rfl (fun _ => id) (List.Subset.refl _)

/-- Filing a publisher loses none. -/
theorem published_set {r : Redis} {room_id stream_id : String} {p : Publisher}
    (h : Published r room_id stream_id) :
    Published (r.update .publisher room_id ((r .publisher room_id).set p)) room_id stream_id := by
  obtain ⟨q, hq, hid⟩ := h
  rw [Published, Redis.update_self]
  by_cases hkey : q.id = p.id
  · exact ⟨p, Table.mem_set_self _ _, hkey.symm.trans hid⟩
  · exact ⟨q, Table.mem_set.mpr (.inr ⟨hq, hkey⟩), hid⟩

/-- Every section keeps the references of its room. -/
theorem IsSection.referenced {β : Type} {room_id : String} {body : Handler β}
    (h : IsSection room_id body) :
    Room.guard.Section (fun _ v => v.Fits) RoomReferenced room_id body := by
  refine ⟨h.each, fun v hv hkeeps => Room.wlp_of_exec hv fun o ho => ?_⟩
  cases h with
  | removeClient client => exact (hkeeps.withOracle o).removeClientLocked ho
  | subscribe self client stream_id => exact (hkeeps.withOracle o).subscribeLocked ho
  | publish self client publisher =>
      rw [exec_publishLocked, ho.writesSucceed.head, if_neg Bool.false_ne_true]
      exact (hkeeps.withOracle o).of_eq (by simp) (by simp) (fun _ => published_set)
        (List.Subset.refl _)
  | publisher_answer room_id stream_id video_ssrc audio_ssrc =>
      rw [exec_publisherAnswerLocked, ho.writesSucceed.head]
      split
      · exact (hkeeps.withOracle o).of_eq rfl rfl (fun _ => id) (List.Subset.refl _)
      · rw [if_neg Bool.false_ne_true]
        exact (hkeeps.withOracle o).of_eq (by simp) (by simp) (fun _ => published_set)
          (List.Subset.refl _)
  | ready room_id client_id stream_id =>
      exact hkeeps.of_eq rfl rfl (fun _ => id) (List.Subset.refl _)

/-! ## The life of a publisher -/

/-- The reply that draws the id. -/
def draws (stream_id : String) : (c : Command) → c.Reply → Prop
  | .getStreamID, new => new = stream_id
  | _, _ => False

/-- The reply that shows the publisher. -/
def reads (room_id stream_id : String) : (c : Command) → c.Reply → Prop
  | .hget .publisher name _, (_, row) => name = room_id ∧ ∃ p ∈ row, p.id = stream_id
  | _, _ => False

def files (room_id stream_id : String) : Command → Prop
  | .hset .publisher name row => name = room_id ∧ row.id = stream_id
  | _ => False

def removes (room_id stream_id : String) : Command → Prop
  | .hdel .publisher name fields => name = room_id ∧ stream_id ∈ fields
  | _ => False

section Effects

variable {room_id stream_id : String} {c : Command} {w : World}

/-- Only `getStreamID` uses an id. -/
theorem used_frame (h : c ≠ .getStreamID) : (perform c w).2.used = w.used := by
  cases c with
  | getStreamID => exact absurd rfl h
  | hset k name row =>
      rw [perform]
      split <;> rfl
  | hdel k name fields =>
      rw [perform]
      split <;> rfl
  | hget k name field =>
      rw [perform]
      split <;> rfl
  | hvals k name =>
      rw [perform]
      split <;> rfl
  | _ => rfl

/-- A publisher stays until a removal names it. -/
theorem Published.after (h : Published w.redis room_id stream_id) :
    Published (perform c w).2.redis room_id stream_id ∨ removes room_id stream_id c := by
  by_cases hset : ∃ row, c = .hset .publisher room_id row
  · obtain ⟨row, rfl⟩ := hset
    refine .inl ?_
    rw [perform]
    split
    · exact h
    · exact published_set h
  by_cases hdel : ∃ fields, c = .hdel .publisher room_id fields
  · obtain ⟨fields, rfl⟩ := hdel
    by_cases hmem : stream_id ∈ fields
    · exact .inr ⟨rfl, hmem⟩
    · refine .inl ?_
      obtain ⟨p, hp, hid⟩ := h
      rw [perform]
      split
      · exact ⟨p, hp, hid⟩
      · refine ⟨p, ?_, hid⟩
        simp only [World.store, Redis.update_self, World.drawWrite_redis]
        exact Table.mem_erase.mpr ⟨hp, by rwa [key_publisher, hid]⟩
  · refine .inl ?_
    rwa [Published, perform_frame w (fun row heq => hset ⟨row, heq⟩) fun fields heq =>
      hdel ⟨fields, heq⟩]

/-- A publisher appears where it is filed. -/
theorem published_of_perform (h : Published (perform c w).2.redis room_id stream_id) :
    Published w.redis room_id stream_id ∨ files room_id stream_id c := by
  obtain ⟨p, hp, hid⟩ := h
  by_cases hset : ∃ row, c = .hset .publisher room_id row
  · obtain ⟨row, rfl⟩ := hset
    rw [perform] at hp
    split at hp
    · exact .inl ⟨p, hp, hid⟩
    · simp only [World.store, Redis.update_self, World.drawWrite_redis] at hp
      rcases Table.mem_set.mp hp with rfl | ⟨hp, -⟩
      · exact .inr ⟨rfl, hid⟩
      · exact .inl ⟨p, hp, hid⟩
  · exact .inl ⟨p, perform_subset (fun row heq => hset ⟨row, heq⟩) hp, hid⟩

/-- What is read is stored. -/
theorem published_of_reads (h : reads room_id stream_id c (perform c w).1) :
    Published w.redis room_id stream_id := by
  cases c with
  | hget k name field =>
      cases k with
      | publisher =>
          rw [perform] at h
          split at h
          · obtain ⟨-, p, hp, -⟩ := h
            cases hp
          · obtain ⟨rfl, p, hp, hid⟩ := h
            exact ⟨p, (Table.get?_eq_some_iff.mp hp).1, hid⟩
      | _ => exact h.elim
  | _ => exact h.elim

end Effects

/-- A publisher is a token of its room: its id is drawn once, and it is filed and removed
under the lock. -/
def publisherToken (room_id stream_id : String) :
    Token Command Command.Reply String World perform where
  Inv := World.Fits
  Drawn w := stream_id ∈ w.used
  Stored w := Published w.redis room_id stream_id
  lock := room_id
  draws := draws stream_id
  reads := reads room_id stream_id
  files := files room_id stream_id
  removes := removes room_id stream_id
  inv_step c w h := h.after c
  drawn_step c w hw h := by
    refine ⟨used_subset c w h, ?_⟩
    cases c with
    | getStreamID =>
        intro hid
        refine hw.fresh 0 ?_
        rw [show w.oracle.streamId.get 0 = stream_id from hid]
        exact h
    | _ => exact id
  drawn_of_step c w h := by
    by_cases hc : c = .getStreamID
    · subst hc
      exact (List.mem_cons.mp h).symm.imp id Eq.symm
    · exact .inl (used_frame hc ▸ h)
  drawn_of_draws c w h := by
    cases c with
    | getStreamID => exact List.mem_cons.mpr (.inl (Eq.symm h))
    | _ => exact h.elim
  stored_step c w h := h.after
  stored_of_step c w h := published_of_perform h
  stored_of_reads c w h := published_of_reads h

section Scripts

variable {room_id stream_id : String}

theorem Within.not_files {name : String} {sets dels : List Kind} {c : Command}
    (h : Within name sets dels c) (hset : .publisher ∉ sets ∨ name ≠ room_id) :
    ¬ files room_id stream_id c := by
  cases c with
  | hset k name' row =>
      cases k with
      | publisher =>
          rintro ⟨rfl, -⟩
          exact hset.elim (fun hnot => hnot h.1) fun hne => hne (h.2 trivial).symm
      | _ => exact id
  | _ => exact id

theorem Within.not_removes {name : String} {sets dels : List Kind} {c : Command}
    (h : Within name sets dels c) (hdel : .publisher ∉ dels ∨ name ≠ room_id) :
    ¬ removes room_id stream_id c := by
  cases c with
  | hdel k name' fields =>
      cases k with
      | publisher =>
          rintro ⟨rfl, -⟩
          exact hdel.elim (fun hnot => hnot h.1) fun hne => hne (h.2 trivial).symm
      | _ => exact id
  | _ => exact id

section Within

variable {β : Type} {name : String} {sets dels : List Kind} {body : Handler β}

/-- A section that files no publisher. -/
theorem cleanSection_of_within (h : body.Each (Within name sets dels)) (hset : .publisher ∉ sets) :
    (publisherToken room_id stream_id).CleanSection name body :=
  Token.cleanSection_of_each (h.mono fun _ hc => hc.not_files (.inl hset))
    fun hne => h.mono fun _ hc => hc.not_removes (.inr hne)

/-- A section that removes no publisher. -/
theorem filing_of_within (h : body.Each (Within name sets dels)) (hdel : .publisher ∉ dels) :
    (publisherToken room_id stream_id).Filing name body :=
  ⟨fun _ => h.mono fun _ hc => hc.not_removes (.inl hdel),
    fun hne => (h.mono fun _ hc => hc.not_files (.inr hne)).and
      (h.mono fun _ hc => hc.not_removes (.inl hdel))⟩

end Within

/-- An answer only files the publisher it has read. -/
theorem avoids_publisherAnswerLocked (name id : String) (video_ssrc audio_ssrc : UInt32) :
    (publisherToken room_id stream_id).Avoids
      (publisherAnswerLocked name id video_ssrc audio_ssrc) := by
  refine ⟨fun h => h, ?_⟩
  rintro ⟨rc, row⟩ hreads
  by_cases hrc : rc = -1
  · subst hrc
    trivial
  · dsimp only [Prog.bind]
    rw [if_neg hrc]
    cases row with
    | none => trivial
    | some p =>
        have hadd : ¬ files room_id stream_id
            (.hset .publisher name { p with video_ssrc, audio_ssrc }) :=
          fun h => hreads ⟨h.1, p, rfl, h.2⟩
        have hrest : (RedisHelper.addPublisher name { p with video_ssrc, audio_ssrc } >>=
            fun rc => pure (decide (rc = 0)) : Handler Bool).Each fun c =>
              ¬ files room_id stream_id c :=
          Each.bind (RedisHelper.each_add hadd) fun _ => trivial
        exact Token.avoids_of_each hrest

theorem PlainSection.cleanSection {β : Type} {name : String} {body : Handler β}
    (h : PlainSection name body) : (publisherToken room_id stream_id).CleanSection name body := by
  cases h with
  | removeClient client => exact cleanSection_of_within (each_removeClientLocked client) (by simp)
  | subscribe self client id =>
      exact cleanSection_of_within (each_subscribeLocked self client id) (by simp)
  | publisher_answer name id video_ssrc audio_ssrc =>
      exact ⟨(filing_of_within (each_publisherAnswerLocked _ _ _ _) (by simp)).separate,
        fun _ => avoids_publisherAnswerLocked _ _ _ _⟩
  | ready name client_id id =>
      exact Token.cleanSection_of_each ((each_issue _).mpr fun h => h)
        fun _ => (each_issue _).mpr fun h => h

theorem clean_of_plain {α : Type} {p : Session α} (h : p.All PlainCommand PlainSection) :
    (publisherToken room_id stream_id).Clean p := by
  refine Token.clean_of_all (fun c hc => ?_) (fun _ _ hbody => hbody.cleanSection) h
  cases c with
  | hset k name row =>
      cases k with
      | publisher => exact absurd trivial hc
      | _ => exact ⟨fun h => h, fun h => h, fun _ h => h⟩
  | hdel k name fields =>
      cases k with
      | publisher => exact absurd trivial hc
      | _ => exact ⟨fun h => h, fun h => h, fun _ h => h⟩
  | getStreamID => exact hc.elim
  | _ => exact ⟨fun h => h, fun h => h, fun _ h => h⟩

/-- A publish request with another id. -/
theorem cleanSection_publishLocked (self : ErizoController) (client : Client) {p : Publisher}
    (hp : p.id ≠ stream_id) :
    (publisherToken room_id stream_id).CleanSection client.room_id
      (self.publishLocked client p) := by
  refine ⟨(filing_of_within (each_publishLocked self client p) (by simp)).separate, fun _ => ?_⟩
  refine Token.avoids_of_each (Each.bind (RedisHelper.each_add fun h => hp h.2) fun rc => ?_)
  split
  · trivial
  · exact Each.bind (each_message (fun _ _ h => h) _ _) fun _ => trivial

/-- A publish request files the publisher under the id it has drawn, and no other. -/
theorem clean_handlePublish (self : ErizoController) (client : Client) (root : Value) :
    (publisherToken room_id stream_id).Clean (self.handlePublish client root) := by
  rw [handlePublish]
  split
  · trivial
  · refine ⟨fun h => h, fun h => h, fun video_ssrc => ⟨fun _ => ?_, fun h => h.elim⟩⟩
    refine ⟨fun h => h, fun h => h, fun audio_ssrc => ⟨fun _ => ?_, fun h => h.elim⟩⟩
    refine ⟨fun h => h, fun h => h, fun id => ⟨fun hid => ?_, fun _ => ?_⟩⟩
    · refine ⟨cleanSection_publishLocked self client hid, fun reply => ?_⟩
      cases reply <;> trivial
    · refine ⟨filing_of_within (each_publishLocked self client _) (by simp), fun reply => ?_⟩
      cases reply <;> trivial

theorem clean_onMessage (self : ErizoController) (client : Client) (root : Option Value) :
    (publisherToken room_id stream_id).Clean (self.onMessage client root) := by
  unfold onMessage
  split
  · split_ifs
    · exact clean_of_plain (All.bind (all_monadLift (each_handleToken _ _)) fun _ => trivial)
    · exact (clean_handlePublish _ _ _).bind fun _ => ⟨trivial, trivial⟩
    · exact clean_of_plain (all_plain (All.bind (all_handleSubscribe _ _ _) fun _ => trivial))
    · exact clean_of_plain
        (all_plain (All.bind (all_monadLift (each_handleSignaling _ _)) fun _ => trivial))
    · trivial
  · trivial

theorem Job.clean (job : Job) : (publisherToken room_id stream_id).Clean job.script := by
  cases job with
  | onMessage self client root =>
      exact (clean_onMessage self client root).bind fun _ => ⟨trivial, trivial⟩
  | onClose client =>
      exact clean_of_plain (all_plain ((all_removeClient client).bind fun _ => trivial))
  | onSignalingMessage self root =>
      exact clean_of_plain (all_plain ((all_onSignalingMessage self root).bind fun _ => trivial))
  | task task =>
      cases task with
      | notifyToSubscribe room_id client_id stream_id =>
          exact clean_of_plain
            (all_plain (all_monadLift (each_notifyToSubscribe room_id client_id stream_id)))
      | removeExpireErizoController id =>
          exact clean_of_plain (all_plain (all_removeExpireErizoController id))

end Scripts

/-! ## Every run -/

/-- The subscriptions and bridges of a room refer to its publishers. -/
structure Referenced (r : Redis) (room_id : String) : Prop where
  subscribers : ∀ s ∈ r .subscriber room_id, Published r room_id s.subscribe_to
  bridges : ∀ b ∈ r .bridge_stream room_id, Published r room_id b.src_stream_id

variable {T : Type} [DecidableEq T] {s : Pool Command Command.Reply String T World}

/-- The bridges of a room that nobody has locked are for its subscribers. -/
theorem backedBridges_of_free (hs : (threads T).Reachable s) {room_id : String}
    (hfree : s.owner room_id = none) : BackedBridges s.shared.redis room_id := by
  have hinit : ∀ w : World, (w.Fits ∧ ∀ k, k.Guarded → ∀ room_id, w.redis k room_id = ∅) →
      Room.guard.Inv w ∧ ∀ room_id, ∃ v, Room.guard.Sees room_id v w ∧
        RoomReferenced room_id v := by
    rintro w ⟨hfits, hempty⟩
    refine ⟨hfits, fun room_id => ⟨w, ⟨fun _ _ => rfl, List.Subset.refl _, hfits⟩, ?_⟩⟩
    exact .of_empty (hempty .subscriber trivial room_id) (hempty .bridge_stream trivial room_id)
  have hready : ∀ (_ : Action T Job) (s : Pool Command Command.Reply String T World)
      (room_id : String) v, True → Room.guard.Sees room_id v s.shared → v.Fits :=
    fun _ _ _ _ _ hv => hv.fits
  obtain ⟨v, hv, hkeeps⟩ := Guard.keeps_of_free
    (fun _ job _ _ => job.all_script.mono fun _ _ h => h.referenced) hready hinit hs hfree
  rw [BackedBridges, ← hv.redis .subscriber trivial, ← hv.redis .bridge_stream trivial]
  exact hkeeps.backed

/-! ## Requests without a NUL -/

/-- The subscriber that is filed asks for an id without a NUL. -/
def FilesPlain : Command → Prop
  | .hset .subscriber _ row => Plain row.subscribe_to
  | _ => True

/-- The subscribers of a room ask for ids without a NUL. -/
def PlainViews (room_id : String) (w : World) : Prop :=
  ∀ s ∈ w.redis .subscriber room_id, Plain s.subscribe_to

theorem PlainViews.after {room_id : String} {w : World} {c : Command} (h : PlainViews room_id w)
    (hc : FilesPlain c) : PlainViews room_id (perform c w).2 := by
  intro s hs
  by_cases hset : ∃ row, c = .hset .subscriber room_id row
  · obtain ⟨row, rfl⟩ := hset
    rw [perform] at hs
    split at hs
    · exact h s hs
    · simp only [World.store, Redis.update_self, World.drawWrite_redis] at hs
      rcases Table.mem_set.mp hs with rfl | ⟨hs, -⟩
      · exact hc
      · exact h s hs
  · exact h s (perform_subset (fun row heq => hset ⟨row, heq⟩) hs)

theorem Within.filesPlain {room_id : String} {sets dels : List Kind} {c : Command}
    (h : Within room_id sets dels c) (hset : .subscriber ∉ sets) : FilesPlain c := by
  cases c with
  | hset k name row =>
      cases k with
      | subscriber => exact absurd h.1 hset
      | _ => trivial
  | _ => trivial

/-- A section that files subscribers only for ids without a NUL. -/
def IsPlainSection {β : Type} (room_id : String) (body : Handler β) : Prop :=
  IsSection room_id body ∧ body.Each FilesPlain

theorem isPlainSection_removeClientLocked (client : Client) :
    IsPlainSection client.room_id (removeClientLocked client) :=
  ⟨.removeClient client, (each_removeClientLocked client).mono fun _ h => h.filesPlain (by simp)⟩

theorem isPlainSection_subscribeLocked (self : ErizoController) (client : Client)
    {stream_id : String} (h : Plain stream_id) :
    IsPlainSection client.room_id (self.subscribeLocked client stream_id) := by
  refine ⟨.subscribe self client stream_id, ?_⟩
  refine each_subscribeLocked_of self client trivial trivial (fun _ _ => h) (fun p s => ?_)
    fun _ => trivial
  exact (each_setUpBridge client p s).mono fun _ h => h.filesPlain (by simp)

/-- A request to subscribe names a stream whose id has no NUL. -/
def Job.AsksPlainly : Job → Prop
  | .onMessage _ _ (some (.arrayValue (.stringValue event :: .objectValue members :: _))) =>
      event = "subscribe" →
        ∀ stream_id, (Value.objectValue members).string? "streamId" = some stream_id →
          Plain stream_id
  | _ => True

theorem isPlainSection_onMessage (self : ErizoController) (client : Client) {root : Option Value}
    (h : (Job.onMessage self client root).AsksPlainly) :
    (self.onMessage client root).All Outside IsPlainSection := by
  unfold onMessage
  split
  · split_ifs with htoken hpublish hsubscribe
    · exact All.bind (all_monadLift ((each_handleToken self client).mono fun _ hc => hc.outside))
        fun _ => trivial
    · exact All.bind (all_handlePublish_of self client ⟨trivial, trivial⟩
        (fun publisher _ _ => ⟨.publish self client publisher,
          (each_publishLocked self client publisher).mono fun _ h => h.filesPlain (by simp)⟩) _)
        fun _ => trivial
    · refine All.bind (all_handleSubscribe_of self client fun stream_id hid => ?_) fun _ => trivial
      exact isPlainSection_subscribeLocked self client (h hsubscribe stream_id hid)
    · exact All.bind (all_monadLift ((each_handleSignaling client _).mono fun _ hc =>
        hc.plain.outside)) fun _ => trivial
    · trivial
  · trivial

theorem Job.isPlainSection {job : Job} (h : job.AsksPlainly) :
    job.script.All Outside IsPlainSection := by
  cases job with
  | onMessage self client root => exact (isPlainSection_onMessage self client h).bind fun _ =>
        trivial
  | onClose client =>
      exact All.bind (all_withLock (isPlainSection_removeClientLocked client)) fun _ => trivial
  | onSignalingMessage self root =>
      refine All.bind ((all_onSignalingMessage_of self (fun room_id stream_id v a => ?_)
        (fun room_id client_id stream_id => ?_) root).imp (fun _ hc => hc.plain.outside)
          fun _ _ h => h) fun _ => trivial
      · exact ⟨.publisher_answer room_id stream_id v a,
          (each_publisherAnswerLocked room_id stream_id v a).mono fun _ h => h.filesPlain (by simp)⟩
      · exact ⟨.ready room_id client_id stream_id, (each_issue _).mpr trivial⟩
  | task task =>
      cases task with
      | notifyToSubscribe room_id client_id stream_id =>
          exact all_monadLift ((each_notifyToSubscribe room_id client_id stream_id).mono
            fun _ hc => hc.plain.outside)
      | removeExpireErizoController id =>
          exact (all_removeExpireErizoController_of isPlainSection_removeClientLocked id).imp
            (fun _ hc => hc.plain.outside) fun _ _ h => h

theorem IsPlainSection.referenced {β : Type} {room_id : String} {body : Handler β}
    (h : IsPlainSection room_id body) :
    Room.guard.Section (fun _ v => v.Fits)
      (fun room_id v => RoomReferenced room_id v ∧ PlainViews room_id v) room_id body := by
  obtain ⟨hinside, hkeeps⟩ := h.1.referenced
  refine ⟨hinside, fun v hv hboth => ?_⟩
  refine (hkeeps v hv hboth.1).and (Room.wlp_of_exec hv fun o ho => ?_)
  exact exec_of_each (I := PlainViews room_id) h.2 (fun c w hc hw => hw.after hc) hboth.2

/-- The steps whose requests have no NUL in the id of the stream. -/
def PlainRequests : Action T Job → Pool Command Command.Reply String T World → Prop
  | .start _ job, _ => job.AsksPlainly
  | _, _ => True

theorem referenced_of_free (hs : (threads T).Reaches PlainRequests s) {room_id : String}
    (hfree : s.owner room_id = none) : Referenced s.shared.redis room_id := by
  have hinit : ∀ w : World, (w.Fits ∧ ∀ k, k.Guarded → ∀ room_id, w.redis k room_id = ∅) →
      Room.guard.Inv w ∧ ∀ room_id, ∃ v, Room.guard.Sees room_id v w ∧
        RoomReferenced room_id v ∧ PlainViews room_id v := by
    rintro w ⟨hfits, hempty⟩
    have hsubscriber := hempty .subscriber trivial
    refine ⟨hfits, fun room_id => ⟨w, ⟨fun _ _ => rfl, List.Subset.refl _, hfits⟩,
      .of_empty (hsubscriber room_id) (hempty .bridge_stream trivial room_id), fun s hs => ?_⟩⟩
    rw [hsubscriber] at hs
    exact absurd hs (Table.not_mem_empty s)
  have hready : ∀ (a : Action T Job) (s : Pool Command Command.Reply String T World)
      (room_id : String) v, PlainRequests a s → Room.guard.Sees room_id v s.shared → v.Fits :=
    fun _ _ _ _ _ hv => hv.fits
  have hscript : ∀ (t : T) (job : Job) (s : Pool Command Command.Reply String T World),
      PlainRequests (.start t job) s → Room.guard.Disciplined (fun _ v => v.Fits)
        (fun room_id v => RoomReferenced room_id v ∧ PlainViews room_id v) job.script :=
    fun _ _ _ hasks => (Job.isPlainSection hasks).mono fun _ _ h => h.referenced
  obtain ⟨v, hv, hkeeps, hplain⟩ := Guard.keeps_of_free hscript hready hinit hs hfree
  have hsubscribers : ∀ s₀ ∈ v.redis .subscriber room_id,
      Published s.shared.redis room_id s₀.subscribe_to := by
    intro s₀ hs₀
    have hpublished := hkeeps.subscribers s₀ hs₀ (hplain s₀ hs₀)
    rwa [Published, hv.redis .publisher trivial] at hpublished
  refine ⟨fun s₀ hs₀ => hsubscribers s₀ ?_, fun b hb => ?_⟩
  · rwa [hv.redis .subscriber trivial]
  · rw [← hv.redis .bridge_stream trivial] at hb
    obtain ⟨s₀, hs₀, hto⟩ := hkeeps.backed.subscriber hb
    exact hto ▸ hsubscribers s₀ hs₀

/-- If no request has a NUL in the id of its stream, then the references of a room are valid
whenever its lock is free. A stream that was removed never comes back, in any continuation of
the run. -/
theorem streams_referenced (hs : (threads T).Reaches PlainRequests s) :
    (∀ room_id, s.owner room_id = none → Referenced s.shared.redis room_id) ∧
    ∀ room_id stream_id as s', Published s.shared.redis room_id stream_id →
      (threads T).run as s = some s' → ¬ Published s'.shared.redis room_id stream_id →
      ∀ as' s'', (threads T).run as' s' = some s'' →
        ¬ Published s''.shared.redis room_id stream_id := by
  refine ⟨fun room_id hfree => referenced_of_free hs hfree, ?_⟩
  intro room_id stream_id as s' hpublished hrun hgone as' s'' hrun'
  refine Token.never_again (K := publisherToken room_id stream_id) Job.clean (fun w hw => ?_)
    hs.reachable hpublished hrun hgone hrun'
  refine ⟨hw.1, ?_⟩
  rintro ⟨p, hp, -⟩
  rw [hw.2 .publisher trivial room_id] at hp
  exact absurd hp (Table.not_mem_empty p)

/-! In the sample run the connection of `a` closes, and a late answer of its erizo comes in
after the removal. -/

def closeOfA : List (Action Bool Job) :=
  [.start true (.onClose (sampleClient "a" "a1" "e1")), .acquire true] ++
    List.replicate 18 (.command true) ++ [.release true]

def lateAnswer : List (Action Bool Job) :=
  [.start false sampleAnswer, .acquire false, .command false, .release false]

theorem plainRequests_twoViewers {a : Action Bool Job} (ha : a ∈ twoViewers)
    (s : Pool Command Command.Reply String Bool World) : PlainRequests a s := by
  have hplain : ∀ {members : List (String × Value)} {id : String},
      (Value.objectValue members).string? "streamId" = some "x" →
        (Value.objectValue members).string? "streamId" = some id → Plain id := by
    intro members id hx hid
    obtain rfl := Option.some.inj (hx.symm.trans hid)
    decide
  simp only [twoViewers, List.mem_append, List.mem_cons, List.mem_replicate, List.not_mem_nil,
    or_false] at ha
  rcases ha with ((((rfl | rfl | rfl | rfl | rfl | rfl | rfl | rfl | rfl | rfl | rfl | rfl | rfl |
    rfl | rfl | rfl | rfl | rfl) | ⟨-, rfl⟩) | rfl | rfl) | ⟨-, rfl⟩) | rfl
  case inl.inl.inl.inl.inl => exact fun heq => absurd heq (by decide)
  all_goals first | trivial | exact fun _ id hid => hplain rfl hid

theorem streams_referenced_late_answer :
    ∃ s s' s'', (threads Bool).run twoViewers startPool = some s ∧
      (threads Bool).run closeOfA s = some s' ∧ (threads Bool).run lateAnswer s' = some s'' ∧
      Published s.shared.redis "room" "x" ∧ Referenced s.shared.redis "room" ∧
      ¬ Published s''.shared.redis "room" "x" := by
  have hviewers : ((threads Bool).run twoViewers startPool).any (fun s =>
      s.owner "room" = none ∧ Published s.shared.redis "room" "x") = true := by
    decide
  obtain ⟨s, hs, hend⟩ := (Option.any_eq_true _ _).mp hviewers
  obtain ⟨hfree, hpublished⟩ := of_decide_eq_true hend
  have hclose : ((threads Bool).run (twoViewers ++ closeOfA) startPool).any (fun s =>
      ¬ Published s.shared.redis "room" "x") = true := by
    decide
  rw [Machine.run_append, hs, Option.bind_some] at hclose
  obtain ⟨s', hs', hend'⟩ := (Option.any_eq_true _ _).mp hclose
  have hlate : ((threads Bool).run (twoViewers ++ closeOfA ++ lateAnswer) startPool).isSome =
    true := by
    decide
  rw [Machine.run_append, Machine.run_append, hs, Option.bind_some, hs', Option.bind_some] at hlate
  obtain ⟨s'', hs''⟩ := Option.isSome_iff_exists.mp hlate
  have hreach : (threads Bool).Reaches PlainRequests s :=
    (Machine.Reaches.init startPool_init).run_of_forall_mem
    (fun a ha s => plainRequests_twoViewers ha s) hs
  obtain ⟨hreferenced, hnever⟩ := streams_referenced hreach
  exact ⟨s, s', s'', hs, hs', hs'', hpublished, hreferenced "room" hfree,
    hnever "room" "x" closeOfA s' hpublished hs' (of_decide_eq_true hend') lateAnswer s'' hs''⟩

/-! A subscribe to `x` with a NUL and more after it finds the publisher of `x`, and files the
whole id. -/

def subscribePastNul : List (Action Bool Job) :=
  [.start false (sampleEvent (sampleClient "a" "a1" "e1") "publish" [("label", .stringValue "l")]),
    .command false, .command false, .command false, .acquire false, .command false,
    .command false, .release false, .start true sampleAnswer, .acquire true, .command true,
    .command true, .release true, .start false (sampleEvent (sampleClient "b" "a2" "e2") "subscribe"
      [("streamId", .stringValue "x\x00y")]), .acquire false] ++
    List.replicate 10 (.command false) ++ [.release false]

theorem subscription_without_publisher :
    ¬ ∀ s, (threads Bool).Reachable s → ∀ room_id, s.owner room_id = none →
      Referenced s.shared.redis room_id := by
  intro h
  have hrun : ((threads Bool).run subscribePastNul startPool).any (fun s =>
      s.owner "room" = none ∧ ¬ Published s.shared.redis "room" "x\x00y" ∧
        (s.shared.redis .subscriber "room").rows.map Subscriber.subscribe_to = ["x\x00y"]) =
        true := by
    decide
  obtain ⟨s, hs, hend⟩ := (Option.any_eq_true _ _).mp hrun
  obtain ⟨hfree, hnone, hsubscribers⟩ := of_decide_eq_true hend
  have hreach : (threads Bool).Reachable s :=
    (Machine.Reaches.init startPool_init).run_of_forall_mem (fun _ _ _ => trivial) hs
  obtain ⟨s₀, hs₀, hto⟩ : ∃ s₀ ∈ s.shared.redis .subscriber "room", s₀.subscribe_to = "x\x00y" :=
    List.mem_map.mp (hsubscribers ▸ List.mem_singleton_self "x\x00y")
  exact hnone (hto ▸ (h s hreach "room" hfree).subscribers s₀ hs₀)

end ErizoController
