import ErizoController.Core.Joining

/-!
# Streams that are gone

When a stream is removed, its subscribers are told, and nobody else: the messages come from
the stored subscriptions. So a client that was told of the stream but never subscribed to
it keeps a ghost, and so does one that hears of the stream only after its removal. A client
that was subscribed and has not been told of the removal is right: at rest the stream is
stored.
-/

open Json Locked Prog Script Room
open ACLRedis (c_str Plain c_str_of_plain)

/-- The text of a message to a controller, as its signaling queue reads it. -/
def Message.signal? : Message → Option Value
  | .new_publisher streamId clientId label => some (.objectValue [("data", .objectValue
      [("clientId", .stringValue clientId), ("label", .stringValue label),
        ("streamId", .stringValue streamId), ("type", .stringValue "new_publisher")])])
  | .remove_subscriber streamId clientId => some (.objectValue [("data", .objectValue
      [("clientId", .stringValue clientId), ("streamId", .stringValue streamId),
        ("type", .stringValue "remove_subscriber")])])
  | _ => none

namespace ErizoController

/-! ## Runs at rest -/

/-- The event that tells a client of a removal. -/
def onRemoveStream (stream_id : String) : Value :=
  signalingEvent "onRemoveStream" [("id", .stringValue stream_id)]

/-- The threads of any number of controllers on rooms that are empty at the start, with a
log of the finished jobs. No Redis command fails. -/
def journaled (T : Type) [DecidableEq T] : Machine (Action T Job) (RecordedPool T) :=
  Locked.machine recordedStep Job.recorded fun s =>
    (s.1.Fits ∧ ∀ k, k.Guarded → ∀ room_id, s.1.redis k room_id = ∅) ∧ s.2 = []

/-- No thread runs, every task was run, and every message to a controller was handled
there. -/
structure Quiescent {T : Type} (s : RecordedPool T) : Prop where
  idle : ∀ t, s.thread t = .outside (.ret ())
  tasks : ∀ task ∈ s.shared.1.tasks, ∃ answer, (.task task, answer) ∈ s.shared.2
  messages : ∀ queuename data root, (queuename, data) ∈ s.shared.1.outbox →
    data.signal? = some root → ∃ (self : ErizoController) (answer : Option Answer),
      self.getReplyTo = queuename ∧ (.onSignalingMessage self root, answer) ∈ s.shared.2

/-! ## The watched stages -/

/-- What a thread knows of a room: whether it has read the stream under the lock, and the
id it has drawn there; the subscribers it has listed and not yet removed, and whether the
client was told; or the last event it has sent for a signaling message. -/
inductive ViewStage where
  | working (seen : Bool) (drawn : Option String)
  | removing (stored : List Subscriber) (sent : Bool)
  | telling
  | told (client_id : String) (event : Value)

section Watch

-- The room, the client and the stream.
variable (r c x : String)

/-- The subscription of the client to the stream. -/
def Views (s : Subscriber) : Prop := s.client_id = c ∧ s.subscribe_to = x

instance (s : Subscriber) : Decidable (Views c x s) :=
  inferInstanceAs (Decidable (s.client_id = c ∧ s.subscribe_to = x))

def ViewStage.allows (h : Option String) (m : ViewStage) : Command → Prop
  | .hset .subscriber name row => name = r → h = some r ∧
      ∃ seen, m = .working seen (some row.id) ∧ (row.subscribe_to = x → seen = true)
  | .hdel .subscriber name fields => name = r → h = some r ∧
      ∃ stored sent, m = .removing stored sent ∧
        ∀ s ∈ stored, s.id ∈ fields → Views c x s → sent = true
  | .hdel .publisher name fields => name = r → x ∈ fields → h = some r ∧
      ∃ stored sent, m = .removing stored sent ∧ ∀ s ∈ stored, s.subscribe_to ≠ x
  | _ => True

def ViewStage.next (h : Option String) : ViewStage → (command : Command) → command.Reply → ViewStage
  | .working seen drawn, .hget .publisher name field, (_, row) =>
      if h = some r ∧ name = r ∧ field = c_str x then .working row.isSome drawn
      else .working seen drawn
  | .working seen _, .getStreamID, new => .working seen (if h = some r then some new else none)
  | .working seen _, .hset .subscriber _ _, _ => .working seen none
  | .working seen drawn, .hvals .subscriber name, (_, rows) =>
      if h = some r ∧ name = r then .removing rows false else .working seen drawn
  | .removing stored sent, .rpcNotReply _ (.remove_subscriber streamId clientId), _ =>
      .removing stored (sent || decide (streamId = x ∧ clientId = c))
  | .removing stored sent, .hdel .subscriber name fields, _ =>
      .removing (if name = r then stored.filter (·.id ∉ fields) else stored) sent
  | .telling, .sendEvent client_id event, _ => .told client_id event
  | .told _ _, .sendEvent client_id event, _ => .told client_id event
  | m, _, _ => m

/-- Rows of a hash, which have different ids. -/
def Distinct : (command : Command) → command.Reply → Prop
  | .hvals .subscriber _, (_, rows) =>
      ∀ s ∈ (rows : List Subscriber), ∀ s' ∈ (rows : List Subscriber), s.id = s'.id → s = s'
  | _, _ => True

def watchView : LockMonitor RecordedCommand RecordedReply String ViewStage where
  allows
    | h, m, .inl command => m.allows r c x h command
    | _, m, .inr (job, _) => ∀ self root, job = .onSignalingMessage self root →
        (Message.remove_subscriber x c).signal? = some root → m = .told c (onRemoveStream x)
  next
    | h, m, .inl command, reply => m.next r c x h command reply
    | _, _, .inr _, _ => .working false none
  leave
    | .working _ _ => .working false none
    | .removing _ _ => .working false none
    | m => m
  occurs
    | .inl command, reply => Succeeds command reply ∧ Distinct command reply
    | .inr _, _ => True

def ViewStage.enter : Job → ViewStage
  | .onSignalingMessage _ _ => .telling
  | _ => .working false none

end Watch

/-! ## The jobs follow the watch -/

section Follow

open LockMonitor

variable {r c x : String}

theorem succeeds_of_watchView (command : Command) (reply : command.Reply)
    (h : (watchView r c x).commands.occurs command reply) : Succeeds command reply := h.1

/-- What is followed in the section of a job that is no signaling message. -/
def FollowsView (r c x : String) {β : Type} (room_id : String) (body : Handler β) : Prop :=
  (watchView r c x).commands.Follows (some room_id)
    (fun m _ => (watchView r c x).leave m = .working false none) (.working false none) body

/-- Outside of the sections nothing happens to the subscriptions. -/
theorem steady_outside {command : Command} (h : Outside command) :
    (watchView r c x).commands.Steady none (.working false none) command := by
  cases command with
  | hset k name row =>
      cases k with
      | subscriber => exact absurd trivial h
      | _ => exact ⟨trivial, fun _ => rfl⟩
  | hdel k name fields =>
      cases k with
      | subscriber => exact absurd trivial h
      | publisher => exact absurd trivial h
      | _ => exact ⟨trivial, fun _ => rfl⟩
  | hget k name field => cases k <;> exact ⟨trivial, fun _ => rfl⟩
  | hvals k name => cases k <;> exact ⟨trivial, fun _ => rfl⟩
  | _ => exact ⟨trivial, fun _ => rfl⟩

/-- Nor in the sections of other rooms. -/
theorem Within.steady {room_id : String} {sets dels : List Kind} {command : Command}
    (h : Within room_id sets dels command) (hne : room_id ≠ r) :
    (watchView r c x).commands.Steady (some room_id) (.working false none) command := by
  have hlock : some room_id ≠ some r := fun heq => hne (Option.some.inj heq)
  cases command with
  | hset k name row =>
      cases k with
      | subscriber => exact ⟨fun hname => absurd ((h.2 trivial).symm.trans hname) hne, fun _ => rfl⟩
      | _ => exact ⟨trivial, fun _ => rfl⟩
  | hdel k name fields =>
      cases k with
      | subscriber => exact ⟨fun hname => absurd ((h.2 trivial).symm.trans hname) hne, fun _ => rfl⟩
      | publisher => exact ⟨fun hname => absurd ((h.2 trivial).symm.trans hname) hne, fun _ => rfl⟩
      | _ => exact ⟨trivial, fun _ => rfl⟩
  | hget k name field =>
      cases k with
      | publisher => exact ⟨trivial, fun _ => if_neg fun heq => hlock heq.1⟩
      | _ => exact ⟨trivial, fun _ => rfl⟩
  | hvals k name =>
      cases k with
      | subscriber => exact ⟨trivial, fun _ => if_neg fun heq => hlock heq.1⟩
      | _ => exact ⟨trivial, fun _ => rfl⟩
  | getStreamID =>
      refine ⟨trivial, fun id => ?_⟩
      exact congrArg (ViewStage.working false) (if_neg hlock)
  | _ => exact ⟨trivial, fun _ => rfl⟩

theorem followsView_other {β : Type} {room_id : String} {sets dels : List Kind} {body : Handler β}
    (h : body.Each (Within room_id sets dels)) (hne : room_id ≠ r) :
    FollowsView r c x room_id body := by
  refine (follows_steady h (returns_true body) fun command hcommand => hcommand.steady hne).mono
    fun m b hm => ?_
  rw [hm.1]
  rfl

/-- A command that does not touch the subscriptions of the room, nor a publisher except to
file it. -/
def Minor : Command → Prop
  | .hset .subscriber .. => False
  | .hdel .subscriber .. => False
  | .hdel .publisher .. => False
  | .hvals .subscriber _ => False
  | _ => True

theorem Minor.keeps {h : Option String} {m : ViewStage} {command : Command}
    (hcommand : Minor command)
    (hm : ∃ seen drawn, m = .working seen drawn) :
    (watchView r c x).commands.allows h m command ∧
      ∀ reply, ∃ seen drawn, (watchView r c x).commands.next h m command reply =
        .working seen drawn := by
  obtain ⟨seen, drawn, rfl⟩ := hm
  cases command with
  | hset k name row =>
      cases k with
      | subscriber => exact hcommand.elim
      | _ => exact ⟨trivial, fun _ => ⟨_, _, rfl⟩⟩
  | hdel k name fields =>
      cases k with
      | subscriber => exact hcommand.elim
      | publisher => exact hcommand.elim
      | _ => exact ⟨trivial, fun _ => ⟨_, _, rfl⟩⟩
  | hget k name field =>
      cases k with
      | publisher =>
          refine ⟨trivial, fun (rc, row) => ?_⟩
          by_cases hread : h = some r ∧ name = r ∧ field = c_str x
          · exact ⟨_, _, if_pos hread⟩
          · exact ⟨_, _, if_neg hread⟩
      | _ => exact ⟨trivial, fun _ => ⟨_, _, rfl⟩⟩
  | hvals k name =>
      cases k with
      | subscriber => exact hcommand.elim
      | _ => exact ⟨trivial, fun _ => ⟨_, _, rfl⟩⟩
  | _ => exact ⟨trivial, fun _ => ⟨_, _, rfl⟩⟩

theorem follows_minor {β : Type} {h : Option String} {body : Handler β} (hbody : body.Each Minor)
    (seen : Bool) (drawn : Option String) :
    (watchView r c x).commands.Follows h
    (fun m _ => (watchView r c x).leave m = .working false none)
      (.working seen drawn) body := by
  refine (follows_of_each (Z := fun m => ∃ seen drawn, m = .working seen drawn) hbody
    (returns_true body) ⟨seen, drawn, rfl⟩ fun m command hm hcommand => hcommand.keeps hm).mono ?_
  rintro m b ⟨⟨seen, drawn, rfl⟩, -⟩
  rfl

theorem each_publishLocked_minor (self : ErizoController) (client : Client)
    (publisher : Publisher) :
    (self.publishLocked client publisher).Each Minor := by
  refine Each.bind (RedisHelper.each_add trivial) fun rc => ?_
  split
  · trivial
  · exact Each.bind (each_message (fun _ _ => trivial) _ _) fun _ => trivial

theorem each_publisherAnswerLocked_minor (room_id stream_id : String) (v a : UInt32) :
    (publisherAnswerLocked room_id stream_id v a).Each Minor := by
  refine Each.bind (RedisHelper.each_get trivial) fun r => ?_
  cases r with
  | none => trivial
  | some publisher => exact Each.bind (RedisHelper.each_add trivial) fun rc => trivial

theorem each_setUpBridge_minor (client : Client) (p : Publisher) (s : Subscriber) :
    (setUpBridge client p s).Each Minor := by
  refine (each_setUpBridge_exact client p s).mono fun command h => ?_
  cases command with
  | hset k name row =>
      obtain ⟨rfl, -⟩ := h
      trivial
  | hget k name field =>
      obtain ⟨rfl, -⟩ := h
      trivial
  | hvals k name =>
      obtain ⟨rfl, -⟩ := h
      trivial
  | hdel k name fields => exact h.elim
  | _ => trivial

/-- A subscription is filed with the stream read and a new id drawn under the lock. -/
theorem followsView_subscribeLocked (self : ErizoController) (client : Client)
    (stream_id : String) :
    FollowsView r c x client.room_id (self.subscribeLocked client stream_id) := by
  by_cases hroom : client.room_id = r
  case neg => exact followsView_other (each_subscribeLocked self client stream_id) hroom
  rw [FollowsView, hroom, subscribeLocked, hroom]
  refine Follows.bind (LockMonitor.follows_get succeeds_of_watchView (Q := fun m row => ∃ seen,
    m = .working seen none ∧ (row ≠ none → stream_id = x → seen = true)) trivial fun rc row => ?_)
    fun m row hread => ?_
  · by_cases hx : c_str stream_id = c_str x
    · exact ⟨row.isSome, if_pos ⟨rfl, rfl, hx⟩, fun hrow _ => Option.isSome_iff_ne_none.mpr hrow⟩
    · exact ⟨false, if_neg fun h => hx h.2.2, fun _ heq => absurd (congrArg c_str heq) hx⟩
  · obtain ⟨seen, rfl, hseen⟩ := hread
    cases row with
    | none => rfl
    | some publisher =>
    dsimp only
    split
    · rfl
    · refine Follows.bind (Q := fun m id => m = .working seen (some id))
        ⟨trivial, fun id _ => ?_⟩ fun m id hm => ?_
      · change ViewStage.working seen (if some r = some r then some id else none) = _
        rw [if_pos rfl]
      subst hm
      have hallows : (watchView r c x).commands.allows (some r) (.working seen (some id))
          (.hset .subscriber r (self.newSubscriber client publisher stream_id id)) :=
        fun _ => ⟨rfl, seen, rfl, fun heq => hseen (Option.some_ne_none _) heq⟩
      refine Follows.bind (LockMonitor.follows_add succeeds_of_watchView (Q := fun m _ =>
        m = .working seen none) hallows fun rc => rfl) fun m rc hm => ?_
      subst hm
      refine follows_minor ?_ seen none
      have hrest : (do
          self.addSubscriber client publisher (self.newSubscriber client publisher stream_id id)
          return some (.arrayValue [.booleanValue true, .stringValue
            (self.newSubscriber client publisher stream_id id).erizo_id]) :
            Handler (Option Value)).Each Minor :=
        Each.bind (each_message (fun _ _ => trivial) _ _) fun _ => trivial
      split
      · trivial
      · split
        · refine Each.bind (each_setUpBridge_minor _ _ _) fun rc => ?_
          split
          · trivial
          · exact hrest
        · exact hrest

/-! A removal tells the client before it removes the subscription. -/

theorem steady_bridgeWork {stored : List Subscriber} {sent : Bool} (command : Command)
    (h : BridgeWork r command) :
    (watchView r c x).commands.Steady (some r) (.removing stored sent) command := by
  cases command with
  | hset k name row =>
      obtain ⟨rfl, -⟩ := h
      exact ⟨trivial, fun _ => rfl⟩
  | hdel k name fields =>
      obtain ⟨rfl, -⟩ := h
      exact ⟨trivial, fun _ => rfl⟩
  | hvals k name =>
      obtain ⟨rfl, -⟩ := h
      exact ⟨trivial, fun _ => rfl⟩
  | rpcNotReply queuename data =>
      cases data with
      | remove_subscriber streamId clientId => exact absurd rfl (h streamId clientId)
      | _ => exact ⟨trivial, fun _ => rfl⟩
  | _ => exact h.elim

theorem followsView_dropSubscriber {stored : List Subscriber} {sent : Bool} (s : Subscriber) :
    (watchView r c x).commands.Follows (some r) (fun m b =>
        (∃ sent', m = .removing stored sent' ∧ (sent = true ∨ Views c x s → sent' = true)) ∧
        b = some [s.id])
      (.removing stored sent) (dropSubscriber r s) := by
  have hrest : (watchView r c x).commands.Follows (some r) (fun m b =>
        (∃ sent', m = .removing stored sent' ∧ (sent = true ∨ Views c x s → sent' = true)) ∧
        b = some [s.id]) (.removing stored sent) (do
      removeSubscriber s
      notifyToRemoveSubscriber s
      return some [s.id] : Handler (Option (List String))) := by
    refine ⟨trivial, fun _ _ => ⟨trivial, fun _ _ => ⟨⟨_, rfl, ?_⟩, rfl⟩⟩⟩
    rintro (hsent | hviews)
    · exact Bool.or_eq_true_iff.mpr (.inl hsent)
    · exact Bool.or_eq_true_iff.mpr (.inr (decide_eq_true ⟨hviews.2, hviews.1⟩))
  rw [dropSubscriber]
  split
  · refine Follows.bind (follows_removeBridgeStreamSub succeeds_of_watchView steady_bridgeWork _ _)
      fun m rc hsame => ?_
    obtain ⟨rfl, rfl⟩ := hsame
    exact hrest
  · exact hrest

theorem followsView_dropPublisher {stored : List Subscriber} {sent : Bool} (p : Publisher) :
    (watchView r c x).commands.Follows (some r)
      (fun m b => m = .removing stored sent ∧ b = some [p.id]) (.removing stored sent)
      (dropPublisher r p) := by
  refine Follows.bind (follows_removeBridgeStreamPub succeeds_of_watchView steady_bridgeWork _ _)
    fun m rc hsame => ?_
  obtain ⟨rfl, rfl⟩ := hsame
  exact ⟨trivial, fun _ _ => ⟨rfl, rfl⟩⟩

theorem followsView_removeClientLocked (client : Client) :
    FollowsView r c x client.room_id (removeClientLocked client) := by
  by_cases hroom : client.room_id = r
  case neg => exact followsView_other (each_removeClientLocked client) hroom
  rw [FollowsView, hroom, removeClientLocked, hroom]
  refine Follows.bind (LockMonitor.follows_getAll succeeds_of_watchView (Q := fun m b =>
    ∃ rows, b = some rows ∧ m = .removing rows false ∧
      ∀ s ∈ rows, ∀ s' ∈ rows, s.id = s'.id → s = s') trivial fun rc rows hoccurs => ?_)
    fun m b hlisted => ?_
  · exact ⟨rows, congrArg some (List.filter_true rows), if_pos ⟨rfl, rfl⟩, hoccurs.2⟩
  obtain ⟨subscribers, rfl, rfl, hdistinct⟩ := hlisted
  refine Follows.bind (LockMonitor.follows_getAll succeeds_of_watchView (Q := fun m b =>
    ∃ publishers, b = some publishers ∧ m = .removing subscribers false) trivial
    fun rc rows _ => ⟨_, rfl, rfl⟩) fun m b hlisted => ?_
  obtain ⟨publishers, rfl, rfl⟩ := hlisted
  dsimp only
  rw [collect_visitSubscriber, collect_visitPublisher, hroom]
  refine Follows.bind (follows_collect (g := Subscriber.id) (Z := fun finished m => ∃ sent,
    m = .removing subscribers sent ∧ ∀ v ∈ finished, Views c x v → sent = true) ?_ []
    ⟨false, rfl, by simp⟩) fun m b hvisits => ?_
  · rintro finished s m ⟨sent, rfl, hsent⟩
    refine (followsView_dropSubscriber s).mono fun m b hdropped => ?_
    obtain ⟨⟨sent', hm, hsent'⟩, hb⟩ := hdropped
    refine ⟨⟨sent', hm, ?_⟩, hb⟩
    intro v hv hviews
    rcases List.mem_append.mp hv with hv | hv
    · exact hsent' (.inl (hsent v hv hviews))
    · obtain rfl := List.mem_singleton.mp hv
      exact hsent' (.inr hviews)
  obtain ⟨⟨sent, rfl, hsent⟩, rfl⟩ := hvisits
  rw [List.nil_append] at hsent
  refine Follows.bind (follows_collect (g := Publisher.id) (Z := fun _ m =>
    m = .removing subscribers sent) ?_ [] rfl) fun m b hvisits => ?_
  · rintro finished p m rfl
    exact followsView_dropPublisher p
  obtain ⟨rfl, rfl⟩ := hvisits
  -- A listed subscription that is removed is one of those visited.
  have hvisited : ∀ s ∈ subscribers,
      s.id ∈ (viewings client subscribers publishers).map Subscriber.id →
      s ∈ viewings client subscribers publishers := by
    intro s hs hid
    obtain ⟨v, hv, heq⟩ := List.mem_map.mp hid
    rwa [← hdistinct v (mem_viewings.mp hv).1 s hs heq]
  dsimp only
  rw [removeRecords, hroom]
  refine Follows.bind (LockMonitor.follows_unlessEmpty (Q := fun m => ∃ stored, m =
    .removing stored sent ∧
    ∀ s ∈ stored, s ∈ subscribers ∧ s ∉ viewings client subscribers publishers) ?_ ?_)
    fun m _ hremoved => ?_
  · intro hempty
    refine ⟨subscribers, rfl, fun s hs => ⟨hs, ?_⟩⟩
    rw [List.map_eq_nil_iff.mp hempty]
    exact List.not_mem_nil
  · have hallows : (watchView r c x).commands.allows (some r) (.removing subscribers sent)
        (.hdel .subscriber r ((viewings client subscribers publishers).map Subscriber.id)) :=
      fun _ => ⟨rfl, subscribers, sent, rfl, fun s hs hid hviews =>
        hsent s (hvisited s hs hid) hviews⟩
    refine LockMonitor.follows_remove succeeds_of_watchView hallows fun rc =>
      ⟨subscribers.filter (·.id ∉ (viewings client subscribers publishers).map Subscriber.id), ?_,
        ?_⟩
    · exact congrArg (ViewStage.removing · sent) (if_pos rfl)
    · intro s hs
      obtain ⟨hs, hid⟩ := List.mem_filter.mp hs
      exact ⟨hs, fun hmem => of_decide_eq_true hid (List.mem_map_of_mem hmem)⟩
  obtain ⟨stored, rfl, hstored⟩ := hremoved
  refine Follows.bind (LockMonitor.follows_unlessEmpty (Q := fun m => m = .removing stored sent)
    (fun _ => rfl) ?_) fun m _ hm => ?_
  · have hallows : (watchView r c x).commands.allows (some r) (.removing stored sent)
        (.hdel .publisher r ((ownPublishers client publishers).map Publisher.id)) := by
      refine fun _ hx => ⟨rfl, stored, sent, rfl, fun s hs hto => (hstored s hs).2 ?_⟩
      obtain ⟨p, hp, hid⟩ := List.mem_map.mp hx
      exact mem_viewings.mpr ⟨(hstored s hs).1, .inr ⟨p, hp, hto.trans hid.symm⟩⟩
    exact LockMonitor.follows_remove succeeds_of_watchView hallows fun rc => rfl
  subst hm
  refine Follows.bind (LockMonitor.follows_remove succeeds_of_watchView (Q := fun m _ =>
    m = .removing stored sent) trivial fun rc => rfl) fun m rc hm => ?_
  subst hm
  refine Follows.bind (LockMonitor.follows_remove succeeds_of_watchView (Q := fun m _ =>
    m = .removing stored sent) trivial fun rc => rfl) fun m rc hm => ?_
  subst hm
  rfl

theorem IsSection.followsView {β : Type} {room_id : String} {body : Handler β}
    (h : IsSection room_id body) : FollowsView r c x room_id body := by
  cases h with
  | removeClient client => exact followsView_removeClientLocked client
  | publish self client publisher =>
      exact follows_minor (each_publishLocked_minor self client publisher) false none
  | subscribe self client stream_id => exact followsView_subscribeLocked self client stream_id
  | publisher_answer room_id stream_id v a =>
      exact follows_minor (each_publisherAnswerLocked_minor room_id stream_id v a) false none
  | ready room_id client_id stream_id =>
      have hminor : (asyncTask (.notifyToSubscribe room_id client_id stream_id)).Each Minor :=
        (each_issue _).mpr trivial
      exact follows_minor hminor false none

theorem Job.all_run (job : Job) : job.run.All Outside IsSection := by
  cases job with
  | onMessage self client root => exact (all_onMessage self client root).bind fun _ => trivial
  | onClose client =>
      exact all_of_plain (all_plain ((all_removeClient client).bind fun _ => trivial))
  | onSignalingMessage self root =>
      exact all_of_plain (all_plain ((all_onSignalingMessage self root).bind fun _ => trivial))
  | task task =>
      cases task with
      | notifyToSubscribe room_id client_id stream_id =>
          refine all_of_plain (all_plain (All.bind ?_ fun _ => trivial))
          exact all_monadLift (each_notifyToSubscribe room_id client_id stream_id)
      | removeExpireErizoController id =>
          exact all_of_plain
            (all_plain ((all_removeExpireErizoController id).bind fun _ => trivial))

/-- The stages of a signaling message. -/
def Telling (m : ViewStage) : Prop := m = .telling ∨ ∃ client_id event, m = .told client_id event

theorem Telling.leave {m : ViewStage} (hm : Telling m) :
    (watchView r c x).commands.leave m = m := by
  rcases hm with rfl | ⟨client_id, event, rfl⟩ <;> rfl

theorem Minor.tells {h : Option String} {m : ViewStage} {command : Command}
    (hcommand : Minor command)
    (hm : Telling m) : (watchView r c x).commands.allows h m command ∧
      ∀ reply, Telling ((watchView r c x).commands.next h m command reply) := by
  have hsame : ∀ {m'}, m' = m → Telling m' := fun heq => heq ▸ hm
  cases command with
  | hset k name row =>
      cases k with
      | subscriber => exact hcommand.elim
      | _ => exact ⟨trivial, fun _ => hsame (by rcases hm with rfl | ⟨_, _, rfl⟩ <;> rfl)⟩
  | hdel k name fields =>
      cases k with
      | subscriber => exact hcommand.elim
      | publisher => exact hcommand.elim
      | _ => exact ⟨trivial, fun _ => hsame (by rcases hm with rfl | ⟨_, _, rfl⟩ <;> rfl)⟩
  | hget k name field =>
      exact ⟨trivial, fun _ => hsame (by rcases hm with rfl | ⟨_, _, rfl⟩ <;> cases k <;> rfl)⟩
  | hvals k name =>
      cases k with
      | subscriber => exact hcommand.elim
      | _ => exact ⟨trivial, fun _ => hsame (by rcases hm with rfl | ⟨_, _, rfl⟩ <;> rfl)⟩
  | sendEvent client_id event =>
      exact ⟨trivial, fun _ => .inr ⟨client_id, event, by rcases hm with rfl | ⟨_, _, rfl⟩ <;> rfl⟩⟩
  | _ => exact ⟨trivial, fun _ => hsame (by rcases hm with rfl | ⟨_, _, rfl⟩ <;> rfl)⟩

theorem SilentCommand.tells {m : ViewStage} {command : Command} (hcommand : SilentCommand command)
    (hm : Telling m) : (watchView r c x).commands.allows none m command ∧
      ∀ reply, Telling ((watchView r c x).commands.next none m command reply) := by
  by_cases hvals : ∃ name, command = .hvals .subscriber name
  · obtain ⟨name, rfl⟩ := hvals
    refine ⟨trivial, fun _ => ?_⟩
    rcases hm with rfl | ⟨client_id, event, rfl⟩
    · exact .inl rfl
    · exact .inr ⟨client_id, event, rfl⟩
  · refine Minor.tells ?_ hm
    cases command with
    | hset k name row => exact hcommand.elim
    | hdel k name fields => exact hcommand.elim
    | hvals k name =>
        cases k with
        | subscriber => exact hvals ⟨name, rfl⟩
        | _ => trivial
    | _ => trivial

/-- A signaling message tells at most its own client, in an event at a time. -/
theorem followsView_onSignalingMessage (self : ErizoController) (root : Value) :
    (watchView r c x).commands.FollowsScript (fun m _ => Telling m) .telling
      (self.onSignalingMessage root) := by
  refine followsScript_of_all (B := fun _ body => body.Each Minor) (all_onSignalingMessage_of self
    (fun room_id stream_id v a => each_publisherAnswerLocked_minor room_id stream_id v a)
    (fun room_id client_id stream_id => (each_issue _).mpr trivial) root) (.inl rfl)
    (fun m command hm hcommand => hcommand.tells hm) fun room_id body m hm hbody => ?_
  refine (follows_of_each hbody (returns_true body) hm fun m command hm hcommand =>
    hcommand.tells hm).mono fun m' _ hm' => ?_
  rw [hm'.1.leave]
  exact hm'.1

theorem onSignalingMessage_remove_subscriber (self : ErizoController) {root : Value}
    (hroot : (Message.remove_subscriber x c).signal? = some root) :
    self.onSignalingMessage root = (do
      SocketIO.sendEvent c (onRemoveStream x)
      return true) := by
  obtain rfl := Option.some.inj hroot
  rfl

/-- Every job follows the watch. -/
theorem followsView_recorded (job : Job) :
    (watchView r c x).FollowsScript (fun _ _ => True) (ViewStage.enter job) job.recorded := by
  refine FollowsScript.reporting ?_
  by_cases hsignal : ∃ self root, job = .onSignalingMessage self root
  · obtain ⟨self, root, rfl⟩ := hsignal
    by_cases hroot : (Message.remove_subscriber x c).signal? = some root
    · rw [Job.run, onSignalingMessage_remove_subscriber self hroot]
      refine ⟨trivial, fun _ _ => ?_⟩
      intro self' root' hjob hroot'
      rfl
    · refine (followsView_onSignalingMessage self root).bind fun m _ hm => ?_
      intro self' root' hjob hroot'
      obtain ⟨-, rfl⟩ := Job.onSignalingMessage.inj hjob
      exact absurd hroot' hroot
  · have henter : ViewStage.enter job = .working false none := by
      cases job with
      | onSignalingMessage self root => exact absurd ⟨self, root, rfl⟩ hsignal
      | _ => rfl
    rw [henter]
    refine (followsScript_steady job.all_run (fun command hcommand => steady_outside hcommand)
      fun room_id body hbody => hbody.followsView).mono fun m answer _ => ?_
    exact fun self root hjob => absurd ⟨self, root, hjob⟩ hsignal

end Follow

/-! ## What holds at every moment -/

/-- An event that was sent stays sent. -/
theorem events_subset (cmd : Command) (w : World) : w.events ⊆ (perform cmd w).2.events := by
  cases cmd with
  | hget k name field =>
      rw [perform]
      split <;> exact List.Subset.refl _
  | hvals k name =>
      rw [perform]
      split <;> exact List.Subset.refl _
  | hset k name row =>
      rw [perform]
      split <;> exact List.Subset.refl _
  | hdel k name fields =>
      rw [perform]
      split <;> exact List.Subset.refl _
  | sendEvent client_id event => exact List.subset_append_left _ _
  | _ => exact List.Subset.refl _

section Moment

variable (r c x : String)

/-- A message that tells the client of the removal was sent to some controller. -/
def Withdrawn (w : World) : Prop := ∃ queuename, (queuename, .remove_subscriber x c) ∈ w.outbox

/-- What is true while a thread is in a stage. -/
def ViewStage.Sound (h : Option String) (w : World) : ViewStage → Prop
  | .working seen drawn => (seen = true → h = some r ∧ Published w.redis r x) ∧
      ∀ id, drawn = some id → h = some r ∧ id ∈ w.used ∧ ∀ s ∈ w.redis .subscriber r, s.id ≠ id
  | .removing stored sent => h = some r ∧ (∀ s ∈ w.redis .subscriber r, s ∈ stored) ∧
      (sent = true → Withdrawn c x w)
  | .telling => True
  | .told client_id event => (client_id, event) ∈ w.events

variable {T : Type}

/-- What holds at every moment; with `d`, after a moment in which the client was
subscribed. -/
structure Viewed (d : Prop) (s : World × Log) (h : T → Option String) (m : T → ViewStage) :
    Prop where
  fits : s.1.Fits
  subscriber_ids : ∀ sub ∈ s.1.redis .subscriber r, sub.id ∈ s.1.used
  published : ∀ sub ∈ s.1.redis .subscriber r, sub.subscribe_to = x → Published s.1.redis r x
  sound : ∀ t, (m t).Sound r c x (h t) s.1
  told : ∀ self root answer, (.onSignalingMessage self root, answer) ∈ s.2 →
    (Message.remove_subscriber x c).signal? = some root → (c, onRemoveStream x) ∈ s.1.events
  viewed : d → (∃ sub ∈ s.1.redis .subscriber r, Views c x sub) ∨ Withdrawn c x s.1

variable {r c x} {w w' : World} {h : Option String} {m : ViewStage} {cmd : Command}

theorem Withdrawn.after (hw : Withdrawn c x w) (cmd : Command) :
    Withdrawn c x (perform cmd w).2 := hw.imp fun _ hmem => outbox_subset cmd w hmem

/-- Without the lock of the room nothing is said of the room. -/
theorem ViewStage.Sound.elsewhere (hm : m.Sound r c x h w) (hlock : h ≠ some r) (h' : Option String)
    (hevents : w.events ⊆ w'.events) : m.Sound r c x h' w' := by
  cases m with
  | working seen drawn =>
      exact ⟨fun hseen => absurd (hm.1 hseen).1 hlock, fun id hid => absurd (hm.2 id hid).1 hlock⟩
  | removing stored sent => exact absurd hm.1 hlock
  | telling => trivial
  | told client_id event => exact hevents hm

/-- The stage stays sound where no subscription is filed and the stream is not removed. -/
theorem ViewStage.Sound.frame (hm : m.Sound r c x h w)
    (hsubscriber : ∀ s ∈ (perform cmd w).2.redis .subscriber r, s ∈ w.redis .subscriber r)
    (hremoves : (∃ seen drawn, m = .working seen drawn) → ¬ removes r x cmd) :
    m.Sound r c x h (perform cmd w).2 := by
  cases m with
  | working seen drawn =>
      refine ⟨fun hseen => (hm.1 hseen).imp_right fun hp => ?_, fun id hid => ?_⟩
      · exact hp.after.resolve_right (hremoves ⟨seen, drawn, rfl⟩)
      · obtain ⟨hlock, hused, hnew⟩ := hm.2 id hid
        exact ⟨hlock, used_subset cmd w hused, fun s hs => hnew s (hsubscriber s hs)⟩
  | removing stored sent =>
      obtain ⟨hlock, hstored, hsent⟩ := hm
      exact ⟨hlock, fun s hs => hstored s (hsubscriber s hs), fun h => (hsent h).after cmd⟩
  | telling => trivial
  | told client_id event => exact events_subset cmd w hm

theorem ViewStage.Sound.idle : (ViewStage.working false none).Sound r c x h w :=
  ⟨fun hseen => (Bool.false_ne_true hseen).elim, fun _ hid => (Option.some_ne_none _ hid.symm).elim⟩

/-- Subscriptions are only filed with an id that was drawn. -/
theorem subscriber_before (hallows : m.allows r c x h cmd) {s : Subscriber}
    (hs : s ∈ (perform cmd w).2.redis .subscriber r) :
    s ∈ w.redis .subscriber r ∨ h = some r ∧ ∃ seen, m = .working seen (some s.id) ∧
      (s.subscribe_to = x → seen = true) := by
  rcases mem_perform hs with hs | rfl
  · exact .inl hs
  · exact .inr (hallows rfl)

/-- The stream is only removed when nobody views it. -/
theorem unviewed_of_removes (hallows : m.allows r c x h cmd) (hremoves : removes r x cmd) :
    h = some r ∧ ∃ stored sent, m = .removing stored sent ∧ ∀ s ∈ stored, s.subscribe_to ≠ x := by
  cases cmd with
  | hdel k name fields =>
      cases k with
      | publisher => exact hallows hremoves.1 hremoves.2
      | _ => exact hremoves.elim
  | _ => exact hremoves.elim

/-- A command of its thread leads to a sound stage. -/
theorem ViewStage.Sound.next (hplain : Plain x) (hw : w.Fits)
    (hids : ∀ sub ∈ w.redis .subscriber r, sub.id ∈ w.used) (hm : m.Sound r c x h w)
    (hallows : m.allows r c x h cmd) :
    (m.next r c x h cmd (perform cmd w).1).Sound r c x h (perform cmd w).2 := by
  have hframe : (∀ row, cmd ≠ .hset .subscriber r row) →
      m.Sound r c x h (perform cmd w).2 := by
    refine fun hset => hm.frame (fun s hs => (mem_perform hs).resolve_right (hset s)) ?_
    rintro ⟨seen, drawn, rfl⟩ hremoves
    obtain ⟨-, stored, sent, heq, -⟩ := unviewed_of_removes hallows hremoves
    cases heq
  cases m with
  | working seen drawn =>
      cases cmd with
      | hset k name row =>
          cases k with
          | subscriber =>
              refine ⟨fun hseen => (hm.1 hseen).imp_right fun hp => ?_, fun id hid => by cases hid⟩
              exact hp.after.resolve_right fun hremoves => hremoves.elim
          | _ => exact hframe fun row' heq => by cases heq
      | hget k name field =>
          cases k with
          | publisher =>
              by_cases hread : h = some r ∧ name = r ∧ field = c_str x
              · obtain ⟨hlock, rfl, rfl⟩ := hread
                rw [hw.hget]
                have hnext : ((ViewStage.working seen drawn).next name c x h
                    (.hget .publisher name (c_str x))
                    (1, (w.redis .publisher name).get? (c_str x))) =
                    .working ((w.redis .publisher name).get? (c_str x)).isSome drawn :=
                  if_pos ⟨hlock, rfl, rfl⟩
                rw [hnext]
                refine ⟨fun hseen => ⟨hlock, ?_⟩, hm.2⟩
                obtain ⟨p, hp⟩ := Option.isSome_iff_exists.mp hseen
                rw [c_str_of_plain hplain] at hp
                exact ⟨p, Table.get?_eq_some_iff.mp hp⟩
              · have hnext :
                  ((ViewStage.working seen drawn).next r c x h (.hget .publisher name field)
                    (perform (.hget .publisher name field) w).1) = .working seen drawn :=
                    if_neg hread
                rw [hnext]
                exact hframe fun row heq => by cases heq
          | _ => exact hframe fun row heq => by cases heq
      | hvals k name =>
          cases k with
          | subscriber =>
              by_cases hread : h = some r ∧ name = r
              · obtain ⟨hlock, rfl⟩ := hread
                rw [hw.hvals]
                have hnext :
                  ((ViewStage.working seen drawn).next name c x h (.hvals .subscriber name)
                    (1, (w.redis .subscriber name).rows)) =
                    .removing (w.redis .subscriber name).rows false := if_pos ⟨hlock, rfl⟩
                rw [hnext]
                exact ⟨hlock, fun s hs => hs, fun hsent => by cases hsent⟩
              · have hnext : ((ViewStage.working seen drawn).next r c x h (.hvals .subscriber name)
                    (perform (.hvals .subscriber name) w).1) = .working seen drawn := if_neg hread
                rw [hnext]
                exact hframe fun row heq => by cases heq
          | _ => exact hframe fun row heq => by cases heq
      | getStreamID =>
          refine ⟨hm.1, fun id hid => ?_⟩
          split at hid
          · obtain rfl := Option.some.inj hid
            refine ⟨‹_›, List.mem_cons_self, fun s hs hid => ?_⟩
            have heq : s.id = w.oracle.streamId.get 0 := hid
            exact hw.fresh 0 (heq ▸ hids s hs)
          · cases hid
      | _ => exact hframe fun row heq => by cases heq
  | removing stored sent =>
      have hkeep := hframe fun row heq => by
        subst heq
        obtain ⟨-, seen, heq, -⟩ := hallows rfl
        cases heq
      cases cmd with
      | hdel k name fields =>
          cases k with
          | subscriber =>
              obtain ⟨hlock, hstored, hsent⟩ := hkeep
              by_cases hname : name = r
              · subst hname
                have hnext :
                  ((ViewStage.removing stored sent).next name c x h (.hdel .subscriber name fields)
                    (perform (.hdel .subscriber name fields) w).1) =
                    .removing (stored.filter (·.id ∉ fields)) sent :=
                  congrArg (ViewStage.removing · sent) (if_pos rfl)
                rw [hnext]
                refine ⟨hlock, fun s hs => List.mem_filter.mpr ⟨hstored s hs, ?_⟩, hsent⟩
                exact decide_eq_true (not_mem_of_hdel hw.writesSucceed hs)
              · have hnext :
                  ((ViewStage.removing stored sent).next r c x h (.hdel .subscriber name fields)
                    (perform (.hdel .subscriber name fields) w).1) = .removing stored sent :=
                  congrArg (ViewStage.removing · sent) (if_neg hname)
                rw [hnext]
                exact ⟨hlock, hstored, hsent⟩
          | _ => exact hkeep
      | rpcNotReply queuename data =>
          cases data with
          | remove_subscriber streamId clientId =>
              obtain ⟨hlock, hstored, hsent⟩ := hkeep
              refine ⟨hlock, hstored, fun h => ?_⟩
              rcases Bool.or_eq_true_iff.mp h with h | h
              · exact hsent h
              · obtain ⟨rfl, rfl⟩ := of_decide_eq_true h
                exact ⟨queuename, List.mem_append_right _ (List.mem_singleton_self _)⟩
          | _ => exact hkeep
      | hset k name row => cases k <;> exact hkeep
      | hget k name field => cases k <;> exact hkeep
      | hvals k name => cases k <;> exact hkeep
      | _ => exact hkeep
  | telling =>
      cases cmd with
      | sendEvent client_id event => exact List.mem_append_right _ (List.mem_singleton_self _)
      | hset k name row => cases k <;> trivial
      | hdel k name fields => cases k <;> trivial
      | hget k name field => cases k <;> trivial
      | hvals k name => cases k <;> trivial
      | rpcNotReply queuename data => cases data <;> trivial
      | _ => trivial
  | told client_id event =>
      have hkeep := events_subset cmd w hm
      cases cmd with
      | sendEvent client_id' event' => exact List.mem_append_right _ (List.mem_singleton_self _)
      | hset k name row => cases k <;> exact hkeep
      | hdel k name fields => cases k <;> exact hkeep
      | hget k name field => cases k <;> exact hkeep
      | hvals k name => cases k <;> exact hkeep
      | rpcNotReply queuename data => cases data <;> exact hkeep
      | _ => exact hkeep

section Step

variable {d : Prop} {log : Log} {hs : T → Option String} {ms : T → ViewStage} [DecidableEq T]

/-- The stages after one of them has changed are sound. -/
theorem sound_update {t : T} {m' : ViewStage} (h : ∀ t, (ms t).Sound r c x (hs t) w)
    (hm' : m'.Sound r c x (hs t) w) : ∀ t', (Function.update ms t m' t').Sound r c x (hs t') w := by
  intro t'
  by_cases hne : t' = t
  · subst hne
    rwa [Function.update_self]
  · rw [Function.update_of_ne hne]
    exact h t'

theorem Viewed.command (hplain : Plain x) (h : Viewed r c x d (w, log) hs ms)
    (hexclusive : Exclusive hs) {t : T}
    (hallows : (ms t).allows r c x (hs t) cmd) :
    Viewed r c x d ((perform cmd w).2, log) hs
      (Function.update ms t ((ms t).next r c x (hs t) cmd (perform cmd w).1)) := by
  have hsound := h.sound t
  refine ⟨h.fits.after cmd, fun sub hsub => ?_, fun sub hsub hto => ?_, fun t' => ?_,
    fun self root answer hlog hroot => events_subset cmd w (h.told self root answer hlog hroot),
    fun hd => ?_⟩
  · rcases subscriber_before hallows hsub with hsub | ⟨-, seen, hm, -⟩
    · exact used_subset cmd w (h.subscriber_ids sub hsub)
    · rw [hm] at hsound
      exact used_subset cmd w (hsound.2 _ rfl).2.1
  · rcases subscriber_before hallows hsub with hmem | ⟨-, seen, hm, hseen⟩
    · refine (h.published sub hmem hto).after.resolve_right fun hremoves => ?_
      obtain ⟨-, stored, sent, hm, hstored⟩ := unviewed_of_removes hallows hremoves
      rw [hm] at hsound
      exact hstored sub (hsound.2.1 sub hmem) hto
    · rw [hm] at hsound
      refine (hsound.1 (hseen hto)).2.after.resolve_right fun hremoves => ?_
      obtain ⟨-, stored, sent, hm', -⟩ := unviewed_of_removes hallows hremoves
      cases hm.symm.trans hm'
  · by_cases hne : t' = t
    · subst hne
      rw [Function.update_self]
      exact hsound.next hplain h.fits h.subscriber_ids hallows
    · rw [Function.update_of_ne hne]
      by_cases hlock : hs t' = some r
      · -- The lock is the other thread's, so this one leaves the room alone.
        have hother : hs t ≠ some r := fun heq => hne (hexclusive t' t r hlock heq)
        refine (h.sound t').frame (fun s hsub => ?_) fun _ hremoves => ?_
        · exact (subscriber_before hallows hsub).resolve_right fun heq => hother heq.1
        · exact hother (unviewed_of_removes hallows hremoves).1
      · exact (h.sound t').elsewhere hlock _ (events_subset cmd w)
  · rcases h.viewed hd with ⟨sub, hsub, hviews⟩ | hwithdrawn
    · by_cases hdel : ∃ fields, cmd = .hdel .subscriber r fields ∧ sub.id ∈ fields
      · obtain ⟨fields, rfl, hid⟩ := hdel
        obtain ⟨-, stored, sent, hm, hsent⟩ := hallows rfl
        rw [hm] at hsound
        have hsent := hsent sub (hsound.2.1 sub hsub) hid hviews
        exact .inr ((hsound.2.2 hsent).after _)
      · refine .inl ⟨sub, mem_perform_of_mem hsub (fun fields heq hid => hdel ⟨fields, heq, hid⟩)
          fun row heq hid => ?_, hviews⟩
        subst heq
        obtain ⟨-, seen, hm, -⟩ := hallows rfl
        rw [hm] at hsound
        exact (hsound.2 _ rfl).2.2 sub hsub hid.symm
    · exact .inr (hwithdrawn.after cmd)

/-- A finished job is logged. -/
theorem Viewed.report (h : Viewed r c x d (w, log) hs ms) {t : T} {job : Job}
    {answer : Option Answer}
    (hallows : ∀ self root, job = .onSignalingMessage self root →
      (Message.remove_subscriber x c).signal? = some root → ms t = .told c (onRemoveStream x)) :
    Viewed r c x d (w, log ++ [(job, answer)]) hs (Function.update ms t (.working false none)) := by
  refine ⟨h.fits, h.subscriber_ids, h.published, sound_update h.sound .idle,
    fun self root answer' hlog hroot => ?_, h.viewed⟩
  rcases List.mem_append.mp hlog with hlog | hlog
  · exact h.told self root answer' hlog hroot
  · obtain ⟨hjob, -⟩ := Prod.mk.inj (List.mem_singleton.mp hlog)
    have hsound := h.sound t
    rw [hallows self root hjob.symm hroot] at hsound
    exact hsound

theorem Viewed.start {s : World × Log} (h : Viewed r c x d s hs ms) (t : T) (job : Job) :
    Viewed r c x d s hs (Function.update ms t (ViewStage.enter job)) := by
  refine ⟨h.fits, h.subscriber_ids, h.published, sound_update h.sound ?_, h.told, h.viewed⟩
  cases job with
  | onSignalingMessage self root => trivial
  | _ => exact .idle

theorem Viewed.acquire {s : World × Log} (h : Viewed r c x d s hs ms) {t : T} (ht : hs t = none)
    (room_id : String) : Viewed r c x d s (Function.update hs t (some room_id)) ms := by
  refine ⟨h.fits, h.subscriber_ids, h.published, fun t' => ?_, h.told, h.viewed⟩
  by_cases hne : t' = t
  · subst hne
    have hlock : hs t' ≠ some r := by simp [ht]
    exact (h.sound t').elsewhere hlock _ (List.Subset.refl _)
  · rw [Function.update_of_ne hne]
    exact h.sound t'

theorem Viewed.release {s : World × Log} (h : Viewed r c x d s hs ms) (t : T) :
    Viewed r c x d s (Function.update hs t none)
      (Function.update ms t ((watchView r c x).leave (ms t))) := by
  refine ⟨h.fits, h.subscriber_ids, h.published, fun t' => ?_, h.told, h.viewed⟩
  by_cases hne : t' = t
  · subst hne
    rw [Function.update_self, Function.update_self]
    have hsound := h.sound t'
    cases hm : ms t' with
    | working seen drawn => exact .idle
    | removing stored sent => exact .idle
    | telling => trivial
    | told client_id event =>
        rw [hm] at hsound
        exact hsound
  · rw [Function.update_of_ne hne, Function.update_of_ne hne]
    exact h.sound t'

end Step

end Moment

/-! ## Every run -/

/-- The rows of a hash have different ids. -/
theorem distinct_perform {w : World} (hw : w.Fits) (command : Command) :
    Distinct command (perform command w).1 := by
  cases command with
  | hvals k name =>
      cases k with
      | subscriber =>
          rw [hw.hvals]
          exact fun s hs s' hs' hid => Table.eq_of_key_eq hs hs' hid
      | _ => trivial
  | _ => trivial

section Run

variable {T : Type} [DecidableEq T] {s s' : RecordedPool T} {r c x : String} {d : Prop}

/-- The runs that go on from a state. -/
def onward (s : RecordedPool T) : Machine (Action T Job) (RecordedPool T) :=
  machineFrom recordedStep Job.recorded fun s' => s' = s

/-- A run keeps what holds at every moment. -/
theorem exists_viewed {init : RecordedPool T → Prop} (hplain : Plain x)
    (hinit : ∀ s, init s → s.Held ∧ ∃ m, Viewed r c x d s.shared s.locks m ∧
      (watchView r c x).FollowsPool s m)
    (hs : (machineFrom recordedStep Job.recorded init).Reachable s) :
    s.Held ∧ ∃ m, Viewed r c x d s.shared s.locks m ∧ (watchView r c x).FollowsPool s m := by
  have hmeets : (machineFrom recordedStep Job.recorded init).Reaches
      (Monitor.Meets recordedStep Job.recorded (fun _ _ => True) fun _ _ => True) s := by
    refine hs.mono fun a s _ => ?_
    cases a <;> simp [Monitor.Meets]
  refine LockMonitor.exists_invariant (I := Viewed r c x d)
    (fun job _ _ => followsView_recorded job)
    hinit (fun job t s h m hI _ _ => hI.start t job) (fun command s h m hI => ?_)
    (fun command t s h m hexclusive hI hallows _ => ?_)
    (fun room_id t s h m hI ht _ => hI.acquire ht room_id)
    (fun room_id t s h m hI _ => hI.release t) hmeets
  · cases command with
    | inl command =>
        exact ⟨succeeds_perform hI.fits.readsSucceed hI.fits.writesSucceed command,
          distinct_perform hI.fits command⟩
    | inr report => trivial
  · obtain ⟨w, log⟩ := s
    cases command with
    | inl command => exact hI.command hplain hexclusive hallows
    | inr report => exact hI.report hallows

omit [DecidableEq T] in
/-- A pool of idle threads. -/
theorem followsPool_idle {W : LockMonitor RecordedCommand RecordedReply String ViewStage}
    (hidle : ∀ t, s.thread t = .outside (.ret ())) (m : T → ViewStage) :
    s.Held ∧ W.FollowsPool s m := by
  refine ⟨fun t r β body k ht => ?_, fun t => ?_⟩
  · rw [hidle t] at ht
    cases ht
  · rw [hidle t]
    trivial

/-- A client that has ever been subscribed to a stream, by an id without a NUL, and at rest was
not told of its removal, still finds it stored. -/
theorem no_ghost_stream {room_id : String} {sub : Subscriber} (hs : (journaled T).Reachable s)
    (hsub : sub ∈ s.shared.1.redis .subscriber room_id) (hplain : Plain sub.subscribe_to)
    (hs' : (onward s).Reachable s')
    (hquiet : Quiescent s')
    (htold : (sub.client_id, onRemoveStream sub.subscribe_to) ∉ s'.shared.1.events) :
    Published s'.shared.1.redis room_id sub.subscribe_to := by
  have hinit : ∀ s, (journaled T).init s → s.Held ∧
      ∃ m, Viewed room_id sub.client_id sub.subscribe_to False s.shared s.locks m ∧
        (watchView room_id sub.client_id sub.subscribe_to).FollowsPool s m := by
    rintro s ⟨⟨⟨hfits, hempty⟩, hlog⟩, hidle, hfree⟩
    have hnone : ∀ sub, sub ∉ s.shared.1.redis .subscriber room_id := by
      intro sub hsub
      rw [hempty .subscriber trivial] at hsub
      exact Table.not_mem_empty (V := Subscriber) sub hsub
    obtain ⟨hheld, hm⟩ := followsPool_idle (W := watchView room_id sub.client_id sub.subscribe_to)
      hidle fun _ => .working false none
    refine ⟨hheld, _, ⟨hfits, fun sub hsub => absurd hsub (hnone sub),
      fun sub hsub => absurd hsub (hnone sub), fun t => .idle, fun ec root answer hmem => ?_,
      False.elim⟩, hm⟩
    rw [hlog] at hmem
    cases hmem
  obtain ⟨hheld, m, hI, hm⟩ := exists_viewed hplain hinit hs
  have hview : ∀ t : RecordedPool T, t = s → t.Held ∧
      ∃ m, Viewed room_id sub.client_id sub.subscribe_to True t.shared t.locks m ∧
        (watchView room_id sub.client_id sub.subscribe_to).FollowsPool t m := by
    intro t ht
    rw [ht]
    exact ⟨hheld, m, ⟨hI.fits, hI.subscriber_ids, hI.published, hI.sound, hI.told,
      fun _ => .inl ⟨sub, hsub, rfl, rfl⟩⟩, hm⟩
  obtain ⟨-, m', hI', -⟩ := exists_viewed hplain hview hs'
  rcases hI'.viewed trivial with ⟨sub', hsub', -, hto⟩ | ⟨queuename, hsent⟩
  · exact hto ▸ hI'.published sub' hsub' hto
  · -- The message that was sent has been handled.
    obtain ⟨ec, answer, -, hlog⟩ := hquiet.messages _ _ _ hsent rfl
    exact absurd (hI'.told ec _ answer hlog rfl) htold

end Run

/-! Client `a` publishes, client `c` joins, and `a` leaves. -/

/-- The client of a connection after its token event. -/
def joined (id : String) : Client :=
  { id, room_id := test_room_id, reply_to := "ec", agent_id := "agent", erizo_id := "e" }

/-- The steps of a token event, a publish event and an answer of an erizo, by one thread. -/
def joinSteps (id : String) : List (Action Bool Job) :=
  .start false (.onMessage joinController { id } (some joinEvent)) ::
    List.replicate 7 (.command false)

def streamSteps (id : String) : List (Action Bool Job) :=
  [.start false (.onMessage joinController (joined id) (some publishEvent)), .command false,
    .command false, .command false, .acquire false, .command false, .command false, .release false,
    .command false]

def answerSteps : List (Action Bool Job) :=
  [.start false (.onSignalingMessage joinController (.objectValue [("data", .objectValue
    [("type", .stringValue "publisher_answer"), ("clientId", .stringValue "a"),
      ("streamId", .stringValue "x"), ("sdp", .stringValue ""),
      ("roomId", .stringValue test_room_id),
      ("videoSSRC", .uintValue 7), ("audioSSRC", .uintValue 8)])])), .acquire false,
    .command false, .command false, .release false, .command false, .command false]

def subscribeSteps (id : String) : List (Action Bool Job) :=
  [.start false (.onMessage joinController (joined id) (some (.arrayValue [.stringValue "subscribe",
      .objectValue [("streamId", .stringValue "x")]]))), .acquire false, .command false,
    .command false, .command false, .command false, .release false, .command false]

def leaveSteps (id : String) (commands : ℕ) : List (Action Bool Job) :=
  [.start false (.onClose (joined id)), .acquire false] ++
    List.replicate commands (.command false) ++ [.release false, .command false]

/-- The state after some steps. -/
def endOf (steps : List (Action Bool Job)) : RecordedPool Bool :=
  ((journaled Bool).run steps joinPool).getD joinPool

theorem joinPool_init : (journaled Bool).init joinPool := by
  refine ⟨⟨⟨⟨rfl, rfl, fun _ => List.not_mem_nil, freshOracle_fits.injective⟩,
    fun k hk room_id => ?_⟩,
    rfl⟩, fun _ => rfl, fun _ => rfl⟩
  cases k with
  | publisher => rfl
  | subscriber => rfl
  | bridge_stream => rfl
  | _ => exact hk.elim

theorem reachable_endOf {steps : List (Action Bool Job)}
    (h : ((journaled Bool).run steps joinPool).isSome = true) :
    (journaled Bool).Reachable (endOf steps) := by
  obtain ⟨s, hs⟩ := Option.isSome_iff_exists.mp h
  have hend : endOf steps = s := by rw [endOf, hs, Option.getD_some]
  exact hend ▸ (Machine.Reaches.init joinPool_init).run (fun _ _ => trivial) hs

def subscribedRun : List (Action Bool Job) :=
  joinSteps "a" ++ streamSteps "a" ++ answerSteps ++ joinSteps "c" ++ subscribeSteps "c"

def isIdle : Thread RecordedCommand RecordedReply String → Bool
  | .outside (.ret _) => true
  | _ => false

theorem eq_of_isIdle {th : Thread RecordedCommand RecordedReply String} (h : isIdle th = true) :
    th = .outside (.ret ()) := by
  rw [isIdle.eq_def] at h
  split at h
  · rfl
  · cases h

/-- The messages to controllers, as their signaling queues read them. -/
def signals (w : World) : List (String × Value) :=
  w.outbox.filterMap fun message => message.2.signal?.map (message.1, ·)

theorem mem_signals {w : World} {queuename : String} {data : Message} {root : Value}
    (h : (queuename, data) ∈ w.outbox) (hroot : data.signal? = some root) :
    (queuename, root) ∈ signals w :=
  List.mem_filterMap.mpr ⟨(queuename, data), h, by simp [hroot]⟩

theorem quiescent_endOf {steps : List (Action Bool Job)}
    (hidle : ∀ t, isIdle ((endOf steps).thread t) = true)
    (htasks : ∀ task ∈ (endOf steps).shared.1.tasks,
      ∃ answer, (.task task, answer) ∈ (endOf steps).shared.2)
    (hsignals : ∀ message ∈ signals (endOf steps).shared.1, message.1 = "ec" ∧
      ∃ answer, (.onSignalingMessage joinController message.2, answer) ∈ (endOf steps).shared.2) :
    Quiescent (endOf steps) where
  idle t := eq_of_isIdle (hidle t)
  tasks := htasks
  messages queuename data root hmem hroot := by
    obtain ⟨hec, answer, hlog⟩ := hsignals _ (mem_signals hmem hroot)
    exact ⟨joinController, answer, hec.symm, hlog⟩

/-- The stream that `c` is subscribed to is stored. -/
theorem no_ghost_stream_subscribed :
    Published (endOf subscribedRun).shared.1.redis test_room_id "x" := by
  have hstored : ((endOf subscribedRun).shared.1.redis .subscriber test_room_id).rows.any
      (fun sub => sub.client_id == "c" && sub.subscribe_to == "x") = true := by decide
  obtain ⟨sub, hsub, hviews⟩ := List.any_eq_true.mp hstored
  obtain ⟨hclient, hto⟩ := Bool.and_eq_true_iff.mp hviews
  have hquiet : Quiescent (endOf subscribedRun) := by
    refine quiescent_endOf (fun t => by cases t <;> decide) ?_ ?_
    · have htasks : (endOf subscribedRun).shared.1.tasks = [] := by decide
      simp [htasks]
    · have hsignals : signals (endOf subscribedRun).shared.1 = [] := rfl
      simp [hsignals]
  have htold : (sub.client_id, onRemoveStream sub.subscribe_to) ∉
      (endOf subscribedRun).shared.1.events := by
    have hothers : (endOf subscribedRun).shared.1.events.all (fun event => event.1 != "c") =
      true := by
      decide
    intro hmem
    have hne := List.all_eq_true.mp hothers _ hmem
    rw [beq_iff_eq.mp hclient] at hne
    cases hne
  have hplain : Plain sub.subscribe_to := by
    rw [beq_iff_eq.mp hto]
    decide
  have hpublished := no_ghost_stream (reachable_endOf (by decide)) hsub hplain
    (.init rfl : (onward (endOf subscribedRun)).Reachable (endOf subscribedRun)) hquiet htold
  exact beq_iff_eq.mp hto ▸ hpublished

/-- Client `c` joins and does not subscribe. -/
def unsubscribedRun : List (Action Bool Job) :=
  joinSteps "a" ++ streamSteps "a" ++ joinSteps "c" ++ leaveSteps "a" 7

def onAddStream (stream_id label : String) : Value :=
  signalingEvent "onAddStream" [("id", .stringValue stream_id), ("audio", .booleanValue true),
    ("video", .booleanValue true), ("data", .booleanValue true), ("label", .stringValue label),
    ("screen", .stringValue "")]

/-- The handling of a message by the controller. -/
def signalSteps (data : Message) : List (Action Bool Job) :=
  [.start false (.onSignalingMessage joinController (data.signal?.getD .nullValue)), .command false,
    .command false]

/-- Client `c` subscribes, and `a` leaves while the task of its stream is about to tell `c`
of the stream. -/
def overtakenRun : List (Action Bool Job) :=
  subscribedRun ++
    [.start false (.onSignalingMessage joinController (.objectValue [("data", .objectValue
        [("type", .stringValue "ready"), ("clientId", .stringValue "a"),
          ("streamId", .stringValue "x"), ("roomId", .stringValue test_room_id)])])),
      .acquire false, .command false, .release false, .command false,
      .start true (.task (.notifyToSubscribe test_room_id "a" "x")), .command true,
      .command true] ++
    leaveSteps "a" 10 ++ [.command true, .command true] ++
    signalSteps (.remove_subscriber "x" "c") ++ signalSteps (.new_publisher "x" "c" "l")

/-- At rest a registered client keeps a stream that is gone: one that joined and did not
subscribe is not told of the removal, and one that did subscribe is told of the stream after
the removal. -/
theorem ghost_streams :
    (∃ s, (journaled Bool).Reachable s ∧ Quiescent s ∧ Registered s.shared.1 "c" ∧
      (∃ self client reply, (.onMessage self client (some joinEvent), some (.write reply)) ∈
        s.shared.2 ∧
        client.id = "c" ∧ "x" ∈ streamIds reply) ∧
      ("c", onRemoveStream "x") ∉ s.shared.1.events ∧
      ¬ Published s.shared.1.redis test_room_id "x") ∧
    ∃ s, (journaled Bool).Reachable s ∧ Quiescent s ∧ Registered s.shared.1 "c" ∧
      (∃ before after, s.shared.1.events = before ++ ("c", onAddStream "x" "l") :: after ∧
        ("c", onRemoveStream "x") ∉ after) ∧
      ¬ Published s.shared.1.redis test_room_id "x" := by
  constructor
  · refine ⟨endOf unsubscribedRun, reachable_endOf (by decide), ?_, by decide, ?_, ?_, by decide⟩
    · refine quiescent_endOf (fun t => by cases t <;> decide) ?_ ?_
      · have htasks : (endOf unsubscribedRun).shared.1.tasks = [] := by decide
        simp [htasks]
      · have hsignals : signals (endOf unsubscribedRun).shared.1 = [] := rfl
        simp [hsignals]
    · exact ⟨joinController, { id := "c" }, _, List.mem_of_getElem? (i := 2) rfl, rfl, by decide⟩
    · have hnone : (endOf unsubscribedRun).shared.1.events = [] := rfl
      simp [hnone]
  · refine ⟨endOf overtakenRun, reachable_endOf (by decide), ?_, by decide, ?_, by decide⟩
    · refine quiescent_endOf (fun t => by cases t <;> decide) ?_ ?_
      · have htasks : (endOf overtakenRun).shared.1.tasks =
            [.notifyToSubscribe test_room_id "a" "x"] := by decide
        intro task htask
        obtain rfl := List.mem_singleton.mp (htasks ▸ htask)
        exact ⟨none, List.mem_of_getElem? (i := 7) rfl⟩
      · have hsignals : signals (endOf overtakenRun).shared.1 =
            [("ec", (Message.remove_subscriber "x" "c").signal?.getD .nullValue),
              ("ec", (Message.new_publisher "x" "c" "l").signal?.getD .nullValue)] := rfl
        intro message hmem
        rw [hsignals] at hmem
        rcases List.mem_cons.mp hmem with rfl | hmem
        · exact ⟨rfl, none, List.mem_of_getElem? (i := 8) rfl⟩
        · obtain rfl := List.mem_singleton.mp hmem
          exact ⟨rfl, none, List.mem_of_getElem? (i := 9) rfl⟩
    · have hevents : (endOf overtakenRun).shared.1.events =
          (endOf overtakenRun).shared.1.events.take 2 ++ [("c", onAddStream "x" "l")] := rfl
      exact ⟨_, [], hevents, List.not_mem_nil⟩

end ErizoController
