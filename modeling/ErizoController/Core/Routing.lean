import ErizoController.Core.Allocation
import ErizoController.Core.Publish
import ErizoController.Core.SessionDiscipline

/-!
# Where signaling goes

A signaling message of a connection is sent to the erizo that its client is on, and a stream is
on the erizo that its publisher or subscriber was filed with. The two agree as long as no token
moves the client to another erizo while it has streams.
-/

open Json Prog Script

namespace ErizoController

/-! ## The streams of a client -/

/-- The row is a publisher or a subscriber of the client. -/
def StreamOf (c : String) : (k : Kind) → k.Rec → Prop
  | .publisher, p => p.client_id = c
  | .subscriber, s => s.client_id = c
  | _, _ => False

/-- If the row is a publisher or a subscriber of the client, then it is on the erizo. -/
def RowOn (c erizo_id : String) : (k : Kind) → k.Rec → Prop
  | .publisher, p => p.client_id = c → p.erizo_id = erizo_id
  | .subscriber, s => s.client_id = c → s.erizo_id = erizo_id
  | _, _ => True

/-- All streams of the client are on the erizo. -/
def StreamsOn (c erizo_id : String) (r : Redis) : Prop :=
  ∀ k name, ∀ row ∈ r k name, RowOn c erizo_id k row

def NoStreams (c : String) (r : Redis) : Prop := ∀ k name, ∀ row ∈ r k name, ¬ StreamOf c k row

/-- The command files no stream of the client elsewhere. -/
def FilesOn (c erizo_id : String) : Command → Prop
  | .hset k _ row => RowOn c erizo_id k row
  | _ => True

/-- A section that leaves the streams where they are. -/
def KeepsStreams (c erizo_id : String) {β : Type} (_ : String) (body : Handler β) : Prop :=
  ∀ w, StreamsOn c erizo_id w.redis → StreamsOn c erizo_id (exec body w).2.redis

section StreamsOn

variable {c erizo_id : String} {w : World}

theorem NoStreams.streamsOn {r : Redis} (h : NoStreams c r) : StreamsOn c erizo_id r := by
  intro k name row hrow
  cases k with
  | publisher => exact fun hc => (h .publisher name row hrow hc).elim
  | subscriber => exact fun hc => (h .subscriber name row hrow hc).elim
  | _ => trivial

/-- Streams that are on two erizos are none. -/
theorem StreamsOn.noStreams {erizo_id' : String} {r : Redis} (h : StreamsOn c erizo_id r)
    (h' : StreamsOn c erizo_id' r) (hne : erizo_id' ≠ erizo_id) : NoStreams c r := by
  intro k name row hrow hc
  cases k with
  | publisher =>
      exact hne ((h' .publisher name row hrow hc).symm.trans (h .publisher name row hrow hc))
  | subscriber =>
      exact hne ((h' .subscriber name row hrow hc).symm.trans (h .subscriber name row hrow hc))
  | _ => exact hc

theorem StreamsOn.set {r : Redis} (h : StreamsOn c erizo_id r) {k : Kind} {name : String}
    {row : k.Rec}
    (hrow : RowOn c erizo_id k row) :
    StreamsOn c erizo_id (r.update k name ((r k name).set row)) := by
  intro k' name' row' hrow'
  by_cases hk : k' = k
  · subst hk
    by_cases hname : name' = name
    · subst hname
      rw [Redis.update_self, Table.mem_set] at hrow'
      rcases hrow' with rfl | ⟨hmem, -⟩
      · exact hrow
      · exact h _ _ _ hmem
    · rw [Redis.update_name _ _ _ hname] at hrow'
      exact h _ _ _ hrow'
  · rw [Redis.update_kind _ _ _ _ hk] at hrow'
    exact h _ _ _ hrow'

theorem StreamsOn.command (h : StreamsOn c erizo_id w.redis) {command : Command}
    (hc : FilesOn c erizo_id command) : StreamsOn c erizo_id (perform command w).2.redis := by
  intro k name row hrow
  rcases mem_perform hrow with hmem | rfl
  · exact h k name row hmem
  · exact hc

theorem keepsStreams_of_each {β : Type} {room_id : String} {body : Handler β}
    (hbody : body.Each (FilesOn c erizo_id)) : KeepsStreams c erizo_id room_id body :=
  fun _ h => hbody.run (I := fun v : World => StreamsOn c erizo_id v.redis)
    (fun _ _ hcommand hv => hv.command hcommand) h

theorem StreamsOn.session {α : Type} {p : Session α}
    (hp : p.All (FilesOn c erizo_id) (KeepsStreams c erizo_id))
    (h : StreamsOn c erizo_id w.redis) : StreamsOn c erizo_id (execSession p w).2.redis :=
  All.run perform tryLock (fun v : World => StreamsOn c erizo_id v.redis)
    (fun _ _ hcommand hv => hv.command hcommand) (fun _ _ hv => hv)
    (fun _ _ v hbody hv => hbody v hv) hp h

end StreamsOn

/-! ## The handlers -/

section Handlers

variable {c erizo_id : String}

theorem PlainCommand.filesOn {command : Command} (h : PlainCommand command) :
    FilesOn c erizo_id command := by
  cases command with
  | hset k name row =>
      cases k with
      | publisher => exact (h trivial).elim
      | subscriber => exact (h trivial).elim
      | _ => trivial
  | _ => trivial

theorem SilentCommand.filesOn {command : Command} (h : SilentCommand command) :
    FilesOn c erizo_id command := h.plain.filesOn

/-- A section that only files bridges. -/
theorem Within.filesOn {room_id : String} {dels : List Kind} {command : Command}
    (h : Within room_id [.bridge_stream] dels command) : FilesOn c erizo_id command := by
  cases command with
  | hset k name row =>
      obtain rfl : k = .bridge_stream := List.mem_singleton.mp h.1
      trivial
  | _ => trivial

theorem keepsStreams_removeClientLocked (client : Client) :
    KeepsStreams c erizo_id client.room_id (removeClientLocked client) := by
  refine keepsStreams_of_each ((each_removeClientLocked client).mono fun command h => ?_)
  exact h.filesOn

/-- An answer files the publisher that it has read, on the erizo it is on. -/
theorem keepsStreams_publisherAnswerLocked (room_id stream_id : String) (v a : UInt32) :
    KeepsStreams c erizo_id room_id (publisherAnswerLocked room_id stream_id v a) := by
  intro w h
  rw [exec_publisherAnswerLocked]
  cases hread : readPublisher? w room_id stream_id with
  | none => exact h
  | some p =>
      dsimp only
      split
      · exact h
      · have hp : p ∈ w.redis .publisher room_id := (mem_of_readPublisher? hread).1
        exact @StreamsOn.set _ _ _ h .publisher room_id (answered p v a) (h .publisher room_id p hp)

variable (self : ErizoController) {client : Client}

/-- The events of a client file its streams on its erizo. -/
theorem all_onMessage_filesOn (hown : client.id = c → client.erizo_id = erizo_id)
    (root : Option Value) :
    (self.onMessage client root).All (FilesOn c erizo_id) (KeepsStreams c erizo_id) := by
  unfold onMessage
  split
  · split_ifs
    · exact All.bind (all_monadLift ((each_handleToken self client).mono fun _ h => h.filesOn))
        fun _ => trivial
    · refine All.bind (all_handlePublish_of self client ⟨trivial, trivial⟩
        (fun publisher hp herizo => ?_) _) fun _ => trivial
      exact keepsStreams_of_each (each_publishLocked_of self client
        (fun hc => herizo.trans (hown (hp.symm.trans hc))) fun _ => trivial)
    · refine All.bind (all_handleSubscribe_of self client fun stream_id _ => ?_) fun _ => trivial
      exact keepsStreams_of_each (each_subscribeLocked_of self client trivial trivial
        (fun _ _ hc => hown hc) (fun p s => (each_setUpBridge client p s).mono fun _ h => h.filesOn)
        fun _ => trivial)
    · exact All.bind (all_monadLift ((each_handleSignaling client _).mono fun _ h => h.filesOn))
        fun _ => trivial
    · trivial
  · trivial

theorem all_script_filesOn {job : Job} (hjob : job.Foreign c) :
    job.script.All (FilesOn c erizo_id) (KeepsStreams c erizo_id) := by
  have hsilent : ∀ {α : Type} {p : Session α}, p.All SilentCommand (KeepsStreams c erizo_id) →
      p.All (FilesOn c erizo_id) (KeepsStreams c erizo_id) :=
    fun h => h.imp (fun _ h => h.filesOn) fun _ _ => id
  cases job with
  | onMessage ec client root =>
      exact (all_onMessage_filesOn ec (fun hc => absurd hc hjob) root).bind fun _ => trivial
  | onClose client =>
      exact hsilent (All.bind (all_withLock (keepsStreams_removeClientLocked client))
        fun _ => trivial)
  | onSignalingMessage ec root =>
      exact hsilent (All.bind (all_onSignalingMessage_of ec keepsStreams_publisherAnswerLocked
        (fun _ _ _ => keepsStreams_of_each ((each_issue _).mpr trivial)) root) fun _ => trivial)
  | task task =>
      cases task with
      | notifyToSubscribe room_id client_id stream_id =>
          exact hsilent (all_monadLift (each_notifyToSubscribe room_id client_id stream_id))
      | removeExpireErizoController id =>
          exact hsilent (all_removeExpireErizoController_of keepsStreams_removeClientLocked id)

end Handlers

/-! ## An event of the connection -/

section Event

variable (self : ErizoController) (client : Client) (w : World)

/-- The erizo that a token leaves its client on. -/
def tokenErizo : String :=
  match self.chosenAgent client w, firstErizo w.oracle.rpcReply 3 with
  | some _, some erizo => erizo.erizo_id
  | _, _ => client.erizo_id

theorem handleToken_erizo :
    (exec (self.handleToken client) w).1.1.erizo_id = self.tokenErizo client w := by
  have houtcome := self.handleToken_outcome client w
  rw [tokenErizo]
  generalize (exec (self.handleToken client) w).1 = result at houtcome ⊢
  generalize (exec (self.handleToken client) w).2.redis = r at houtcome
  cases houtcome with
  | noAgent hagent => rw [hagent]; rfl
  | noErizo agent hagent herizo => rw [hagent, herizo]; rfl
  | notFiled agent erizo hagent herizo hfault => rw [hagent, herizo]; rfl
  | halfFiled agent erizo c hagent herizo hc hwrite hfault => rw [hagent, herizo, hc]; rfl
  | filed agent erizo c publishers r hagent herizo hc hwrite hwrite' => rw [hagent, herizo, hc]; rfl

variable {root : Option Value}

/-- Only a token changes its client. -/
theorem onMessage_client (htoken : isToken root = false) :
    (execSession (self.onMessage client root) w).1.1 = client := by
  unfold onMessage
  split
  · split_ifs with hevent hpublish hsubscribe hsignaling
    · rw [isToken, hevent] at htoken
      cases htoken
    · rw [execSession_bind]
      rfl
    · rw [execSession_bind]
      rfl
    · rw [execSession_bind]
      rfl
    · rfl
  · rfl

theorem exists_of_isToken (htoken : isToken root = true) :
    ∃ members rest, root =
      some (.arrayValue (.stringValue "token" :: .objectValue members :: rest)) := by
  unfold isToken at htoken
  split at htoken
  · exact ⟨_, _, by rw [eq_of_beq htoken]⟩
  · cases htoken

theorem onMessage_token (htoken : isToken root = true) :
    (execSession (self.onMessage client root) w).1.1.id = client.id ∧
      (execSession (self.onMessage client root) w).1.1.erizo_id = self.tokenErizo client w ∧
      (execSession (self.onMessage client root) w).2 = (exec (self.handleToken client) w).2 := by
  obtain ⟨members, rest, rfl⟩ := exists_of_isToken htoken
  rw [onMessage, if_pos rfl, execSession_bind, execSession_lift]
  exact ⟨((returns_handleToken self client).run perform w).1, self.handleToken_erizo client w, rfl⟩

/-- A token files no streams. -/
theorem handleToken_streams {k : Kind} (hk : k.Guarded) (name : String) :
    (exec (self.handleToken client) w).2.redis k name = w.redis k name := by
  refine (each_handleToken self client).run (I := fun v : World => v.redis k name = w.redis k name)
    (fun command v hcommand hv => ?_) rfl
  rw [← hv]
  refine Room.perform_frame v (fun row heq => ?_) fun fields heq => ?_
  · subst heq
    exact hcommand hk
  · subst heq
    exact hcommand hk

theorem noStreams_handleToken {c : String} :
    NoStreams c (exec (self.handleToken client) w).2.redis ↔ NoStreams c w.redis := by
  refine forall_congr' fun k => forall_congr' fun name => ?_
  cases k with
  | publisher => rw [handleToken_streams self client w (k := .publisher) trivial]
  | subscriber => rw [handleToken_streams self client w (k := .subscriber) trivial]
  | _ => simp [StreamOf]

end Event

/-! ## Every run of a connection -/

structure Connection where
  client : Client
  world : World

/-- An event of the connection, and something that another thread or controller does; each with
the answers of the outside to it. -/
inductive ConnectionAction where
  | event (root : Option Value) (o : Oracle)
  | other (job : Job) (o : Oracle)

instance (c : String) (job : Job) : Decidable (job.Foreign c) :=
  match job with
  | .onMessage _ client _ => inferInstanceAs (Decidable (client.id ≠ c))
  | .onClose client => inferInstanceAs (Decidable (client.id ≠ c))
  | .onSignalingMessage .. | .task _ => .isTrue trivial

section Runs

variable (self : ErizoController)

def connectionStep : ConnectionAction → Connection → Option Connection
  | .event root o, s =>
      let outcome := execSession (self.onMessage s.client root) (s.world.withOracle o)
      some { client := outcome.1.1, world := outcome.2 }
  | .other job o, s =>
      if job.Foreign s.client.id then
        some { s with world := (execSession job.script (s.world.withOracle o)).2 }
      else none

/-- A connection that is new, in a store where anything but its client may be. -/
def connection : Machine ConnectionAction Connection where
  init s := NoStreams s.client.id s.world.redis
  step := connectionStep self

/-- A signaling message for a stream of the client goes to the erizo in its publisher, and one for
a stream that it is subscribed to goes to the erizo in its subscriber. -/
def RoutesSignaling (s : Connection) : Prop :=
  ∀ members rest stream_id msg o, (Value.objectValue members).string? "streamId" = some stream_id →
    (Value.objectValue members).object? "msg" = some msg →
    ∃ queuename, (execSession (self.onMessage s.client (some (.arrayValue
          (.stringValue "signaling_message" :: .objectValue members :: rest))))
        (s.world.withOracle o)).2.outbox =
        s.world.outbox ++ [(queuename, .processSignaling s.client.id stream_id msg)] ∧
      (∀ room_id, ∀ p ∈ s.world.redis .publisher room_id, p.client_id = s.client.id →
        p.id = stream_id → queuename = p.erizo_id) ∧
      ∀ room_id, ∀ subscriber ∈ s.world.redis .subscriber room_id,
        subscriber.client_id = s.client.id → subscriber.subscribe_to = stream_id →
        queuename = subscriber.erizo_id

/-- A token leaves its client where it is, or the client has no streams. -/
def MovesNoStreams : ConnectionAction → Connection → Prop
  | .event root o, s => isToken root = true →
      self.tokenErizo s.client (s.world.withOracle o) = s.client.erizo_id ∨
        NoStreams s.client.id s.world.redis
  | .other .., _ => True

variable {self}

/-- Signaling goes where the streams are exactly when they are on the erizo of the client. -/
theorem routesSignaling_iff {s : Connection} :
    RoutesSignaling self s ↔ StreamsOn s.client.id s.client.erizo_id s.world.redis := by
  have hsent : ∀ {members stream_id msg} (rest : List Value) (o : Oracle),
      (Value.objectValue members).string? "streamId" = some stream_id →
      (Value.objectValue members).object? "msg" = some msg →
      (execSession (self.onMessage s.client (some (.arrayValue
          (.stringValue "signaling_message" :: .objectValue members :: rest))))
        (s.world.withOracle o)).2.outbox =
        s.world.outbox ++ [(s.client.erizo_id, .processSignaling s.client.id stream_id msg)] := by
    intro members stream_id msg rest o hstream hmsg
    rw [onMessage, if_neg (by decide), if_neg (by decide), if_neg (by decide), if_pos rfl,
      execSession_bind, execSession_lift, handleSignaling, hstream, hmsg]
    rfl
  constructor
  · intro h
    have hqueue : ∀ stream_id, (∀ room_id, ∀ p ∈ s.world.redis .publisher room_id,
          p.client_id = s.client.id → p.id = stream_id → p.erizo_id = s.client.erizo_id) ∧
        ∀ room_id, ∀ subscriber ∈ s.world.redis .subscriber room_id,
          subscriber.client_id = s.client.id → subscriber.subscribe_to = stream_id →
          subscriber.erizo_id = s.client.erizo_id := by
      intro stream_id
      have hstream : (Value.objectValue [("streamId", .stringValue stream_id),
          ("msg", .objectValue [])]).string? "streamId" = some stream_id := rfl
      obtain ⟨queuename, hout, hpublisher, hsubscriber⟩ := h _ [] _ _ s.world.oracle hstream rfl
      rw [hsent [] s.world.oracle hstream rfl] at hout
      obtain rfl := congrArg Prod.fst (List.singleton_inj.mp (List.append_cancel_left hout))
      exact ⟨fun room_id p hp hc hid => (hpublisher room_id p hp hc hid).symm,
        fun room_id subscriber hs hc hto => (hsubscriber room_id subscriber hs hc hto).symm⟩
    intro k name row hrow
    cases k with
    | publisher => exact fun hc => (hqueue row.id).1 name row hrow hc rfl
    | subscriber => exact fun hc => (hqueue row.subscribe_to).2 name row hrow hc rfl
    | _ => trivial
  · intro h members rest stream_id msg o hstream hmsg
    exact ⟨_, hsent rest o hstream hmsg,
      fun room_id p hp hc _ => (h .publisher room_id p hp hc).symm,
      fun room_id subscriber hs hc _ => (h .subscriber room_id subscriber hs hc).symm⟩

theorem connectionStep_iff {a : ConnectionAction} {s s' : Connection}
    (h : RoutesSignaling self s) (hstep : (connection self).step a s = some s') :
    RoutesSignaling self s' ↔ MovesNoStreams self a s := by
  rw [routesSignaling_iff] at h ⊢
  cases a with
  | other job o =>
      change (if job.Foreign s.client.id then _ else _) = _ at hstep
      split at hstep
      · rename_i hjob
        obtain rfl := Option.some.inj hstep
        exact iff_of_true (StreamsOn.session (all_script_filesOn hjob) h) trivial
      · cases hstep
  | event root o =>
      have hkeeps : StreamsOn s.client.id s.client.erizo_id
          (execSession (self.onMessage s.client root) (s.world.withOracle o)).2.redis :=
        StreamsOn.session (all_onMessage_filesOn self (fun _ => rfl) root) h
      obtain rfl := Option.some.inj hstep
      cases htoken : isToken root with
      | false =>
          refine iff_of_true ?_ fun htoken' => by cases htoken.symm.trans htoken'
          dsimp only
          rw [onMessage_client self s.client _ htoken]
          exact hkeeps
      | true =>
          obtain ⟨hid, herizo, hworld⟩ :=
            onMessage_token self s.client (s.world.withOracle o) htoken
          dsimp only
          rw [hid, herizo, hworld]
          rw [hworld] at hkeeps
          constructor
          · intro hmoved _
            by_cases hsame : self.tokenErizo s.client (s.world.withOracle o) = s.client.erizo_id
            · exact .inl hsame
            · exact .inr ((noStreams_handleToken self s.client (s.world.withOracle o)).mp
                (hkeeps.noStreams hmoved hsame))
          · intro hP
            rcases hP htoken with hsame | hnone
            · rwa [hsame]
            · exact NoStreams.streamsOn ((noStreams_handleToken self s.client _).mpr hnone)

/-- In a run of a connection signaling is routed to the erizos of the streams in every state if
and only if no token moves the client while it has streams. -/
theorem signaling_routed_iff {s : Connection} (hs : (connection self).init s)
    (actions : List ConnectionAction) :
    (connection self).Throughout (RoutesSignaling self) actions s ↔
      (connection self).Along (MovesNoStreams self) actions s := by
  refine Machine.throughout_iff_along (fun a s s' h hstep => connectionStep_iff h hstep) ?_
    (routesSignaling_iff.mpr (NoStreams.streamsOn hs))
  intro a s
  cases a with
  | event root o => exact .inr (Option.some_ne_none _)
  | other job o => exact .inl trivial

/-- An agent that names an erizo. -/
def erizoOracle (erizo_id : String) : Oracle :=
  { Oracle.quiet with
    streamId := .const "p"
    systemMs := .const 1099511628000
    rpcReply := .const (.objectValue [("erizoID", .stringValue erizo_id),
      ("bridgeIP", .stringValue "10.0.0.1"), ("bridgePort", .intValue 6000)]) }

def newConnection : Connection := ⟨{ id := "c" }, worldAlone⟩

/-- The client enters, publishes a stream and sends a second token. -/
def secondToken (erizo_id : String) : List ConnectionAction :=
  let token := some (.arrayValue [.stringValue "token", .objectValue []])
  [.event token (erizoOracle "e1"),
    .event (some (.arrayValue [.stringValue "publish", .objectValue [("label", .stringValue "")]]))
      (erizoOracle "e1"),
    .event token (erizoOracle erizo_id)]

theorem newConnection_init : (connection areaController).init newConnection := by
  intro k name row hrow hc
  cases k with
  | publisher => exact Table.not_mem_empty row hrow
  | subscriber => exact Table.not_mem_empty row hrow
  | _ => exact hc

/-- A second token on the same erizo. -/
theorem signaling_routed_iff_same_erizo :
    (connection areaController).Throughout (RoutesSignaling areaController) (secondToken "e1")
      newConnection := by
  refine (signaling_routed_iff newConnection_init _).mpr ⟨fun _ => .inr newConnection_init, ?_⟩
  intro s₁ h₁
  obtain rfl := Option.some.inj h₁
  refine ⟨fun htoken => absurd htoken (by decide), fun s₂ h₂ => ?_⟩
  obtain rfl := Option.some.inj h₂
  exact ⟨fun _ => .inl (by decide), fun _ _ => trivial⟩

/-- A stream that the erizo of the client does not have. -/
def strayStream (s : Connection) : Bool :=
  (s.world.redis .publisher "test_room_id").rows.any fun p =>
    p.client_id = s.client.id ∧ p.erizo_id ≠ s.client.erizo_id

/-- A second token moves the client to another erizo, and its stream stays. -/
theorem signaling_misrouted :
    (connection areaController).init newConnection ∧
      ¬ (connection areaController).Throughout (RoutesSignaling areaController) (secondToken "e2")
        newConnection := by
  refine ⟨newConnection_init, fun h => ?_⟩
  have hrun : ((connection areaController).run (secondToken "e2") newConnection).any strayStream =
      true := by decide
  obtain ⟨s, hs, hstray⟩ := (Option.any_eq_true _ _).mp hrun
  have hon := routesSignaling_iff.mp (h.last hs)
  obtain ⟨p, hp, hboth⟩ := List.any_eq_true.mp hstray
  obtain ⟨hc, hne⟩ := of_decide_eq_true hboth
  exact hne (hon .publisher "test_room_id" p hp hc)

end Runs

end ErizoController
