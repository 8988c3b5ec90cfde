import ErizoController.Core.Joining

/-!
# The whole life of a connection

A connection sends any events in any order and is closed in the end. Its handlers do not
ask for a token event first: a publish or subscribe event is handled in the room that the
client has, which is the empty one until a token event comes, and the close cleans up the
room the client has at its end. So what was filed before the first token event stays.
-/

open Json Locked Prog Script Room

namespace ErizoController

/-! ## Sessions -/

/-- The beginnings of the events of a connection and of its close, and what the close has
come to. -/
inductive Milestone where
  | event (root : Option Value)
  | close
  | closed (result : Option Bool)

abbrev SessionCommand := Command ⊕ Milestone

abbrev SessionReply : SessionCommand → Type := Reported Milestone Command.Reply

/-- A connection: its events, each with the client that the ones before have left, and its
close. -/
def session (self : ErizoController) :
    Client → List (Option Value) → Script SessionCommand SessionReply String Unit
  | client, [] => .cmd (.inr .close) fun _ => Script.reporting .closed (onClose client)
  | client, root :: roots =>
      .cmd (.inr (.event root)) fun _ => do
        let (client, _) ← Script.embed Milestone (self.onMessage client root)
        session self client roots

/-- The job is not an event of a connection of the client. -/
def Job.Foreign (c : String) : Job → Prop
  | .onMessage _ client _ => client.id ≠ c
  | .onClose client => client.id ≠ c
  | _ => True

/-- The record is there because of the client. -/
def Belongs (c : String) : (k : Kind) → k.Rec → Prop
  | .client, row => row.id = c
  | .ec, row => row.id = c
  | .publisher, row => row.client_id = c
  | .subscriber, row => row.client_id = c
  | _, _ => False

abbrev SessionPool (T : Type) :=
  Pool SessionCommand SessionReply String (Option T) (World × List Milestone)

/-- One thread runs the connection of a client that has no records yet, and the others
whatever they are given. No Redis command fails. -/
def sessions (T : Type) [DecidableEq T] (self : ErizoController) (client : Client)
    (roots : List (Option Value)) : Machine (Action (Option T) Job) (SessionPool T) :=
  machineFrom (reportStep perform) (fun job => Script.embed Milestone job.script) fun s =>
    (s.shared.1.ReadsSucceed ∧ s.shared.1.WritesSucceed ∧ s.shared.2 = [] ∧
      ∀ k name, ∀ row ∈ s.shared.1.redis k name, ¬ Belongs client.id k row) ∧
    s.thread none = .outside (session self client roots) ∧
    (∀ t, s.thread (some t) = .outside (.ret ())) ∧ ∀ r, s.owner r = none

/-! ## Where a connection files its records -/

/-- The message is a publish or a subscribe event. -/
def isFiling : Option Value → Bool
  | some (.arrayValue (.stringValue event :: .objectValue _ :: _)) =>
      event == "publish" || event == "subscribe"
  | _ => false

def Milestone.isToken : Milestone → Bool
  | .event root => ErizoController.isToken root
  | _ => false

def Milestone.isFiling : Milestone → Bool
  | .event root => ErizoController.isFiling root
  | _ => false

/-- A token event has begun. -/
def tokenCame (log : List Milestone) : Bool := log.any Milestone.isToken

/-- A publish or subscribe event has begun before any token event. -/
def filedEarly : List Milestone → Bool
  | [] => false
  | e :: log => !e.isToken && (e.isFiling || filedEarly log)

theorem tokenCame_append (log : List Milestone) (e : Milestone) :
    tokenCame (log ++ [e]) = (tokenCame log || e.isToken) := by
  simp [tokenCame]

theorem filedEarly_append (log : List Milestone) (e : Milestone) :
    filedEarly (log ++ [e]) =
      (filedEarly log || (!tokenCame log && (!e.isToken && e.isFiling))) := by
  induction log with
  | nil => simp [filedEarly, tokenCame]
  | cons e' log ih =>
      have hany : tokenCame (e' :: log) = (e'.isToken || tokenCame log) := rfl
      rw [List.cons_append, filedEarly, ih, filedEarly, hany]
      cases e'.isToken <;> cases e'.isFiling <;> simp

/-- Where a connection with this history may have records. -/
def Place (self : ErizoController) (log : List Milestone) : Kind → String → Prop
  | .client, name => tokenCame log = true ∧ name = test_room_id
  | .ec, name => tokenCame log = true ∧ name = self.id_
  | .publisher, name =>
      tokenCame log = true ∧ name = test_room_id ∨ filedEarly log = true ∧ name = ""
  | .subscriber, name =>
      tokenCame log = true ∧ name = test_room_id ∨ filedEarly log = true ∧ name = ""
  | _, _ => True

theorem Place.append {self : ErizoController} {log : List Milestone} {k : Kind} {name : String}
    (h : Place self log k name) (e : Milestone) : Place self (log ++ [e]) k name := by
  have htoken : tokenCame log = true → tokenCame (log ++ [e]) = true := by
    intro h
    rw [tokenCame_append, h, Bool.true_or]
  have hearly : filedEarly log = true → filedEarly (log ++ [e]) = true := by
    intro h
    rw [filedEarly_append, h, Bool.true_or]
  cases k with
  | client => exact ⟨htoken h.1, h.2⟩
  | ec => exact ⟨htoken h.1, h.2⟩
  | publisher => exact h.imp (And.imp_left htoken) (And.imp_left hearly)
  | subscriber => exact h.imp (And.imp_left htoken) (And.imp_left hearly)
  | _ => trivial

/-! ## The watched stages -/

section Watch

-- The controller of the connection and the id of its client.
variable (ec : ErizoController) (c : String)

/-- The room of the connection. -/
def homeOf (tokened : Bool) : String := if tokened then test_room_id else ""

/-- The queue that the client of the connection names. -/
def queueOf (tokened : Bool) : String := if tokened then ec.getReplyTo else ""

/-- What a close still has to remove: the ids of the listed records, and whether the client
is gone. -/
structure Remains where
  subscribers : Option (List String) := none
  publishers : Option (List String) := none
  client : Bool := false
  controller_client : Bool := false

/-- Everything is removed. -/
def Remains.nothing : Remains where
  subscribers := some []
  publishers := some []
  client := true
  controller_client := true

/-- Of the records of the client at most those are there. -/
structure Remains.Bounds (left : Remains) (w : World) (tokened : Bool) : Prop where
  subscribers : ∀ ids, left.subscribers = some ids →
    ∀ s ∈ w.redis .subscriber (homeOf tokened), s.client_id = c → s.id ∈ ids
  publishers : ∀ ids, left.publishers = some ids →
    ∀ p ∈ w.redis .publisher (homeOf tokened), p.client_id = c → p.id ∈ ids
  client : left.client = true → ∀ row ∈ w.redis .client (homeOf tokened), row.id ≠ c
  controller_client : left.controller_client = true →
    ∀ row ∈ w.redis .ec (queueOf ec tokened), row.id ≠ c

def subscriberIdsOf (rows : List Subscriber) : List String :=
  (rows.filter fun s => s.client_id = c).map Subscriber.id

def publisherIdsOf (rows : List Publisher) : List String :=
  (rows.filter fun p => p.client_id = c).map Publisher.id

/-- How far a command of the close has come. -/
def Remains.after (left : Remains) (tokened : Bool) : (command : Command) → command.Reply → Remains
  | .hvals .subscriber name, (_, rows) =>
      if name = homeOf tokened then
        { left with subscribers := some (subscriberIdsOf c rows) }
      else left
  | .hvals .publisher name, (_, rows) =>
      if name = homeOf tokened then
        { left with publishers := some (publisherIdsOf c rows) }
      else left
  | .hdel .subscriber name fields, _ =>
      if name = homeOf tokened then
        { left with subscribers := left.subscribers.map (List.filter (· ∉ fields)) }
      else left
  | .hdel .publisher name fields, _ =>
      if name = homeOf tokened then
        { left with publishers := left.publishers.map (List.filter (· ∉ fields)) }
      else left
  | .hdel .client name fields, _ =>
      if name = homeOf tokened ∧ c ∈ fields then { left with client := true } else left
  | .hdel .ec name fields, _ =>
      if name = queueOf ec tokened ∧ c ∈ fields then { left with controller_client := true }
      else left
  | _, _ => left

/-- What a thread is doing: an event of the connection, with whether its kind files records,
its close, or something else, with the publisher that its section has read last. -/
inductive SessionStage where
  | foreign (read : Option Publisher)
  | own (tokened files : Bool)
  | closing (tokened : Bool) (left : Remains)

/-- A record of the client may be filed there under the id. -/
def SessionStage.Files : SessionStage → Kind → String → String → Prop
  | .foreign read, k, _, name => k = .publisher ∧ ∃ p ∈ read, p.id = name ∧ p.client_id = c
  | .own tokened _, .client, name, _ => tokened = true ∧ name = test_room_id
  | .own tokened _, .ec, name, _ => tokened = true ∧ name = ec.id_
  | .own tokened files, _, name, _ => files = true ∧ name = homeOf tokened
  | .closing .., _, _, _ => False

/-- Publishers are only written under the lock, and records of the client only where they
may be. -/
def SessionStage.allows (r : Option String) (m : SessionStage) : Command → Prop
  | .hset k name row =>
      (k = .publisher → r = some name) ∧ (Belongs c k row → m.Files ec c k name (Keyed.key row))
  | .hdel .publisher name _ => r = some name
  | _ => True

def SessionStage.next (r : Option String) :
    SessionStage → (command : Command) → command.Reply → SessionStage
  | .foreign _, .hget .publisher name _, (_, row) => .foreign (if r = some name then row else none)
  | .foreign _, .hset .publisher _ _, _ => .foreign none
  | .foreign _, .hdel .publisher _ _, _ => .foreign none
  | .closing tokened left, command, reply =>
      .closing tokened (left.after ec c tokened command reply)
  | m, _, _ => m

/-- What may be reported: the events and the close of the connection, and at its end that
the close has removed everything, if it had the lock. -/
def SessionStage.reports : SessionStage → Milestone → Prop
  | .own .., .event _ => True
  | .own .., .close => True
  | .closing _ left, .closed result => result = none ∨ result = some true ∧ left = .nothing
  | _, _ => False

def SessionStage.mark : SessionStage → Milestone → SessionStage
  | .own tokened _, .event root => .own (tokened || isToken root) (isFiling root)
  | .own tokened _, .close => .closing tokened {}
  | _, _ => .foreign none

def watchSession : LockMonitor SessionCommand SessionReply String SessionStage where
  allows
    | r, m, .inl command => m.allows ec c r command
    | _, m, .inr milestone => m.reports milestone
  next
    | r, m, .inl command, reply => m.next ec c r command reply
    | _, m, .inr milestone, _ => m.mark milestone
  leave
    | .foreign _ => .foreign none
    | m => m
  occurs
    | .inl command, reply => Succeeds command reply
    | .inr _, _ => True

end Watch

/-! ## What the handlers file -/

/-- The command files records of the client only. -/
def FilesFor (client_id : String) : Command → Prop
  | .hset k _ row => ∀ c, Belongs c k row → c = client_id
  | _ => True

/-- A section that only files bridges. -/
theorem Within.filesFor {room_id client_id : String} {dels : List Kind} {command : Command}
    (h : Within room_id [.bridge_stream] dels command) : FilesFor client_id command := by
  cases command with
  | hset k name row =>
      obtain rfl : k = .bridge_stream := List.mem_singleton.mp h.1
      exact fun c hc => hc.elim
  | _ => trivial

section FilesFor

variable (self : ErizoController) (client : Client)

theorem each_publishLocked_filesFor {publisher : Publisher} (hp : publisher.client_id = client.id) :
    (self.publishLocked client publisher).Each (FilesFor client.id) :=
  each_publishLocked_of self client (fun _ hc => hc.symm.trans hp) fun _ => trivial

theorem each_setUpBridge_filesFor (p : Publisher) (s : Subscriber) :
    (setUpBridge client p s).Each (FilesFor client.id) :=
  (each_setUpBridge client p s).mono fun _ h => h.filesFor

theorem each_subscribeLocked_filesFor (stream_id : String) :
    (self.subscribeLocked client stream_id).Each (FilesFor client.id) :=
  each_subscribeLocked_of self client trivial trivial (fun _ _ _ hc => hc.symm)
    (each_setUpBridge_filesFor client) fun _ => trivial

/-- The commands of a token event. -/
def Registers (client_id : String) (command : Command) : Prop :=
  SilentCommand command ∨ ∃ row : Client, row.id = client_id ∧
    (command = .hset .client test_room_id row ∨ command = .hset .ec self.id_ row)

theorem each_registerClient_registers {client : Client} (hroom : client.room_id = test_room_id) :
    (self.registerClient client).Each (Registers self client.id) := by
  refine Each.bind (RedisHelper.each_add (.inr ⟨client.stored, rfl, .inl ?_⟩)) fun rc => ?_
  · rw [hroom]
  split
  · trivial
  · refine Each.bind (RedisHelper.each_add (.inr ⟨client.stored, rfl, .inr rfl⟩)) fun rc => ?_
    split
    · trivial
    · refine Each.bind (RedisHelper.each_getAll (.inl trivial)) fun r => ?_
      cases r <;> trivial

/-- What a token event leaves of a client. -/
def Enters (client client' : Client) : Prop :=
  client'.id = client.id ∧ client'.room_id = test_room_id ∧ client'.reply_to = self.getReplyTo

theorem Enters.trans {client client' client'' : Client} (h : Enters self client client')
    (h' : SameConnection client' client'') : Enters self client client'' :=
  ⟨h'.1.trans h.1, h'.2.1.trans h.2.1, h'.2.2.trans h.2.2⟩

theorem returns_handleToken :
    (self.handleToken client).Returns fun r => Enters self client r.1 := by
  refine Returns.bind (returns_allocAgent self _) fun (rc, client') h => ?_
  have hclient' : Enters self client client' := h
  dsimp only
  split
  · exact hclient'
  · refine Returns.bind (returns_allocErizoTries _ 3) fun (rc, client'') h' => ?_
    dsimp only
    split
    · exact Enters.trans self hclient' h'
    · exact Returns.bind (returns_true _) fun _ _ => Enters.trans self hclient' h'

theorem each_handleToken_registers :
    (self.handleToken client).Each (Registers self client.id) := by
  refine Each.bind_returns ((each_allocAgent self _).mono fun _ => .inl) (returns_allocAgent self _)
    fun (rc, client') h => ?_
  have hclient' : Enters self client client' := h
  dsimp only
  split
  · trivial
  · refine Each.bind_returns ((each_allocErizoTries _ 3).mono fun _ => .inl)
      (returns_allocErizoTries _ 3) fun (rc, client'') h' => ?_
    have hclient'' : Enters self client client'' := Enters.trans self hclient' h'
    dsimp only
    split
    · trivial
    · refine Each.bind ?_ fun _ => trivial
      rw [← hclient''.1]
      exact each_registerClient_registers self hclient''.2.1

end FilesFor

/-! ## The other threads follow the watch -/

section Follow

open LockMonitor

variable {self : ErizoController} {c : String}

/-- A command that has nothing to do with the client's records. -/
def Tame (c : String) (r : Option String) : Command → Prop
  | .hset k name row => ¬ Belongs c k row ∧ (k = .publisher → r = some name)
  | .hdel .publisher name _ => r = some name
  | _ => True

theorem SilentCommand.tame {r : Option String} {command : Command} (h : SilentCommand command) :
    Tame c r command := by
  cases command with
  | hset k name row => exact h.elim
  | hdel k name fields => exact h.elim
  | _ => trivial

theorem Within.tame {room_id client_id : String} {sets dels : List Kind} {command : Command}
    (h : Within room_id sets dels command) (hfiles : FilesFor client_id command)
    (hne : client_id ≠ c) : Tame c (some room_id) command := by
  cases command with
  | hset k name row =>
      refine ⟨fun hbelongs => hne (hfiles c hbelongs).symm, fun hk => ?_⟩
      rw [h.2 (by subst hk; trivial)]
  | hdel k name fields =>
      cases k with
      | publisher => exact congrArg some (h.2 trivial).symm
      | _ => trivial
  | _ => trivial

theorem Registers.tame {client_id : String} {command : Command}
    (h : Registers self client_id command)
    (hne : client_id ≠ c) : Tame c none command := by
  rcases h with h | ⟨row, rfl, rfl | rfl⟩
  · exact h.tame
  · exact ⟨hne, fun hk => by cases hk⟩
  · exact ⟨hne, fun hk => by cases hk⟩

theorem tame_allows {r : Option String} {command : Command} (h : Tame c r command)
    (m : SessionStage) : m.allows self c r command := by
  cases command with
  | hset k name row => exact ⟨h.2, fun hbelongs => absurd hbelongs h.1⟩
  | hdel k name fields =>
      cases k with
      | publisher => exact h
      | _ => trivial
  | _ => trivial

theorem foreign_next {r : Option String} (read : Option Publisher) (command : Command)
    (reply : command.Reply) :
    ∃ read', (SessionStage.foreign read).next self c r command reply = .foreign read' := by
  cases command with
  | hset k name row => cases k <;> exact ⟨_, rfl⟩
  | hdel k name fields => cases k <;> exact ⟨_, rfl⟩
  | hget k name field => cases k <;> exact ⟨_, rfl⟩
  | _ => exact ⟨_, rfl⟩

/-- What is followed in the section of a thread that does something else. -/
def FollowsForeign (self : ErizoController) (c : String) {β : Type} (room_id : String)
    (body : Handler β) : Prop :=
  (watchSession self c).commands.Follows (some room_id)
    (fun m _ => (watchSession self c).leave m = .foreign none) (.foreign none) body

theorem followsForeign_of_tame {β : Type} {room_id : String} {body : Handler β}
    (h : body.Each (Tame c (some room_id))) : FollowsForeign self c room_id body := by
  refine (follows_of_each (Z := fun m => ∃ read, m = .foreign read) h (returns_true body)
    ⟨none, rfl⟩ ?_).mono ?_
  · rintro m command ⟨read, rfl⟩ hcommand
    exact ⟨tame_allows hcommand _, fun reply => foreign_next read command reply⟩
  · rintro m b ⟨⟨read, rfl⟩, -⟩
    rfl

theorem succeeds_of_occurs (command : Command) (reply : command.Reply)
    (h : (watchSession self c).commands.occurs command reply) : Succeeds command reply := h

/-- An answer files the publisher that it has read. -/
theorem followsForeign_publisherAnswerLocked (room_id stream_id : String) (v a : UInt32) :
    FollowsForeign self c room_id (publisherAnswerLocked room_id stream_id v a) := by
  refine Follows.bind (LockMonitor.follows_get succeeds_of_occurs (Q := fun m row => m =
    .foreign row) trivial
    fun rc row => ?_) fun m row hm => ?_
  · exact congrArg SessionStage.foreign (if_pos rfl)
  · subst hm
    cases row with
    | none => rfl
    | some p =>
        refine Follows.bind (LockMonitor.follows_add succeeds_of_occurs (Q := fun m _ => m =
          .foreign none)
          ⟨fun _ => rfl, fun hp => ?_⟩ fun rc => rfl) fun m rc hm => ?_
        · exact ⟨rfl, p, rfl, rfl, hp⟩
        · subst hm
          rfl

theorem followsForeign_removeClientLocked (client : Client) :
    FollowsForeign self c client.room_id (removeClientLocked client) := by
  refine followsForeign_of_tame ((each_removeClientLocked client).mono fun command h => ?_)
  have hne : c ++ "x" ≠ c := fun h => by simpa using congrArg String.length h
  exact h.tame h.filesFor hne

theorem all_onMessage_foreign (ec : ErizoController) {client : Client} (hne : client.id ≠ c)
    (root : Option Value) :
    (ec.onMessage client root).All (Tame c none) (FollowsForeign self c) := by
  unfold onMessage
  split
  · split_ifs
    · exact All.bind
        (all_monadLift ((each_handleToken_registers ec client).mono fun _ h => h.tame hne))
        fun _ => trivial
    · refine All.bind (all_handlePublish_of ec client ⟨trivial,
        trivial⟩ (fun publisher hp _ => ?_) _)
        fun _ => trivial
      refine followsForeign_of_tame (((each_publishLocked ec client publisher).and
        (each_publishLocked_filesFor ec client hp)).mono fun command h => h.1.tame h.2 hne)
    · refine All.bind (all_handleSubscribe_of ec client fun stream_id _ => ?_) fun _ => trivial
      refine followsForeign_of_tame (((each_subscribeLocked ec client stream_id).and
        (each_subscribeLocked_filesFor ec client stream_id)).mono fun command h => h.1.tame h.2 hne)
    · exact All.bind (all_monadLift ((each_handleSignaling client _).mono fun _ h => h.tame))
        fun _ => trivial
    · trivial
  · trivial

theorem all_script_foreign {job : Job} (hjob : job.Foreign c) :
    job.script.All (Tame c none) (FollowsForeign self c) := by
  have hsilent : ∀ {α : Type} {p : Session α}, p.All SilentCommand (FollowsForeign self c) →
      p.All (Tame c none) (FollowsForeign self c) :=
    fun h => h.imp (fun _ h => h.tame) fun _ _ => id
  cases job with
  | onMessage ec client root => exact (all_onMessage_foreign ec hjob root).bind fun _ => trivial
  | onClose client =>
      exact hsilent (All.bind (all_withLock (followsForeign_removeClientLocked client))
        fun _ => trivial)
  | onSignalingMessage ec root =>
      exact hsilent (All.bind (all_onSignalingMessage_of ec followsForeign_publisherAnswerLocked
        (fun _ _ _ => followsForeign_of_tame ((each_issue _).mpr trivial)) root) fun _ => trivial)
  | task task =>
      cases task with
      | notifyToSubscribe room_id client_id stream_id =>
          exact hsilent (all_monadLift (each_notifyToSubscribe room_id client_id stream_id))
      | removeExpireErizoController id =>
          exact hsilent (all_removeExpireErizoController_of followsForeign_removeClientLocked id)

theorem followsScript_foreign {job : Job} (hjob : job.Foreign c) :
    (watchSession self c).FollowsScript (fun _ _ => True) (.foreign none)
      (Script.embed Milestone job.script) := by
  refine FollowsScript.embed (FollowsScript.mono (followsScript_steady
    (all_script_foreign hjob) (fun command h => ⟨tame_allows h _, fun reply => ?_⟩)
    fun _ _ h => h) fun _ _ _ => trivial)
  cases command with
  | hset k name row => cases k <;> rfl
  | hdel k name fields => cases k <;> rfl
  | hget k name field => cases k <;> rfl
  | _ => rfl

/-! ## The connection follows the watch -/

/-- The client of the connection, as its events leave it. -/
def Connected (self : ErizoController) (c : String) (tokened : Bool) (client : Client) : Prop :=
  client.id = c ∧ client.room_id = homeOf tokened ∧ client.reply_to = queueOf self tokened

theorem own_next {r : Option String} {tokened files : Bool} (command : Command)
    (reply : command.Reply) :
    (SessionStage.own tokened files).next self c r command reply = .own tokened files := by
  cases command <;> rfl

theorem own_steady {r : Option String} {tokened files : Bool} {command : Command}
    (h : (SessionStage.own tokened files).allows self c r command) :
    (watchSession self c).commands.Steady r (.own tokened files) command := by
  refine ⟨h, fun reply => ?_⟩
  exact @own_next self c r tokened files command reply

theorem SilentCommand.own_allows {r : Option String} {tokened files : Bool} {command : Command}
    (h : SilentCommand command) : (SessionStage.own tokened files).allows self c r command := by
  cases command with
  | hset k name row => exact h.elim
  | hdel k name fields => exact h.elim
  | _ => trivial

theorem Within.own_allows {room_id : String} {sets : List Kind} {tokened : Bool} {command : Command}
    (h : Within room_id sets [] command) (hsets : ∀ k ∈ sets, k.Guarded)
    (hroom : room_id = homeOf tokened) :
    (SessionStage.own tokened true).allows self c (some room_id) command := by
  cases command with
  | hset k name row =>
      have hguarded := hsets k h.1
      refine ⟨fun _ => by rw [h.2 hguarded], fun hbelongs => ?_⟩
      have hname : name = homeOf tokened := (h.2 hguarded).trans hroom
      cases k with
      | publisher => exact ⟨rfl, hname⟩
      | subscriber => exact ⟨rfl, hname⟩
      | bridge_stream => exact hbelongs.elim
      | _ => exact hguarded.elim
  | hdel k name fields => cases h.1
  | _ => trivial

/-- What is followed in a section of the connection. -/
def FollowsOwn (self : ErizoController) (c : String) (tokened : Bool) {β : Type} (room_id : String)
    (body : Handler β) : Prop :=
  (watchSession self c).commands.Follows (some room_id)
    (fun m _ => (watchSession self c).leave m = .own tokened true) (.own tokened true) body

theorem followsOwn_of_within {tokened : Bool} {β : Type} {room_id : String} {sets : List Kind}
    {body : Handler β} (h : body.Each (Within room_id sets [])) (hsets : ∀ k ∈ sets, k.Guarded)
    (hroom : room_id = homeOf tokened) : FollowsOwn self c tokened room_id body := by
  refine (follows_steady h (returns_true body) fun command hcommand =>
    own_steady (hcommand.own_allows hsets hroom)).mono fun m b hm => ?_
  rw [hm.1]
  rfl

theorem followsScript_own {tokened : Bool} {α : Type} {p : Session α}
    (h : p.All (fun command => (SessionStage.own tokened true).allows self c none command)
      (FollowsOwn self c tokened)) :
    (watchSession self c).commands.FollowsScript (fun m _ => m = .own tokened true)
      (.own tokened true) p :=
  followsScript_steady h (fun _ hcommand => own_steady hcommand) fun _ _ hbody => hbody

/-- An event takes the client to the room of the connection and files its records there. -/
theorem follows_onMessage {tokened : Bool} {client : Client} (h : Connected self c tokened client)
    (root : Option Value) :
    (watchSession self c).commands.FollowsScript
      (fun m r => m = .own (tokened || isToken root) (isFiling root) ∧
        Connected self c (tokened || isToken root) r.1)
      (.own (tokened || isToken root) (isFiling root)) (self.onMessage client root) := by
  -- An event that is no token event leaves the client as it is.
  have hsame : isToken root = false → Connected self c (tokened || isToken root) client := by
    intro htoken
    rwa [htoken, Bool.or_false]
  unfold onMessage
  split
  · rename_i event members rest
    split_ifs with htoken hpublish hsubscribe hsignaling
    · subst htoken
      have htokened : (tokened || isToken (some (.arrayValue (.stringValue "token" ::
          .objectValue members :: rest)))) = true := Bool.or_true _
      rw [htokened]
      refine FollowsScript.bind
        (followsScript_lift (follows_steady (each_handleToken_registers self client)
        (returns_handleToken self client) fun command hcommand => own_steady ?_)) fun m r hm => ?_
      · rcases hcommand with hcommand | ⟨row, -, rfl | rfl⟩
        · exact hcommand.own_allows
        · exact ⟨fun hk => by (cases hk), fun _ => ⟨rfl, rfl⟩⟩
        · exact ⟨fun hk => by (cases hk), fun _ => ⟨rfl, rfl⟩⟩
      · obtain ⟨rfl, henters⟩ := hm
        exact ⟨rfl, henters.1.trans h.1, henters.2.1, henters.2.2⟩
    · subst hpublish
      have hroom := (hsame rfl).2.1
      refine FollowsScript.bind (followsScript_own (all_handlePublish_of self client
        ⟨trivial, trivial⟩ (fun publisher _ _ => ?_) _)) fun m reply hm => ⟨hm, hsame rfl⟩
      exact followsOwn_of_within (each_publishLocked self client publisher)
        (by simp [Kind.Guarded]) hroom
    · subst hsubscribe
      have hroom := (hsame rfl).2.1
      refine FollowsScript.bind (followsScript_own (all_handleSubscribe_of self client
        fun stream_id _ => ?_)) fun m reply hm => ⟨hm, hsame rfl⟩
      exact followsOwn_of_within (each_subscribeLocked self client stream_id)
        (by simp [Kind.Guarded]) hroom
    · subst hsignaling
      refine FollowsScript.bind (followsScript_lift (follows_steady (each_handleSignaling client _)
        (returns_true _) fun command hcommand => own_steady hcommand.own_allows))
        fun m _ hm => ⟨hm.1, hsame rfl⟩
    · exact ⟨rfl, hsame (beq_eq_false_iff_ne.mpr htoken)⟩
  · rename_i hroot
    refine ⟨rfl, hsame ?_⟩
    rw [isToken]
    assumption

/-! ## The close follows the watch -/

section Close

variable {tokened : Bool} {client : Client} (h : Connected self c tokened client)

theorem closing_steady {left : Remains} {command : Command}
    (hcommand : BridgeWork (homeOf tokened) command) :
    (watchSession self c).commands.Steady (some (homeOf tokened))
    (.closing tokened left) command := by
  cases command with
  | hset k name row =>
      obtain ⟨rfl, rfl⟩ := hcommand
      exact ⟨⟨fun hk => by (cases hk), id⟩, fun reply => rfl⟩
  | hdel k name fields =>
      obtain ⟨rfl, rfl⟩ := hcommand
      exact ⟨trivial, fun reply => rfl⟩
  | hvals k name =>
      obtain ⟨rfl, rfl⟩ := hcommand
      exact ⟨trivial, fun reply => rfl⟩
  | rpcNotReply queuename data => exact ⟨trivial, fun reply => rfl⟩
  | _ => exact hcommand.elim

theorem follows_dropSubscriber (left : Remains) (s : Subscriber) :
    (watchSession self c).commands.Follows (some (homeOf tokened))
      (fun m r => m = .closing tokened left ∧ r = some [s.id]) (.closing tokened left)
      (dropSubscriber (homeOf tokened) s) := by
  have hrest : (watchSession self c).commands.Follows (some (homeOf tokened))
      (fun m r => m = .closing tokened left ∧ r = some [s.id]) (.closing tokened left) (do
        removeSubscriber s
        notifyToRemoveSubscriber s
        return some [s.id]) :=
    ⟨trivial, fun _ _ => ⟨trivial, fun _ _ => ⟨rfl, rfl⟩⟩⟩
  rw [dropSubscriber]
  split
  · refine Follows.bind (follows_removeBridgeStreamSub succeeds_of_occurs
      (fun command hcommand => closing_steady hcommand) s.subscribe_to s.erizo_id) fun m rc hm => ?_
    obtain ⟨rfl, rfl⟩ := hm
    exact hrest
  · exact hrest

theorem follows_dropPublisher (left : Remains) (p : Publisher) :
    (watchSession self c).commands.Follows (some (homeOf tokened))
      (fun m r => m = .closing tokened left ∧ r = some [p.id]) (.closing tokened left)
      (dropPublisher (homeOf tokened) p) := by
  refine Follows.bind (follows_removeBridgeStreamPub succeeds_of_occurs
    (fun command hcommand => closing_steady hcommand) p.id p.erizo_id) fun m rc hm => ?_
  obtain ⟨rfl, rfl⟩ := hm
  exact ⟨trivial, fun _ _ => ⟨rfl, rfl⟩⟩

/-- The removal of the listed records, which is left out when there are none. -/
theorem follows_unlessEmpty {m n : SessionStage} {k : Kind} {ids : List String}
    (hallows : m.allows self c (some (homeOf tokened)) (.hdel k (homeOf tokened) ids))
    (hnext : ∀ rc, m.next self c (some (homeOf tokened)) (.hdel k (homeOf tokened) ids) rc = n)
    (hempty : ids = [] → m = n) :
    (watchSession self c).commands.Follows (some (homeOf tokened)) (fun m'' _ => m'' = n) m
      (unlessEmpty ids (RedisHelper.remove k (homeOf tokened) ids)) :=
  LockMonitor.follows_unlessEmpty hempty
    (LockMonitor.follows_remove succeeds_of_occurs (Q := fun m'' _ => m'' = n) hallows hnext)

theorem filter_not_mem_of_subset {ids fields : List String} (h : ids ⊆ fields) :
    ids.filter (· ∉ fields) = [] := by
  rw [List.filter_eq_nil_iff]
  intro id hid
  simpa using h hid

include h

theorem follows_removeRecords {own fields own' fields' : List String} (hown : own ⊆ fields)
    (hown' : own' ⊆ fields') :
    (watchSession self c).commands.Follows (some (homeOf tokened))
      (fun m done => m = .closing tokened .nothing ∧ done = true)
      (.closing tokened { subscribers := some own, publishers := some own' })
      (removeRecords client fields fields') := by
  obtain ⟨hid, hroom, hreply⟩ := h
  rw [removeRecords, RedisHelper.removeSubscribers, RedisHelper.removePublishers,
    RedisHelper.removeClient, RedisHelper.removeClientFromEC, hid, hroom, hreply]
  have hsubscribers := filter_not_mem_of_subset hown
  have hpublishers := filter_not_mem_of_subset hown'
  refine Follows.bind (follows_unlessEmpty
    (n := .closing tokened { subscribers := some [], publishers := some own' }) trivial
    (fun rc => ?_) fun hempty => ?_) fun m _ hm => ?_
  · simp only [SessionStage.next, Remains.after, if_true, Option.map_some, hsubscribers]
  · subst hempty
    rw [List.subset_nil.mp hown]
  subst hm
  refine Follows.bind (follows_unlessEmpty
    (n := .closing tokened { subscribers := some [], publishers := some [] }) rfl
    (fun rc => ?_) fun hempty => ?_) fun m _ hm => ?_
  · simp only [SessionStage.next, Remains.after, if_true, Option.map_some, hpublishers]
  · subst hempty
    rw [List.subset_nil.mp hown']
  subst hm
  refine Follows.bind (LockMonitor.follows_remove succeeds_of_occurs (Q := fun m _ =>
    m = .closing tokened { subscribers := some [], publishers := some [], client := true })
    trivial fun rc => ?_) fun m _ hm => ?_
  · simp [LockMonitor.commands, watchSession, SessionStage.next, Remains.after]
  subst hm
  refine Follows.bind (LockMonitor.follows_remove succeeds_of_occurs (Q := fun m _ =>
    m = .closing tokened .nothing) trivial fun rc => ?_) fun m _ hm => ⟨hm, rfl⟩
  simp [LockMonitor.commands, watchSession, SessionStage.next, Remains.after, Remains.nothing]

theorem follows_removeClientLocked :
    (watchSession self c).commands.Follows (some client.room_id)
      (fun m done => m = .closing tokened .nothing ∧ done = true) (.closing tokened {})
      (removeClientLocked client) := by
  have hid := h.1
  have hroom := h.2.1
  rw [removeClientLocked, hroom]
  refine Follows.bind (LockMonitor.follows_getAll succeeds_of_occurs (Q := fun m r => ∃ rows,
    r = some rows ∧ m = .closing tokened
      { subscribers := some (subscriberIdsOf c rows) })
    trivial fun rc rows _ => ⟨rows, ?_, ?_⟩) fun m r hm => ?_
  · rw [List.filter_true]
  · simp [LockMonitor.commands, watchSession, SessionStage.next, Remains.after]
  obtain ⟨subscribers, rfl, rfl⟩ := hm
  refine Follows.bind (LockMonitor.follows_getAll succeeds_of_occurs (Q := fun m r => ∃ rows,
    r = some rows ∧ m = .closing tokened
      { subscribers := some (subscriberIdsOf c subscribers)
        publishers := some (publisherIdsOf c rows) })
    trivial fun rc rows _ => ⟨rows, ?_, ?_⟩) fun m r hm => ?_
  · rw [List.filter_true]
  · simp [LockMonitor.commands, watchSession, SessionStage.next, Remains.after]
  obtain ⟨publishers, rfl, rfl⟩ := hm
  generalize hstage : SessionStage.closing tokened
    { subscribers := some (subscriberIdsOf c subscribers)
      publishers := some (publisherIdsOf c publishers) } = m
  dsimp only
  rw [collect_visitSubscriber, collect_visitPublisher, hroom]
  have hcollect :
    ∀ {α : Type} {f : α → Handler (Option (List String))} {g : α → String} (as : List α),
      (∀ a, (watchSession self c).commands.Follows (some (homeOf tokened))
        (fun m' r => m' = m ∧ r = some [g a]) m (f a)) →
      (watchSession self c).commands.Follows (some (homeOf tokened))
        (fun m' r => m' = m ∧ r = some (as.map g)) m (Prog.collect f as) := by
    intro α f g as hf
    refine follows_collect (Z := fun _ m' => m' = m) (fun _ a m' hm' => ?_) [] rfl
    subst hm'
    exact hf a
  refine Follows.bind (hcollect (viewings client subscribers publishers)
    fun s => hstage ▸ follows_dropSubscriber _ s) fun m' r hm' => ?_
  obtain ⟨rfl, rfl⟩ := hm'
  refine Follows.bind (hcollect (ownPublishers client publishers)
    fun p => hstage ▸ follows_dropPublisher _ p) fun m' r hm' => ?_
  obtain ⟨rfl, rfl⟩ := hm'
  rw [← hstage]
  refine follows_removeRecords h (List.map_subset _ fun s hs => ?_)
    (List.map_subset _ fun p hp => ?_)
  · obtain ⟨hs, hown⟩ := List.mem_filter.mp hs
    exact mem_viewings.mpr ⟨hs, .inl ((of_decide_eq_true hown).trans hid.symm)⟩
  · rw [ownPublishers, hid]
    exact hp

end Close

/-- The whole connection. -/
theorem follows_session {tokened files : Bool} {client : Client}
    (h : Connected self c tokened client)
    (roots : List (Option Value)) :
    (watchSession self c).FollowsScript (fun _ _ => True) (.own tokened files)
      (session self client roots) := by
  induction roots generalizing tokened files client with
  | nil =>
      refine ⟨trivial, fun _ _ => FollowsScript.reporting ?_⟩
      refine followsScript_withLock ((follows_removeClientLocked h).mono fun m b hm => ?_)
        (.inl rfl)
      obtain ⟨rfl, rfl⟩ := hm
      exact .inr ⟨rfl, rfl⟩
  | cons root roots ih =>
      refine ⟨trivial, fun _ _ => ?_⟩
      refine FollowsScript.bind (FollowsScript.embed (follows_onMessage h root)) fun m r hm => ?_
      obtain ⟨rfl, hclient⟩ := hm
      exact ih hclient

end Follow

/-! ## What holds at every moment -/

section Moment

variable {self : ErizoController} {c : String} {w : World} {tokened : Bool} {left : Remains}

/-- A command that files no records of the client, except in the place of a publisher of
the same id. -/
def OnlyRefiles (c : String) (w : World) (command : Command) : Prop :=
  ∀ k name row, command = .hset k name row → Belongs c k row →
    k = .publisher ∧ ∃ p ∈ w.redis .publisher name, p.id = Keyed.key row ∧ p.client_id = c

theorem Remains.Bounds.frame (h : left.Bounds self c w tokened) {command : Command}
    (hcommand : OnlyRefiles c w command) : left.Bounds self c (perform command w).2 tokened where
  subscribers ids hids s hs hown := by
    rcases mem_perform hs with hs | rfl
    · exact h.subscribers ids hids s hs hown
    · cases (hcommand _ _ _ rfl hown).1
  publishers ids hids p hp hown := by
    rcases mem_perform hp with hp | rfl
    · exact h.publishers ids hids p hp hown
    · obtain ⟨-, p', hp', hid, hown'⟩ := hcommand _ _ _ rfl hown
      have hmem := h.publishers ids hids p' hp' hown'
      rwa [hid] at hmem
  client hclient row hrow hid := by
    rcases mem_perform hrow with hrow | rfl
    · exact h.client hclient row hrow hid
    · cases (hcommand _ _ _ rfl hid).1
  controller_client hclient row hrow hid := by
    rcases mem_perform hrow with hrow | rfl
    · exact h.controller_client hclient row hrow hid
    · cases (hcommand _ _ _ rfl hid).1

/-- A command of the close removes what it says. -/
theorem Remains.Bounds.after (hr : w.ReadsSucceed) (hw : w.WritesSucceed) {command : Command}
    (h : left.Bounds self c (perform command w).2 tokened) :
    (left.after self c tokened command (perform command w).1).Bounds self c (perform command w).2
      tokened := by
  cases command with
  | hvals k name =>
      have hperform : perform (.hvals k name) w = ((1, (w.redis k name).rows), w) := by
        rw [perform, hr.head, if_neg Bool.false_ne_true, hr.drawRead]
      rw [hperform] at h ⊢
      cases k with
      | subscriber =>
          rw [Remains.after]
          split
          · rename_i hname
            subst hname
            refine ⟨fun ids hids s hs hown => ?_, h.publishers, h.client, h.controller_client⟩
            obtain rfl := Option.some.inj hids
            exact List.mem_map_of_mem (List.mem_filter.mpr ⟨hs, decide_eq_true hown⟩)
          · exact h
      | publisher =>
          rw [Remains.after]
          split
          · rename_i hname
            subst hname
            refine ⟨h.subscribers, fun ids hids p hp hown => ?_, h.client, h.controller_client⟩
            obtain rfl := Option.some.inj hids
            exact List.mem_map_of_mem (List.mem_filter.mpr ⟨hp, decide_eq_true hown⟩)
          · exact h
      | _ => exact h
  | hdel k name fields =>
      have hgone : ∀ row ∈ (perform (.hdel k name fields) w).2.redis k name,
      Keyed.key row ∉ fields :=
        fun row hrow => not_mem_of_hdel hw hrow
      generalize (perform (.hdel k name fields) w).2 = w' at h hgone ⊢
      cases k with
      | subscriber =>
          rw [Remains.after]
          split
          · rename_i hname
            subst hname
            refine ⟨fun ids hids s hs hown => ?_, h.publishers, h.client, h.controller_client⟩
            obtain ⟨ids', hids', rfl⟩ := Option.map_eq_some_iff.mp hids
            exact List.mem_filter.mpr ⟨h.subscribers ids' hids' s hs hown,
              decide_eq_true (hgone s hs)⟩
          · exact h
      | publisher =>
          rw [Remains.after]
          split
          · rename_i hname
            subst hname
            refine ⟨h.subscribers, fun ids hids p hp hown => ?_, h.client, h.controller_client⟩
            obtain ⟨ids', hids', rfl⟩ := Option.map_eq_some_iff.mp hids
            exact List.mem_filter.mpr ⟨h.publishers ids' hids' p hp hown,
              decide_eq_true (hgone p hp)⟩
          · exact h
      | client =>
          rw [Remains.after]
          split
          · rename_i hname
            obtain ⟨rfl, hmem⟩ := hname
            refine ⟨h.subscribers, h.publishers, fun _ row hrow hid => ?_, h.controller_client⟩
            have hkey : Keyed.key row = c := hid
            exact hgone row hrow (hkey.symm ▸ hmem)
          · exact h
      | ec =>
          rw [Remains.after]
          split
          · rename_i hname
            obtain ⟨rfl, hmem⟩ := hname
            refine ⟨h.subscribers, h.publishers, h.client, fun _ row hrow hid => ?_⟩
            have hkey : Keyed.key row = c := hid
            exact hgone row hrow (hkey.symm ▸ hmem)
          · exact h
      | _ => exact h
  | _ => exact h

/-- The thread is the one of the connection. -/
def SessionStage.IsOwn : SessionStage → Prop
  | .foreign _ => False
  | _ => True

variable {T : Type}

/-- What holds at every moment of a run. -/
structure Orderly (ec : ErizoController) (c : String) (s : World × List Milestone)
    (h : T → Option String) (m : T → SessionStage) : Prop where
  reads : s.1.ReadsSucceed
  writes : s.1.WritesSucceed
  placed : ∀ k name, ∀ row ∈ s.1.redis k name, Belongs c k row → Place ec s.2 k name
  single : ∀ t t', (m t).IsOwn → (m t').IsOwn → t = t'
  own : ∀ t tokened files, m t = .own tokened files →
    tokened = tokenCame s.2 ∧ (files = true → tokened = true ∨ filedEarly s.2 = true)
  /-- What a section has read stays stored as long as it has the lock. -/
  read : ∀ t p, m t = .foreign (some p) → p.client_id = c →
    ∃ r, h t = some r ∧ ∃ p' ∈ s.1.redis .publisher r, p'.id = p.id ∧ p'.client_id = c
  closing : ∀ t tokened left, m t = .closing tokened left →
    tokened = tokenCame s.2 ∧ left.Bounds ec c s.1 tokened
  closed : ∀ result, .closed result ∈ s.2 → (∀ t, ¬ (m t).IsOwn) ∧ ∀ done, result = some done →
    done = true ∧ Remains.nothing.Bounds ec c s.1 (tokenCame s.2)

variable {s : World × List Milestone} {h : T → Option String} {m : T → SessionStage}

/-- Where the rows of the client are filed that a thread may file. -/
theorem Orderly.placed_of_files (hI : Orderly self c s h m) {t : T} {k : Kind} {name : String}
    {row : k.Rec} (hallows : (m t).allows self c (h t) (.hset k name row))
    (hrow : Belongs c k row) :
    Place self s.2 k name := by
  have hfiles := hallows.2 hrow
  cases hm : m t with
  | foreign read =>
      rw [hm] at hfiles
      obtain ⟨rfl, p, hp, hid, hp'⟩ := hfiles
      obtain rfl := Option.mem_def.mp hp
      obtain ⟨r, hr, p', hmem, -, hown⟩ := hI.read t p hm hp'
      obtain rfl := Option.some.inj (hr.symm.trans (hallows.1 rfl))
      exact hI.placed .publisher r p' hmem hown
  | own tokened files =>
      rw [hm] at hfiles
      obtain ⟨htoken, hearly⟩ := hI.own t tokened files hm
      have hroom : files = true ∧ name = homeOf tokened →
          tokenCame s.2 = true ∧ name = test_room_id ∨ filedEarly s.2 = true ∧ name = "" := by
        rintro ⟨hkind, rfl⟩
        cases tokened with
        | true => exact .inl ⟨htoken.symm, rfl⟩
        | false => exact .inr ⟨(hearly hkind).resolve_left Bool.false_ne_true, rfl⟩
      cases k with
      | client => exact ⟨htoken ▸ hfiles.1, hfiles.2⟩
      | ec => exact ⟨htoken ▸ hfiles.1, hfiles.2⟩
      | publisher => exact hroom hfiles
      | subscriber => exact hroom hfiles
      | _ => trivial
  | closing tokened left =>
      rw [hm] at hfiles
      exact hfiles.elim

/-- A thread that is not in the middle of an event of the client only files publishers
anew. -/
theorem Orderly.onlyRefiles (hI : Orderly self c s h m) {t : T} {command : Command}
    (hallows : (m t).allows self c (h t) command)
    (hown : ∀ tokened files, m t ≠ .own tokened files) : OnlyRefiles c s.1 command := by
  rintro k name row rfl hrow
  have hfiles := hallows.2 hrow
  cases hm : m t with
  | foreign read =>
      rw [hm] at hfiles
      obtain ⟨rfl, p, hp, hid, hp'⟩ := hfiles
      obtain rfl := Option.mem_def.mp hp
      obtain ⟨r, hr, p', hmem, hid', hown'⟩ := hI.read t p hm hp'
      obtain rfl := Option.some.inj (hr.symm.trans (hallows.1 rfl))
      exact ⟨rfl, p', hmem, hid'.trans hid, hown'⟩
  | own tokened files => exact absurd hm (hown tokened files)
  | closing tokened left =>
      rw [hm] at hfiles
      exact hfiles.elim

/-- A command leaves what the other threads have read under their locks. -/
theorem publisher_frame {t t' : T} {r : String} (hexclusive : Exclusive h) (hne : t' ≠ t)
    {command : Command} (hallows : (m t).allows self c (h t) command) (hr : h t' = some r)
    (w : World) :
    (perform command w).2.redis .publisher r = w.redis .publisher r := by
  refine perform_frame w ?_ ?_
  · rintro row rfl
    exact hne (hexclusive t' t r hr (hallows.1 rfl))
  · rintro fields rfl
    exact hne (hexclusive t' t r hr hallows)

/-- A thread has read a publisher just now, or before and has not written since. -/
theorem read_next {r : Option String} {read : Option Publisher} {p : Publisher}
    (hr : w.ReadsSucceed)
    (command : Command)
    (h : (SessionStage.foreign read).next self c r command (perform command w).1 =
      .foreign (some p)) :
    (∃ name, r = some name ∧ p ∈ (perform command w).2.redis .publisher name) ∨
      read = some p ∧ ∀ name, (perform command w).2.redis .publisher name =
        w.redis .publisher name := by
  have hsame : SessionStage.foreign read = .foreign (some p) →
      (∀ name row, command ≠ .hset .publisher name row) →
      (∀ name fields, command ≠ .hdel .publisher name fields) →
      read = some p ∧ ∀ name, (perform command w).2.redis .publisher name =
        w.redis .publisher name :=
    fun heq hset hdel => ⟨SessionStage.foreign.inj heq, fun name =>
      perform_frame w (fun row => hset name row) fun fields => hdel name fields⟩
  cases command with
  | hset k name row =>
      cases k with
      | publisher => cases h
      | _ => exact .inr (hsame h (by simp) (by simp))
  | hdel k name fields =>
      cases k with
      | publisher => cases h
      | _ => exact .inr (hsame h (by simp) (by simp))
  | hget k name field =>
      cases k with
      | publisher =>
          have hperform : perform (.hget .publisher name field) w =
              ((1, (w.redis .publisher name).get? field), w) := by
            rw [perform, hr.head, if_neg Bool.false_ne_true, hr.drawRead]
          rw [hperform] at h ⊢
          have hread : (if r = some name then (w.redis .publisher name).get? field else none) =
            some p :=
            SessionStage.foreign.inj h
          split at hread
          · exact .inl ⟨name, ‹_›, (Table.get?_eq_some_iff.mp hread).1⟩
          · cases hread
      | _ => exact .inr (hsame h (by simp) (by simp))
  | _ => exact .inr (hsame h (by simp) (by simp))

variable [DecidableEq T]

theorem isOwn_next {r : Option String} {m : SessionStage} {command : Command}
    {reply : command.Reply}
    (h : (m.next self c r command reply).IsOwn) : m.IsOwn := by
  cases m with
  | foreign read =>
      obtain ⟨read', hread'⟩ := @foreign_next self c r read command reply
      rw [hread'] at h
      exact h
  | _ => trivial

/-- A thread goes over to something else. -/
theorem Orderly.to_foreign (hI : Orderly self c s h m) (t : T) :
    Orderly self c s h (Function.update m t (.foreign none)) := by
  have hcases : ∀ t', Function.update m t (.foreign none) t' = .foreign none ∨
      Function.update m t (.foreign none) t' = m t' := by
    intro t'
    by_cases hne : t' = t
    · subst hne
      exact .inl (Function.update_self _ _ _)
    · exact .inr (Function.update_of_ne hne _ _)
  have hisOwn : ∀ t', (Function.update m t (.foreign none) t').IsOwn → (m t').IsOwn := by
    intro t' hown
    rcases hcases t' with heq | heq
    · rw [heq] at hown
      exact hown.elim
    · rwa [heq] at hown
  refine ⟨hI.reads, hI.writes, hI.placed, fun t' t'' h' h'' => hI.single t' t'' (hisOwn t' h')
    (hisOwn t'' h''), fun t' tokened files hm => ?_, fun t' p hm hown => ?_,
    fun t' tokened left hm => ?_, fun result hresult => ?_⟩
  · rcases hcases t' with heq | heq
    · cases heq.symm.trans hm
    · exact hI.own t' tokened files (heq.symm.trans hm)
  · rcases hcases t' with heq | heq
    · cases heq.symm.trans hm
    · exact hI.read t' p (heq.symm.trans hm) hown
  · rcases hcases t' with heq | heq
    · cases heq.symm.trans hm
    · exact hI.closing t' tokened left (heq.symm.trans hm)
  · obtain ⟨hforeign, hdone⟩ := hI.closed result hresult
    exact ⟨fun t' hown => hforeign t' (hisOwn t' hown), hdone⟩

theorem Orderly.command (hI : Orderly self c s h m) (hexclusive : Exclusive h) {t : T}
    {command : Command} (hallows : (m t).allows self c (h t) command) :
    Orderly self c ((perform command s.1).2, s.2) h
      (Function.update m t ((m t).next self c (h t) command (perform command s.1).1)) := by
  have hcases : ∀ t', t' ≠ t →
      Function.update m t ((m t).next self c (h t) command (perform command s.1).1) t' = m t' :=
    fun t' hne => Function.update_of_ne hne _ _
  have hself : Function.update m t ((m t).next self c (h t) command (perform command s.1).1) t =
      (m t).next self c (h t) command (perform command s.1).1 := Function.update_self _ _ _
  have hisOwn : ∀ t', (Function.update m t
      ((m t).next self c (h t) command (perform command s.1).1) t').IsOwn → (m t').IsOwn := by
    intro t' hown
    by_cases hne : t' = t
    · subst hne
      rw [hself] at hown
      exact isOwn_next hown
    · rwa [hcases t' hne] at hown
  refine ⟨readsSucceed_after hI.reads command, writesSucceed_after hI.writes command,
    fun k name row hrow hbelongs => ?_, fun t' t'' h' h'' => hI.single t' t'' (hisOwn t' h')
    (hisOwn t'' h''), fun t' tokened files hm => ?_, fun t' p hm hown => ?_,
    fun t' tokened left hm => ?_, fun result hresult => ?_⟩
  · rcases mem_perform hrow with hrow | rfl
    · exact hI.placed k name row hrow hbelongs
    · exact hI.placed_of_files hallows hbelongs
  · by_cases hne : t' = t
    · subst hne
      rw [hself] at hm
      cases hmt : m t' with
      | foreign read =>
          rw [hmt] at hm
          obtain ⟨read', hread'⟩ := @foreign_next self c (h t') read command (perform command s.1).1
          cases hread'.symm.trans hm
      | own tokened' files' =>
          rw [hmt] at hm
          have hsame : SessionStage.own tokened' files' = .own tokened files :=
            (own_next command _).symm.trans hm
          exact hI.own t' tokened files (hmt.trans hsame)
      | closing tokened' left' =>
          rw [hmt] at hm
          cases hm
    · rw [hcases t' hne] at hm
      exact hI.own t' tokened files hm
  · by_cases hne : t' = t
    · subst hne
      rw [hself] at hm
      cases hmt : m t' with
      | foreign read =>
          rw [hmt] at hm
          rcases read_next hI.reads command hm with ⟨name, hname, hmem⟩ | ⟨rfl, hframe⟩
          · exact ⟨name, hname, p, hmem, rfl, hown⟩
          · obtain ⟨r, hr, p', hmem, hid⟩ := hI.read t' p hmt hown
            refine ⟨r, hr, p', ?_, hid⟩
            rwa [hframe]
      | own tokened files =>
          rw [hmt] at hm
          cases (own_next command _).symm.trans hm
      | closing tokened left =>
          rw [hmt] at hm
          cases hm
    · rw [hcases t' hne] at hm
      obtain ⟨r, hr, p', hmem, hid⟩ := hI.read t' p hm hown
      refine ⟨r, hr, p', ?_, hid⟩
      rwa [publisher_frame hexclusive hne hallows hr]
  · -- The close removes, and no event of the client is in the middle.
    by_cases hne : t' = t
    · subst hne
      rw [hself] at hm
      cases hmt : m t' with
      | foreign read =>
          rw [hmt] at hm
          obtain ⟨read', hread'⟩ := @foreign_next self c (h t') read command (perform command s.1).1
          cases hread'.symm.trans hm
      | own tokened files =>
          rw [hmt] at hm
          cases (own_next command _).symm.trans hm
      | closing tokened' left' =>
          rw [hmt] at hm
          obtain ⟨rfl, rfl⟩ := SessionStage.closing.inj hm
          obtain ⟨htoken, hbounds⟩ := hI.closing t' tokened' left' hmt
          refine ⟨htoken, Remains.Bounds.after hI.reads hI.writes (hbounds.frame ?_)⟩
          exact hI.onlyRefiles hallows fun tokened files heq => by cases hmt.symm.trans heq
    · rw [hcases t' hne] at hm
      obtain ⟨htoken, hbounds⟩ := hI.closing t' tokened left hm
      refine ⟨htoken, hbounds.frame (hI.onlyRefiles hallows fun tokened files heq => hne ?_)⟩
      exact hI.single t' t (by rw [hm]; trivial) (by rw [heq]; trivial)
  · obtain ⟨hforeign, hdone⟩ := hI.closed result hresult
    refine ⟨fun t' hown => hforeign t' (hisOwn t' hown), fun done hresult => ?_⟩
    obtain ⟨htrue, hbounds⟩ := hdone done hresult
    refine ⟨htrue, hbounds.frame (hI.onlyRefiles hallows fun tokened files heq => ?_)⟩
    exact hforeign t (by rw [heq]; trivial)

/-- An event of the connection, or its close, begins. -/
theorem Orderly.begins (hI : Orderly self c s h m) {t : T} {tokened files : Bool}
    (hm : m t = .own tokened files) {e : Milestone} (he : e = .close ∨ ∃ root, e = .event root) :
    Orderly self c (s.1, s.2 ++ [e]) h (Function.update m t ((m t).mark e)) := by
  have hown : (m t).IsOwn := by
    rw [hm]
    trivial
  have hmark : ((m t).mark e).IsOwn := by
    rcases he with rfl | ⟨root, rfl⟩ <;> rw [hm] <;> trivial
  have hcases : ∀ t', (Function.update m t ((m t).mark e) t').IsOwn → t' = t := by
    intro t' hown'
    by_cases hne : t' = t
    · exact hne
    · rw [Function.update_of_ne hne] at hown'
      exact absurd (hI.single t' t hown' hown) hne
  have htokened := (hI.own t tokened files hm).1
  refine ⟨hI.reads, hI.writes,
    fun k name row hrow hbelongs => (hI.placed k name row hrow hbelongs).append e,
    fun t' t'' h' h'' => (hcases t' h').trans (hcases t'' h'').symm,
    fun t' tokened' files' hm' => ?_,
    fun t' p hm' hown' => ?_, fun t' tokened' left hm' => ?_, fun result hresult => ?_⟩
  · obtain rfl := hcases t' (by rw [hm']; trivial)
    rw [Function.update_self, hm] at hm'
    rcases he with rfl | ⟨root, rfl⟩
    · cases hm'
    · obtain ⟨rfl, rfl⟩ := SessionStage.own.inj hm'
      have htoken : (tokened || isToken root) = tokenCame (s.2 ++ [.event root]) := by
        rw [tokenCame_append, htokened]
        rfl
      refine ⟨htoken, fun hfiling => ?_⟩
      rw [htoken, tokenCame_append, filedEarly_append]
      simp only [Milestone.isToken, Milestone.isFiling, hfiling]
      cases tokenCame s.2 <;> cases isToken root <;> simp
  · by_cases hne : t' = t
    · subst hne
      rw [Function.update_self] at hm'
      rw [hm'] at hmark
      exact hmark.elim
    · rw [Function.update_of_ne hne] at hm'
      exact hI.read t' p hm' hown'
  · obtain rfl := hcases t' (by rw [hm']; trivial)
    rw [Function.update_self, hm] at hm'
    rcases he with rfl | ⟨root, rfl⟩
    · obtain ⟨rfl, rfl⟩ := SessionStage.closing.inj hm'
      refine ⟨by rw [tokenCame_append, htokened]; exact (Bool.or_false _).symm, ?_⟩
      exact ⟨fun _ h => by (cases h), fun _ h => by (cases h), fun h => by (cases h),
        fun h => by (cases h)⟩
    · cases hm'
  · rcases List.mem_append.mp hresult with hresult | hresult
    · exact absurd hown ((hI.closed result hresult).1 t)
    · rcases he with rfl | ⟨root, rfl⟩ <;> cases List.mem_singleton.mp hresult

/-- The close has ended. -/
theorem Orderly.ends (hI : Orderly self c s h m) {t : T} {tokened : Bool} {left : Remains}
    (hm : m t = .closing tokened left) {result : Option Bool}
    (hresult : result = none ∨ result = some true ∧ left = .nothing) :
    Orderly self c (s.1, s.2 ++ [.closed result]) h (Function.update m t (.foreign none)) := by
  have hforeign := hI.to_foreign t
  have hsame : tokenCame (s.2 ++ [.closed result]) = tokenCame s.2 := by
    rw [tokenCame_append]
    exact Bool.or_false _
  have hown : (m t).IsOwn := by
    rw [hm]
    trivial
  have hnone : ∀ t', ¬ (Function.update m t (.foreign none) t').IsOwn := by
    intro t' hown'
    by_cases hne : t' = t
    · rw [hne, Function.update_self] at hown'
      exact hown'
    · rw [Function.update_of_ne hne] at hown'
      exact hne (hI.single t' t hown' hown)
  refine ⟨hI.reads, hI.writes,
    fun k name row hrow hbelongs => (hI.placed k name row hrow hbelongs).append _,
    hforeign.single, fun t' tokened' files hm' => ?_, hforeign.read,
    fun t' tokened' left' hm' => ?_,
    fun result' hresult' => ⟨hnone, fun done hdone => ?_⟩⟩
  · exact absurd (by rw [hm']; trivial) (hnone t')
  · exact absurd (by rw [hm']; trivial) (hnone t')
  · rcases List.mem_append.mp hresult' with hresult' | hresult'
    · exact absurd hown ((hI.closed result' hresult').1 t)
    · obtain rfl := Milestone.closed.inj (List.mem_singleton.mp hresult')
      rcases hresult with rfl | ⟨rfl, rfl⟩
      · cases hdone
      · obtain ⟨htoken, hbounds⟩ := hI.closing t tokened .nothing hm
        obtain rfl := Option.some.inj hdone
        refine ⟨rfl, ?_⟩
        dsimp only
        rw [hsame, ← htoken]
        exact hbounds

theorem Orderly.report (hI : Orderly self c s h m) {t : T} {e : Milestone}
    (hreports : (m t).reports e) :
    Orderly self c (s.1, s.2 ++ [e]) h (Function.update m t ((m t).mark e)) := by
  cases hm : m t with
  | foreign read =>
      rw [hm] at hreports
      exact hreports.elim
  | own tokened files =>
      rw [← hm]
      rw [hm] at hreports
      cases e with
      | event root => exact hI.begins hm (.inr ⟨root, rfl⟩)
      | close => exact hI.begins hm (.inl rfl)
      | closed result => exact hreports.elim
  | closing tokened left =>
      rw [hm] at hreports
      cases e with
      | closed result => exact hI.ends hm hreports
      | _ => exact hreports.elim

/-- A thread enters a section. -/
theorem Orderly.acquire (hI : Orderly self c s h m) {t : T} (ht : h t = none) (r : String) :
    Orderly self c s (Function.update h t (some r)) m := by
  refine ⟨hI.reads, hI.writes, hI.placed, hI.single, hI.own, fun t' p hm hown => ?_, hI.closing,
    hI.closed⟩
  obtain ⟨r', hr', hp⟩ := hI.read t' p hm hown
  have hne : t' ≠ t := by
    rintro rfl
    cases ht.symm.trans hr'
  exact ⟨r', (Function.update_of_ne hne _ _).trans hr', hp⟩

/-- A thread ends a section. -/
theorem Orderly.release (hI : Orderly self c s h m) (t : T) :
    Orderly self c s (Function.update h t none)
      (Function.update m t ((watchSession self c).leave (m t))) := by
  have hread : ∀ m' : T → SessionStage, Orderly self c s h m' → (∀ p, m' t ≠ .foreign (some p)) →
      Orderly self c s (Function.update h t none) m' := by
    intro m' hI' hleft
    refine ⟨hI'.reads, hI'.writes, hI'.placed, hI'.single, hI'.own, fun t' p hm hown => ?_,
      hI'.closing, hI'.closed⟩
    obtain ⟨r, hr, hp⟩ := hI'.read t' p hm hown
    have hne : t' ≠ t := by
      rintro rfl
      exact hleft p hm
    exact ⟨r, (Function.update_of_ne hne _ _).trans hr, hp⟩
  cases hm : m t with
  | foreign read =>
      refine hread _ (hI.to_foreign t) fun p heq => ?_
      rw [Function.update_self] at heq
      cases heq
  | own tokened files =>
      have hleave : (watchSession self c).leave (.own tokened files) = m t := hm.symm
      rw [hleave, Function.update_eq_self]
      exact hread m hI fun p heq => by cases hm.symm.trans heq
  | closing tokened left =>
      have hleave : (watchSession self c).leave (.closing tokened left) = m t := hm.symm
      rw [hleave, Function.update_eq_self]
      exact hread m hI fun p heq => by cases hm.symm.trans heq

end Moment

/-! ## The commands of one event -/

/-- What an event other than a token event may do: file records in the room of its client,
if it is one that files records, and write to the queue of its client's erizo. A new bridge
is also announced to the erizo at its other end. -/
def Confined (client : Client) (files : Bool) : Command → Prop
  | .hset _ name _ => files = true ∧ name = client.room_id
  | .hdel .. => False
  | .rpcNotReply queuename data => queuename = client.erizo_id ∨
      ∃ id src_stream_id recver_ip recver_port,
        data = .addVirtualSubscriber id src_stream_id recver_ip recver_port
  | .rpc .. => False
  | _ => True

section Confined

variable (self : ErizoController) (client : Client)

theorem each_publishLocked_confined {publisher : Publisher}
    (herizo : publisher.erizo_id = client.erizo_id) :
    (self.publishLocked client publisher).Each (Confined client true) :=
  each_publishLocked_of self client ⟨rfl, rfl⟩ fun _ => .inl herizo

theorem each_setUpBridge_confined (p : Publisher) (s : Subscriber) :
    (setUpBridge client p s).Each (Confined client true) := by
  refine (each_setUpBridge_exact client p s).mono fun command h => ?_
  cases command with
  | hset k name row => exact ⟨rfl, h.2⟩
  | rpcNotReply queuename data => exact h.imp And.left id
  | hdel k name fields => exact h.elim
  | rpc queuename data => exact h.elim
  | _ => trivial

theorem each_subscribeLocked_confined (stream_id : String) :
    (self.subscribeLocked client stream_id).Each (Confined client true) :=
  each_subscribeLocked_of self client trivial trivial (fun _ _ => ⟨rfl, rfl⟩)
    (each_setUpBridge_confined client) fun _ => .inl rfl

theorem all_onMessage_confined {root : Option Value} (htoken : isToken root = false) :
    (self.onMessage client root).All (Confined client (isFiling root)) fun room_id body =>
      room_id = client.room_id ∧ body.Each (Confined client (isFiling root)) := by
  unfold onMessage
  split
  · split_ifs with htoken' hpublish hsubscribe hsignaling
    · rw [isToken, htoken'] at htoken
      cases htoken
    · subst hpublish
      exact All.bind (all_handlePublish_of self client ⟨trivial, trivial⟩
        (fun publisher _ herizo => ⟨rfl, each_publishLocked_confined self client herizo⟩) _)
        fun _ => trivial
    · subst hsubscribe
      exact All.bind (all_handleSubscribe_of self client
        fun stream_id _ => ⟨rfl, each_subscribeLocked_confined self client stream_id⟩)
        fun _ => trivial
    · subst hsignaling
      refine All.bind (all_monadLift ?_) fun _ => trivial
      rw [handleSignaling]
      split
      · exact (each_issue _).mpr (.inl rfl)
      · trivial
    · trivial
  · trivial

end Confined

/-! ## Every run -/

variable {T : Type} [DecidableEq T] {self : ErizoController} {client : Client}
variable {roots : List (Option Value)} {s : SessionPool T}

/-- No other thread handles events of the client. -/
abbrev OthersForeign (client_id : String) : Action (Option T) Job → SessionPool T → Prop :=
  Monitor.Meets (reportStep perform) (fun job => Script.embed Milestone job.script)
    (fun job _ => job.Foreign client_id) fun _ _ => True

theorem exists_orderly (hroom : client.room_id = "") (hreply : client.reply_to = "")
    (hs : (sessions T self client roots).Reaches (OthersForeign client.id) s) :
    ∃ m : Option T → SessionStage, Orderly self client.id s.shared s.locks m := by
  refine (LockMonitor.exists_invariant (W := watchSession self client.id)
    (I := Orderly self client.id)
    (fun job s hjob => followsScript_foreign hjob) (fun s hinit => ?_)
    (fun job t s h m hI _ _ => hI.to_foreign t) (fun command s h m hI => ?_)
    (fun command t s h m hexclusive hI hallows _ => ?_) (fun r t s h m hI ht _ => hI.acquire ht r)
    (fun r t s h m hI _ => hI.release t) hs).2.imp fun _ => And.left
  · obtain ⟨⟨hreads, hwrites, hlog, hnone⟩, hsession, hidle, hfree⟩ := hinit
    have hlocks : ∀ t, (s.thread t).lock = none := by
      intro t
      cases t with
      | none => rw [hsession, Thread.lock]
      | some t => rw [hidle, Thread.lock]
    have hheld : s.Held := by
      intro t r β body k ht
      have hlock := hlocks t
      rw [ht] at hlock
      cases hlock
    refine ⟨hheld, fun t => t.elim (.own false false) fun _ => .foreign none, ?_, fun t => ?_⟩
    · refine ⟨hreads, hwrites,
        fun k name row hrow hbelongs => absurd hbelongs (hnone k name row hrow),
        fun t t' h h' => ?_, fun t tokened files hm => ?_, fun t p hm => ?_,
        fun t tokened left hm => ?_,
        fun result hresult => ?_⟩
      · cases t with
        | none =>
            cases t' with
            | none => rfl
            | some t' => exact h'.elim
        | some t => exact h.elim
      · cases t with
        | none =>
            obtain ⟨rfl, rfl⟩ := SessionStage.own.inj hm
            rw [hlog]
            exact ⟨rfl, fun hfiles => by cases hfiles⟩
        | some t => cases hm
      · cases t <;> cases hm
      · cases t <;> cases hm
      · rw [hlog] at hresult
        cases hresult
    · cases t with
      | none =>
          rw [hsession]
          exact follows_session ⟨rfl, hroom, hreply⟩ roots
      | some t =>
          rw [hidle]
          trivial
  · cases command with
    | inl command => exact succeeds_perform hI.reads hI.writes command
    | inr milestone => trivial
  · cases command with
    | inl command => exact hI.command hexclusive hallows
    | inr milestone => exact hI.report hallows

/-- The records of a connection are where its history says. When its close has ended with
the lock, those are left that a publish or subscribe event filed before the first token
event. -/
theorem session_discipline (hroom : client.room_id = "") (hreply : client.reply_to = "")
    (hs : (sessions T self client roots).Reaches (OthersForeign client.id) s) :
    (∀ k name, ∀ row ∈ s.shared.1.redis k name, Belongs client.id k row →
      Place self s.shared.2 k name) ∧
    (∀ done, .closed (some done) ∈ s.shared.2 →
      ∀ k name, ∀ row ∈ s.shared.1.redis k name, Belongs client.id k row →
        (k = .publisher ∨ k = .subscriber) ∧ name = "" ∧ filedEarly s.shared.2 = true ∧
          tokenCame s.shared.2 = true) ∧
    ∀ (ec : ErizoController) (client : Client) root, isToken root = false →
      (ec.onMessage client root).All (Confined client (isFiling root)) fun room_id body =>
        room_id = client.room_id ∧ body.Each (Confined client (isFiling root)) := by
  obtain ⟨m, hI⟩ := exists_orderly hroom hreply hs
  refine ⟨hI.placed, fun done hdone k name row hrow hbelongs => ?_,
    fun ec client root => all_onMessage_confined ec client⟩
  have hplace := hI.placed k name row hrow hbelongs
  have hbounds := ((hI.closed _ hdone).2 done rfl).2
  have hearly : tokenCame s.shared.2 = true ∧ name = test_room_id ∨
      filedEarly s.shared.2 = true ∧ name = "" → name ≠ homeOf (tokenCame s.shared.2) →
      name = "" ∧ filedEarly s.shared.2 = true ∧ tokenCame s.shared.2 = true := by
    intro hplace hhome
    rcases hplace with ⟨htoken, rfl⟩ | ⟨hfiled, rfl⟩
    · rw [htoken] at hhome
      exact absurd rfl hhome
    · refine ⟨rfl, hfiled, ?_⟩
      cases htoken : tokenCame s.shared.2 with
      | true => rfl
      | false =>
          rw [htoken] at hhome
          exact absurd rfl hhome
  cases k with
  | client =>
      obtain ⟨htoken, rfl⟩ := hplace
      rw [htoken] at hbounds
      exact absurd hbelongs (hbounds.client rfl row hrow)
  | ec =>
      obtain ⟨htoken, rfl⟩ := hplace
      rw [htoken] at hbounds
      exact absurd hbelongs (hbounds.controller_client rfl row hrow)
  | publisher =>
      refine ⟨.inl rfl, hearly hplace ?_⟩
      rintro rfl
      cases hbounds.publishers [] rfl row hrow hbelongs
  | subscriber =>
      refine ⟨.inr rfl, hearly hplace ?_⟩
      rintro rfl
      cases hbounds.subscribers [] rfl row hrow hbelongs
  | _ => exact hbelongs.elim

/-! A connection publishes after its token event, and another one before it. -/

def connectionPool (roots : List (Option Value)) : SessionPool Unit where
  shared := (.start (Redis.empty.update .erizo_agent "area"
    ((∅ : Table ErizoAgent).set ⟨"agent", 2 ^ 31, 0⟩)) joinOracle, [])
  thread t :=
    t.elim (.outside (session joinController { id := "c" } roots)) fun _ => .outside (.ret ())
  owner _ := none

theorem connectionPool_init (roots : List (Option Value)) :
    (sessions Unit joinController { id := "c" } roots).init (connectionPool roots) := by
  refine ⟨⟨rfl, rfl, rfl, fun k name row hrow => ?_⟩, rfl, fun _ => rfl, fun _ => rfl⟩
  cases k with
  | client => exact absurd hrow (Table.not_mem_empty (V := Client) row)
  | publisher => exact absurd hrow (Table.not_mem_empty (V := Publisher) row)
  | subscriber => exact absurd hrow (Table.not_mem_empty (V := Subscriber) row)
  | ec => exact absurd hrow (Table.not_mem_empty (V := Client) row)
  | _ => exact id

/-- The steps of the connection: an event, or the close. -/
def tokenSteps : List (Action (Option Unit) Job) := List.replicate 7 (.command none)

def publishSteps : List (Action (Option Unit) Job) :=
  List.replicate 4 (.command none) ++
    [.acquire none, .command none, .command none, .release none]

def closeSteps (commands : ℕ) : List (Action (Option Unit) Job) :=
  [.command none, .acquire none] ++ List.replicate commands (.command none) ++
    [.release none, .command none]

def isStart : Action (Option Unit) Job → Bool
  | .start .. => true
  | _ => false

def isClosed : Milestone → Bool
  | .closed (some true) => true
  | _ => false

theorem othersForeign_of_command {a : Action (Option Unit) Job} {s : SessionPool Unit}
    (h : (!isStart a) = true) : OthersForeign "c" a s := by
  cases a with
  | start t job => cases h
  | _ => exact fun _ _ => trivial

theorem closed_mem {log : List Milestone} (h : log.any isClosed = true) :
    .closed (some true) ∈ log := by
  obtain ⟨e, he, hclosed⟩ := List.any_eq_true.mp h
  rw [isClosed.eq_def] at hclosed
  split at hclosed
  · exact he
  · cases hclosed

/-- After a token event and a publish event the close leaves nothing. -/
theorem session_discipline_token_first :
    ∃ s : SessionPool Unit, s.shared.2.any isClosed = true ∧
      ∀ k name, ∀ row ∈ s.shared.1.redis k name, ¬ Belongs "c" k row := by
  obtain ⟨s, hs, hend⟩ := Machine.exists_reaches_of_runChecked
    (M := sessions Unit joinController { id := "c" } [some joinEvent, some publishEvent])
    (P := OthersForeign "c") (p := fun a _ => !isStart a)
    (q := fun s => s.shared.2.any isClosed && !filedEarly s.shared.2)
    (l := tokenSteps ++ publishSteps ++ closeSteps 7)
    (s := connectionPool [some joinEvent, some publishEvent])
    (fun a s h => othersForeign_of_command h) (connectionPool_init _) (by decide)
  obtain ⟨hclosed, hearly⟩ := Bool.and_eq_true_iff.mp hend
  refine ⟨s, hclosed, fun k name row hrow hbelongs => ?_⟩
  obtain ⟨-, hleft, -⟩ := @session_discipline Unit _ joinController { id := "c" } _ s rfl rfl hs
  obtain ⟨-, -, hfiled, -⟩ := hleft true (closed_mem hclosed) k name row hrow hbelongs
  rw [hfiled] at hearly
  cases hearly

/-- A publish event before the token event is handled: its publisher is stored and announced
without any token event, and the close after the token event leaves it. -/
theorem published_before_token :
    (∃ s, (sessions Unit joinController { id := "c" } [some publishEvent, some joinEvent]).Reaches
        (OthersForeign "c") s ∧ tokenCame s.shared.2 = false ∧ s.shared.1.outbox ≠ [] ∧
        ∃ p ∈ s.shared.1.redis .publisher "", p.client_id = "c") ∧
      ∃ s, (sessions Unit joinController { id := "c" } [some publishEvent, some joinEvent]).Reaches
        (OthersForeign "c") s ∧ .closed (some true) ∈ s.shared.2 ∧
        ∃ p ∈ s.shared.1.redis .publisher "", p.client_id = "c" := by
  have hrun : ∀ {l q}, ((sessions Unit joinController { id := "c" }
      [some publishEvent, some joinEvent]).runChecked (fun a _ => !isStart a) l
        (connectionPool [some publishEvent, some joinEvent])).any q = true →
      ∃ s, (sessions Unit joinController { id := "c" } [some publishEvent, some joinEvent]).Reaches
        (OthersForeign "c") s ∧ q s = true :=
    fun hrun => Machine.exists_reaches_of_runChecked (fun a s h => othersForeign_of_command h)
      (connectionPool_init _) hrun
  have hstored : ∀ {s : SessionPool Unit},
      (s.shared.1.redis .publisher "").rows.any (fun p => p.client_id == "c") = true →
      ∃ p ∈ s.shared.1.redis .publisher "", p.client_id = "c" := by
    intro s h
    obtain ⟨p, hp, hown⟩ := List.any_eq_true.mp h
    exact ⟨p, hp, beq_iff_eq.mp hown⟩
  constructor
  · obtain ⟨s, hs, hend⟩ := hrun (l := publishSteps)
      (q := fun s => !tokenCame s.shared.2 && !s.shared.1.outbox.isEmpty &&
        (s.shared.1.redis .publisher "").rows.any fun p => p.client_id == "c") (by decide)
    simp only [Bool.and_eq_true, Bool.not_eq_true', List.isEmpty_eq_false_iff] at hend
    exact ⟨s, hs, hend.1.1, hend.1.2, hstored hend.2⟩
  · obtain ⟨s, hs, hend⟩ := hrun (l := publishSteps ++ tokenSteps ++ closeSteps 4)
      (q := fun s => s.shared.2.any isClosed &&
        (s.shared.1.redis .publisher "").rows.any fun p => p.client_id == "c") (by decide)
    obtain ⟨hclosed, hleft⟩ := Bool.and_eq_true_iff.mp hend
    exact ⟨s, hs, closed_mem hclosed, hstored hleft⟩

end ErizoController
