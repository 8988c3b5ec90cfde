import Mathlib.Data.UInt
import ErizoController.Core.References
import ErizoController.Core.Following

/-!
# Joining clients and new streams

A token event files its client before it lists the streams of the room, and the task of a
stream lists the clients after the stream was filed. Neither takes a lock, and yet a client
and a stream cannot miss each other: whichever of the two is filed last is seen by the
reader of the other. The threads are watched with a monitor that only knows how far the
events of one client and the tasks of one stream have come.
-/

open Json Locked Prog Script Room
open ACLRedis (c_str Plain c_str_of_plain)

namespace ErizoController

/-- The room that every token event enters. -/
def test_room_id : String := "test_room_id"

/-! ## Recorded runs -/

/-- A job with the answer that its connection gets. -/
def Job.run : Job → Session (Option Answer)
  | .onMessage self client root => do
      let (_, answer) ← self.onMessage client root
      return some answer
  | .onClose client => do
      let _ ← ErizoController.onClose client
      return none
  | .onSignalingMessage self root => do
      let _ ← self.onSignalingMessage root
      return none
  | .task (.notifyToSubscribe room_id client_id stream_id) => do
      ErizoController.notifyToSubscribe room_id client_id stream_id
      return none
  | .task (.removeExpireErizoController erizo_controller_id) => do
      ErizoController.removeExpireErizoController erizo_controller_id
      return none

/-- The finished jobs, with their answers. -/
abbrev Log := List (Job × Option Answer)

abbrev RecordedCommand := Command ⊕ (Job × Option Answer)

abbrev RecordedReply : RecordedCommand → Type := Reported (Job × Option Answer) Command.Reply

def recordedStep : (c : RecordedCommand) → World × Log → RecordedReply c × (World × Log) :=
  reportStep perform

/-- A job that ends with a report of its answer. -/
def Job.recorded (job : Job) : Script RecordedCommand RecordedReply String Unit :=
  Script.reporting (fun answer => (job, answer)) job.run

abbrev RecordedPool (T : Type) := Pool RecordedCommand RecordedReply String T (World × Log)

/-- The threads of any number of controllers, with a log of the finished jobs. No Redis
command fails, and no client is registered at the start. -/
def recorded (T : Type) [DecidableEq T] : Machine (Action T Job) (RecordedPool T) :=
  Locked.machine recordedStep Job.recorded fun s =>
    s.1.ReadsSucceed ∧ s.1.WritesSucceed ∧ s.1.redis .client test_room_id = ∅ ∧ s.2 = []

/-! ## What a client is told -/

/-- The message on a connection is a token event. -/
def isToken : Option Value → Bool
  | some (.arrayValue (.stringValue event :: .objectValue _ :: _)) => event == "token"
  | _ => false

/-- The ids in the stream list of a token reply. -/
def streamIds : Value → List String
  | .arrayValue (_ :: data :: _) =>
      match data.member? "streams" with
      | some (.arrayValue streams) => streams.filterMap fun stream => stream.string? "id"
      | _ => []
  | _ => []

theorem streamIds_tokenReply (client : Client) (publishers : List Publisher) :
    streamIds (tokenReply client publishers) = publishers.map Publisher.id := by
  cases publishers with
  | nil => rfl
  | cons p ps =>
      have hmember : (Value.objectValue
          ((if p :: ps = [] then [] else [("streams", .arrayValue ((p :: ps).map streamValue))]) ++
            [("id", .stringValue client.room_id), ("clientId", .stringValue client.id),
              ("singlePC", .booleanValue false), ("defaultVideoBW", .intValue 300),
              ("maxVideoBW", .intValue 300), ("iceServers", .arrayValue [.objectValue
                [("url", .stringValue "stun:stun.l.google.com:19302")]])])).member? "streams" =
          some (.arrayValue ((p :: ps).map streamValue)) := rfl
      have hid : (fun stream : Value => stream.string? "id") ∘ streamValue = some ∘ Publisher.id :=
        rfl
      rw [tokenReply, streamIds, hmember]
      dsimp only
      rw [List.filterMap_map, hid, List.filterMap_eq_map]

/-- The client is registered in the room. -/
def Registered (w : World) (client_id : String) : Prop :=
  ∃ row ∈ w.redis .client test_room_id, row.id = client_id

instance (w : World) (client_id : String) : Decidable (Registered w client_id) :=
  inferInstanceAs (Decidable (∃ row ∈ (w.redis .client test_room_id).rows, row.id = client_id))

/-- A message about the stream, addressed to the client, was sent to the queue. -/
def Announced (w : World) (queuename client_id stream_id : String) : Prop :=
  ∃ label, (queuename, .new_publisher stream_id client_id label) ∈ w.outbox

/-! ## The watched stages -/

/-- How far a token event of the client, or a task of the stream, has come. A `blind`
listing was made without the stream, a `missed` one without the client. -/
inductive Stage where
  | other
  | token | filed | shown | blind
  | task | void | owing | sent | missed
  deriving DecidableEq

section Watch

-- The client, its queue, the stream and the client of the stream.
variable (c q x p : String)

def Stage.allows : Stage → Command → Prop
  | m, .hset .client name row => name = test_room_id → row.id = c → m = .token ∧ row.reply_to = q
  | .task, .hget .publisher name field => name = test_room_id ∧ field = c_str x
  | .task, .hvals .client name => name = test_room_id
  | _, _ => True

def Stage.next : Stage → (cmd : Command) → cmd.Reply → Stage
  | .token, .hset .client name row, _ =>
      if name = test_room_id ∧ row.id = c then .filed else .token
  | .filed, .hvals .publisher name, (_, rows) =>
      if name = test_room_id then if x ∈ rows.map Publisher.id then .shown else .blind else .filed
  | .task, .hget .publisher _ _, (rc, row) => if rc = -1 ∨ row = none then .void else .task
  | .task, .hvals .client _, (rc, rows) =>
      if rc = -1 then .void
      else if c ∈ rows.map Client.id then
        if ∀ row ∈ rows, row.id = c → row.reply_to = q then .owing else .void
      else .missed
  | .owing, .rpcNotReply queuename (.new_publisher streamId clientId _), _ =>
      if queuename = q ∧ streamId = x ∧ clientId = c then .sent else .owing
  | m, _, _ => m

/-- The job is a token event of the client. -/
def Job.isTokenOf : Job → Bool
  | .onMessage _ client root => client.id == c && isToken root
  | _ => false

/-- What may be reported at the end: a successful token event has listed the streams, and a
task has sent its messages. -/
def Stage.reports (m : Stage) (job : Job) (answer : Option Answer) : Prop :=
  (∀ reply, job.isTokenOf c = true → answer = some (.write reply) →
    m = .shown ∧ x ∈ streamIds reply ∨ m = .blind) ∧
  (job = .task (.notifyToSubscribe test_room_id p x) → m = .sent ∨ m = .missed ∨ m = .void)

def watch : Monitor RecordedCommand RecordedReply Stage where
  allows
    | m, .inl command => m.allows c q x command
    | m, .inr (job, answer) => m.reports c x p job answer
  next
    | m, .inl command, reply => m.next c q x command reply
    | _, .inr _, _ => .other

/-- The stage in which a job starts. -/
def enter (job : Job) : Stage :=
  if job.isTokenOf c then .token
  else match job with
    | .task task => if task = .notifyToSubscribe test_room_id p x then .task else .other
    | _ => .other

end Watch

/-! ## The jobs follow the watch -/

section Follow

open Monitor

variable {c q x p : String}

/-- The stage is not touched by a command other than the filing of a client. -/
def Stage.Steady (c q x : String) (m : Stage) (P : Command → Prop) : Prop :=
  ∀ cmd, P cmd → m.allows c q x cmd ∧ ∀ reply, m.next c q x cmd reply = m

/-- The command files no client. -/
def FilesNoClient (cmd : Command) : Prop := ∀ name row, cmd ≠ .hset .client name row

theorem steady {m : Stage} (hm : m = .other ∨ m = .token ∨ m = .void) :
    m.Steady c q x FilesNoClient := by
  intro cmd hcmd
  cases cmd with
  | hset k name row =>
      cases k with
      | client => exact absurd rfl (hcmd name row)
      | _ => rcases hm with rfl | rfl | rfl <;> exact ⟨trivial, fun _ => rfl⟩
  | hget k name field =>
      rcases hm with rfl | rfl | rfl <;> cases k <;> exact ⟨trivial, fun _ => rfl⟩
  | hvals k name => rcases hm with rfl | rfl | rfl <;> cases k <;> exact ⟨trivial, fun _ => rfl⟩
  | _ => rcases hm with rfl | rfl | rfl <;> exact ⟨trivial, fun _ => rfl⟩

theorem steady_other : Stage.Steady c q x .other FilesNoClient := steady (.inl rfl)

theorem steady_token : Stage.Steady c q x .token FilesNoClient := steady (.inr (.inl rfl))

theorem steady_void : Stage.Steady c q x .void FilesNoClient := steady (.inr (.inr rfl))

theorem SilentCommand.filesNoClient {cmd : Command}
    (h : SilentCommand cmd) : FilesNoClient cmd := by
  rintro name row rfl
  exact h

theorem Stage.Steady.silent {m : Stage} (hm : m.Steady c q x FilesNoClient) {cmd : Command}
    (h : SilentCommand cmd) : (watch c q x p).commands.allows m cmd ∧
      ∀ reply, (watch c q x p).commands.next m cmd reply = m := hm cmd h.filesNoClient

theorem IsSection.filesNoClient {β : Type} {room_id : String} {body : Handler β}
    (h : IsSection room_id body) : body.Each FilesNoClient := by
  have hwithin : ∀ {sets dels : List Kind} {cmd : Command}, Kind.client ∉ sets →
      Within room_id sets dels cmd → FilesNoClient cmd := by
    rintro sets dels cmd hclient hcmd name row rfl
    exact hclient hcmd.1
  cases h with
  | removeClient client => exact (each_removeClientLocked client).mono fun _ => hwithin (by simp)
  | publish self client publisher =>
      exact (each_publishLocked self client publisher).mono fun _ => hwithin (by simp)
  | subscribe self client stream_id =>
      exact (each_subscribeLocked self client stream_id).mono fun _ => hwithin (by simp)
  | publisher_answer room_id stream_id v a =>
      exact (each_publisherAnswerLocked room_id stream_id v a).mono fun _ => hwithin (by simp)
  | ready room_id client_id stream_id => exact (each_issue _).mpr fun _ _ => by simp

/-- The token event of the client itself. -/
theorem follows_registerClient (self : ErizoController) {client : Client} (hid : client.id = c)
    (hroom : client.room_id = test_room_id) (hreply : client.reply_to = q) :
    (watch c q x p).commands.Follows
      (fun m reply => reply = .nullValue ∨ m = .shown ∧ x ∈ streamIds reply ∨ m = .blind) .token
      (self.registerClient client) := by
  refine Follows.bind (follows_add (Q := fun m rc => rc = 0 → m = .filed)
    (fun _ _ => ⟨rfl, hreply⟩) fun rc hrc => ?_) fun m rc hm => ?_
  · exact if_pos ⟨hroom, hid⟩
  split
  · exact .inl rfl
  · rename_i hrc
    obtain rfl := hm (not_not.mp hrc)
    refine Follows.bind (follows_add (Q := fun m _ => m = .filed) trivial fun rc => rfl)
      fun m rc hm => ?_
    subst hm
    split
    · exact .inl rfl
    · refine Follows.bind (follows_getAll (Q := fun m r => ∀ rows, r = some rows →
        m = .shown ∧ x ∈ rows.map Publisher.id ∨ m = .blind) trivial fun rc rows => ?_)
          fun m r hm => ?_
      · intro rows' hrows
        split at hrows
        · cases hrows
        · obtain rfl := Option.some.inj hrows
          rw [List.filter_true]
          have hnext :
            (watch c q x p).commands.next .filed (.hvals .publisher client.room_id) (rc, rows) =
              if x ∈ rows.map Publisher.id then .shown else .blind := if_pos hroom
          rw [hnext]
          by_cases hx : x ∈ rows.map Publisher.id
          · exact .inl ⟨if_pos hx, hx⟩
          · exact .inr (if_neg hx)
      · cases r with
        | none => exact .inl rfl
        | some publishers =>
            refine .inr ?_
            rw [streamIds_tokenReply]
            exact hm publishers rfl

theorem follows_handleToken (self : ErizoController) {client : Client} (hid : client.id = c)
    (hreply : self.id_ = q) :
    (watch c q x p).commands.Follows
      (fun m r => r.2 = .nullValue ∨ m = .shown ∧ x ∈ streamIds r.2 ∨ m = .blind) .token
      (self.handleToken client) := by
  refine Follows.bind (follows_allocAgent (fun _ => steady_token.silent) _ _) fun m r ⟨hm, hsame⟩ =>
    ?_
  obtain ⟨ret, client'⟩ := r
  subst hm
  dsimp only
  split
  · exact .inl rfl
  · refine Follows.bind (follows_allocErizoTries (fun _ => steady_token.silent) _ _)
      fun m r ⟨hm, hsame'⟩ => ?_
    obtain ⟨ret', client''⟩ := r
    subst hm
    dsimp only
    split
    · exact .inl rfl
    · have hregister := follows_registerClient (c := c) (q := q) (x := x) (p := p) self
        (hsame'.1.trans (hsame.1.trans hid)) (hsame'.2.1.trans hsame.2.1)
        (hsame'.2.2.trans (hsame.2.2.trans hreply))
      exact Follows.bind hregister fun m reply h => h

/-- The token event of another client. -/
theorem follows_handleToken_other (self : ErizoController) {client : Client} (hid : client.id ≠ c) :
    (watch c q x p).commands.Follows (fun m _ => m = .other) .other (self.handleToken client) := by
  refine Follows.bind (follows_allocAgent (fun _ => steady_other.silent) _ _) fun m r ⟨hm, hsame⟩ =>
    ?_
  obtain ⟨ret, client'⟩ := r
  subst hm
  dsimp only
  split
  · rfl
  · refine Follows.bind (follows_allocErizoTries (fun _ => steady_other.silent) _ _)
      fun m r ⟨hm, hsame'⟩ => ?_
    obtain ⟨ret', client''⟩ := r
    subst hm
    dsimp only
    split
    · rfl
    · have hid' : client''.id ≠ c := by
        rw [hsame'.1, hsame.1]
        exact hid
      refine Follows.bind (Q := fun m _ => m = .other) ?_ fun m reply (h : m = .other) => h
      refine Follows.bind (follows_add (Q := fun m _ => m = .other)
        (fun _ heq => absurd heq hid') fun rc => rfl) fun m rc hm => ?_
      subst hm
      split
      · rfl
      · refine Follows.bind (follows_add (Q := fun m _ => m = .other) trivial fun rc => rfl)
          fun m rc hm => ?_
        subst hm
        split
        · rfl
        · refine Follows.bind
            (follows_silent (fun _ => steady_other.silent) (RedisHelper.each_getAll trivial))
            fun m r hm => ?_
          subst hm
          cases r <;> rfl

/-- The messages of a task that are left to send. -/
theorem follows_notifyClients (hne : c ≠ p) (label : String) {clients : List Client} {m : Stage}
    (hm : m = .sent ∨ m = .missed ∨ m = .void ∨
      m = .owing ∧ c ∈ clients.map Client.id ∧ ∀ row ∈ clients, row.id = c → row.reply_to = q) :
    (watch c q x p).commands.Follows (fun m _ => m = .sent ∨ m = .missed ∨ m = .void) m
      (notifyClients p x label clients) := by
  induction clients generalizing m with
  | nil =>
      rcases hm with hm | hm | hm | ⟨-, hm, -⟩
      · exact .inl hm
      · exact .inr (.inl hm)
      · exact .inr (.inr hm)
      · cases hm
  | cons row rows ih =>
      rw [notifyClients]
      split
      · rcases hm with rfl | rfl | rfl | ⟨rfl, hm, hqueue⟩
        · exact ⟨trivial, fun _ => ih (.inl rfl)⟩
        · exact ⟨trivial, fun _ => ih (.inr (.inl rfl))⟩
        · exact ⟨trivial, fun _ => ih (.inr (.inr (.inl rfl)))⟩
        · refine ⟨trivial, fun _ => ?_⟩
          by_cases hrow : row.id = c
          · have hnext : (if row.reply_to = q ∧ x = x ∧ row.id = c then Stage.sent else .owing) =
                .sent := if_pos ⟨hqueue row List.mem_cons_self hrow, rfl, hrow⟩
            exact ih (.inl hnext)
          · have hnext : (if row.reply_to = q ∧ x = x ∧ row.id = c then Stage.sent else .owing) =
                .owing := if_neg fun h => hrow h.2.2
            rw [List.map_cons, List.mem_cons] at hm
            exact ih (.inr (.inr (.inr ⟨hnext, hm.resolve_left (Ne.symm hrow),
              fun row hrow => hqueue row (List.mem_cons_of_mem _ hrow)⟩)))
      · rename_i hsame
        refine ih (hm.imp_right (.imp_right (.imp_right fun howing => ?_)))
        obtain ⟨hm, hmem, hqueue⟩ := howing
        rw [List.map_cons, List.mem_cons] at hmem
        refine ⟨hm, hmem.resolve_left fun heq => hne (heq.trans (not_not.mp hsame)),
          fun row hrow => hqueue row (List.mem_cons_of_mem _ hrow)⟩

theorem follows_notifyToSubscribe (hne : c ≠ p) :
    (watch c q x p).commands.Follows (fun m _ => m = .sent ∨ m = .missed ∨ m = .void) .task
      (notifyToSubscribe test_room_id p x) := by
  refine Follows.bind (follows_get (Q := fun m r => m = .void ∨ r ≠ none ∧ m = .task)
    ⟨rfl, rfl⟩ fun rc row => ?_) fun m r hm => ?_
  · by_cases hfails : rc = -1 ∨ row = none
    · exact .inl (if_pos hfails)
    · obtain ⟨hrc, hrow⟩ := not_or.mp hfails
      exact .inr ⟨by rwa [if_neg hrc], if_neg hfails⟩
  cases r with
  | none =>
      rcases hm with rfl | ⟨hne, -⟩
      · exact .inr (.inr rfl)
      · exact absurd rfl hne
  | some publisher =>
      rcases hm with rfl | ⟨-, rfl⟩
      · refine (follows_silent (fun _ => steady_void.silent) ?_).mono fun m _ hm => .inr (.inr hm)
        refine Each.bind (RedisHelper.each_getAll trivial) fun r => ?_
        cases r with
        | none => trivial
        | some clients => exact each_notifyClients _ _ _ _
      · refine Follows.bind (follows_getAll (Q := fun m r => m = .missed ∨ m = .void ∨
          ∃ rows, r = some rows ∧ m = .owing ∧ c ∈ rows.map Client.id ∧
            ∀ row ∈ rows, row.id = c → row.reply_to = q) rfl fun rc rows => ?_) fun m r hm => ?_
        · have hnext :
            (watch c q x p).commands.next .task (.hvals .client test_room_id) (rc, rows) =
              if rc = -1 then .void
              else if c ∈ rows.map Client.id then
                if ∀ row ∈ rows, row.id = c → row.reply_to = q then .owing else .void
              else .missed := rfl
          rw [hnext, List.filter_true]
          by_cases hrc : rc = -1
          · exact .inr (.inl (if_pos hrc))
          by_cases hc : c ∈ rows.map Client.id
          · by_cases hqueue : ∀ row ∈ rows, row.id = c → row.reply_to = q
            · exact .inr (.inr ⟨rows, if_neg hrc, by rw [if_neg hrc, if_pos hc, if_pos hqueue],
                hc, hqueue⟩)
            · exact .inr (.inl (by rw [if_neg hrc, if_pos hc, if_neg hqueue]))
          · exact .inl (by rw [if_neg hrc, if_neg hc])
        · cases r with
          | none =>
              rcases hm with hm | hm | ⟨rows, hrows, -⟩
              · exact .inr (.inl hm)
              · exact .inr (.inr hm)
              · cases hrows
          | some clients =>
              refine follows_notifyClients hne publisher.label ?_
              rcases hm with hm | hm | ⟨rows, hrows, hm⟩
              · exact .inr (.inl hm)
              · exact .inr (.inr (.inl hm))
              · obtain rfl := Option.some.inj hrows
                exact .inr (.inr (.inr hm))

/-- A job that has nothing to do with the client's token events and the stream's tasks. -/
theorem follows_other {α : Type} {p' : Session α} (h : p'.All SilentCommand PlainSection) :
    (watch c q x p).commands.FollowsScript (fun m _ => m = .other) .other p' :=
  followsScript_of_all h (fun cmd hcmd => steady_other cmd hcmd.filesNoClient)
    (fun _ _ hbody => hbody.isSection.filesNoClient) steady_other

theorem follows_handlePublish (self : ErizoController) (client : Client) (root : Value) :
    (watch c q x p).commands.FollowsScript (fun m _ => m = .other) .other
      (self.handlePublish client root) := by
  have hall : (self.handlePublish client root).All FilesNoClient IsSection := by
    rw [handlePublish]
    split
    · trivial
    · have hnew : ∀ label, (newPublisher client label).Each FilesNoClient :=
        fun label => ⟨by simp [FilesNoClient], fun _ => ⟨by simp [FilesNoClient], fun _ =>
          ⟨by simp [FilesNoClient], fun _ => trivial⟩⟩⟩
      refine All.bind (all_monadLift (hnew _)) fun publisher => ?_
      refine All.bind (all_withLock (.publish self client publisher)) fun r => ?_
      cases r <;> trivial
  exact followsScript_of_all hall steady_other (fun _ _ hbody => hbody.filesNoClient) steady_other

/-- An event of a connection that is no token event of the client. -/
theorem follows_onMessage_other (self : ErizoController) {client : Client} {root : Option Value}
    (h : client.id = c → isToken root = false) :
    (watch c q x p).commands.FollowsScript (fun m _ => m = .other) .other
      (self.onMessage client root) := by
  unfold onMessage
  split
  · split_ifs with htoken
    · refine FollowsScript.bind (followsScript_lift (follows_handleToken_other self fun hid => ?_))
        fun m r hm => hm
      have hnot := h hid
      rw [isToken, htoken] at hnot
      cases hnot
    · exact (follows_handlePublish _ _ _).bind fun m r hm => hm
    · exact (follows_other (all_handleSubscribe _ _ _)).bind fun m r hm => hm
    · exact (follows_other (all_monadLift (each_handleSignaling _ _))).bind fun m r hm => hm
    · rfl
  · rfl

/-- A token event of the client. -/
theorem follows_onMessage_token (self : ErizoController) {client : Client} {root : Option Value}
    (hid : client.id = c) (hroot : isToken root = true) (hreply : self.id_ = q) :
    (watch c q x p).commands.FollowsScript (fun m r => ∀ reply, r.2 = .write reply →
      m = .shown ∧ x ∈ streamIds reply ∨ m = .blind) .token (self.onMessage client root) := by
  unfold onMessage
  split
  · split_ifs with htoken
    · refine FollowsScript.bind (followsScript_lift (follows_handleToken self hid hreply))
        fun m r hm reply hwrite => ?_
      obtain ⟨client', reply'⟩ := r
      rcases hm with rfl | hm
      · cases hwrite
      · cases reply' with
        | nullValue => cases hwrite
        | _ =>
            cases hwrite
            exact hm
    all_goals exact absurd (beq_iff_eq.mp hroot) htoken
  · rw [isToken] at hroot
    · cases hroot
    · assumption

/-- Every job follows the watch. -/
theorem follows_recorded (hne : c ≠ p) {job : Job}
    (hjob : ∀ self client root, job = .onMessage self client root → client.id = c → self.id_ = q) :
    (watch c q x p).FollowsScript (fun _ _ => True) (enter c x p job) job.recorded := by
  refine FollowsScript.reporting ?_
  have hother : ∀ {answer : Option Answer} {m : Stage}, job.isTokenOf c = false →
      job ≠ .task (.notifyToSubscribe test_room_id p x) → m.reports c x p job answer := by
    intro answer m htoken htask
    refine ⟨fun reply hjob => ?_, fun heq => absurd heq htask⟩
    rw [htoken] at hjob
    cases hjob
  cases job with
  | onMessage self client root =>
      by_cases htoken : (Job.onMessage self client root).isTokenOf c = true
      · have hparts := Bool.and_eq_true_iff.mp htoken
        have hid : client.id = c := beq_iff_eq.mp hparts.1
        have henter : enter c x p (.onMessage self client root) = .token := if_pos htoken
        rw [henter]
        refine FollowsScript.bind
          (follows_onMessage_token self hid hparts.2 (hjob self client root rfl hid)) fun m r hm =>
          ?_
        exact ⟨fun reply _ hanswer => hm reply (Option.some.inj hanswer), fun heq => by cases heq⟩
      · have henter : enter c x p (.onMessage self client root) = .other := if_neg htoken
        rw [henter]
        refine FollowsScript.bind (follows_onMessage_other self fun hid => ?_) fun m r _ =>
          hother (Bool.eq_false_of_not_eq_true htoken) fun heq => by cases heq
        refine Bool.eq_false_of_not_eq_true fun hroot => htoken ?_
        exact Bool.and_eq_true_iff.mpr ⟨beq_iff_eq.mpr hid, hroot⟩
  | onClose client =>
      exact (follows_other (all_removeClient client)).bind fun m r _ =>
        hother rfl fun heq => by cases heq
  | onSignalingMessage self root =>
      exact (follows_other (all_onSignalingMessage self root)).bind fun m r _ =>
        hother rfl fun heq => by cases heq
  | task task =>
      by_cases htask : task = .notifyToSubscribe test_room_id p x
      · subst htask
        have henter : enter c x p (.task (.notifyToSubscribe test_room_id p x)) = .task :=
          if_pos rfl
        rw [henter]
        refine FollowsScript.bind (followsScript_lift (follows_notifyToSubscribe hne)) fun m r hm =>
          ?_
        exact ⟨fun _ htoken => absurd htoken Bool.false_ne_true, fun _ => hm⟩
      · have henter : enter c x p (.task task) = .other := if_neg htask
        have hreport : ∀ {m : Stage} {answer : Option Answer},
            m.reports c x p (.task task) answer :=
          hother rfl fun heq => htask (Job.task.inj heq)
        rw [henter]
        cases task with
        | notifyToSubscribe room_id client_id stream_id =>
            exact (follows_other
              (all_monadLift (each_notifyToSubscribe room_id client_id stream_id))).bind
              fun m r _ => hreport
        | removeExpireErizoController id =>
            exact (follows_other (all_removeExpireErizoController id)).bind fun m r _ => hreport

end Follow

/-! ## What holds at every moment -/

section Effects

variable {w : World}

theorem readsSucceed_after (h : w.ReadsSucceed) (cmd : Command) :
    (perform cmd w).2.ReadsSucceed := by
  cases cmd with
  | hget k name field =>
      rw [perform]
      split <;> rw [h.drawRead] <;> exact h
  | hvals k name =>
      rw [perform]
      split <;> rw [h.drawRead] <;> exact h
  | hset k name row =>
      rw [perform]
      split <;> exact h
  | hdel k name fields =>
      rw [perform]
      split <;> exact h
  | _ => exact h

theorem writesSucceed_after (h : w.WritesSucceed) (cmd : Command) :
    (perform cmd w).2.WritesSucceed := by
  cases cmd with
  | hget k name field =>
      rw [perform]
      split <;> exact h
  | hvals k name =>
      rw [perform]
      split <;> exact h
  | hset k name row =>
      rw [perform, h.drawWrite]
      split <;> exact h
  | hdel k name fields =>
      rw [perform, h.drawWrite]
      split <;> exact h
  | _ => exact h

/-- A message that was sent stays sent. -/
theorem outbox_subset (cmd : Command) (w : World) : w.outbox ⊆ (perform cmd w).2.outbox := by
  cases cmd with
  | hget k name field =>
      rw [perform]
      split <;> exact List.Subset.refl _
  | hvals k name =>
      rw [perform]
      split <;> exact List.Subset.refl _
  | hset k name row =>
      rw [perform]
      split <;> exact List.Subset.refl _
  | hdel k name fields =>
      rw [perform]
      split <;> exact List.Subset.refl _
  | rpcNotReply queuename data => exact List.subset_append_left _ _
  | rpc queuename data => exact List.subset_append_left _ _
  | _ => exact List.Subset.refl _

end Effects

section Moment

variable (c q x p : String)

/-- A token event of the client has listed streams without this one. -/
def LoggedBlind (log : Log) : Prop :=
  ∃ job reply, (job, some (.write reply)) ∈ log ∧ job.isTokenOf c = true ∧ x ∉ streamIds reply

/-- A task of the stream has ended. -/
def LoggedTask (log : Log) : Prop :=
  ∃ answer, (.task (.notifyToSubscribe test_room_id p x), answer) ∈ log

/-- What is true when a thread enters a stage. -/
def Stage.Sound (w : World) : Stage → Prop
  | .filed => Registered w c
  | .blind => Registered w c ∧ ¬ Published w.redis test_room_id x
  | .task => Published w.redis test_room_id x ∧ Plain x
  | .owing => Published w.redis test_room_id x
  | .sent => Published w.redis test_room_id x ∧ Announced w q c x
  | .missed => Published w.redis test_room_id x ∧ ¬ Registered w c
  | .void => False
  | _ => True

variable {T : Type}

/-- What holds at every moment of a run that removes neither the client nor the stream. -/
structure Watched (s : World × Log) (m : T → Stage) : Prop where
  reads : s.1.ReadsSucceed
  writes : s.1.WritesSucceed
  home : ∀ row ∈ s.1.redis .client test_room_id, row.id = c → row.reply_to = q
  registered : ∀ t, m t = .filed → Registered s.1 c
  published : ∀ t, m t = .task ∨ m t = .owing ∨ m t = .sent ∨ m t = .missed →
    Published s.1.redis test_room_id x
  plain : ∀ t, m t = .task → Plain x
  published_logged : LoggedTask x p s.2 → Published s.1.redis test_room_id x
  not_void : ∀ t, m t ≠ .void
  sent : ∀ t, m t = .sent → Announced s.1 q c x
  /-- Who has listed the streams before this one was there is told by its task. -/
  blind : (∃ t, m t = .blind) ∨ LoggedBlind c x s.2 → Registered s.1 c ∧ (∀ t, m t ≠ .missed) ∧
    (LoggedTask x p s.2 → Announced s.1 q c x)

variable {c q x p} {w w' : World} {log : Log} {m : T → Stage}

/-- A command that leaves the stages as they are. -/
theorem Watched.frame (h : Watched c q x p (w, log) m) (hreads : w'.ReadsSucceed)
    (hwrites : w'.WritesSucceed)
    (hhome : ∀ row ∈ w'.redis .client test_room_id, row.id = c → row.reply_to = q)
    (hregistered : Registered w c → Registered w' c)
    (hpublished : Published w.redis test_room_id x → Published w'.redis test_room_id x)
    (houtbox : w.outbox ⊆ w'.outbox) : Watched c q x p (w', log) m where
  reads := hreads
  writes := hwrites
  home := hhome
  registered t ht := hregistered (h.registered t ht)
  published t ht := hpublished (h.published t ht)
  plain := h.plain
  published_logged hlog := hpublished (h.published_logged hlog)
  not_void := h.not_void
  sent t ht := (h.sent t ht).imp fun _ hmem => houtbox hmem
  blind hb := by
    obtain ⟨hr, hm, hl⟩ := h.blind hb
    exact ⟨hregistered hr, hm, fun hlog => (hl hlog).imp fun _ hmem => houtbox hmem⟩

variable [DecidableEq T]

/-- A thread enters a stage. -/
theorem Watched.enter (h : Watched c q x p (w, log) m) {t : T} {m' : Stage}
    (hm' : m'.Sound c q x w) : Watched c q x p (w, log) (Function.update m t m') := by
  have hcases : ∀ t', (t' = t ∧ Function.update m t m' t' = m') ∨
      Function.update m t m' t' = m t' := by
    intro t'
    by_cases hne : t' = t
    · subst hne
      exact .inl ⟨rfl, Function.update_self _ _ _⟩
    · exact .inr (Function.update_of_ne hne _ _)
  refine ⟨h.reads, h.writes, h.home, fun t' ht' => ?_, fun t' ht' => ?_, fun t' ht' => ?_,
    h.published_logged, fun t' ht' => ?_, fun t' ht' => ?_, fun hb => ?_⟩
  · rcases hcases t' with ⟨-, heq⟩ | heq
    · rw [heq] at ht'
      subst ht'
      exact hm'
    · exact h.registered t' (heq ▸ ht')
  · rcases hcases t' with ⟨-, heq⟩ | heq
    · rw [heq] at ht'
      rcases ht' with rfl | rfl | rfl | rfl
      · exact hm'.1
      · exact hm'
      · exact hm'.1
      · exact hm'.1
    · exact h.published t' (heq ▸ ht')
  · rcases hcases t' with ⟨-, heq⟩ | heq
    · rw [heq] at ht'
      subst ht'
      exact hm'.2
    · exact h.plain t' (heq ▸ ht')
  · rcases hcases t' with ⟨-, heq⟩ | heq
    · rw [heq] at ht'
      subst ht'
      exact hm'
    · exact h.not_void t' (heq ▸ ht')
  · rcases hcases t' with ⟨-, heq⟩ | heq
    · rw [heq] at ht'
      subst ht'
      exact hm'.2
    · exact h.sent t' (heq ▸ ht')
  · by_cases hblind : m' = .blind
    · -- The stream is not there yet, so none of its tasks has begun.
      subst hblind
      refine ⟨hm'.1, fun t' ht' => ?_, fun hlog => absurd (h.published_logged hlog) hm'.2⟩
      rcases hcases t' with ⟨-, heq⟩ | heq
      · rw [heq] at ht'
        cases ht'
      · exact hm'.2 (h.published t' (.inr (.inr (.inr (heq ▸ ht')))))
    · have hold : (∃ t, m t = .blind) ∨ LoggedBlind c x log := by
        refine hb.imp_left fun ⟨t', ht'⟩ => ?_
        rcases hcases t' with ⟨-, heq⟩ | heq
        · exact absurd (heq.symm.trans ht') hblind
        · exact ⟨t', heq ▸ ht'⟩
      obtain ⟨hr, hm, hl⟩ := h.blind hold
      refine ⟨hr, fun t' ht' => ?_, hl⟩
      rcases hcases t' with ⟨-, heq⟩ | heq
      · rw [heq] at ht'
        subst ht'
        exact hm'.2 hr
      · exact hm t' (heq ▸ ht')

omit [DecidableEq T] in
/-- A command leaves the stage of its thread, or takes it to one that is sound. -/
theorem Watched.sound_next (h : Watched c q x p (w, log) m) {t : T} {cmd : Command}
    (hallows : (m t).allows c q x cmd) :
    (m t).next c q x cmd (perform cmd w).1 = m t ∨
      ((m t).next c q x cmd (perform cmd w).1).Sound c q x (perform cmd w).2 := by
  have hreads := h.reads
  have hwrites := h.writes
  have hregistered := h.registered t
  have hpublished := h.published t
  have hplain := h.plain t
  generalize m t = m₀ at *
  cases cmd with
  | hset k name row =>
      cases k with
      | client =>
          cases m₀ with
          | token =>
              by_cases hrow : name = test_room_id ∧ row.id = c
              · obtain ⟨rfl, hid⟩ := hrow
                refine .inr ?_
                rw [Stage.next, if_pos ⟨rfl, hid⟩, perform, hwrites.head, if_neg Bool.false_ne_true]
                exact ⟨row, by simp [World.store], hid⟩
              · exact .inl (if_neg hrow)
          | _ => exact .inl rfl
      | _ => cases m₀ <;> exact .inl rfl
  | hget k name field =>
      cases k with
      | publisher =>
          cases m₀ with
          | task =>
              obtain ⟨rfl, rfl⟩ := hallows
              obtain ⟨row, hrow, hid⟩ := hpublished (.inl rfl)
              have hget : (w.redis .publisher test_room_id).get? (c_str x) = some row := by
                rw [c_str_of_plain (hplain rfl)]
                exact Table.get?_eq_some_iff.mpr ⟨hrow, hid⟩
              refine .inl ?_
              rw [perform, hreads.head, if_neg Bool.false_ne_true, hget]
              have hfound : ¬((1 : ℤ) = -1 ∨ some row = none) := by
                rintro (h | h)
                · exact absurd h (by decide)
                · cases h
              exact (if_neg hfound :
                (if (1 : ℤ) = -1 ∨ some row = none then Stage.void else .task) = .task)
          | _ => exact .inl rfl
      | _ => cases m₀ <;> exact .inl rfl
  | hvals k name =>
      cases k with
      | publisher =>
          cases m₀ with
          | filed =>
              by_cases hname : name = test_room_id
              · subst hname
                refine .inr ?_
                rw [perform, hreads.head, if_neg Bool.false_ne_true, hreads.drawRead, Stage.next,
                  if_pos rfl]
                split
                · trivial
                · rename_i hx
                  refine ⟨hregistered rfl, ?_⟩
                  rintro ⟨row, hrow, hid⟩
                  exact hx (List.mem_map.mpr ⟨row, hrow, hid⟩)
              · exact .inl (if_neg hname)
          | _ => exact .inl rfl
      | client =>
          cases m₀ with
          | task =>
              obtain rfl := hallows
              have hqueue : ∀ row ∈ (w.redis .client test_room_id).rows, row.id = c →
                  row.reply_to = q := h.home
              refine .inr ?_
              rw [perform, hreads.head, if_neg Bool.false_ne_true, hreads.drawRead, Stage.next,
                if_neg (by decide), if_pos hqueue]
              split
              · exact hpublished (.inl rfl)
              · rename_i hc
                refine ⟨hpublished (.inl rfl), ?_⟩
                rintro ⟨row, hrow, hid⟩
                exact hc (List.mem_map.mpr ⟨row, hrow, hid⟩)
          | _ => exact .inl rfl
      | _ => cases m₀ <;> exact .inl rfl
  | rpcNotReply queuename data =>
      cases data with
      | new_publisher streamId clientId label =>
          cases m₀ with
          | owing =>
              by_cases hmessage : queuename = q ∧ streamId = x ∧ clientId = c
              · obtain ⟨rfl, rfl, rfl⟩ := hmessage
                refine .inr ?_
                rw [Stage.next, if_pos ⟨rfl, rfl, rfl⟩]
                exact ⟨hpublished (.inr (.inl rfl)), label,
                  List.mem_append_right _ (List.mem_singleton_self _)⟩
              · exact .inl (if_neg hmessage)
          | _ => exact .inl rfl
      | _ => cases m₀ <;> exact .inl rfl
  | _ => cases m₀ <;> exact .inl rfl

omit [DecidableEq T] in
/-- A finished job is logged. -/
theorem Watched.report (h : Watched c q x p (w, log) m) {t : T} {job : Job} {answer : Option Answer}
    (hreports : (m t).reports c x p job answer) : Watched c q x p
    (w, log ++ [(job, answer)]) m := by
  have htask : LoggedTask x p (log ++ [(job, answer)]) →
      LoggedTask x p log ∨ m t = .sent ∨ m t = .missed := by
    rintro ⟨answer', hmem⟩
    rcases List.mem_append.mp hmem with hmem | hmem
    · exact .inl ⟨answer', hmem⟩
    · obtain ⟨hjob, -⟩ := Prod.mk.inj (List.mem_singleton.mp hmem)
      refine .inr ((hreports.2 hjob.symm).imp_right fun hm => ?_)
      exact hm.resolve_right (h.not_void t)
  have hblind : LoggedBlind c x (log ++ [(job, answer)]) → (∃ t, m t = .blind) ∨
    LoggedBlind c x log := by
    rintro ⟨job', reply, hmem, htoken, hx⟩
    rcases List.mem_append.mp hmem with hmem | hmem
    · exact .inr ⟨job', reply, hmem, htoken, hx⟩
    · obtain ⟨rfl, hanswer⟩ := Prod.mk.inj (List.mem_singleton.mp hmem)
      refine .inl ⟨t, (hreports.1 reply htoken hanswer.symm).resolve_left fun hshown => ?_⟩
      exact hx hshown.2
  refine ⟨h.reads, h.writes, h.home, h.registered, h.published, h.plain, fun hlog => ?_, h.not_void,
    h.sent, fun hb => ?_⟩
  · rcases htask hlog with hlog | hm
    · exact h.published_logged hlog
    · exact h.published t (.inr (.inr hm))
  · obtain ⟨hr, hm, hl⟩ := h.blind (hb.elim .inl hblind)
    refine ⟨hr, hm, fun hlog => ?_⟩
    rcases htask hlog with hlog | hsent | hmissed
    · exact hl hlog
    · exact h.sent t hsent
    · exact absurd hmissed (hm t)

/-- The client's record is only filed by its own controller. -/
theorem home_after {m : Stage} {cmd : Command} (hallows : m.allows c q x cmd)
    (h : ∀ row ∈ w.redis .client test_room_id, row.id = c → row.reply_to = q) :
    ∀ row ∈ (perform cmd w).2.redis .client test_room_id, row.id = c → row.reply_to = q := by
  intro row hrow hid
  by_cases hset : ∃ row, cmd = .hset .client test_room_id row
  · obtain ⟨row', rfl⟩ := hset
    rw [perform] at hrow
    split at hrow
    · exact h row hrow hid
    · simp only [World.store, Redis.update_self, World.drawWrite_redis] at hrow
      rcases Table.mem_set.mp hrow with rfl | ⟨hrow, -⟩
      · cases m <;> exact (hallows rfl hid).2
      · exact h row hrow hid
  · exact h row (perform_subset (fun row heq => hset ⟨row, heq⟩) hrow) hid

end Moment

/-! ## Every run -/

/-- What the jobs may rely on: all events of a connection come to one controller, and the
ready message of a stream, from which its task comes, carries the room and the client of a
publisher that has been filed. Its id is a number that `getStreamID` has made. -/
structure Job.Expected (home : String → String) (job : Job) (s : World × Log) : Prop where
  connection : ∀ self client root, job = .onMessage self client root → self.id_ = home client.id
  ready : ∀ room_id client_id stream_id,
    job = .task (.notifyToSubscribe room_id client_id stream_id) →
      Plain stream_id ∧
        ∃ p ∈ s.1.redis .publisher room_id, p.id = stream_id ∧ p.client_id = client_id

/-- Neither the client nor the stream is removed. -/
def Stays (client_id stream_id : String) (s s' : World × Log) : Prop :=
  (Registered s.1 client_id → Registered s'.1 client_id) ∧
  (Published s.1.redis test_room_id stream_id → Published s'.1.redis test_room_id stream_id)

variable {T : Type} [DecidableEq T] {s : RecordedPool T}

/-- At every moment the threads are in stages of which `Watched` holds. -/
theorem exists_watched {home : String → String} {c x p : String} (hne : c ≠ p)
    (hs : (recorded T).Reaches
      (Monitor.Meets recordedStep Job.recorded (Job.Expected home) (Stays c x)) s) :
    ∃ m : T → Stage, Watched c (home c) x p s.shared m := by
  have hinit : ∀ s : World × Log, s.1.ReadsSucceed ∧ s.1.WritesSucceed ∧
      s.1.redis .client test_room_id = ∅ ∧ s.2 = [] →
        Watched c (home c) x p s fun _ : T => .other := by
    rintro ⟨w, log⟩ ⟨hreads, hwrites, hempty, rfl⟩
    have hhome : ∀ row ∈ w.redis .client test_room_id, row.id = c → row.reply_to = home c := by
      intro row hrow
      rw [hempty] at hrow
      exact absurd hrow (Table.not_mem_empty row)
    refine ⟨hreads, hwrites, hhome, fun _ h => ?_, fun _ h => ?_, fun _ h => ?_,
      fun ⟨_, h⟩ => ?_, fun _ h => ?_, fun _ h => ?_, fun h => ?_⟩
    · cases h
    · rcases h with h | h | h | h <;> cases h
    · cases h
    · cases h
    · cases h
    · cases h
    · rcases h with ⟨_, h⟩ | ⟨_, _, h, _⟩ <;> cases h
  refine Monitor.exists_invariant (W := watch c (home c) x p) (I := Watched c (home c) x p)
    (fun job s hjob => follows_recorded hne fun self client root heq hid =>
      hid ▸ hjob.connection self client root heq) hinit ?_ ?_ hs
  · rintro job t ⟨w, log⟩ m h hjob
    refine h.enter ?_
    unfold enter
    split_ifs
    · trivial
    · cases job with
      | task task =>
          dsimp only
          split
          · rename_i htask
            subst htask
            obtain ⟨hplain, row, hrow, hid, -⟩ := hjob.ready _ _ _ rfl
            exact ⟨⟨row, hrow, hid⟩, hplain⟩
          · trivial
      | _ => trivial
  · rintro (cmd | ⟨job, answer⟩) t ⟨w, log⟩ m h hallows hstays
    · have hframe : Watched c (home c) x p ((perform cmd w).2, log) m :=
        h.frame (readsSucceed_after h.reads cmd) (writesSucceed_after h.writes cmd)
          (home_after hallows h.home) hstays.1 hstays.2 (outbox_subset cmd w)
      rcases h.sound_next hallows with hsame | hsound
      · have hupdate : Function.update m t ((m t).next c (home c) x cmd (perform cmd w).1) = m := by
          rw [hsame, Function.update_eq_self]
        exact hupdate.symm ▸ hframe
      · exact hframe.enter hsound
    · exact (h.report hallows).enter trivial

/-- A registered client whose token event has succeeded knows of every stream of another
client whose task has ended: from the reply to the token event, or from a message of the
task. -/
theorem joining_client_told {home : String → String} {row : Client} {stream_id client_id : String}
    {self : ErizoController} {client : Client} {root : Option Value} {reply : Value}
    {answer : Option Answer}
    (hs : (recorded T).Reaches
      (Monitor.Meets recordedStep Job.recorded (Job.Expected home) (Stays row.id stream_id)) s)
    (hrow : row ∈ s.shared.1.redis .client test_room_id) (hclient : client.id = row.id)
    (htoken : isToken root = true)
    (hjoined : (.onMessage self client root, some (.write reply)) ∈ s.shared.2)
    (hother : client_id ≠ row.id)
    (hnotified : (.task (.notifyToSubscribe test_room_id client_id stream_id), answer) ∈
      s.shared.2) :
    stream_id ∈ streamIds reply ∨ Announced s.shared.1 row.reply_to row.id stream_id := by
  obtain ⟨m, hm⟩ := exists_watched hother.symm hs
  by_cases hx : stream_id ∈ streamIds reply
  · exact .inl hx
  · have hof : (Job.onMessage self client root).isTokenOf row.id = true :=
      Bool.and_eq_true_iff.mpr ⟨beq_iff_eq.mpr hclient, htoken⟩
    obtain ⟨-, -, hannounced⟩ := hm.blind (.inr ⟨_, reply, hjoined, hof, hx⟩)
    refine .inr ?_
    rw [hm.home row hrow rfl]
    exact hannounced ⟨answer, hnotified⟩

/-! Client `c` joins while the room is empty; the stream of `a` is filed and announced after
that. -/

def joinOracle : Oracle :=
  { freshOracle with
    systemMs := .const (2 ^ 31)
    rpcReply := .const (.objectValue [("erizoID", .stringValue "e"),
      ("bridgeIP", .stringValue "10.0.0.1"), ("bridgePort", .intValue 5000)]) }

def joinPool : RecordedPool Bool where
  shared := (.start (Redis.empty.update .erizo_agent "area"
    ((∅ : Table ErizoAgent).set ⟨"agent", 2 ^ 31, 0⟩)) joinOracle, [])
  thread _ := .outside (.ret ())
  owner _ := none

def joinController : ErizoController :=
  { ErizoController.ofId "ec" with server_mapping := [(0, "area")] }

def joinEvent : Value := .arrayValue [.stringValue "token", .objectValue []]

def publishEvent : Value :=
  .arrayValue [.stringValue "publish", .objectValue [("label", .stringValue "l")]]

def joinThenPublish : List (Action Bool Job) :=
  [.start false (.onMessage joinController { id := "c" } (some joinEvent)), .command false,
    .command false, .command false, .command false,
    .start true (.onMessage joinController { id := "a", room_id := test_room_id }
      (some publishEvent)),
    .command true, .command true, .command true, .command false, .command false, .acquire true,
    .command true, .command true, .release true, .command true,
    .start true (.task (.notifyToSubscribe test_room_id "a" "x")), .command true, .command false,
    .command true, .command true, .command true]

/-- The conditions of the run on a step, checked. -/
def keepsJoin : Action Bool Job → RecordedPool Bool → Bool
  | .start _ (.onMessage self _ _), _ => self.id_ == "ec"
  | .start _ (.task (.notifyToSubscribe room_id client_id stream_id)), s =>
      decide (Plain stream_id ∧ ∃ p ∈ (s.shared.1.redis .publisher room_id).rows,
        p.id = stream_id ∧ p.client_id = client_id)
  | .start _ _, _ => true
  | a, s => (poolStep recordedStep Job.recorded a s).all fun s' =>
      (!decide (Registered s.shared.1 "c") || decide (Registered s'.shared.1 "c")) &&
        (!decide (Published s.shared.1.redis test_room_id "x") ||
          decide (Published s'.shared.1.redis test_room_id "x"))

/-- A successful token event that was not told of the stream. -/
def joinedBefore (stream_id : String) : Job × Option Answer → Bool
  | (.onMessage _ client root, some (.write reply)) =>
      client.id == "c" && isToken root && !(streamIds reply).contains stream_id
  | _ => false

def isNotification : Job × Option Answer → Bool
  | (.task task, _) => task = .notifyToSubscribe test_room_id "a" "x"
  | _ => false

theorem keepsJoin_meets (a : Action Bool Job) (s : RecordedPool Bool) (h : keepsJoin a s = true) :
    Monitor.Meets recordedStep Job.recorded (Job.Expected fun _ => "ec") (Stays "c" "x") a s := by
  have hstep : (∀ t job, a ≠ .start t job) →
    ∀ s', poolStep recordedStep Job.recorded a s = some s' →
      Stays "c" "x" s.shared s'.shared := by
    intro hstart s' hs'
    cases a with
    | start t job => exact absurd rfl (hstart t job)
    | _ =>
        rw [keepsJoin, hs'] at h
        · simp only [Option.all_some, Bool.and_eq_true, Bool.or_eq_true, Bool.not_eq_true',
            decide_eq_false_iff_not, decide_eq_true_eq] at h
          exact ⟨fun hc => h.1.resolve_left (not_not.mpr hc),
            fun hx => h.2.resolve_left (not_not.mpr hx)⟩
        all_goals intros; contradiction
  cases a with
  | start t job =>
      refine ⟨fun self client root heq => ?_, fun room_id client_id stream_id heq => ?_⟩
      · subst heq
        exact beq_iff_eq.mp h
      · subst heq
        exact of_decide_eq_true h
  | _ => exact hstep fun _ _ => by simp

/-- The client was not told of the stream when it joined, and the task has told it. -/
theorem joining_client_told_by_task :
    ∃ (s : RecordedPool Bool) (row : Client), (recorded Bool).Reachable s ∧
      row ∈ s.shared.1.redis .client test_room_id ∧ row.id = "c" ∧
      Announced s.shared.1 row.reply_to "c" "x" := by
  have hempty : joinPool.shared.1.redis .client test_room_id = ∅ := rfl
  obtain ⟨s, hs, hend⟩ := Machine.exists_reaches_of_runChecked (M := recorded Bool)
    (P := Monitor.Meets recordedStep Job.recorded (Job.Expected fun _ => "ec") (Stays "c" "x"))
    (p := keepsJoin)
    (q := fun s => s.shared.2.any (joinedBefore "x") && s.shared.2.any isNotification &&
      decide (Registered s.shared.1 "c"))
    (l := joinThenPublish) (s := joinPool) keepsJoin_meets
    ⟨⟨rfl, rfl, hempty, rfl⟩, fun _ => rfl, fun _ => rfl⟩ (by decide)
  simp only [Bool.and_eq_true, decide_eq_true_eq, List.any_eq_true] at hend
  obtain ⟨⟨⟨joined, hjoined, hbefore⟩, ⟨notified, hnotified, htask⟩⟩, ⟨row, hrow, hid⟩⟩ := hend
  refine ⟨s, row, hs.reachable, hrow, hid, ?_⟩
  rw [joinedBefore.eq_def] at hbefore
  split at hbefore
  · simp only [Bool.and_eq_true, Bool.not_eq_true', beq_iff_eq] at hbefore
    obtain ⟨⟨hclient, htoken⟩, hmissing⟩ := hbefore
    rw [isNotification.eq_def] at htask
    split at htask
    · obtain rfl := of_decide_eq_true htask
      have htold : "x" ∈ streamIds _ ∨ Announced s.shared.1 row.reply_to row.id "x" :=
        joining_client_told (hid ▸ hs) hrow (hclient.trans hid.symm) htoken hjoined
          (by rw [hid]; decide) hnotified
      rw [hid] at htold
      refine htold.resolve_left fun hx => ?_
      rw [List.contains_iff_mem.mpr hx] at hmissing
      cases hmissing
    · cases htask
  · cases hbefore

end ErizoController
