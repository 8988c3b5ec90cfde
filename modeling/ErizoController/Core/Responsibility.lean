import ErizoController.Core.Heartbeat
import ErizoController.Core.Registration

/-!
# Who removes the clients of a controller

A controller is responsible for its clients as long as its heartbeat has a record. Whoever
takes that record for expired removes it and then queues a task that removes the clients. Here
are all controllers at once: their heartbeat threads, the workers of their pools, their
shutdown and their ends, with lock attempts and Redis commands that fail as they like.

The removal of an expired record and the queueing of the task are two steps, and a task lists
the clients in one step and removes each of them in one more. The workers of a pool are chosen
freely: `getSequenceWorker` counts all tasks, not only these.
-/

namespace ErizoController

/-! ## An iteration up to its listing -/

section Listing

variable (self : ErizoController)

/-- An iteration up to the loop over the heartbeats; `none` where the thread returns. -/
def listHeartbeats (heartbeat_ : HEARTBEAT) (now : UInt64) :
    Handler (Option (HEARTBEAT × List HEARTBEAT)) := do
  let some heartbeat_ ← self.updateHeartbeat heartbeat_ now | return none
  let some heartbeats ← RedisHelper.getAllHeartbeatData | return none
  return some (heartbeat_, heartbeats)

theorem exec_listHeartbeats (heartbeat_ : HEARTBEAT) (now : UInt64) (w : World) :
    exec (self.listHeartbeats heartbeat_ now) w =
      match self.updated heartbeat_ now w with
      | none => (none, w.drawWrite)
      | some w' => (some (self.nextHeartbeat heartbeat_ now, listed w'), w'.drawRead) := by
  rw [listHeartbeats, exec_bind, exec_updateHeartbeat]
  cases self.updated heartbeat_ now w with
  | none => rfl
  | some w' =>
      dsimp only
      rw [exec_bind, RedisHelper.getAllHeartbeatData, RedisHelper.exec_getAll]
      rfl

/-- The hash of clients is not touched by a change of the heartbeats. -/
theorem update_heartbeat_ec (r : Redis) (name id_ : String) (t : Table HEARTBEAT) :
    r.update .heartbeat name t .ec id_ = r .ec id_ :=
  Redis.update_kind r (k := .heartbeat) name id_ t (by decide)

/-- The listing keeps the clients and the records, but for the time of the own one. -/
theorem listHeartbeats_redis (heartbeat_ : HEARTBEAT) (now : UInt64) (w : World) :
    (∀ x, (exec (self.listHeartbeats heartbeat_ now) w).2.redis .ec x = w.redis .ec x) ∧
      ∀ x, (∃ data ∈ heartbeatsOf w, data.id = x) →
        ∃ data ∈ heartbeatsOf (exec (self.listHeartbeats heartbeat_ now) w).2, data.id = x := by
  rw [exec_listHeartbeats, updated]
  by_cases hdue : self.UpdateDue heartbeat_ now
  · rw [if_pos hdue]
    by_cases hfault : w.oracle.writeFault.head = true
    · rw [if_pos hfault]
      exact ⟨fun _ => rfl, fun _ h => h⟩
    · rw [if_neg hfault]
      refine ⟨fun x => update_heartbeat_ec w.redis RedisHelper.erizo_controller_heartbeat x
        ((heartbeatsOf w).set { heartbeat_ with last_update := now }), ?_⟩
      rintro x ⟨data, hdata, rfl⟩
      simp only [heartbeatsOf, World.store, World.drawRead_redis, World.drawWrite_redis,
        Redis.update_self]
      by_cases hid : data.id = heartbeat_.id
      · exact ⟨_, Table.mem_set_self _ _, hid.symm⟩
      · exact ⟨data, Table.mem_set.mpr (.inr ⟨hdata, hid⟩), rfl⟩
  · rw [if_neg hdue]
    exact ⟨fun _ => rfl, fun _ h => h⟩

end Listing

/-! ## The controllers -/

/-- A worker of a pool, with the controllers whose clients it is to remove; those of the
running task that are left come with it. -/
structure PoolWorker where
  closed : Bool := false
  pending : List String := []
  running : Option (String × List Client) := none

namespace PoolWorker

def Has (worker : PoolWorker) (erizo_controller_id : String) : Prop :=
  erizo_controller_id ∈ worker.pending ∨
    ∃ clients, worker.running = some (erizo_controller_id, clients)

/-- A closed worker runs no more tasks. -/
def post (worker : PoolWorker) (erizo_controller_id : String) : PoolWorker :=
  if worker.closed then worker
  else { worker with pending := worker.pending ++ [erizo_controller_id] }

/-- The worker will remove the client: its task has not begun or still has the client. -/
def Covers (worker : PoolWorker) (erizo_controller_id client_id : String) : Prop :=
  erizo_controller_id ∈ worker.pending ∨
    ∃ clients, worker.running = some (erizo_controller_id, clients) ∧
      ∃ client ∈ clients, client.id = client_id

theorem Covers.has {worker : PoolWorker} {erizo_controller_id client_id : String}
    (h : worker.Covers erizo_controller_id client_id) : worker.Has erizo_controller_id :=
  h.imp_right fun ⟨clients, hrunning, _⟩ => ⟨clients, hrunning⟩

end PoolWorker

/-- A controller: whether `init` has run and whether the process is there, the thread, with
the heartbeats that it has listed and not yet looked at and the controller whose record it has
just removed, and the workers. -/
structure Node where
  started : Bool := false
  live : Bool := false
  run_ : Bool := true
  inLoop : Bool := true
  now : UInt64 := 0
  heartbeat_ : HEARTBEAT := {}
  listed : List HEARTBEAT := []
  expiring : Option String := none
  worker : ℕ → PoolWorker := fun _ => {}

namespace Node

def setWorker (n : Node) (i : ℕ) (worker : PoolWorker) : Node :=
  { n with worker := Function.update n.worker i worker }

/-- A task for the controller is pending or running. -/
def Works (n : Node) (erizo_controller_id : String) : Prop :=
  n.live = true ∧ ∃ i, (n.worker i).Has erizo_controller_id

/-- A task for the controller is pending. -/
def Waits (n : Node) (erizo_controller_id : String) : Prop :=
  n.live = true ∧ ∃ i, erizo_controller_id ∈ (n.worker i).pending

/-- The thread has removed the record of the controller and not queued the task yet. -/
def Expiring (n : Node) (erizo_controller_id : String) : Prop :=
  n.live = true ∧ n.expiring = some erizo_controller_id

/-- A worker will remove the client, or, where `gap` allows it, the task is about to be
queued. -/
def Covers (gap : Prop) (n : Node) (erizo_controller_id client_id : String) : Prop :=
  (gap ∧ n.Expiring erizo_controller_id) ∨
    (n.live = true ∧ ∃ i, (n.worker i).Covers erizo_controller_id client_id)

/-- A process that is there has been started, and the clients of a running task were filed for
its controller. -/
structure Sane (n : Node) : Prop where
  started : n.live = true → n.started = true
  filed : ∀ i task clients, (n.worker i).running = some (task, clients) →
    ∀ client ∈ clients, client.reply_to = task

@[simp] theorem setWorker_self (n : Node) (i : ℕ) (worker : PoolWorker) :
    (n.setWorker i worker).worker i = worker := Function.update_self _ _ _

theorem setWorker_of_ne (n : Node) {i j : ℕ} (worker : PoolWorker) (h : j ≠ i) :
    (n.setWorker i worker).worker j = n.worker j := Function.update_of_ne h _ _

theorem Waits.covers {n : Node} {erizo_controller_id : String} (h : n.Waits erizo_controller_id)
    (gap : Prop) (client_id : String) : n.Covers gap erizo_controller_id client_id :=
  .inr ⟨h.1, h.2.imp fun _ hpending => .inl hpending⟩

end Node

/-- What holds of a value of a function still holds of one after an update that keeps it. -/
theorem exists_update {ι α : Type} [DecidableEq ι] {P : α → Prop} {f : ι → α} {i : ι} {a : α}
    (ha : P (f i) → P a) (h : ∃ j, P (f j)) : ∃ j, P (Function.update f i a j) := by
  obtain ⟨j, hj⟩ := h
  by_cases hji : j = i
  · subst hji
    exact ⟨j, by rw [Function.update_self]; exact ha hj⟩
  · exact ⟨j, by rwa [Function.update_of_ne hji]⟩

structure Fleet where
  redis : Redis
  node : String → Node

namespace Fleet

def setNode (s : Fleet) (id_ : String) (n : Node) : Fleet :=
  { s with node := Function.update s.node id_ n }

/-- The controller has a record of its heartbeat. -/
def Recorded (s : Fleet) (id_ : String) : Prop :=
  ∃ data ∈ s.redis .heartbeat RedisHelper.erizo_controller_heartbeat, data.id = id_

/-- A task for the controller is pending or running on a live controller. -/
def Taken (s : Fleet) (id_ : String) : Prop := ∃ x, (s.node x).Works id_

/-- A task for the controller is pending on a live controller. -/
def Waits (s : Fleet) (id_ : String) : Prop := ∃ x, (s.node x).Waits id_

/-- A live controller has removed the record and not queued the task yet. -/
def Expiring (s : Fleet) (id_ : String) : Prop := ∃ x, (s.node x).Expiring id_

/-- Each controller with clients has a record of its heartbeat or a task for it. -/
def NeverLost (s : Fleet) : Prop := ∀ id_, s.redis .ec id_ ≠ ∅ → s.Recorded id_ ∨ s.Taken id_

/-- Each controller with clients has a record of its heartbeat or a task for it, or the task is
about to be queued. -/
def TakenOver (s : Fleet) : Prop :=
  ∀ id_, s.redis .ec id_ ≠ ∅ → s.Recorded id_ ∨ s.Taken id_ ∨ s.Expiring id_

/-- A task that does not remove the clients of the controller does no harm: there are none, or
they have a record or another task is pending. -/
def Spared (s : Fleet) (id_ : String) : Prop :=
  s.redis .ec id_ = ∅ ∨ s.Recorded id_ ∨ s.Waits id_

/-- The process of the controller has ended. -/
def crashed (s : Fleet) (id_ : String) : Fleet := s.setNode id_ { s.node id_ with live := false }

/-- The node with one of its workers changed. -/
def setWorker (s : Fleet) (id_ : String) (i : ℕ) (worker : PoolWorker) : Fleet :=
  s.setNode id_ ((s.node id_).setWorker i worker)

@[simp] theorem setNode_redis (s : Fleet) (id_ : String) (n : Node) :
    (s.setNode id_ n).redis = s.redis := rfl

@[simp] theorem setNode_self (s : Fleet) (id_ : String) (n : Node) :
    (s.setNode id_ n).node id_ = n := Function.update_self _ _ _

theorem setNode_of_ne (s : Fleet) {id_ x : String} (n : Node) (h : x ≠ id_) :
    (s.setNode id_ n).node x = s.node x := Function.update_of_ne h _ _

end Fleet

/-- The steps: `init`; a client is filed for its controller; a removal of a client by a
handler; other changes of the store, which leave clients and heartbeats alone; the thread tests
`run_` and lists the heartbeats, looks at the next one and removes it if it has expired, and
queues the task for it; a worker goes on with its task or takes the next; `close` waits for a
worker and then clears `run_`; and the end of a process. -/
inductive FleetAction where
  | init (id_ : String)
  | addClientToEC (id_ : String) (client : Client) (o : Oracle)
  | removeClient (client : Client) (o : Oracle)
  | others (redis : Redis)
  | list (id_ : String) (now : UInt64) (o : Oracle)
  | expire (id_ : String) (o : Oracle)
  | queue (id_ : String) (worker : ℕ)
  | work (id_ : String) (worker : ℕ) (o : Oracle)
  | closeWorker (id_ : String) (worker : ℕ)
  | stop (id_ : String)
  | crash (id_ : String)

/-- The controller whose process, thread or workers the action is about. -/
def FleetAction.id_? : FleetAction → Option String
  | .init id_ => some id_
  | .list id_ _ _ => some id_
  | .expire id_ _ => some id_
  | .queue id_ _ => some id_
  | .work id_ _ _ => some id_
  | .closeWorker id_ _ => some id_
  | .stop id_ => some id_
  | .crash id_ => some id_
  | _ => none

section Runs

variable (config : String → ErizoController) (worker_num : ℕ)

/-- The controller with its id. -/
def controller (id_ : String) : ErizoController := { config id_ with id_ := id_ }

/-- The thread after the listing. -/
def Node.listing (n : Node) (now : UInt64) : Option (HEARTBEAT × List HEARTBEAT) → Node
  | none => { n with inLoop := false }
  | some (heartbeat_, listed) => { n with now, heartbeat_, listed }

def listStep (id_ : String) (now : UInt64) (o : Oracle) (s : Fleet) : Fleet :=
  let n := s.node id_
  let w := World.start s.redis o
  if n.run_ = true then
    if o.lockTaken.head = true then
      let (next, w') := exec ((controller config id_).listHeartbeats n.heartbeat_ now) w
      { s.setNode id_ (n.listing now next) with redis := w'.redis }
    else s.setNode id_ { n with inLoop := false }
  else { s.setNode id_ { n with inLoop := false } with
    redis := (exec (RedisHelper.removeHeartbeatData id_) w).2.redis }

/-- The thread looks at a heartbeat; what the removal of the record answers is not read. -/
def expireStep (id_ : String) (data : HEARTBEAT) (listed : List HEARTBEAT) (o : Oracle)
    (s : Fleet) : Fleet :=
  let n := s.node id_
  if (controller config id_).Expires n.now data then
    { s.setNode id_ { n with listed, expiring := some data.id } with
      redis := (exec (RedisHelper.removeHeartbeatData data.id) (World.start s.redis o)).2.redis }
  else s.setNode id_ { n with listed }

def workStep (id_ : String) (i : ℕ) (o : Oracle) (s : Fleet) : Option Fleet :=
  let worker := (s.node id_).worker i
  match worker.running, worker.pending with
  | some (_, []), _ => some (s.setWorker id_ i { worker with running := none })
  | some (task, client :: clients), _ =>
      some { s.setWorker id_ i { worker with running := some (task, clients) } with
        redis := (execSession (ErizoController.removeClient client)
          (World.start s.redis o)).2.redis }
  | none, task :: tasks =>
      let clients := (exec (RedisHelper.getAllClientFromEC task) (World.start s.redis o)).1
      some (s.setWorker id_ i
        { worker with pending := tasks, running := some (task, clients.getD []) })
  | none, [] => none

def fleetStep : FleetAction → Fleet → Option Fleet
  | .init id_, s =>
      if (s.node id_).started = true then none
      else some (s.setNode id_ { started := true, live := true, heartbeat_ := { id := id_ } })
  | .addClientToEC id_ client o, s =>
      if (s.node id_).live = true then
        let client := { client with reply_to := id_ }
        some { s with redis :=
          (exec (RedisHelper.addClientToEC id_ client) (World.start s.redis o)).2.redis }
      else none
  | .removeClient client o, s =>
      some { s with redis :=
        (execSession (ErizoController.removeClient client) (World.start s.redis o)).2.redis }
  | .others redis, s =>
      some { s with redis := fun k name =>
        if k = .ec ∨ k = .heartbeat then s.redis k name else redis k name }
  | .list id_ now o, s =>
      let n := s.node id_
      if n.live = true ∧ n.inLoop = true ∧ n.listed = [] ∧ n.expiring = none then
        some (listStep config id_ now o s)
      else none
  | .expire id_ o, s =>
      let n := s.node id_
      match n.listed with
      | [] => none
      | data :: listed =>
          if n.live = true ∧ n.expiring = none then some (expireStep config id_ data listed o s)
          else none
  | .queue id_ i, s =>
      let n := s.node id_
      match n.expiring with
      | none => none
      | some task =>
          if n.live = true ∧ i < worker_num then
            some (s.setNode id_ ({ n with expiring := none }.setWorker i ((n.worker i).post task)))
          else none
  | .work id_ i o, s =>
      if (s.node id_).live = true then workStep id_ i o s else none
  | .closeWorker id_ i, s =>
      let n := s.node id_
      let worker := n.worker i
      if n.live = true ∧ worker.pending = [] ∧ worker.running.isNone = true then
        some (s.setWorker id_ i { worker with closed := true })
      else none
  | .stop id_, s =>
      let n := s.node id_
      if n.live = true ∧ ∀ i < worker_num, (n.worker i).closed = true then
        some (s.setNode id_ { n with run_ := false })
      else none
  | .crash id_, s =>
      if (s.node id_).live = true then some (s.crashed id_) else none

/-- No controller has been started and none has clients. -/
def fleet : Machine FleetAction Fleet where
  init s := (∀ id_, s.node id_ = {}) ∧ ∀ id_, s.redis .ec id_ = ∅
  step := fleetStep config worker_num

end Runs

/-! ## What loses the clients of a controller -/

/-- A removal of a client goes through: its room is locked and no command fails. -/
def RemovalSucceeds (o : Oracle) : Prop :=
  o.lockTaken.head = true ∧ o.readFault = .const false ∧ o.writeFault = .const false

/-- A worker lists the clients of its next task, or removes the next client; a task that fails
there does no harm if its controller is spared. -/
def WorkSound (id_ : String) (i : ℕ) (o : Oracle) (s : Fleet) : Prop :=
  let worker := (s.node id_).worker i
  match worker.running, worker.pending with
  | some (task, _ :: _), _ => RemovalSucceeds o ∨ s.Spared task
  | none, task :: tasks =>
      o.readFault.head = false ∨ (s.setWorker id_ i { worker with pending := tasks }).Spared task
  | _, _ => True

/-- None of the ways in which the clients of a controller are lost: a client is filed for a
controller whose heartbeat has no record; a controller that is shut down removes its record
and leaves its clients; the task is given to a closed worker; a task does not get the list or
does not remove a client; and a process ends with a task. -/
def Sound : FleetAction → Fleet → Prop
  | .addClientToEC id_ _ o, s => o.writeFault.head = true ∨ s.Recorded id_ ∨ s.Waits id_
  | .list id_ _ o, s =>
      (s.node id_).run_ = true ∨ o.writeFault.head = true ∨ s.redis .ec id_ = ∅ ∨ s.Waits id_
  | .queue id_ i, s =>
      let n := s.node id_
      ∀ task, n.expiring = some task → (n.worker i).closed = false ∨ s.Spared task
  | .work id_ i o, s => WorkSound id_ i o s
  | .crash id_, s =>
      let n := s.node id_
      ∀ task, n.Expiring task ∨ n.Works task → (s.crashed id_).Spared task
  | _, _ => True

/-- No record is removed before its task is queued, unless there are no clients or a task for
them is already pending. -/
def Gapless (config : String → ErizoController) : FleetAction → Fleet → Prop
  | .expire id_ o, s =>
      let n := s.node id_
      ∀ data ∈ n.listed.head?, (controller config id_).Expires n.now data →
        o.writeFault.head = true ∨ s.redis .ec data.id = ∅ ∨ s.Waits data.id
  | _, _ => True

/-! ## The clients of a controller are covered -/

namespace Fleet

/-- A live controller will remove the client, or, where `gap` allows it, is about to queue the
task that does. -/
def Covers (gap : Prop) (s : Fleet) (id_ client_id : String) : Prop :=
  ∃ x, (s.node x).Covers gap id_ client_id

/-- Each client was filed for the controller in whose hash it is, and that controller has a
record or somebody will remove the client. -/
structure Tended (gap : Prop) (s : Fleet) : Prop where
  sane : ∀ x, (s.node x).Sane
  filed : ∀ id_, ∀ client ∈ s.redis .ec id_, client.reply_to = id_
  covered : ∀ id_, ∀ client ∈ s.redis .ec id_, s.Recorded id_ ∨ s.Covers gap id_ client.id

variable {gap : Prop} {s s' : Fleet} {id_ x client_id : String} {n : Node}

theorem Tended.takenOver (h : s.Tended True) : s.TakenOver := by
  intro x hne
  obtain ⟨client, hclient⟩ := Table.exists_mem_of_ne_empty hne
  refine (h.covered x client hclient).imp_right ?_
  rintro ⟨y, ⟨-, hexpiring⟩ | ⟨hlive, i, hcovers⟩⟩
  · exact .inr ⟨y, hexpiring⟩
  · exact .inl ⟨y, hlive, i, hcovers.has⟩

theorem Tended.neverLost (h : s.Tended False) : s.NeverLost := by
  intro x hne
  obtain ⟨client, hclient⟩ := Table.exists_mem_of_ne_empty hne
  refine (h.covered x client hclient).imp_right ?_
  rintro ⟨y, ⟨hfalse, -⟩ | ⟨hlive, i, hcovers⟩⟩
  · exact hfalse.elim
  · exact ⟨y, hlive, i, hcovers.has⟩

theorem Waits.covers (h : s.Waits x) (gap : Prop) (client_id : String) : s.Covers gap x client_id :=
  h.imp fun _ hwaits => hwaits.covers gap client_id

/-- A change of one node keeps the pending tasks of the others. -/
theorem Waits.of_node (hnode : s'.node = (s.setNode id_ n).node)
    (hn : (s.node id_).Waits x → n.Waits x) (h : s.Waits x) : s'.Waits x := by
  rw [Waits, hnode]
  exact exists_update (P := fun m : Node => m.Waits x) hn h

/-- What a worker runs has no part in what is pending. -/
theorem Waits.setWorker_setWorker {i : ℕ} {worker worker' : PoolWorker}
    (h : (s.setWorker id_ i worker).Waits x) (hpending : worker.pending = worker'.pending) :
    (s.setWorker id_ i worker').Waits x := by
  obtain ⟨y, hlive, j, hj⟩ := h
  refine ⟨y, ?_⟩
  by_cases hy : y = id_
  · subst hy
    rw [setWorker, setNode_self] at hlive hj ⊢
    refine ⟨hlive, j, ?_⟩
    by_cases hji : j = i
    · subst hji
      rwa [Node.setWorker_self, ← hpending, ← Node.setWorker_self (s.node y) j worker]
    · rwa [Node.setWorker_of_ne _ _ hji, ← Node.setWorker_of_ne _ worker hji]
  · rw [setWorker, setNode_of_ne _ _ hy] at hlive hj ⊢
    exact ⟨hlive, j, hj⟩

theorem Covers.of_node (hnode : s'.node = (s.setNode id_ n).node)
    (hn : (s.node id_).Covers gap x client_id → n.Covers gap x client_id)
    (h : s.Covers gap x client_id) : s'.Covers gap x client_id := by
  rw [Covers, hnode]
  exact exists_update (P := fun m : Node => m.Covers gap x client_id) hn h

/-- Where one node is changed, a client is still covered or it was by that node. -/
theorem Covers.or_self (hnode : s'.node = (s.setNode id_ n).node)
    (h : s.Covers gap x client_id) :
    (s.node id_).Covers gap x client_id ∨ s'.Covers gap x client_id := by
  by_cases hself : (s.node id_).Covers gap x client_id
  · exact .inl hself
  · exact .inr (h.of_node hnode fun hcovers => absurd hcovers hself)

theorem covers_self (hnode : s'.node = (s.setNode id_ n).node)
    (h : n.Covers gap x client_id) : s'.Covers gap x client_id :=
  ⟨id_, by rw [hnode, setNode_self]; exact h⟩

theorem recorded_congr (h : s'.redis .heartbeat = s.redis .heartbeat) (x : String) :
    s'.Recorded x ↔ s.Recorded x := by
  rw [Recorded, h]
  exact Iff.rfl

/-- A lost task leaves the clients of a spared controller covered. -/
theorem Spared.covered (h : s.Spared x) {client : Client} (hclient : client ∈ s.redis .ec x) :
    s.Recorded x ∨ s.Waits x := by
  rcases h with hempty | hkept
  · rw [hempty] at hclient
    exact absurd hclient (Table.not_mem_empty client)
  · exact hkept

/-- One node changes, and the hashes get no client. -/
theorem Tended.of_node (h : s.Tended gap) (hnode : s'.node = (s.setNode id_ n).node)
    (hsane : n.Sane) (hec : ∀ x, ∀ client ∈ s'.redis .ec x, client ∈ s.redis .ec x)
    (hcovered : ∀ x, ∀ client ∈ s'.redis .ec x, s.Recorded x ∨ s.Covers gap x client.id →
      s'.Recorded x ∨ s'.Covers gap x client.id) : s'.Tended gap where
  sane x := by
    rw [hnode]
    by_cases hx : x = id_
    · subst hx
      rwa [setNode_self]
    · rw [setNode_of_ne _ _ hx]
      exact h.sane x
  filed x client hclient := h.filed x client (hec x client hclient)
  covered x client hclient := hcovered x client hclient (h.covered x client (hec x client hclient))

end Fleet

namespace Node

variable {gap : Prop} {n : Node} {x client_id : String} {i : ℕ} {worker : PoolWorker}

/-- A change of the thread that forgets no task to be queued. -/
theorem Covers.thread {m : Node} (h : n.Covers gap x client_id) (hlive : m.live = n.live)
    (hworker : m.worker = n.worker) (hexpiring : n.Expiring x → m.Expiring x) :
    m.Covers gap x client_id := by
  rcases h with ⟨hgap, hx⟩ | hcovers
  · exact .inl ⟨hgap, hexpiring hx⟩
  · exact .inr (by rwa [hlive, hworker])

/-- Where a worker is changed, a client is still covered or it was by that worker. -/
theorem Covers.or_worker (h : n.Covers gap x client_id) (i : ℕ) (worker : PoolWorker) :
    (n.live = true ∧ (n.worker i).Covers x client_id) ∨
      (n.setWorker i worker).Covers gap x client_id := by
  by_cases hself : n.live = true ∧ (n.worker i).Covers x client_id
  · exact .inl hself
  · refine .inr (h.imp_right fun ⟨hlive, hcovers⟩ => ⟨hlive, ?_⟩)
    exact exists_update (P := fun w : PoolWorker => w.Covers x client_id)
      (fun hcovers => absurd ⟨hlive, hcovers⟩ hself) hcovers

theorem covers_setWorker (hlive : n.live = true) (h : worker.Covers x client_id) :
    (n.setWorker i worker).Covers gap x client_id :=
  .inr ⟨hlive, i, by rwa [setWorker_self]⟩

theorem Waits.setWorker (h : n.Waits x) (hpending : x ∈ (n.worker i).pending → x ∈ worker.pending) :
    (n.setWorker i worker).Waits x :=
  ⟨h.1, exists_update (P := fun w : PoolWorker => x ∈ w.pending) hpending h.2⟩

theorem Sane.thread {m : Node} (h : n.Sane) (hlive : m.live = true → n.live = true)
    (hstarted : m.started = n.started) (hworker : m.worker = n.worker) : m.Sane where
  started hm := hstarted.trans (h.started (hlive hm))
  filed := by
    rw [hworker]
    exact h.filed

theorem Sane.setWorker (h : n.Sane) (hworker : ∀ task clients,
    worker.running = some (task, clients) → ∀ client ∈ clients, client.reply_to = task) :
    (n.setWorker i worker).Sane where
  started := h.started
  filed j := by
    by_cases hji : j = i
    · subst hji
      rw [setWorker_self]
      exact hworker
    · rw [setWorker_of_ne _ _ hji]
      exact h.filed j

end Node

/-! ## What the commands do to records and clients -/

theorem removeHeartbeatData_redis (id_ : String) (r : Redis) (o : Oracle) :
    (exec (RedisHelper.removeHeartbeatData id_) (World.start r o)).2.redis =
      if o.writeFault.head = true then r
      else r.update .heartbeat RedisHelper.erizo_controller_heartbeat
        ((r .heartbeat RedisHelper.erizo_controller_heartbeat).erase [id_]) := by
  rw [RedisHelper.removeHeartbeatData, RedisHelper.exec_remove]
  exact apply_ite (fun x : ℤ × World => x.2.redis) (o.writeFault.head = true) _ _

theorem addClientToEC_redis (id_ : String) (client : Client) (r : Redis) (o : Oracle) :
    (exec (RedisHelper.addClientToEC id_ client) (World.start r o)).2.redis =
      if o.writeFault.head = true then r
      else r.update .ec id_ ((r .ec id_).set client.stored) := by
  rw [RedisHelper.addClientToEC, RedisHelper.exec_add]
  exact apply_ite (fun x : ℤ × World => x.2.redis) (o.writeFault.head = true) _ _

/-- Removing a record takes no client out of its hash. -/
theorem removeHeartbeatData_ec (id_ : String) (r : Redis) (o : Oracle) (name : String) :
    (exec (RedisHelper.removeHeartbeatData id_) (World.start r o)).2.redis .ec name =
      r .ec name := by
  rw [removeHeartbeatData_redis]
  split
  · rfl
  · exact update_heartbeat_ec _ _ _ _

/-- The records of the other controllers stay, and a failing removal removes none. -/
theorem recorded_removeHeartbeatData {s s' : Fleet} {id_ x : String} {o : Oracle}
    (hredis : s'.redis =
      (exec (RedisHelper.removeHeartbeatData id_) (World.start s.redis o)).2.redis)
    (hx : x ≠ id_ ∨ o.writeFault.head = true) (h : s.Recorded x) : s'.Recorded x := by
  rw [Fleet.Recorded, hredis, removeHeartbeatData_redis]
  split
  · exact h
  · rename_i hfault
    obtain ⟨data, hdata, rfl⟩ := h
    refine ⟨data, ?_, rfl⟩
    simp only [Redis.update_self, Table.mem_erase, List.mem_singleton, key_heartbeat]
    exact ⟨hdata, hx.resolve_right hfault⟩

theorem mem_of_mem_update_erase {r : Redis} {k k' : Kind} {name name' : String} {ids : List String}
    {row : k'.Rec} (h : row ∈ r.update k name ((r k name).erase ids) k' name') :
    row ∈ r k' name' := by
  by_cases hk : k' = k
  · subst hk
    by_cases hname : name' = name
    · subst hname
      rw [Redis.update_self] at h
      exact (Table.mem_erase.mp h).1
    · rwa [Redis.update_name _ _ _ hname] at h
  · rwa [Redis.update_kind _ _ _ _ hk] at h

/-- A removal of a client writes no heartbeat and files no client. -/
theorem removeClient_clients (client : Client) (w : World) :
    (execSession (removeClient client) w).2.redis .heartbeat = w.redis .heartbeat ∧
      ∀ name, ∀ row ∈ (execSession (removeClient client) w).2.redis .ec name,
        row ∈ w.redis .ec name := by
  have hlocked : ∀ v : World, v.redis = w.redis →
      (exec (removeClientLocked client) v).2.redis .heartbeat = w.redis .heartbeat ∧
        ∀ name, ∀ row ∈ (exec (removeClientLocked client) v).2.redis .ec name,
          row ∈ w.redis .ec name := by
    intro v hv
    refine (each_removeClientLocked client).run
      (I := fun v : World => v.redis .heartbeat = w.redis .heartbeat ∧
        ∀ name, ∀ row ∈ v.redis .ec name, row ∈ w.redis .ec name)
      (fun c v hc hI => ?_) (by rw [hv]; exact ⟨rfl, fun _ _ h => h⟩)
    cases c with
    | hset k name row =>
        obtain rfl := List.mem_singleton.mp hc.1
        rw [perform]
        split
        · exact hI
        · exact hI
    | hdel k name fields =>
        rw [perform]
        split
        · exact hI
        · have hk : Kind.heartbeat ≠ k := by
            rintro rfl
            exact absurd hc.1 (by decide)
          refine ⟨funext fun name' => ?_, fun name' row hrow => ?_⟩
          · exact (Redis.update_kind _ _ _ _ hk).trans (congrFun hI.1 name')
          · exact hI.2 name' row (mem_of_mem_update_erase hrow)
    | hget k name field =>
        rw [perform]
        split <;> exact hI
    | hvals k name =>
        rw [perform]
        split <;> exact hI
    | _ => exact hI
  rw [removeClient, execSession_withLock]
  split
  · exact hlocked _ rfl
  · exact ⟨rfl, fun _ _ h => h⟩

/-- A removal that goes through leaves nothing of the client in the hash of its controller. -/
theorem not_mem_of_succeeds {client row : Client} {o : Oracle} (ho : RemovalSucceeds o) (r : Redis)
    (hrow : row ∈ (execSession (removeClient client) (World.start r o)).2.redis .ec
      client.reply_to) :
    row.id ≠ client.id := by
  rw [execSession_removeClient_ok (w := World.start r o) ho.2.1 ho.2.2 ho.1] at hrow
  exact fun hid => (mem_removed_ec.mp hrow).2 ⟨rfl, hid⟩

/-! ## One step -/

section Steps

variable {config : String → ErizoController} {worker_num : ℕ} {gap : Prop} {s s' : Fleet}

/-- A change of the thread alone, with records that only get more. -/
theorem Fleet.Tended.thread (h : s.Tended gap) {id_ : String} {n : Node}
    (hnode : s'.node = (s.setNode id_ n).node) (hlive : n.live = (s.node id_).live)
    (hstarted : n.started = (s.node id_).started) (hworker : n.worker = (s.node id_).worker)
    (hexpiring : n.expiring = (s.node id_).expiring)
    (hec : ∀ x, s'.redis .ec x = s.redis .ec x)
    (hrecorded : ∀ x, s.redis .ec x ≠ ∅ → s.Recorded x → s'.Recorded x ∨ s.Waits x) :
    s'.Tended gap := by
  have hcovers : ∀ x client_id, s.Covers gap x client_id → s'.Covers gap x client_id := by
    refine fun x client_id hx => hx.of_node hnode fun hself => hself.thread hlive hworker ?_
    rintro ⟨hl, he⟩
    exact ⟨hlive.trans hl, hexpiring.trans he⟩
  refine h.of_node hnode ((h.sane id_).thread (fun hl => hlive ▸ hl) hstarted hworker)
    (fun x client hclient => by rwa [← hec]) fun x client hclient hx => ?_
  rw [hec] at hclient
  rcases hx with hx | hx
  · have hne : s.redis .ec x ≠ ∅ := fun hempty => by
      rw [hempty] at hclient
      exact Table.not_mem_empty client hclient
    exact (hrecorded x hne hx).imp_right fun hwaits => hcovers x _ (hwaits.covers gap _)
  · exact .inr (hcovers x _ hx)

theorem tended_addClientToEC (h : s.Tended gap) {id_ : String} {client : Client} {o : Oracle}
    (hsound : Sound (.addClientToEC id_ client o) s)
    (hstep : fleetStep config worker_num (.addClientToEC id_ client o) s = some s') :
    s'.Tended gap := by
  simp only [fleetStep] at hstep
  split at hstep
  · have hs' := Option.some.inj hstep
    rw [addClientToEC_redis] at hs'
    cases hfault : o.writeFault.head with
    | true =>
        rw [hfault, if_pos rfl] at hs'
        subst hs'
        exact h
    | false =>
        rw [hfault, if_neg Bool.false_ne_true] at hs'
        have hnew : s.Recorded id_ ∨ s.Waits id_ :=
          hsound.resolve_left (by rw [hfault]; exact Bool.false_ne_true)
        have hredis := congrArg Fleet.redis hs'.symm
        have hnode := congrArg Fleet.node hs'.symm
        dsimp only at hredis hnode
        have hheartbeat : s'.redis .heartbeat = s.redis .heartbeat := by
          rw [hredis]
          exact funext fun name => Redis.update_kind s.redis (k := .ec) id_ name _ (by decide)
        -- the client of a row is the new one, or its row was there before
        have hrow : ∀ x, ∀ row ∈ s'.redis .ec x,
            (x = id_ ∧ row.reply_to = id_) ∨ row ∈ s.redis .ec x := by
          intro x row hrow
          rw [hredis] at hrow
          by_cases hx : x = id_
          · subst hx
            rw [Redis.update_self, Table.mem_set] at hrow
            rcases hrow with rfl | ⟨hold, -⟩
            · exact .inl ⟨rfl, rfl⟩
            · exact .inr hold
          · rw [Redis.update_name _ _ _ hx] at hrow
            exact .inr hrow
        refine ⟨fun x => by rw [hnode]; exact h.sane x, fun x row hmem => ?_, fun x row hmem => ?_⟩
        · rcases hrow x row hmem with ⟨rfl, hreply⟩ | hold
          · exact hreply
          · exact h.filed x row hold
        · rw [Fleet.recorded_congr hheartbeat, Fleet.Covers, hnode]
          rcases hrow x row hmem with ⟨rfl, -⟩ | hold
          · exact hnew.imp_right fun hwaits => hwaits.covers gap row.id
          · exact h.covered x row hold
  · cases hstep

theorem tended_removeClient (h : s.Tended gap) (client : Client) (o : Oracle)
    (hstep : fleetStep config worker_num (.removeClient client o) s = some s') :
    s'.Tended gap := by
  obtain ⟨hheartbeat, hec⟩ := removeClient_clients client (World.start s.redis o)
  obtain rfl := Option.some.inj hstep
  refine ⟨h.sane, fun x row hrow => h.filed x row (hec x row hrow), fun x row hrow => ?_⟩
  rw [Fleet.recorded_congr hheartbeat]
  exact h.covered x row (hec x row hrow)

theorem tended_list (h : s.Tended gap) {id_ : String} {now : UInt64} {o : Oracle}
    (hsound : Sound (.list id_ now o) s)
    (hstep : fleetStep config worker_num (.list id_ now o) s = some s') : s'.Tended gap := by
  simp only [fleetStep] at hstep
  split at hstep
  · have hs' := Option.some.inj hstep
    rw [listStep] at hs'
    dsimp only at hs'
    split at hs'
    · split at hs'
      · obtain ⟨hec, hrecorded⟩ := listHeartbeats_redis (controller config id_)
          (s.node id_).heartbeat_ now (World.start s.redis o)
        obtain ⟨next, hnext⟩ : ∃ next, next = (exec ((controller config id_).listHeartbeats
          (s.node id_).heartbeat_ now) (World.start s.redis o)).1 := ⟨_, rfl⟩
        rw [← hnext] at hs'
        subst hs'
        exact h.thread (n := (s.node id_).listing now next) rfl (by cases next <;> rfl)
          (by cases next <;> rfl) (by cases next <;> rfl) (by cases next <;> rfl) hec
          fun x _ hx => .inl (hrecorded x hx)
      · subst hs'
        exact h.thread (n := { s.node id_ with inLoop := false }) rfl rfl rfl rfl rfl
          (fun _ => rfl) fun _ _ hx => .inl hx
    · rename_i hrun
      subst hs'
      refine h.thread (n := { s.node id_ with inLoop := false }) rfl rfl rfl rfl rfl
        (removeHeartbeatData_ec id_ s.redis o) fun x hne hx => ?_
      -- the own record goes only with no clients left, or with a task for them
      rcases hsound.resolve_left hrun with hfault | hempty | hwaits
      · exact .inl (recorded_removeHeartbeatData rfl (.inr hfault) hx)
      · refine .inl (recorded_removeHeartbeatData rfl (.inl ?_) hx)
        rintro rfl
        exact hne hempty
      · by_cases hid : x = id_
        · exact .inr (hid ▸ hwaits)
        · exact .inl (recorded_removeHeartbeatData rfl (.inl hid) hx)
  · cases hstep

/-- The record that the thread removes is covered by its task to be queued, or is `Gapless`. -/
theorem tended_expire (h : s.Tended gap) {id_ : String} {o : Oracle}
    (hgap : gap ∨ Gapless config (.expire id_ o) s)
    (hstep : fleetStep config worker_num (.expire id_ o) s = some s') : s'.Tended gap := by
  simp only [fleetStep] at hstep
  simp only [Gapless] at hgap
  cases hlisted : (s.node id_).listed with
  | nil =>
      rw [hlisted] at hstep
      cases hstep
  | cons data listed =>
      rw [hlisted] at hstep hgap
      dsimp only at hstep
      split at hstep
      · rename_i henabled
        obtain ⟨hlive, hidle⟩ := henabled
        have hs' := Option.some.inj hstep
        rw [expireStep] at hs'
        dsimp only at hs'
        split at hs'
        · rename_i hexpires
          obtain ⟨n, hn⟩ : ∃ n : Node, n = { s.node id_ with
            listed := listed, expiring := some data.id } := ⟨_, rfl⟩
          rw [← hn] at hs'
          have hnode : s'.node = (s.setNode id_ n).node := by rw [← hs']
          have hredis := congrArg Fleet.redis hs'.symm
          dsimp only at hredis
          have hec : ∀ x, s'.redis .ec x = s.redis .ec x := fun x => by
            rw [hredis, removeHeartbeatData_ec]
          have hcovers : ∀ x client_id, s.Covers gap x client_id → s'.Covers gap x client_id := by
            refine fun x client_id hx => hx.of_node hnode fun hself => ?_
            refine hself.thread (by rw [hn]) (by rw [hn]) fun hexpiring => ?_
            rw [Node.Expiring, hidle] at hexpiring
            cases hexpiring.2
          refine h.of_node hnode ((h.sane id_).thread (fun _ => hlive) (by rw [hn]) (by rw [hn]))
            (fun x client hclient => by rwa [← hec]) fun x client hclient hx => ?_
          rw [hec] at hclient
          rcases hx with hx | hx
          · by_cases hid : x = data.id
            · subst hid
              rcases hgap with hgap | hgapless
              · refine .inr (Fleet.covers_self hnode (.inl ⟨hgap, ?_, ?_⟩))
                · rw [hn]
                  exact hlive
                · rw [hn]
              · rcases hgapless data rfl hexpires with hfault | hempty | hwaits
                · exact .inl (recorded_removeHeartbeatData hredis (.inr hfault) hx)
                · rw [hempty] at hclient
                  exact absurd hclient (Table.not_mem_empty client)
                · exact .inr (hcovers _ _ (hwaits.covers gap client.id))
            · exact .inl (recorded_removeHeartbeatData hredis (.inl hid) hx)
          · exact .inr (hcovers _ _ hx)
        · subst hs'
          exact h.thread (n := { s.node id_ with listed }) rfl rfl rfl rfl rfl (fun _ => rfl)
            fun _ _ hx => .inl hx
      · cases hstep

/-- A task that is given to an open worker waits there. -/
theorem tended_queue (h : s.Tended gap) {id_ : String} {i : ℕ} (hsound : Sound (.queue id_ i) s)
    (hstep : fleetStep config worker_num (.queue id_ i) s = some s') : s'.Tended gap := by
  simp only [fleetStep] at hstep
  simp only [Sound] at hsound
  cases hexpiring : (s.node id_).expiring with
  | none =>
      rw [hexpiring] at hstep
      cases hstep
  | some task =>
      rw [hexpiring] at hstep
      dsimp only at hstep
      split at hstep
      · rename_i henabled
        obtain ⟨worker, hworker⟩ : ∃ worker, worker = ((s.node id_).worker i).post task := ⟨_, rfl⟩
        obtain ⟨n, hn⟩ : ∃ n : Node, n = { s.node id_ with expiring := none } := ⟨_, rfl⟩
        rw [← hworker, ← hn] at hstep
        obtain rfl := Option.some.inj hstep
        have hrunning : worker.running = ((s.node id_).worker i).running := by
          rw [hworker, PoolWorker.post]
          split <;> rfl
        have hpending : ∀ x ∈ ((s.node id_).worker i).pending, x ∈ worker.pending := by
          intro x hx
          rw [hworker, PoolWorker.post]
          split
          · exact hx
          · exact List.mem_append_left _ hx
        have hsane : n.Sane := (h.sane id_).thread (fun _ => henabled.1) (by rw [hn]) (by rw [hn])
        refine h.of_node rfl (hsane.setWorker fun t clients ht => ?_)
          (fun x client hclient => hclient) fun x client hclient hx => ?_
        · rw [hrunning] at ht
          exact (h.sane id_).filed i t clients ht
        · rcases hx with hx | hx
          · exact .inl hx
          have hnode : (s.setNode id_ (n.setWorker i worker)).node =
              (s.setNode id_ (n.setWorker i worker)).node := rfl
          rcases hx.or_self hnode with hself | hother
          · rcases hself with ⟨-, hx⟩ | ⟨hlive, hcovers⟩
            · obtain rfl : task = x := by
                rw [Node.Expiring, hexpiring] at hx
                exact Option.some.inj hx.2
              rcases hsound task hexpiring with hopen | hspared
              · refine .inr (Fleet.covers_self rfl (Node.covers_setWorker (by rw [hn]; exact hx.1)
                  (.inl ?_)))
                rw [hworker, PoolWorker.post, hopen, if_neg Bool.false_ne_true]
                exact List.mem_append_right _ List.mem_cons_self
              · refine (hspared.covered hclient).imp_right fun hwaits =>
                  Fleet.Waits.covers (hwaits.of_node rfl fun hself => ?_) gap _
                refine Node.Waits.setWorker (n := n) ?_ (by rw [hn]; exact hpending task)
                rw [hn]
                exact hself
            · refine .inr (Fleet.covers_self rfl (.inr ⟨by rw [hn]; exact hlive, ?_⟩))
              refine exists_update (P := fun w : PoolWorker => w.Covers x client.id) ?_
                (by rw [hn]; exact hcovers)
              rw [hn]
              rintro (hwaits | ⟨clients, hruns, hclient⟩)
              · exact .inl (hpending x hwaits)
              · exact .inr ⟨clients, hrunning.trans hruns, hclient⟩
          · exact .inr hother
      · cases hstep

/-- A worker is changed: the clients that it covered and no longer does must be accounted for. -/
theorem Fleet.Tended.worker (h : s.Tended gap) {id_ : String} {i : ℕ} {worker : PoolWorker}
    (hnode : s'.node = (s.setWorker id_ i worker).node)
    (hfiled : ∀ task clients, worker.running = some (task, clients) →
      ∀ client ∈ clients, client.reply_to = task)
    (hheartbeat : s'.redis .heartbeat = s.redis .heartbeat)
    (hec : ∀ x, ∀ client ∈ s'.redis .ec x, client ∈ s.redis .ec x)
    (hcovers : ∀ x, ∀ client ∈ s'.redis .ec x, (s.node id_).live = true →
      ((s.node id_).worker i).Covers x client.id →
        worker.Covers x client.id ∨ s.Recorded x ∨ s'.Waits x) : s'.Tended gap := by
  refine h.of_node hnode ((h.sane id_).setWorker hfiled) hec fun x client hclient hx => ?_
  rw [Fleet.recorded_congr hheartbeat]
  rcases hx with hx | hx
  · exact .inl hx
  rcases hx.or_self hnode with hself | hother
  · rcases hself.or_worker i worker with ⟨hlive, hself⟩ | hnew
    · rcases hcovers x client hclient hlive hself with hnew | hrec | hwaits
      · exact .inr (Fleet.covers_self hnode (Node.covers_setWorker hlive hnew))
      · exact .inl hrec
      · exact .inr (hwaits.covers gap client.id)
    · exact .inr (Fleet.covers_self hnode hnew)
  · exact .inr hother

theorem tended_work (h : s.Tended gap) {id_ : String} {i : ℕ} {o : Oracle}
    (hsound : WorkSound id_ i o s) (hstep : workStep id_ i o s = some s') : s'.Tended gap := by
  rw [workStep] at hstep
  rw [WorkSound] at hsound
  dsimp only at hstep hsound
  cases hrunning : ((s.node id_).worker i).running with
  | some running =>
      obtain ⟨task, clients⟩ := running
      rw [hrunning] at hstep hsound
      cases clients with
      | nil =>
          obtain rfl := Option.some.inj hstep
          refine h.worker rfl (fun _ _ hnone => by cases hnone) rfl (fun _ _ hclient => hclient) ?_
          rintro x client - - (hwaits | ⟨clients, hruns, left, hleft, -⟩)
          · exact .inl (.inl hwaits)
          · rw [hrunning] at hruns
            obtain ⟨rfl, rfl⟩ := Prod.mk.inj (Option.some.inj hruns)
            cases hleft
      | cons client clients =>
          obtain rfl := Option.some.inj hstep
          obtain ⟨hheartbeat, hec⟩ := removeClient_clients client (World.start s.redis o)
          have hreply := (h.sane id_).filed i task _ hrunning
          refine h.worker rfl ?_ hheartbeat hec ?_
          · intro t rest ht
            obtain ⟨rfl, rfl⟩ := Prod.mk.inj (Option.some.inj ht)
            exact fun left hleft => hreply left (List.mem_cons_of_mem _ hleft)
          rintro x row hrow - (hwaits | ⟨rest, hruns, left, hleft, hid⟩)
          · exact .inl (.inl hwaits)
          rw [hrunning] at hruns
          obtain ⟨rfl, rfl⟩ := Prod.mk.inj (Option.some.inj hruns)
          rcases List.mem_cons.mp hleft with rfl | hrest
          -- the client that is removed now, the others are still to come
          · rcases hsound with hsucceeds | hspared
            · rw [← hreply left List.mem_cons_self] at hrow
              exact absurd hid.symm (not_mem_of_succeeds hsucceeds s.redis hrow)
            · rcases hspared.covered (hec task row hrow) with hrec | hwaits
              · exact .inr (.inl hrec)
              · refine .inr (.inr (hwaits.of_node rfl fun hself => ?_))
                exact hself.setWorker fun hpending => hpending
          · exact .inl (.inr ⟨clients, rfl, left, hrest, hid⟩)
  | none =>
      rw [hrunning] at hstep hsound
      cases hpending : ((s.node id_).worker i).pending with
      | nil =>
          rw [hpending] at hstep
          cases hstep
      | cons task tasks =>
          rw [hpending] at hstep hsound
          dsimp only at hstep hsound
          rw [RedisHelper.getAllClientFromEC, RedisHelper.exec_getAll] at hstep
          obtain rfl := Option.some.inj hstep
          refine h.worker rfl ?_ rfl (fun _ _ hclient => hclient) ?_
          · intro t clients ht
            obtain ⟨rfl, rfl⟩ := Prod.mk.inj (Option.some.inj ht)
            intro client hclient
            rw [Option.getD_some] at hclient
            split at hclient
            · cases hclient
            · exact h.filed task client (List.mem_filter.mp hclient).1
          rintro x client hclient - (hwaits | ⟨clients, hruns, -⟩)
          · rw [hpending] at hwaits
            rcases List.mem_cons.mp hwaits with rfl | hwaits
            -- the task begins, with the clients it has listed
            · rcases hsound with hread | hspared
              · refine .inl (.inr ⟨_, rfl, client, ?_, rfl⟩)
                rw [Option.getD_some, if_neg (by
                  change ¬ o.readFault.head = true
                  rw [hread]
                  exact Bool.false_ne_true)]
                exact List.mem_filter.mpr ⟨hclient, rfl⟩
              · refine .inr ((hspared.covered hclient).imp_right fun hwaits => ?_)
                exact hwaits.setWorker_setWorker rfl
            · exact .inl (.inl hwaits)
          · rw [hrunning] at hruns
            cases hruns

theorem tended_crash (h : s.Tended gap) {id_ : String} (hsound : Sound (.crash id_) s) :
    (s.crashed id_).Tended gap := by
  have hnode : (s.crashed id_).node = (s.setNode id_ { s.node id_ with live := false }).node := rfl
  refine h.of_node hnode
    ⟨fun hlive => absurd hlive Bool.false_ne_true, (h.sane id_).filed⟩ (fun _ _ hclient => hclient)
    fun x client hclient hx => ?_
  rcases hx with hx | hx
  · exact .inl hx
  rcases hx.or_self hnode with hself | hother
  · have htask : (s.node id_).Expiring x ∨ (s.node id_).Works x := by
      rcases hself with ⟨-, hexpiring⟩ | ⟨hlive, j, hcovers⟩
      · exact .inl hexpiring
      · exact .inr ⟨hlive, j, hcovers.has⟩
    exact ((hsound x htask).covered hclient).imp_right fun hwaits => hwaits.covers gap client.id
  · exact .inr hother

theorem tended_step {a : FleetAction} (h : s.Tended gap) (hsound : Sound a s)
    (hgap : gap ∨ Gapless config a s) (hstep : fleetStep config worker_num a s = some s') :
    s'.Tended gap := by
  cases a with
  | init id_ =>
      simp only [fleetStep] at hstep
      split at hstep
      · cases hstep
      · rename_i hnew
        obtain rfl := Option.some.inj hstep
        refine h.of_node rfl ⟨fun _ => rfl, fun _ _ _ hnone => absurd hnone (by simp)⟩
          (fun _ _ hclient => hclient) fun x client _ hx => hx.imp_right fun hcovers => ?_
        -- a process that has not been started covers nothing
        refine hcovers.of_node rfl fun hself => absurd ((h.sane id_).started ?_) hnew
        rcases hself with ⟨-, hexpiring⟩ | ⟨hlive, -⟩
        · exact hexpiring.1
        · exact hlive
  | addClientToEC id_ client o => exact tended_addClientToEC h hsound hstep
  | removeClient client o => exact tended_removeClient h client o hstep
  | others redis =>
      obtain rfl := Option.some.inj hstep
      exact ⟨h.sane, h.filed, h.covered⟩
  | list id_ now o => exact tended_list h hsound hstep
  | expire id_ o => exact tended_expire h hgap hstep
  | queue id_ i => exact tended_queue h hsound hstep
  | work id_ i o =>
      simp only [fleetStep] at hstep
      split at hstep
      · exact tended_work h hsound hstep
      · cases hstep
  | closeWorker id_ i =>
      simp only [fleetStep] at hstep
      split at hstep
      · obtain rfl := Option.some.inj hstep
        exact h.worker rfl ((h.sane id_).filed i) rfl (fun _ _ hclient => hclient)
          fun _ _ _ _ hcovers => .inl hcovers
      · cases hstep
  | stop id_ =>
      simp only [fleetStep] at hstep
      split at hstep
      · obtain rfl := Option.some.inj hstep
        exact h.thread (n := { s.node id_ with run_ := false }) rfl rfl rfl rfl rfl (fun _ => rfl)
          fun _ _ hx => .inl hx
      · cases hstep
  | crash id_ =>
      simp only [fleetStep] at hstep
      split at hstep
      · obtain rfl := Option.some.inj hstep
        exact tended_crash h hsound
      · cases hstep

/-! ## Runs -/

/-- A step leaves the other controllers alone. -/
theorem fleetStep_node {a : FleetAction} {x : String}
    (hstep : fleetStep config worker_num a s = some s') (hx : a.id_? ≠ some x) :
    s'.node x = s.node x := by
  have hother : ∀ id_, a.id_? = some id_ → ∀ n : Node, ∀ t : Fleet,
      t.node = (s.setNode id_ n).node → t.node x = s.node x := by
    rintro id_ ha n t ht
    rw [ht, Fleet.setNode_of_ne]
    rintro rfl
    exact hx ha
  cases a with
  | removeClient client o =>
      obtain rfl := Option.some.inj hstep
      rfl
  | others redis =>
      obtain rfl := Option.some.inj hstep
      rfl
  | addClientToEC id_ client o =>
      simp only [fleetStep] at hstep
      split at hstep
      · obtain rfl := Option.some.inj hstep
        rfl
      · cases hstep
  | init id_ =>
      simp only [fleetStep] at hstep
      split at hstep
      · cases hstep
      · obtain rfl := Option.some.inj hstep
        exact hother id_ rfl _ _ rfl
  | list id_ now o =>
      simp only [fleetStep] at hstep
      split at hstep
      · obtain rfl := Option.some.inj hstep
        rw [listStep]
        dsimp only
        split
        · split
          · exact hother id_ rfl _ _ rfl
          · exact hother id_ rfl _ _ rfl
        · exact hother id_ rfl _ _ rfl
      · cases hstep
  | expire id_ o =>
      simp only [fleetStep] at hstep
      split at hstep
      · cases hstep
      · split at hstep
        · obtain rfl := Option.some.inj hstep
          rw [expireStep]
          dsimp only
          split
          · exact hother id_ rfl _ _ rfl
          · exact hother id_ rfl _ _ rfl
        · cases hstep
  | queue id_ i =>
      simp only [fleetStep] at hstep
      split at hstep
      · cases hstep
      · split at hstep
        · obtain rfl := Option.some.inj hstep
          exact hother id_ rfl _ _ rfl
        · cases hstep
  | work id_ i o =>
      simp only [fleetStep] at hstep
      split at hstep
      · rw [workStep] at hstep
        dsimp only at hstep
        split at hstep
        · obtain rfl := Option.some.inj hstep
          exact hother id_ rfl _ _ rfl
        · obtain rfl := Option.some.inj hstep
          exact hother id_ rfl _ _ rfl
        · obtain rfl := Option.some.inj hstep
          exact hother id_ rfl _ _ rfl
        · cases hstep
      · cases hstep
  | closeWorker id_ i =>
      simp only [fleetStep] at hstep
      split at hstep
      · obtain rfl := Option.some.inj hstep
        exact hother id_ rfl _ _ rfl
      · cases hstep
  | stop id_ =>
      simp only [fleetStep] at hstep
      split at hstep
      · obtain rfl := Option.some.inj hstep
        exact hother id_ rfl _ _ rfl
      · cases hstep
  | crash id_ =>
      simp only [fleetStep] at hstep
      split at hstep
      · obtain rfl := Option.some.inj hstep
        exact hother id_ rfl _ _ rfl
      · cases hstep

/-- A run that keeps away from the controller leaves its node alone. -/
theorem run_node_of_forall_ne {as : List FleetAction} {x : String} (hx : ∀ a ∈ as, a.id_? ≠ some x)
    (hrun : (fleet config worker_num).run as s = some s') : s'.node x = s.node x := by
  induction as generalizing s with
  | nil =>
      obtain rfl : s = s' := by simpa using hrun
      rfl
  | cons a as ih =>
      rw [Machine.run_cons] at hrun
      obtain ⟨t, ht, hrest⟩ := Option.bind_eq_some_iff.mp hrun
      rw [ih (fun b hb => hx b (List.mem_cons_of_mem _ hb)) hrest]
      exact fleetStep_node ht (hx a List.mem_cons_self)

variable (config : String → ErizoController) (worker_num : ℕ)

/-- In a run from the start whose steps are sound every controller with clients has a record or
a task, or the task is about to be queued; without that gap it is one of the first two. -/
theorem responsibility_kept (hs : (fleet config worker_num).init s) (as : List FleetAction) :
    ((fleet config worker_num).Along Sound as s →
        (fleet config worker_num).Throughout Fleet.TakenOver as s) ∧
      ((fleet config worker_num).Along (fun a s => Sound a s ∧ Gapless config a s) as s →
        (fleet config worker_num).Throughout Fleet.NeverLost as s) := by
  have hempty : ∀ gap, s.Tended gap := fun gap =>
    { sane := fun x => by
        rw [hs.1]
        exact ⟨fun hlive => absurd hlive Bool.false_ne_true,
          fun _ _ _ hnone => absurd hnone (by simp)⟩
      filed := fun x client hclient => by
        rw [hs.2] at hclient
        exact absurd hclient (Table.not_mem_empty client)
      covered := fun x client hclient => by
        rw [hs.2] at hclient
        exact absurd hclient (Table.not_mem_empty client) }
  refine ⟨fun halong => ?_, fun halong => ?_⟩
  · exact halong.throughout (fun _ => Fleet.Tended.takenOver)
      (fun a s s' h hsound hstep => tended_step h hsound (.inl trivial) hstep) (hempty True)
  · exact halong.throughout (fun _ => Fleet.Tended.neverLost)
      (fun a s s' h hsound hstep => tended_step h hsound.1 (.inr hsound.2) hstep) (hempty False)

end Steps

/-- The controllers before anything has happened. -/
def noFleet : Fleet where
  redis := .empty
  node _ := {}

theorem noFleet_init (config : String → ErizoController) (worker_num : ℕ) :
    (fleet config worker_num).init noFleet := ⟨fun _ => rfl, fun _ => rfl⟩

/-- The thread of a controller does not obtain its first lock and returns; then a client
joins. -/
def firstLockFails : List FleetAction :=
  [.init "ec_a", .list "ec_a" 1700000000000 { Oracle.quiet with lockTaken := .const false },
    .addClientToEC "ec_a" { id := "c" } .quiet]

/-- A controller with a client is shut down; nothing fails. -/
def shutDown : List FleetAction :=
  [.init "ec_a", .list "ec_a" 1700000000000 .quiet, .expire "ec_a" .quiet,
    .addClientToEC "ec_a" { id := "c" } .quiet, .closeWorker "ec_a" 0, .stop "ec_a",
    .list "ec_a" 1700000000500 .quiet]

/-- The process of a controller with a client ends, and another one removes its record. -/
def recordRemoved : List FleetAction :=
  [.init "ec_a", .list "ec_a" 1700000000000 .quiet, .expire "ec_a" .quiet,
    .addClientToEC "ec_a" { id := "c" } .quiet, .crash "ec_a", .init "ec_b",
    .list "ec_b" 1700000010000 .quiet, .expire "ec_b" .quiet]

/-- The other one goes on to queue the task, and a worker removes the client. -/
def takenOver : List FleetAction :=
  recordRemoved ++ [.queue "ec_b" 0, .work "ec_b" 0 .quiet, .work "ec_b" 0 .quiet,
    .work "ec_b" 0 .quiet, .expire "ec_b" .quiet]

/-- The client leaves before the process ends. -/
def leftBefore : List FleetAction :=
  [.init "ec_a", .list "ec_a" 1700000000000 .quiet, .expire "ec_a" .quiet,
    .addClientToEC "ec_a" { id := "c" } .quiet,
    .removeClient { id := "c", reply_to := "ec_a" } .quiet, .crash "ec_a", .init "ec_b",
    .list "ec_b" 1700000010000 .quiet, .expire "ec_b" .quiet, .queue "ec_b" 0,
    .work "ec_b" 0 .quiet, .work "ec_b" 0 .quiet]

/-- The end of a process without tasks loses nothing. -/
theorem sound_crash {s : Fleet} {id_ : String} (hexpiring : (s.node id_).expiring = none)
    (hworker : ∀ i, ((s.node id_).worker i).pending = [] ∧ ((s.node id_).worker i).running = none) :
    Sound (.crash id_) s := by
  rintro task (⟨-, h⟩ | ⟨-, i, h | ⟨clients, h⟩⟩)
  · rw [hexpiring] at h
    cases h
  · rw [(hworker i).1] at h
    cases h
  · rw [(hworker i).2] at h
    cases h

theorem takenOver_sound : (fleet .ofId 1).Along Sound takenOver noFleet := by
  refine (Machine.along_cons_iff _ rfl).mpr ⟨trivial, ?_⟩
  refine (Machine.along_cons_iff _ rfl).mpr ⟨.inl rfl, ?_⟩
  refine (Machine.along_cons_iff _ rfl).mpr ⟨trivial, ?_⟩
  refine (Machine.along_cons_iff _ rfl).mpr ⟨.inr (.inl ⟨_, List.mem_cons_self, rfl⟩), ?_⟩
  refine (Machine.along_cons_iff _ rfl).mpr ⟨sound_crash rfl fun i => ⟨rfl, rfl⟩, ?_⟩
  refine (Machine.along_cons_iff _ rfl).mpr ⟨trivial, ?_⟩
  refine (Machine.along_cons_iff _ rfl).mpr ⟨.inl rfl, ?_⟩
  refine (Machine.along_cons_iff _ rfl).mpr ⟨trivial, ?_⟩
  refine (Machine.along_cons_iff _ rfl).mpr ⟨fun task _ => .inl rfl, ?_⟩
  refine (Machine.along_cons_iff _ rfl).mpr ⟨.inl rfl, ?_⟩
  refine (Machine.along_cons_iff _ rfl).mpr ⟨.inl ⟨rfl, rfl, rfl⟩, ?_⟩
  refine (Machine.along_cons_iff _ rfl).mpr ⟨trivial, ?_⟩
  exact (Machine.along_cons_iff _ rfl).mpr ⟨trivial, trivial⟩

theorem leftBefore_gapless :
    (fleet .ofId 1).Along (fun a s => Sound a s ∧ Gapless .ofId a s) leftBefore noFleet := by
  refine (Machine.along_cons_iff _ rfl).mpr ⟨⟨trivial, trivial⟩, ?_⟩
  refine (Machine.along_cons_iff _ rfl).mpr ⟨⟨.inl rfl, trivial⟩, ?_⟩
  refine (Machine.along_cons_iff _ rfl).mpr ⟨⟨trivial, fun data hdata hexpires => ?_⟩, ?_⟩
  · obtain rfl := Option.some.inj hdata
    exact absurd rfl hexpires.1
  refine (Machine.along_cons_iff _ rfl).mpr ⟨⟨.inr (.inl ⟨_, List.mem_cons_self, rfl⟩), trivial⟩,
    ?_⟩
  refine (Machine.along_cons_iff _ rfl).mpr ⟨⟨trivial, trivial⟩, ?_⟩
  refine (Machine.along_cons_iff _ rfl).mpr ⟨⟨sound_crash rfl fun i => ⟨rfl, rfl⟩, trivial⟩, ?_⟩
  refine (Machine.along_cons_iff _ rfl).mpr ⟨⟨trivial, trivial⟩, ?_⟩
  refine (Machine.along_cons_iff _ rfl).mpr ⟨⟨.inl rfl, trivial⟩, ?_⟩
  refine (Machine.along_cons_iff _ rfl).mpr ⟨⟨trivial, fun data hdata _ => ?_⟩, ?_⟩
  · obtain rfl := Option.some.inj hdata
    exact .inr (.inl rfl)
  refine (Machine.along_cons_iff _ rfl).mpr ⟨⟨fun task _ => .inl rfl, trivial⟩, ?_⟩
  refine (Machine.along_cons_iff _ rfl).mpr ⟨⟨.inl rfl, trivial⟩, ?_⟩
  exact (Machine.along_cons_iff _ rfl).mpr ⟨⟨trivial, trivial⟩, trivial⟩

theorem responsibility_kept_takenOver :
    (fleet .ofId 1).Throughout Fleet.TakenOver takenOver noFleet ∧
      (fleet .ofId 1).Throughout Fleet.NeverLost leftBefore noFleet :=
  ⟨(responsibility_kept .ofId 1 (noFleet_init .ofId 1) takenOver).1 takenOver_sound,
    (responsibility_kept .ofId 1 (noFleet_init .ofId 1) leftBefore).2 leftBefore_gapless⟩

/-- Where a controller has no record and no worker has a task, nobody would remove its
clients. -/
theorem not_neverLost {s : Fleet} {id_ : String} (hec : s.redis .ec id_ ≠ ∅)
    (hrecorded : ¬ s.Recorded id_)
    (hworker : ∀ x i, ((s.node x).worker i).pending = [] ∧ ((s.node x).worker i).running = none) :
    ¬ s.NeverLost := by
  intro h
  rcases h id_ hec with hrec | ⟨x, -, i, hwaits | ⟨clients, hruns⟩⟩
  · exact hrecorded hrec
  · rw [(hworker x i).1] at hwaits
    cases hwaits
  · rw [(hworker x i).2] at hruns
    cases hruns

/-- A run of some controllers that ends with clients of `ec_a`, without record and task. -/
theorem not_throughout_of_names {as : List FleetAction} {s : Fleet} (names : List String)
    (hs : (fleet .ofId 1).run as noFleet = some s)
    (hnames : ∀ a ∈ as, ∀ x, a.id_? = some x → x ∈ names)
    (hec : s.redis .ec "ec_a" ≠ ∅) (hrecorded : ¬ s.Recorded "ec_a")
    (hworker : ∀ x ∈ names, ∀ i, ((s.node x).worker i).pending = [] ∧
      ((s.node x).worker i).running = none) :
    ¬ (fleet .ofId 1).Throughout Fleet.NeverLost as noFleet := by
  intro h
  refine not_neverLost hec hrecorded (fun x i => ?_) (h.last hs)
  by_cases hx : x ∈ names
  · exact hworker x hx i
  · rw [run_node_of_forall_ne (fun a ha heq => hx (hnames a ha x heq)) hs]
    exact ⟨rfl, rfl⟩

/-- A controller without a record goes on and clients join it; one that shuts down leaves its
clients; and between the removal of a record and the task nobody is responsible. -/
theorem responsibility_lost :
    ¬ (fleet .ofId 1).Throughout Fleet.NeverLost firstLockFails noFleet ∧
      ¬ (fleet .ofId 1).Throughout Fleet.NeverLost shutDown noFleet ∧
      ¬ (fleet .ofId 1).Throughout Fleet.NeverLost recordRemoved noFleet := by
  refine ⟨?_, ?_, ?_⟩
  · refine not_throughout_of_names ["ec_a"] rfl (by simp [firstLockFails, FleetAction.id_?])
      (by decide) ?_ fun x hx i => ?_
    · rintro ⟨data, hdata, -⟩
      cases hdata
    · obtain rfl := List.mem_singleton.mp hx
      exact ⟨rfl, rfl⟩
  · refine not_throughout_of_names ["ec_a"] rfl (by simp [shutDown, FleetAction.id_?])
      (by decide) ?_ fun x hx i => ?_
    · rintro ⟨data, hdata, -⟩
      cases hdata
    · obtain rfl := List.mem_singleton.mp hx
      cases i with
      | zero => exact ⟨rfl, rfl⟩
      | succ i => exact ⟨rfl, rfl⟩
  · refine not_throughout_of_names ["ec_a", "ec_b"] rfl
      (by simp [recordRemoved, FleetAction.id_?]) (by decide) ?_ fun x hx i => ?_
    · rintro ⟨data, hdata, hid⟩
      obtain rfl := List.mem_singleton.mp hdata
      exact absurd hid (by decide)
    · rcases List.mem_cons.mp hx with rfl | hx
      · exact ⟨rfl, rfl⟩
      · obtain rfl := List.mem_singleton.mp hx
        exact ⟨rfl, rfl⟩

end ErizoController
