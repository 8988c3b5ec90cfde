import ErizoController.Library.Machine
import ErizoController.Library.Workers
import ErizoController.Core.Sections

/-!
# ThreadPool and the order of signaling events

`asyncTask` deals the tasks round robin: `getSequenceWorker` counts in an unsigned 32-bit
number. A worker runs its tasks in the order in which they were posted, and the workers
run side by side. The replies of Redis, the lock attempts and the schedule are left open.
What a task puts out are its pushes to the send queue of the socket.io server.
-/

namespace ThreadPool

open Locked ErizoController

/-- What a command pushes to the send queue, `none` for the close of a connection. -/
def pushes : Command → List (String × Option Json.Value)
  | .sendEvent client_id event => [(client_id, some event)]
  | .closeConnection client_id => [(client_id, none)]
  | _ => []

/-- How the outside answers the next step of a task. -/
inductive Answer where
  | reply (reply : (c : Command) → c.Reply)
  | lock (taken : Bool)

/-- A task on its way. -/
abbrev Task := Thread Command Command.Reply String

/-- The next step of a task, and its last. -/
def Task.step : Answer → Task → Option (Option Task × List (String × Option Json.Value))
  | _, .outside (.ret ()) => some (none, [])
  | .reply reply, .outside (.cmd c k) => some (some (.outside (k (reply c))), pushes c)
  | .reply reply, .inside r β (.cmd c k) k' =>
      some (some (.inside r β (k (reply c)) k'), pushes c)
  | _, .inside _ _ (.ret b) k => some (some (.outside (k (some b))), [])
  | .lock true, .outside (.locked r β body k) => some (some (.inside r β body k), [])
  | .lock false, .outside (.locked _ _ _ k) => some (some (.outside (k none)), [])
  | _, _ => none

structure State where
  index_ : UInt32 := 0
  pool : Workers ℕ Task (String × Option Json.Value) := {}

/-- The worker of the next task. -/
def getSequenceWorker (workers : ℕ) (s : State) : ℕ := s.index_.toNat % workers

inductive Action where
  /-- `asyncTask` of a signaling message or of another function. -/
  | asyncTask (job : Job)
  | run (worker : ℕ) (answer : Answer)

def step (workers : ℕ) : Action → State → Option State
  | .asyncTask job, s =>
      some {
        index_ := s.index_ + 1
        pool := s.pool.deal (getSequenceWorker workers s) (.outside job.script) }
  | .run worker answer, s =>
      (s.pool.advance (Task.step answer) worker).map fun pool => { s with pool }

/-- A pool of the given number of workers. -/
def machine (workers : ℕ) : Machine Action State where
  init s := s = {}
  step := step workers

/-- For each client, the send queue holds the events in the order in which their tasks
were posted. -/
def OrderedPerClient (s : State) : Prop :=
  s.pool.output.Pairwise fun o o' => o.value.1 = o'.value.1 → o.number ≤ o'.number

variable {workers : ℕ}

theorem reachable_inOrder {s : State} (h : (machine workers).Reachable s) : s.pool.InOrder := by
  refine Machine.Reaches.invariant (I := fun s : State => s.pool.InOrder) (fun s hs => ?_)
    (fun a s s' hI _ hstep => ?_) h
  · obtain rfl : s = {} := hs
    exact Workers.inOrder_init
  · cases a with
    | asyncTask job =>
        obtain rfl := Option.some.inj hstep
        exact hI.deal _ _
    | run worker answer =>
        obtain ⟨pool, hpool, rfl⟩ := Option.map_eq_some_iff.mp hstep
        exact hI.advance hpool

theorem reachable_within {s : State} (hworkers : 0 < workers)
    (h : (machine workers).Reachable s) : s.pool.Within (· < workers) := by
  refine Machine.Reaches.invariant (I := fun s : State => s.pool.Within (· < workers))
    (fun s hs => ?_) (fun a s s' hI _ hstep => ?_) h
  · obtain rfl : s = {} := hs
    exact Workers.within_init _
  · cases a with
    | asyncTask job =>
        obtain rfl := Option.some.inj hstep
        exact hI.deal (Nat.mod_lt _ hworkers) _
    | run worker answer =>
        obtain ⟨pool, hpool, rfl⟩ := Option.map_eq_some_iff.mp hstep
        exact hI.advance hpool

/-- Replies of an outside in which nothing is found. -/
def emptyReply : (c : Command) → c.Reply
  | .getStreamID => ""
  | .getSystemMs => 0
  | .uninitialized => 0
  | .hset _ _ _ => 0
  | .hget _ _ _ => (1, none)
  | .hvals _ _ => (1, [])
  | .hdel _ _ _ => 0
  | .rpcNotReply _ _ => ()
  | .rpc _ _ => .nullValue
  | .asyncTask _ => ()
  | .sendEvent _ _ => ()
  | .closeConnection _ => ()

/-- The signaling message that a stream is gone. -/
def removeMessage (stream_id : String) : Json.Value :=
  .objectValue [("data", .objectValue [("type", .stringValue "remove_subscriber"),
    ("clientId", .stringValue "c"), ("streamId", .stringValue stream_id)])]

/-- Two messages for one client at two workers, of which the second worker is faster. -/
def overtaking (self : ErizoController) : List Action :=
  [.asyncTask (.onSignalingMessage self (removeMessage "s")),
    .asyncTask (.onSignalingMessage self (removeMessage "t")),
    .run 1 (.reply emptyReply), .run 0 (.reply emptyReply)]

theorem run_overtaking (self : ErizoController) (hworkers : workers ≠ 1) :
    ∃ s, (machine workers).run (overtaking self) {} = some s ∧
      s.pool.output.map (fun o => (o.number, o.value.1)) = [(1, "c"), (0, "c")] := by
  have hmod : 1 % workers = 1 := by
    rcases Nat.lt_or_gt_of_ne hworkers with h | h
    · obtain rfl : workers = 0 := by omega
      rfl
    · exact Nat.mod_eq_of_lt h
  have hfirst : getSequenceWorker workers {} = 0 := Nat.zero_mod _
  have hsecond : ∀ pool, getSequenceWorker workers { index_ := 0 + 1, pool } = 1 := fun _ => hmod
  simp only [overtaking, Machine.run, machine, step, Option.bind_some, hfirst, hsecond]
  refine ⟨_, rfl, rfl⟩

/-- The events of the tasks of one worker reach the send queue in the order in which the
tasks were posted, and every client sees all its events in that order, whatever the
schedule, exactly when the pool has a single worker. -/
theorem events_in_order (workers : ℕ) (hworkers : 0 < workers) :
    (∀ s, (machine workers).Reachable s →
      s.pool.output.Pairwise fun o o' => o.worker = o'.worker → o.number ≤ o'.number) ∧
    ((∀ s, (machine workers).Reachable s → OrderedPerClient s) ↔ workers = 1) := by
  refine ⟨fun s hs => (reachable_inOrder hs).output, fun h => ?_, ?_⟩
  · by_contra hne
    obtain ⟨s, hrun, hout⟩ := run_overtaking (.ofId "") hne
    have hs : (machine workers).Reachable s :=
      (Machine.Reaches.init rfl).run (fun _ _ => trivial) hrun
    have hbad : (s.pool.output.map fun o => (o.number, o.value.1)).Pairwise
        fun p p' => p.2 = p'.2 → p.1 ≤ p'.1 := List.pairwise_map.mpr (h s hs)
    rw [hout] at hbad
    revert hbad
    decide
  · rintro rfl s hs
    have hone : ∀ o ∈ s.pool.output, o.worker = 0 := by
      intro o ho
      have := (reachable_within Nat.one_pos hs).output o ho
      omega
    refine (reachable_inOrder hs).output.imp_of_mem fun ho ho' hle _ => ?_
    exact hle ((hone _ ho).trans (hone _ ho').symm)

/-- A pool of one worker. -/
theorem events_in_order_one :
    0 < 1 ∧ ∀ s, (machine 1).Reachable s → OrderedPerClient s :=
  ⟨by decide, (events_in_order 1 (by decide)).2.mpr rfl⟩

/-- With two workers, the second of two messages for a client can arrive first. -/
theorem events_out_of_order :
    ¬ ∀ workers, 0 < workers → ∀ s, (machine workers).Reachable s → OrderedPerClient s := by
  intro h
  obtain ⟨s, hrun, hout⟩ := run_overtaking (.ofId "") (show 2 ≠ 1 by decide)
  have hs : (machine 2).Reachable s := (Machine.Reaches.init rfl).run (fun _ _ => trivial) hrun
  have hbad : (s.pool.output.map fun o => (o.number, o.value.1)).Pairwise
      fun p p' => p.2 = p'.2 → p.1 ≤ p'.1 := List.pairwise_map.mpr (h 2 (by decide) s hs)
  rw [hout] at hbad
  revert hbad
  decide

end ThreadPool
