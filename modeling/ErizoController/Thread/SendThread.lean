import ErizoController.Library.Machine

/-!
# Send threads and their shutdown

`AMQPRPC` and `SocketIOServer` each have a thread that sends what others push into a queue:

    while (run_) { lock; drain the queue; send_cond_.wait(lock); }

`close` clears `run_`, notifies the condition variable without its mutex and joins the
thread. A notify that comes between the test of `run_` and the wait is lost, and what is in
the queue when `run_` is cleared is sent only if the thread is between its test and its wait.
While it runs, nothing that is pushed is lost or overtaken: a producer pushes and notifies
under the mutex that the thread holds from the last look at the queue to its wait.
-/

/-- Where the send thread stands in its loop. -/
inductive Place where
  | test
  | lock
  | drain
  | waiting
  | woken
  | exited
  deriving DecidableEq

/-- The thread has found `run_` set and has not yet waited. -/
def Place.BeforeWait (p : Place) : Prop := p = lock ∨ p = drain

instance (p : Place) : Decidable p.BeforeWait := inferInstanceAs (Decidable (_ ∨ _))

/-- What a notify does: it wakes a thread that waits. -/
def Place.notify : Place → Place
  | waiting => woken
  | p => p

theorem Place.notify_ne_waiting (p : Place) : p.notify ≠ waiting := by
  cases p <;> decide

theorem Place.notify_eq_exited {p : Place} : p.notify = exited ↔ p = exited := by
  cases p <;> decide

theorem Place.notify_beforeWait {p : Place} : p.notify.BeforeWait ↔ p.BeforeWait := by
  cases p <;> decide

/-- The mutex of the queue: free, held by the send thread, or held by a producer, which
pushes and then notifies. -/
inductive QueueMutex (D : Type) where
  | free
  | sender
  | producer (data : D)
  | pushed
  | notified
  deriving DecidableEq

/-- How far `close` has got; `notified` is the state of the join. -/
inductive Closing where
  | running
  | flagged
  | notified
  | joined
  deriving DecidableEq

/-- The send thread and what it shares, with what has been pushed and handed over so far, and
how much had been pushed when `run_` was cleared. `env` is what the loop works on. -/
structure SendThread (D E : Type) where
  run_ : Bool
  place : Place
  send_queue_mux_ : QueueMutex D
  send_queue_ : List D
  env : E
  closing : Closing
  pushed : List D
  handed : List D
  early : ℕ

namespace SendThread

variable {D E : Type}

/-- The steps of the thread, with a spurious wake-up; of the producers; of `close`; and of
others that work on the same things. The wake-up after a notify takes the mutex and, at the
end of the loop's body, releases it. -/
inductive Action (D E : Type) where
  | test
  | lock
  | pop
  | wait
  | spurious
  | wake
  | acquire (data : D)
  | push
  | notifyOne
  | release
  | clearRun
  | notifyAll
  | join
  | others (env : E)

variable (hand : D → E → E)

def step : Action D E → SendThread D E → Option (SendThread D E)
  | .test, s =>
      if s.place = .test then some { s with place := if s.run_ then .lock else .exited } else none
  | .lock, s =>
      match s.place, s.send_queue_mux_ with
      | .lock, .free => some { s with place := .drain, send_queue_mux_ := .sender }
      | _, _ => none
  | .pop, s =>
      match s.place, s.send_queue_ with
      | .drain, data :: rest => some { s with
          send_queue_ := rest, env := hand data s.env, handed := s.handed ++ [data] }
      | _, _ => none
  | .wait, s =>
      match s.place, s.send_queue_ with
      | .drain, [] => some { s with place := .waiting, send_queue_mux_ := .free }
      | _, _ => none
  | .spurious, s => if s.place = .waiting then some { s with place := .woken } else none
  | .wake, s =>
      match s.place, s.send_queue_mux_ with
      | .woken, .free => some { s with place := .test }
      | _, _ => none
  | .acquire data, s =>
      match s.send_queue_mux_ with
      | .free => some { s with send_queue_mux_ := .producer data }
      | _ => none
  | .push, s =>
      match s.send_queue_mux_ with
      | .producer data => some { s with
          send_queue_mux_ := .pushed
          send_queue_ := s.send_queue_ ++ [data]
          pushed := s.pushed ++ [data] }
      | _ => none
  | .notifyOne, s =>
      match s.send_queue_mux_ with
      | .pushed => some { s with send_queue_mux_ := .notified, place := s.place.notify }
      | _ => none
  | .release, s =>
      match s.send_queue_mux_ with
      | .notified => some { s with send_queue_mux_ := .free }
      | _ => none
  | .clearRun, s =>
      if s.closing = .running then
        some { s with run_ := false, closing := .flagged, early := s.pushed.length }
      else none
  | .notifyAll, s =>
      if s.closing = .flagged then
        some { s with closing := .notified, place := s.place.notify }
      else none
  | .join, s =>
      if s.closing = .notified ∧ s.place = .exited then some { s with closing := .joined }
      else none
  | .others env, s => some { s with env := env }

/-- The thread as `init` starts it. -/
def start (env : E) : SendThread D E where
  run_ := true
  place := .test
  send_queue_mux_ := .free
  send_queue_ := []
  env := env
  closing := .running
  pushed := []
  handed := []
  early := 0

def machine : Machine (Action D E) (SendThread D E) where
  init s := ∃ env, s = start env
  step := step hand

/-- A producer has the mutex and is going to notify. -/
def NotifyToCome (s : SendThread D E) : Prop :=
  (∃ data, s.send_queue_mux_ = .producer data) ∨ s.send_queue_mux_ = .pushed

/-- `close` joins the thread while it waits, and no notify is to come. -/
def Hangs (s : SendThread D E) : Prop :=
  s.closing = .notified ∧ s.place = .waiting ∧ ¬ s.NotifyToCome

/-- The join does not hang, and a thread that has exited has handed over all that had been
pushed when `run_` was cleared. -/
structure ShutsDown (s : SendThread D E) : Prop where
  joins : ¬ s.Hangs
  handed : s.place = .exited → s.pushed.take s.early <+: s.handed

/-- `run_` is cleared while the thread is between its test and its wait, or the queue is
empty; and the notify of `close` comes while the thread is not between them. -/
def InTime : Action D E → SendThread D E → Prop
  | .clearRun, s => s.closing = .running → s.place.BeforeWait ∨ s.send_queue_ = []
  | .notifyAll, s => s.closing = .flagged → ¬ s.place.BeforeWait
  | _, _ => True

/-- The join has returned, or it hangs. -/
def Finished (s : SendThread D E) : Prop := s.closing = .joined ∨ s.Hangs

/-! ## One step -/

/-- The steps with what they ask for and what they change. -/
inductive Steps : Action D E → SendThread D E → SendThread D E → Prop
  | test {s} (hplace : s.place = .test) :
      Steps .test s { s with place := if s.run_ then .lock else .exited }
  | lock {s} (hplace : s.place = .lock) (hfree : s.send_queue_mux_ = .free) :
      Steps .lock s { s with place := .drain, send_queue_mux_ := .sender }
  | pop {s} {data : D} {rest : List D} (hplace : s.place = .drain)
      (hqueue : s.send_queue_ = data :: rest) :
      Steps .pop s { s with
        send_queue_ := rest, env := hand data s.env, handed := s.handed ++ [data] }
  | wait {s} (hplace : s.place = .drain) (hqueue : s.send_queue_ = []) :
      Steps .wait s { s with place := .waiting, send_queue_mux_ := .free }
  | spurious {s} (hplace : s.place = .waiting) : Steps .spurious s { s with place := .woken }
  | wake {s} (hplace : s.place = .woken) (hfree : s.send_queue_mux_ = .free) :
      Steps .wake s { s with place := .test }
  | acquire {s} {data : D} (hfree : s.send_queue_mux_ = .free) :
      Steps (.acquire data) s { s with send_queue_mux_ := .producer data }
  | push {s} {data : D} (hmux : s.send_queue_mux_ = .producer data) :
      Steps .push s { s with
        send_queue_mux_ := .pushed
        send_queue_ := s.send_queue_ ++ [data]
        pushed := s.pushed ++ [data] }
  | notifyOne {s} (hmux : s.send_queue_mux_ = .pushed) :
      Steps .notifyOne s { s with send_queue_mux_ := .notified, place := s.place.notify }
  | release {s} (hmux : s.send_queue_mux_ = .notified) :
      Steps .release s { s with send_queue_mux_ := .free }
  | clearRun {s} (hclosing : s.closing = .running) :
      Steps .clearRun s { s with run_ := false, closing := .flagged, early := s.pushed.length }
  | notifyAll {s} (hclosing : s.closing = .flagged) :
      Steps .notifyAll s { s with closing := .notified, place := s.place.notify }
  | join {s} (hclosing : s.closing = .notified) (hplace : s.place = .exited) :
      Steps .join s { s with closing := .joined }
  | others {s} (env : E) : Steps (.others env) s { s with env := env }

theorem step_cases {a : Action D E} {s s' : SendThread D E} (h : step hand a s = some s') :
    Steps hand a s s' := by
  cases a with
  | test =>
      simp only [step] at h
      split at h
      · exact Option.some.inj h ▸ .test ‹_›
      · cases h
  | lock =>
      simp only [step] at h
      split at h
      · exact Option.some.inj h ▸ .lock ‹_› ‹_›
      · cases h
  | pop =>
      simp only [step] at h
      split at h
      · exact Option.some.inj h ▸ .pop ‹_› ‹_›
      · cases h
  | wait =>
      simp only [step] at h
      split at h
      · exact Option.some.inj h ▸ .wait ‹_› ‹_›
      · cases h
  | spurious =>
      simp only [step] at h
      split at h
      · exact Option.some.inj h ▸ .spurious ‹_›
      · cases h
  | wake =>
      simp only [step] at h
      split at h
      · exact Option.some.inj h ▸ .wake ‹_› ‹_›
      · cases h
  | acquire data =>
      simp only [step] at h
      split at h
      · exact Option.some.inj h ▸ .acquire ‹_›
      · cases h
  | push =>
      simp only [step] at h
      split at h
      · exact Option.some.inj h ▸ .push ‹_›
      · cases h
  | notifyOne =>
      simp only [step] at h
      split at h
      · exact Option.some.inj h ▸ .notifyOne ‹_›
      · cases h
  | release =>
      simp only [step] at h
      split at h
      · exact Option.some.inj h ▸ .release ‹_›
      · cases h
  | clearRun =>
      simp only [step] at h
      split at h
      · exact Option.some.inj h ▸ .clearRun ‹_›
      · cases h
  | notifyAll =>
      simp only [step] at h
      split at h
      · exact Option.some.inj h ▸ .notifyAll ‹_›
      · cases h
  | join =>
      simp only [step] at h
      split at h
      · rename_i hjoin
        exact Option.some.inj h ▸ .join hjoin.1 hjoin.2
      · cases h
  | others env => exact Option.some.inj h ▸ .others env

/-! ## What every run keeps -/

structure Invariant (s : SendThread D E) : Prop where
  fifo : s.pushed = s.handed ++ s.send_queue_
  running : s.run_ = true ↔ s.closing = .running
  early : s.early ≤ s.pushed.length
  exited : s.place = .exited → s.run_ = false
  joined : s.closing = .joined → s.place = .exited

theorem Invariant.start (env : E) : Invariant (start (D := D) env) where
  fifo := rfl
  running := iff_of_true rfl rfl
  early := Nat.le_refl _
  exited h := by cases h
  joined h := by cases h

/-- A thread that has not exited moves on, and the mutex changes hands. -/
theorem Invariant.move {s : SendThread D E} (h : s.Invariant) {p : Place} {m : QueueMutex D}
    (hbefore : s.place ≠ .exited) (hafter : p ≠ .exited) :
    Invariant { s with place := p, send_queue_mux_ := m } where
  fifo := h.fifo
  running := h.running
  early := h.early
  exited hexited := absurd hexited hafter
  joined hjoined := absurd (h.joined hjoined) hbefore

variable {hand}

theorem Invariant.step {a : Action D E} {s s' : SendThread D E} (h : s.Invariant)
    (hstep : SendThread.step hand a s = some s') : s'.Invariant := by
  cases step_cases hand hstep with
  | test hplace =>
      refine ⟨h.fifo, h.running, h.early, fun hexited => ?_, fun hjoined => ?_⟩
      · dsimp only at hexited
        split at hexited
        · cases hexited
        · exact Bool.eq_false_iff.mpr ‹_›
      · rw [h.joined hjoined] at hplace
        cases hplace
  | lock hplace hfree => exact h.move (by rw [hplace]; decide) (by decide)
  | pop hplace hqueue =>
      refine ⟨?_, h.running, h.early, h.exited, h.joined⟩
      dsimp only
      rw [h.fifo, hqueue, List.append_assoc]
      rfl
  | wait hplace hqueue => exact h.move (by rw [hplace]; decide) (by decide)
  | spurious hplace => exact h.move (by rw [hplace]; decide) (by decide)
  | wake hplace hfree => exact h.move (by rw [hplace]; decide) (by decide)
  | acquire hfree => exact ⟨h.fifo, h.running, h.early, h.exited, h.joined⟩
  | push hmux =>
      refine ⟨?_, h.running, ?_, h.exited, h.joined⟩
      · dsimp only
        rw [h.fifo, List.append_assoc]
      · have hearly := h.early
        simp only [List.length_append]
        omega
  | notifyOne hmux =>
      exact ⟨h.fifo, h.running, h.early,
        fun hexited => h.exited (Place.notify_eq_exited.mp hexited),
        fun hjoined => Place.notify_eq_exited.mpr (h.joined hjoined)⟩
  | release hmux => exact ⟨h.fifo, h.running, h.early, h.exited, h.joined⟩
  | clearRun hclosing =>
      refine ⟨h.fifo, ?_, Nat.le_refl _, fun _ => rfl, fun hjoined => ?_⟩
      · exact iff_of_false (fun hrun => by cases hrun) (fun hrunning => by cases hrunning)
      · cases hjoined
  | notifyAll hclosing =>
      refine ⟨h.fifo, ?_, h.early, fun hexited => h.exited (Place.notify_eq_exited.mp hexited),
        fun hjoined => ?_⟩
      · rw [h.running, hclosing]
        exact iff_of_false (fun hrunning => by cases hrunning) (fun hrunning => by cases hrunning)
      · cases hjoined
  | join hclosing hplace =>
      refine ⟨h.fifo, ?_, h.early, h.exited, fun _ => hplace⟩
      rw [h.running, hclosing]
      exact iff_of_false (fun hrunning => by cases hrunning) (fun hrunning => by cases hrunning)
  | others env => exact ⟨h.fifo, h.running, h.early, h.exited, h.joined⟩

theorem Invariant.early_le_of_empty {s : SendThread D E} (h : s.Invariant)
    (hqueue : s.send_queue_ = []) : s.pushed.length ≤ s.handed.length := by
  have hpushed : s.pushed = s.handed := by
    rw [h.fifo, hqueue, List.append_nil]
  exact hpushed ▸ Nat.le_refl _

theorem Invariant.prefix_iff {s : SendThread D E} (h : s.Invariant) :
    s.pushed.take s.early <+: s.handed ↔ s.early ≤ s.handed.length := by
  constructor
  · intro hprefix
    have hlength := hprefix.length_le
    rw [List.length_take, Nat.min_eq_left h.early] at hlength
    exact hlength
  · intro hearly
    rw [h.fifo, List.take_append_of_le_length hearly]
    exact List.take_prefix _ _

/-! ## Shutdowns that are in time -/

/-- What holds while the steps are in time: once `run_` is cleared, what was in the queue has
been handed over or will be before the thread waits, and once `close` joins the thread it
does not come to wait again. -/
structure OnTime (s : SendThread D E) : Prop where
  invariant : s.Invariant
  drains : s.run_ = false → s.place.BeforeWait ∨ s.early ≤ s.handed.length
  awake : s.closing = .notified → ¬ s.place.BeforeWait ∧ s.place ≠ .waiting

theorem OnTime.start (env : E) : OnTime (start (D := D) env) where
  invariant := .start env
  drains h := by cases h
  awake h := by cases h

theorem OnTime.shutsDown {s : SendThread D E} (h : s.OnTime) : s.ShutsDown where
  joins := fun ⟨hclosing, hplace, _⟩ => (h.awake hclosing).2 hplace
  handed hexited := by
    rw [h.invariant.prefix_iff]
    rcases h.drains (h.invariant.exited hexited) with hbefore | hearly
    · rw [hexited] at hbefore
      exact absurd hbefore (by decide)
    · exact hearly

theorem OnTime.step {a : Action D E} {s s' : SendThread D E} (h : s.OnTime) (hP : InTime a s)
    (hstep : SendThread.step hand a s = some s') : s'.OnTime := by
  have hinv := h.invariant.step hstep
  cases step_cases hand hstep with
  | test hplace =>
      have hnot : ¬ s.place.BeforeWait := by rw [hplace]; decide
      refine ⟨hinv, fun hrun => .inr ((h.drains hrun).resolve_left hnot), fun hclosing => ?_⟩
      have hrun : s.run_ = false := Bool.eq_false_iff.mpr fun hrun => by
        rw [h.invariant.running.mp hrun] at hclosing
        cases hclosing
      simp only [hrun]
      decide
  | lock hplace hfree =>
      refine ⟨hinv, fun _ => .inl (by dsimp only; decide), fun hclosing => ?_⟩
      exact absurd (h.awake hclosing).1 (by rw [hplace]; decide)
  | pop hplace hqueue =>
      exact ⟨hinv, fun _ => .inl (by dsimp only; rw [hplace]; decide), h.awake⟩
  | wait hplace hqueue =>
      refine ⟨hinv, fun _ => .inr ?_, fun hclosing => ?_⟩
      · exact Nat.le_trans h.invariant.early (h.invariant.early_le_of_empty hqueue)
      · exact absurd (h.awake hclosing).1 (by rw [hplace]; decide)
  | spurious hplace =>
      have hnot : ¬ s.place.BeforeWait := by rw [hplace]; decide
      exact ⟨hinv, fun hrun => .inr ((h.drains hrun).resolve_left hnot),
        fun _ => by dsimp only; decide⟩
  | wake hplace hfree =>
      have hnot : ¬ s.place.BeforeWait := by rw [hplace]; decide
      exact ⟨hinv, fun hrun => .inr ((h.drains hrun).resolve_left hnot),
        fun _ => by dsimp only; decide⟩
  | acquire hfree => exact ⟨hinv, h.drains, h.awake⟩
  | push hmux => exact ⟨hinv, h.drains, h.awake⟩
  | notifyOne hmux =>
      refine ⟨hinv, fun hrun => ?_, fun hclosing => ?_⟩
      · exact (h.drains hrun).imp_left Place.notify_beforeWait.mpr
      · exact ⟨fun hbefore => (h.awake hclosing).1 (Place.notify_beforeWait.mp hbefore),
          s.place.notify_ne_waiting⟩
  | release hmux => exact ⟨hinv, h.drains, h.awake⟩
  | clearRun hclosing =>
      refine ⟨hinv, fun _ => ?_, fun hnotified => by cases hnotified⟩
      exact (hP hclosing).imp_right h.invariant.early_le_of_empty
  | notifyAll hclosing =>
      refine ⟨hinv, fun hrun => ?_, fun _ => ⟨?_, s.place.notify_ne_waiting⟩⟩
      · exact (h.drains hrun).imp_left Place.notify_beforeWait.mpr
      · exact fun hbefore => hP hclosing (Place.notify_beforeWait.mp hbefore)
  | join hclosing hplace => exact ⟨hinv, h.drains, fun hnotified => by cases hnotified⟩
  | others env => exact ⟨hinv, h.drains, h.awake⟩

/-! ## Shutdowns that are not -/

/-- What holds after a step that is not in time, until the thread shows it: the thread will
exit with messages in the queue, or it will wait after the last notify. -/
inductive Doomed (s : SendThread D E) : Prop
  | loses (hrun : s.run_ = false) (hearly : s.handed.length < s.early)
      (hplace : ¬ s.place.BeforeWait)
  | waits (hclosing : s.closing = .notified) (hplace : s.place.BeforeWait)

theorem doomed_of_not_inTime {a : Action D E} {s s' : SendThread D E} (h : s.Invariant)
    (hP : ¬ InTime a s) (hstep : SendThread.step hand a s = some s') : s'.Doomed := by
  cases step_cases hand hstep with
  | clearRun hclosing =>
      simp only [InTime, hclosing, not_or, forall_const] at hP
      refine .loses rfl ?_ hP.1
      have hqueue := List.length_pos_iff.mpr hP.2
      simp only [h.fifo, List.length_append]
      omega
  | notifyAll hclosing =>
      simp only [InTime, hclosing, forall_const, not_not] at hP
      exact .waits rfl (Place.notify_beforeWait.mpr hP)
  | _ => exact absurd trivial hP

theorem Doomed.step {a : Action D E} {s s' : SendThread D E} (hinv : s.Invariant) (h : s.Doomed)
    (hstep : SendThread.step hand a s = some s') : s'.Doomed ∨ ¬ s'.ShutsDown := by
  cases h with
  | loses hrun hearly hnot =>
      refine .inl ?_
      cases step_cases hand hstep with
      | test hplace =>
          refine .loses hrun hearly ?_
          simp only [hrun]
          decide
      | lock hplace hfree => exact absurd (by rw [hplace]; decide) hnot
      | pop hplace hqueue => exact absurd (by rw [hplace]; decide) hnot
      | wait hplace hqueue => exact absurd (by rw [hplace]; decide) hnot
      | spurious hplace => exact .loses hrun hearly (by dsimp only; decide)
      | wake hplace hfree => exact .loses hrun hearly (by dsimp only; decide)
      | notifyOne hmux =>
          exact .loses hrun hearly fun hbefore => hnot (Place.notify_beforeWait.mp hbefore)
      | clearRun hclosing =>
          rw [hinv.running.mpr hclosing] at hrun
          cases hrun
      | notifyAll hclosing =>
          exact .loses hrun hearly fun hbefore => hnot (Place.notify_beforeWait.mp hbefore)
      | _ => exact .loses hrun hearly hnot
  | waits hnotified hbefore =>
      cases step_cases hand hstep with
      | test hplace =>
          rw [hplace] at hbefore
          exact absurd hbefore (by decide)
      | lock hplace hfree => exact .inl (.waits hnotified (by dsimp only; decide))
      | wait hplace hqueue =>
          refine .inr fun hshuts => hshuts.joins ⟨hnotified, rfl, ?_⟩
          rintro (⟨data, hmux⟩ | hmux)
          · cases hmux
          · cases hmux
      | spurious hplace =>
          rw [hplace] at hbefore
          exact absurd hbefore (by decide)
      | wake hplace hfree =>
          rw [hplace] at hbefore
          exact absurd hbefore (by decide)
      | notifyOne hmux => exact .inl (.waits hnotified (Place.notify_beforeWait.mpr hbefore))
      | clearRun hclosing =>
          rw [hclosing] at hnotified
          cases hnotified
      | notifyAll hclosing => exact .inl (.waits rfl (Place.notify_beforeWait.mpr hbefore))
      | join hclosing hplace =>
          rw [hplace] at hbefore
          exact absurd hbefore (by decide)
      | _ => exact .inl (.waits hnotified hbefore)

theorem Doomed.not_shutsDown {s : SendThread D E} (hinv : s.Invariant) (h : s.Doomed)
    (hend : s.Finished) : ¬ s.ShutsDown := by
  intro hshuts
  rcases hend with hjoined | hhangs
  · cases h with
    | loses hrun hearly hplace =>
        have hhanded := hinv.prefix_iff.mp (hshuts.handed (hinv.joined hjoined))
        omega
    | waits hnotified hbefore =>
        rw [hjoined] at hnotified
        cases hnotified
  · exact hshuts.joins hhangs

variable (hand)

/-- A run from a doomed state to its end shows it. -/
theorem Doomed.not_throughout {as : List (Action D E)} {s s' : SendThread D E}
    (hinv : s.Invariant) (h : s.Doomed) (hrun : (machine hand).run as s = some s')
    (hend : s'.Finished) : ¬ (machine hand).Throughout ShutsDown as s := by
  intro hshuts
  induction as generalizing s with
  | nil =>
      obtain rfl := Option.some.inj hrun
      exact h.not_shutsDown hinv hend hshuts
  | cons a as ih =>
      rw [Machine.run_cons] at hrun
      obtain ⟨t, ht, hrest⟩ := Option.bind_eq_some_iff.mp hrun
      have hshuts' := hshuts.2 t ht
      rcases h.step hinv ht with hdoomed | hnot
      · exact ih (hinv.step ht) hdoomed hrest hshuts'
      · exact hnot hshuts'.head

theorem along_of_throughout {as : List (Action D E)} {s s' : SendThread D E} (hinv : s.Invariant)
    (hrun : (machine hand).run as s = some s') (hend : s'.Finished)
    (hshuts : (machine hand).Throughout ShutsDown as s) : (machine hand).Along InTime as s := by
  induction as generalizing s with
  | nil => trivial
  | cons a as ih =>
      rw [Machine.run_cons] at hrun
      obtain ⟨t, ht, hrest⟩ := Option.bind_eq_some_iff.mp hrun
      rw [Machine.along_cons_iff _ ht]
      refine ⟨?_, ih (hinv.step ht) hrest (hshuts.2 t ht)⟩
      by_contra hP
      exact (doomed_of_not_inTime hinv hP ht).not_throughout hand (hinv.step ht) hrest hend
        (hshuts.2 t ht)

/-- A run whose steps are in time shuts down; and so is every run that shuts down to its end. -/
theorem shutsDown_iff (env : E) (as : List (Action D E)) :
    ((machine hand).Along InTime as (start env) →
      (machine hand).Throughout ShutsDown as (start env)) ∧
    ∀ s, (machine hand).run as (start env) = some s → s.Finished →
      ((machine hand).Throughout ShutsDown as (start env) ↔
        (machine hand).Along InTime as (start env)) := by
  have hintime : (machine hand).Along InTime as (start env) →
      (machine hand).Throughout ShutsDown as (start env) :=
    Machine.Along.throughout (I := OnTime) (fun _ h => h.shutsDown)
      (fun a s s' h hP hstep => h.step hP hstep) (.start env)
  exact ⟨hintime, fun s hrun hend => ⟨along_of_throughout hand (.start env) hrun hend, hintime⟩⟩

variable {hand}

/-! ## The queue while the thread runs -/

/-- The messages handed over are the first ones pushed, in their order; the thread does not
sleep while there are others and the mutex is free; and it does not exit while `run_` is
set. -/
structure Lossless (s : SendThread D E) : Prop where
  fifo : s.pushed = s.handed ++ s.send_queue_
  awake : s.send_queue_mux_ = .free → s.place = .waiting → s.send_queue_ = []
  runs : s.run_ = true → s.place ≠ .exited

theorem Lossless.handed_prefix_pushed {s : SendThread D E}
    (h : s.Lossless) : s.handed <+: s.pushed :=
  ⟨s.send_queue_, h.fifo.symm⟩

/-- The thread drains the queue with the mutex in its hand, so what is pushed while it waits
is still to be notified. -/
structure Guarded (s : SendThread D E) : Prop where
  drain : s.place = .drain ↔ s.send_queue_mux_ = .sender
  waiting : s.place = .waiting → s.send_queue_ = [] ∨ s.send_queue_mux_ = .pushed

theorem Guarded.start (env : E) : Guarded (start (D := D) env) where
  drain := iff_of_false (fun h => by cases h) (fun h => by cases h)
  waiting h := by cases h

theorem Place.notify_eq_drain {p : Place} : p.notify = .drain ↔ p = .drain := by
  cases p <;> decide

/-- While a producer has the mutex, or nobody, the thread does not drain. -/
theorem Guarded.not_drain {s : SendThread D E} (h : s.Guarded) {m : QueueMutex D}
    (hmux : s.send_queue_mux_ = m) (hne : m ≠ .sender) : s.place ≠ .drain :=
  fun hdrain => hne (hmux.symm.trans (h.drain.mp hdrain))

theorem Guarded.not_sender {s : SendThread D E} (h : s.Guarded) {p : Place} (hplace : s.place = p)
    (hne : p ≠ .drain) : s.send_queue_mux_ ≠ .sender :=
  fun hmux => hne (hplace.symm.trans (h.drain.mpr hmux))

/-- Unless a notify is to come, a thread that waits has drained the queue. -/
theorem Guarded.drained {s : SendThread D E} (h : s.Guarded) {m : QueueMutex D}
    (hmux : s.send_queue_mux_ = m) (hne : m ≠ .pushed) (hwaiting : s.place = .waiting) :
    s.send_queue_ = [] :=
  (h.waiting hwaiting).resolve_right fun hpushed => hne (hmux.symm.trans hpushed)

theorem Guarded.step {a : Action D E} {s s' : SendThread D E} (h : s.Guarded)
    (hstep : SendThread.step hand a s = some s') : s'.Guarded := by
  cases step_cases hand hstep with
  | test hplace =>
      cases hrun : s.run_ with
      | true => exact ⟨iff_of_false nofun (h.not_sender hplace nofun), nofun⟩
      | false => exact ⟨iff_of_false nofun (h.not_sender hplace nofun), nofun⟩
  | lock hplace hfree => exact ⟨iff_of_true rfl rfl, nofun⟩
  | pop hplace hqueue =>
      refine ⟨h.drain, fun hwaiting => ?_⟩
      cases hplace.symm.trans hwaiting
  | wait hplace hqueue => exact ⟨iff_of_false nofun nofun, fun _ => .inl hqueue⟩
  | spurious hplace => exact ⟨iff_of_false nofun (h.not_sender hplace nofun), nofun⟩
  | wake hplace hfree => exact ⟨iff_of_false nofun (h.not_sender hplace nofun), nofun⟩
  | acquire hfree =>
      exact ⟨iff_of_false (h.not_drain hfree nofun) nofun,
        fun hwaiting => .inl (h.drained hfree nofun hwaiting)⟩
  | push hmux => exact ⟨iff_of_false (h.not_drain hmux nofun) nofun, fun _ => .inr rfl⟩
  | notifyOne hmux =>
      refine ⟨iff_of_false (fun hdrain => ?_) nofun, fun hwaiting => ?_⟩
      · exact h.not_drain hmux nofun (Place.notify_eq_drain.mp hdrain)
      · exact absurd hwaiting s.place.notify_ne_waiting
  | release hmux =>
      exact ⟨iff_of_false (h.not_drain hmux nofun) nofun,
        fun hwaiting => .inl (h.drained hmux nofun hwaiting)⟩
  | clearRun hclosing => exact ⟨h.drain, h.waiting⟩
  | notifyAll hclosing =>
      exact ⟨Place.notify_eq_drain.trans h.drain,
        fun hwaiting => absurd hwaiting s.place.notify_ne_waiting⟩
  | join hclosing hplace => exact ⟨h.drain, h.waiting⟩
  | others env => exact ⟨h.drain, h.waiting⟩

theorem Guarded.lossless {s : SendThread D E} (h : s.Guarded) (hinv : s.Invariant) :
    s.Lossless where
  fifo := hinv.fifo
  awake hfree hwaiting := h.drained hfree nofun hwaiting
  runs hrun hexited := by
    rw [hinv.exited hexited] at hrun
    cases hrun

/-- Whatever the producers do and in whichever order, and whether the thread is woken by a
notify or not. -/
theorem reachable_lossless {s : SendThread D E} (h : (machine hand).Reachable s) :
    s.Lossless := by
  have hboth : s.Guarded ∧ s.Invariant := by
    refine Machine.Reaches.invariant (I := fun s : SendThread D E => s.Guarded ∧ s.Invariant)
      (fun s hs => ?_) (fun a s s' hI _ hstep => ⟨hI.1.step hstep, hI.2.step hstep⟩) h
    obtain ⟨env, rfl⟩ := hs
    exact ⟨.start env, .start env⟩
  exact hboth.1.lossless hboth.2

variable (hand) in
/-- What the loop works on after messages are handed to it one by one. -/
def handAll (env : E) (datas : List D) : E := datas.foldl (fun env data => hand data env) env

theorem handAll_append (env : E) (datas : List D) (data : D) :
    handAll hand env (datas ++ [data]) = hand data (handAll hand env datas) := by
  rw [handAll, List.foldl_append]
  rfl

/-- Only taking a message from the queue changes what the loop works on, unless others do. -/
theorem step_env {a : Action D E} {s s' : SendThread D E} {env : E}
    (h : s.env = handAll hand env s.handed) (hown : ∀ e, a ≠ .others e)
    (hstep : step hand a s = some s') : s'.env = handAll hand env s'.handed := by
  cases step_cases hand hstep with
  | pop hplace hqueue =>
      dsimp only
      rw [handAll_append, h]
  | others e => exact absurd rfl (hown e)
  | _ => exact h

theorem run_env {as : List (Action D E)} {s s' : SendThread D E} {env : E}
    (h : s.env = handAll hand env s.handed) (hown : ∀ e, .others e ∉ as)
    (hrun : (machine hand).run as s = some s') : s'.env = handAll hand env s'.handed := by
  induction as generalizing s with
  | nil =>
      obtain rfl := Option.some.inj hrun
      exact h
  | cons a as ih =>
      rw [Machine.run_cons] at hrun
      obtain ⟨t, ht, hrest⟩ := Option.bind_eq_some_iff.mp hrun
      have hhead : ∀ e, a ≠ .others e := fun e ha => hown e (ha ▸ List.mem_cons_self)
      exact ih (step_env h hhead ht) (fun e he => hown e (List.mem_cons_of_mem _ he)) hrest

end SendThread

/-! ## The two threads -/

namespace AMQPRPC

structure AMQPData where
  exchange : String
  queuename : String
  binding_key : String
  msg : String
  deriving DecidableEq

/-- The loop sends each message; `sent` is what `send` has been given. -/
def sendLoop (data : AMQPData) (sent : List AMQPData) : List AMQPData := sent ++ [data]

theorem handAll_sendLoop (sent datas : List AMQPData) :
    SendThread.handAll sendLoop sent datas = sent ++ datas := by
  induction datas generalizing sent with
  | nil => exact (List.append_nil sent).symm
  | cons data datas ih => exact (ih (sent ++ [data])).trans (List.append_assoc _ _ _)

end AMQPRPC

namespace SocketIOServer

structure SIOData where
  client_id : String
  message : String
  deriving DecidableEq

/-- The clients that are connected, and the messages given to `sendMessage`. -/
structure Clients where
  clients_ : List String
  sent : List SIOData

/-- The loop looks the client up, and sends the message to a client that it finds. -/
def sendLoop (data : SIOData) (c : Clients) : Clients :=
  if data.client_id ∈ c.clients_ then { c with sent := c.sent ++ [data] } else c

theorem handAll_sendLoop (c : Clients) (datas : List SIOData) :
    SendThread.handAll sendLoop c datas =
      { c with sent := c.sent ++ datas.filter (·.client_id ∈ c.clients_) } := by
  induction datas generalizing c with
  | nil => simp [SendThread.handAll]
  | cons data datas ih =>
      have hcons : SendThread.handAll sendLoop c (data :: datas) =
          SendThread.handAll sendLoop (sendLoop data c) datas := rfl
      rw [hcons, ih, sendLoop]
      split
      · simp_all
      · simp_all

end SocketIOServer

namespace SendThread

/-- The send threads of the RPCs and of the sockets shut down when the steps of the run are in
time, and a run to its end shuts down only then. -/
theorem sendThreads_shutDown_iff (sent : List AMQPRPC.AMQPData) (clients : SocketIOServer.Clients) :
    (∀ as, ((machine AMQPRPC.sendLoop).Along InTime as (start sent) →
        (machine AMQPRPC.sendLoop).Throughout ShutsDown as (start sent)) ∧
      ∀ s, (machine AMQPRPC.sendLoop).run as (start sent) = some s → s.Finished →
        ((machine AMQPRPC.sendLoop).Throughout ShutsDown as (start sent) ↔
          (machine AMQPRPC.sendLoop).Along InTime as (start sent))) ∧
    ∀ as, ((machine SocketIOServer.sendLoop).Along InTime as (start clients) →
        (machine SocketIOServer.sendLoop).Throughout ShutsDown as (start clients)) ∧
      ∀ s, (machine SocketIOServer.sendLoop).run as (start clients) = some s → s.Finished →
        ((machine SocketIOServer.sendLoop).Throughout ShutsDown as (start clients) ↔
          (machine SocketIOServer.sendLoop).Along InTime as (start clients)) :=
  ⟨shutsDown_iff AMQPRPC.sendLoop sent, shutsDown_iff SocketIOServer.sendLoop clients⟩

/-- `close` clears `run_` when the thread is about to look at the queue, and notifies when it
waits. -/
def drainedInTime {D E : Type} (data : D) : List (Action D E) :=
  [.acquire data, .push, .notifyOne, .release, .test, .clearRun, .lock, .pop, .wait, .notifyAll,
    .wake, .test, .join]

theorem along_drainedInTime {D E : Type} (hand : D → E → E) (env : E) (data : D) :
    (machine hand).Along InTime (drainedInTime data) (start env) := by
  refine (Machine.along_cons_iff _ rfl).mpr ⟨trivial, ?_⟩
  refine (Machine.along_cons_iff _ rfl).mpr ⟨trivial, ?_⟩
  refine (Machine.along_cons_iff _ rfl).mpr ⟨trivial, ?_⟩
  refine (Machine.along_cons_iff _ rfl).mpr ⟨trivial, ?_⟩
  refine (Machine.along_cons_iff _ rfl).mpr ⟨trivial, ?_⟩
  refine (Machine.along_cons_iff _ rfl).mpr ⟨fun _ => .inl (.inl rfl), ?_⟩
  refine (Machine.along_cons_iff _ rfl).mpr ⟨trivial, ?_⟩
  refine (Machine.along_cons_iff _ rfl).mpr ⟨trivial, ?_⟩
  refine (Machine.along_cons_iff _ rfl).mpr ⟨trivial, ?_⟩
  refine (Machine.along_cons_iff _ rfl).mpr ⟨fun _ => (by decide : ¬ Place.waiting.BeforeWait), ?_⟩
  refine (Machine.along_cons_iff _ rfl).mpr ⟨trivial, ?_⟩
  refine (Machine.along_cons_iff _ rfl).mpr ⟨trivial, ?_⟩
  exact (Machine.along_cons_iff _ rfl).mpr ⟨trivial, trivial⟩

theorem sendThreads_shutDown_in_time :
    (machine AMQPRPC.sendLoop).Throughout ShutsDown (drainedInTime ⟨"", "", "", ""⟩) (start []) ∧
      (machine SocketIOServer.sendLoop).Throughout ShutsDown (drainedInTime ⟨"", ""⟩)
        (start ⟨[], []⟩) :=
  ⟨((sendThreads_shutDown_iff [] ⟨[], []⟩).1 _).1 (along_drainedInTime _ _ _),
    ((sendThreads_shutDown_iff [] ⟨[], []⟩).2 _).1 (along_drainedInTime _ _ _)⟩

/-- In every interleaving the messages handed over are the first ones pushed, in their order, and
they are what `send` is given, or `sendMessage` for a client that is connected; and the thread
sleeps on no message while nobody has the mutex. -/
theorem sendQueues_lossless :
    (∀ s, (machine AMQPRPC.sendLoop).Reachable s → s.Lossless ∧ s.handed <+: s.pushed) ∧
    (∀ s, (machine SocketIOServer.sendLoop).Reachable s → s.Lossless ∧ s.handed <+: s.pushed) ∧
    (∀ (sent : List AMQPRPC.AMQPData) as s, (∀ env, .others env ∉ as) →
      (machine AMQPRPC.sendLoop).run as (start sent) = some s → s.env = sent ++ s.handed) ∧
    ∀ (clients : SocketIOServer.Clients) as s, (∀ env, .others env ∉ as) →
      (machine SocketIOServer.sendLoop).run as (start clients) = some s →
        s.env.sent = clients.sent ++ s.handed.filter (·.client_id ∈ clients.clients_) := by
  refine ⟨fun s h => ?_, fun s h => ?_, fun sent as s hown hrun => ?_,
    fun clients as s hown hrun => ?_⟩
  · exact ⟨reachable_lossless h, (reachable_lossless h).handed_prefix_pushed⟩
  · exact ⟨reachable_lossless h, (reachable_lossless h).handed_prefix_pushed⟩
  · have henv : s.env = handAll AMQPRPC.sendLoop sent s.handed := run_env rfl hown hrun
    rw [henv, AMQPRPC.handAll_sendLoop]
  · have henv : s.env = handAll SocketIOServer.sendLoop clients s.handed := run_env rfl hown hrun
    rw [henv, SocketIOServer.handAll_sendLoop]

variable {D E : Type}

/-- `close` clears `run_` and notifies between the thread's test and its wait. -/
def lostWakeup : List (Action D E) := [.test, .clearRun, .notifyAll, .lock, .wait]

/-- A message is pushed while the thread waits, and `run_` is cleared before it tests it. -/
def lostMessage (data : D) : List (Action D E) :=
  [.test, .lock, .wait, .acquire data, .push, .notifyOne, .release, .clearRun, .notifyAll, .wake,
    .test]

theorem lostWakeup_hangs (hand : D → E → E) (env : E) :
    ¬ (machine hand).Throughout ShutsDown lostWakeup (start env) := by
  intro h
  have hhangs : ∃ s, (machine hand).run lostWakeup (start env) = some s ∧ s.Hangs := by
    refine ⟨_, rfl, rfl, rfl, ?_⟩
    rintro (⟨data, hmux⟩ | hmux)
    · cases hmux
    · cases hmux
  obtain ⟨s, hs, hhangs⟩ := hhangs
  exact (h.last hs).joins hhangs

theorem lostMessage_stays (hand : D → E → E) (env : E) (data : D) :
    ¬ (machine hand).Throughout ShutsDown (lostMessage data) (start env) := by
  intro h
  have hlost : ∃ s, (machine hand).run (lostMessage data) (start env) = some s ∧
      s.place = .exited ∧ s.pushed.take s.early = [data] ∧ s.handed = [] := ⟨_, rfl, rfl, rfl, rfl⟩
  obtain ⟨s, hs, hexited, hpushed, hhanded⟩ := hlost
  have hprefix := (h.last hs).handed hexited
  rw [hpushed, hhanded] at hprefix
  exact absurd hprefix.length_le (by simp)

/-- A join that hangs, and a message that is never sent. -/
theorem shutdown_loses :
    ¬ (machine AMQPRPC.sendLoop).Throughout ShutsDown lostWakeup (start []) ∧
      ¬ (machine AMQPRPC.sendLoop).Throughout ShutsDown (lostMessage ⟨"", "", "", ""⟩) (start []) ∧
      ¬ (machine SocketIOServer.sendLoop).Throughout ShutsDown lostWakeup (start ⟨[], []⟩) ∧
      ¬ (machine SocketIOServer.sendLoop).Throughout ShutsDown (lostMessage ⟨"", ""⟩)
        (start ⟨[], []⟩) :=
  ⟨lostWakeup_hangs _ _, lostMessage_stays _ _ _, lostWakeup_hangs _ _, lostMessage_stays _ _ _⟩

end SendThread
