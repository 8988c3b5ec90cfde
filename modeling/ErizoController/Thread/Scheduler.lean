import ErizoController.Library.Agenda
import ErizoController.Library.Machine
import Mathlib.Algebra.Order.BigOperators.Group.Finset
import Mathlib.Tactic.Positivity
import Mathlib.Tactic.TFAE

/-!
# Scheduler

A scheduler keeps its tasks in a multimap from the times at which they are due, and service
threads wait for the first of them:

    while (!stop_requested_ && !(stop_when_empty_ && task_queue_.empty())) {
      while (!stop_requested_ && !stop_when_empty_ && task_queue_.empty()) wait(lock);
      while (!stop_requested_ && !task_queue_.empty() &&
             wait_until(lock, task_queue_.begin()->first) != timeout) {}
      if (stop_requested_) break;
      if (task_queue_.empty()) continue;
      take the first task; unlock; f(); lock;
    }

`schedule` and `stop` change the queue and the flags under the mutex and notify after it. A
thread whose wait has timed out takes the first task of that moment, which need not be the one
it has waited for.
-/

/-- Where a service thread stands in `serviceQueue`. The mutex is held at `test`, `idle`,
`timed` and `chosen`: the tests of the three loops, and what comes after them. -/
inductive Service (F : Type) where
  | starting
  | test
  | idle
  | waiting
  | notified
  | timed
  | sleeping (time : ℤ)
  | roused (time : ℤ)
  | expired
  | chosen
  | running (f : F)
  | ran
  | exited
  deriving DecidableEq

namespace Service

variable {F : Type}

def Holds : Service F → Prop
  | test | idle | timed | chosen => True
  | _ => False

/-- The thread waits on the condition variable. -/
def Waits : Service F → Prop
  | waiting | sleeping _ => True
  | _ => False

instance (p : Service F) : Decidable p.Waits := by
  cases p <;> first | exact isTrue trivial | exact isFalse fun h => h

/-- A notify, or a spurious wake-up, ends a wait. -/
def rouse : Service F → Service F
  | waiting => notified
  | sleeping time => roused time
  | p => p

/-- Where a thread that needs the mutex goes on once it has it. -/
def resume : Service F → Option (Service F)
  | starting => some test
  | notified => some idle
  | roused _ => some timed
  | expired => some chosen
  | ran => some test
  | _ => none

theorem rouse_not_waits (p : Service F) : ¬ p.rouse.Waits := by
  cases p <;> exact fun h => h

theorem rouse_holds {p : Service F} : p.rouse.Holds ↔ p.Holds := by
  cases p <;> exact Iff.rfl

theorem rouse_eq_exited {p : Service F} : p.rouse = exited ↔ p = exited := by
  cases p <;> simp [rouse]

theorem Waits.not_holds {p : Service F} (h : p.Waits) : ¬ p.Holds := by
  cases p <;> first | exact fun hh => hh | exact h.elim

theorem resume_holds {p q : Service F} (h : p.resume = some q) : q.Holds ∧ ¬ p.Holds := by
  cases p <;> cases h <;> exact ⟨trivial, fun hh => hh⟩

/-- A thread that has not left counts for one. -/
def present : Service F → ℕ
  | exited => 0
  | _ => 1

/-- How many steps a thread has to go once it has been asked to leave. -/
def left : Service F → ℕ
  | test | chosen => 1
  | starting | timed | expired | ran => 2
  | idle | roused _ | running _ => 3
  | notified => 4
  | waiting | sleeping _ | exited => 0

theorem rouse_present (p : Service F) : p.rouse.present = p.present := by
  cases p <;> rfl

theorem resume_present {p q : Service F} (h : p.resume = some q) :
    q.present = 1 ∧ p.present = 1 := by
  cases p <;> cases h <;> exact ⟨rfl, rfl⟩

theorem resume_left {p q : Service F} (h : p.resume = some q) :
    p.left = q.left + 1 := by
  cases p <;> cases h <;> rfl

theorem left_le (p : Service F) : p.left ≤ 4 := by
  cases p <;> simp [left]

end Service

/-- A task that a thread has taken, the time on the clock then, and how many tasks had been
scheduled by then. -/
structure Taken (F : Type) where
  task : ℤ × F
  clock : ℤ
  known : ℕ

/-- A scheduler with the service threads `ι`. `notifyOnes` and `notifyAlls` count the calls of
`schedule` and `stop` that have yet to notify; `scheduled` and `taken` are all tasks so far. -/
structure Scheduler (ι F : Type) where
  task_queue_ : List (ℤ × F)
  new_task_mutex_ : Option ι
  n_threads_servicing_queue_ : ℤ
  stop_requested_ : Bool
  stop_when_empty_ : Bool
  group_ : ι → Service F
  now : ℤ
  aborted : Bool
  notifyOnes : ℕ
  notifyAlls : ℕ
  scheduled : List (ℤ × F)
  taken : List (Taken F)

namespace Scheduler

open Agenda

variable {ι F : Type}

/-- The scheduler as its constructor leaves it. -/
def start (ι F : Type) [Fintype ι] (now : ℤ) : Scheduler ι F where
  task_queue_ := []
  new_task_mutex_ := none
  n_threads_servicing_queue_ := Fintype.card ι
  stop_requested_ := false
  stop_when_empty_ := false
  group_ := fun _ => .starting
  now
  aborted := false
  notifyOnes := 0
  notifyAlls := 0
  scheduled := []
  taken := []

/-- `join_all` has returned. -/
def Joined (s : Scheduler ι F) : Prop := ∀ i, s.group_ i = .exited

instance [Fintype ι] [DecidableEq F] (s : Scheduler ι F) : Decidable s.Joined :=
  inferInstanceAs (Decidable (∀ i, s.group_ i = .exited))

/-! ## Queue, mutex and threads -/

/-- The queue, what has been scheduled and what has been taken change in two ways. -/
inductive Data (s : Scheduler ι F) : Scheduler ι F → Prop
  | same {s'} (hqueue : s'.task_queue_ = s.task_queue_) (hscheduled : s'.scheduled = s.scheduled)
      (htaken : s'.taken = s.taken) : Data s s'
  | schedule {s'} {e : ℤ × F} (hqueue : s'.task_queue_ = insert e s.task_queue_)
      (hscheduled : s'.scheduled = s.scheduled ++ [e]) (htaken : s'.taken = s.taken) : Data s s'
  | take {s'} {e : ℤ × F} {rest : List (ℤ × F)} (hfirst : s.task_queue_ = e :: rest)
      (hqueue : s'.task_queue_ = rest) (hscheduled : s'.scheduled = s.scheduled)
      (htaken : s'.taken = s.taken ++ [⟨e, s.now, s.scheduled.length⟩]) : Data s s'

/-- For every time, the tasks taken and those in the queue are, in this order, the tasks that
were scheduled for it; and when a task is taken, the tasks known by then for earlier times
have all been taken. -/
structure InOrder (s : Scheduler ι F) : Prop where
  sorted : Sorted s.task_queue_
  all : ∀ t, entriesAt t (s.taken.map Taken.task) ++ entriesAt t s.task_queue_ =
    entriesAt t s.scheduled
  first : ∀ done x later, s.taken = done ++ x :: later → ∀ t < x.task.1,
    entriesAt t (done.map Taken.task) = entriesAt t (s.scheduled.take x.known)
  known : ∀ x ∈ s.taken, x.known ≤ s.scheduled.length

theorem InOrder.start [Fintype ι] (now : ℤ) : InOrder (start ι F now) where
  sorted := List.Pairwise.nil
  all _ := rfl
  first done x later h := by
    have hnil : done ++ x :: later = [] := h.symm
    exact absurd hnil (by simp)
  known x h := nomatch h

theorem InOrder.schedule {s : Scheduler ι F} (h : s.InOrder) (e : ℤ × F) {s' : Scheduler ι F}
    (hqueue : s'.task_queue_ = insert e s.task_queue_)
    (hscheduled : s'.scheduled = s.scheduled ++ [e]) (htaken : s'.taken = s.taken) :
    s'.InOrder where
  sorted := hqueue ▸ h.sorted.insert
  all t := by
    rw [hqueue, htaken, hscheduled, h.sorted.entriesAt_insert, entriesAt_append, ← h.all t,
      List.append_assoc]
  first done x later hsplit t ht := by
    rw [htaken] at hsplit
    have hknown : x.known ≤ s.scheduled.length := h.known x (by simp [hsplit])
    rw [hscheduled, List.take_append_of_le_length hknown]
    exact h.first done x later hsplit t ht
  known x hx := by
    rw [htaken] at hx
    rw [hscheduled, List.length_append]
    exact (h.known x hx).trans (Nat.le_add_right _ _)

theorem InOrder.take {s : Scheduler ι F} (h : s.InOrder) {e : ℤ × F} {rest : List (ℤ × F)}
    (hfirst : s.task_queue_ = e :: rest) {s' : Scheduler ι F} (hqueue : s'.task_queue_ = rest)
    (hscheduled : s'.scheduled = s.scheduled)
    (htaken : s'.taken = s.taken ++ [⟨e, s.now, s.scheduled.length⟩]) : s'.InOrder where
  sorted := hqueue ▸ (hfirst ▸ h.sorted).tail
  all t := by
    have hall := h.all t
    rw [hfirst, entriesAt_cons] at hall
    rw [hqueue, htaken, hscheduled, ← hall, List.map_append, entriesAt_append,
      List.append_assoc]
    rfl
  first done x later hsplit t ht := by
    rw [htaken] at hsplit
    rw [hscheduled]
    rcases List.eq_nil_or_concat later with rfl | ⟨later', y, rfl⟩
    · -- the task that is taken now: nothing in the queue stands before its time
      obtain ⟨rfl, hx⟩ := List.append_inj' hsplit rfl
      obtain rfl := List.singleton_inj.mp hx
      have hnil : entriesAt t s.task_queue_ = [] := by
        rw [hfirst]
        exact (hfirst ▸ h.sorted).entriesAt_eq_nil ht
      rw [List.take_length, ← h.all t, hnil, List.append_nil]
    · rw [List.concat_eq_append, ← List.cons_append, ← List.append_assoc] at hsplit
      exact h.first done x later' (List.append_inj' hsplit rfl).1 t ht
  known x hx := by
    rw [htaken] at hx
    rw [hscheduled]
    rcases List.mem_append.mp hx with hx | hx
    · exact h.known x hx
    · obtain rfl := List.mem_singleton.mp hx
      exact Nat.le_refl _

theorem InOrder.data {s s' : Scheduler ι F} (h : s.InOrder) (hdata : Data s s') :
    s'.InOrder := by
  cases hdata with
  | same hqueue hscheduled htaken =>
      exact {
        sorted := hqueue ▸ h.sorted
        all := hqueue ▸ hscheduled ▸ htaken ▸ h.all
        first := hscheduled ▸ htaken ▸ h.first
        known := hscheduled ▸ htaken ▸ h.known }
  | schedule hqueue hscheduled htaken => exact h.schedule _ hqueue hscheduled htaken
  | take hfirst hqueue hscheduled htaken => exact h.take hfirst hqueue hscheduled htaken

/-- Some task in the queue is due at a time. -/
def Due (time : ℤ) (queue : List (ℤ × F)) : Prop := ∃ e ∈ queue, e.1 ≤ time

theorem Due.mono {time time' : ℤ} {queue : List (ℤ × F)} (h : Due time queue)
    (htime : time ≤ time') : Due time' queue := by
  obtain ⟨e, he, hle⟩ := h
  exact ⟨e, he, hle.trans htime⟩

theorem Due.insert {time : ℤ} {queue : List (ℤ × F)} (h : Due time queue) (e : ℤ × F) :
    Due time (insert e queue) := by
  obtain ⟨e', he', hle⟩ := h
  exact ⟨e', mem_insert.mpr (.inr he'), hle⟩

theorem Due.first {time : ℤ} {e : ℤ × F} {rest : List (ℤ × F)} (h : Due time (e :: rest))
    (hsorted : Sorted (e :: rest)) : e.1 ≤ time := by
  obtain ⟨e', he', hle⟩ := h
  rcases List.mem_cons.mp he' with rfl | he'
  · exact hle
  · exact (hsorted.le he').trans hle

/-- A thread that waits for a time has a task due by then, and one that is about to take a task
has one due now. -/
def Ready (s : Scheduler ι F) : Service F → Prop
  | .sleeping time | .roused time => Due time s.task_queue_
  | .expired => Due s.now s.task_queue_
  | .chosen => s.stop_requested_ = false → s.task_queue_ ≠ [] → Due s.now s.task_queue_
  | _ => True

theorem Ready.rouse {s : Scheduler ι F} {p : Service F} (h : s.Ready p) : s.Ready p.rouse := by
  cases p <;> exact h

theorem Ready.resume {s : Scheduler ι F} {p q : Service F} (h : s.Ready p)
    (hq : p.resume = some q) : s.Ready q := by
  cases p <;> cases hq
  case expired => exact fun _ _ => h
  all_goals trivial

/-- A thread stays ready when tasks are added and the clock goes on. -/
theorem Ready.mono {s s' : Scheduler ι F} {p : Service F} (h : s.Ready p)
    (hdue : ∀ time, Due time s.task_queue_ → Due time s'.task_queue_) (hnow : s.now ≤ s'.now)
    (hchosen : p = .chosen →
      s'.stop_requested_ = s.stop_requested_ ∧ s'.task_queue_ = s.task_queue_) :
    s'.Ready p := by
  cases p with
  | sleeping time | roused time => exact hdue time h
  | expired => exact (hdue _ h).mono hnow
  | chosen =>
      obtain ⟨hstop, hqueue⟩ := hchosen rfl
      rw [Ready, hstop, hqueue]
      exact fun hgo hne => (h hgo hne).mono hnow
  | _ => trivial

/-- The mutex is held by the thread that is between its acquisition and its release. -/
def Exclusive (s : Scheduler ι F) : Prop :=
  ∀ i, (s.group_ i).Holds ↔ s.new_task_mutex_ = some i

theorem Exclusive.ne_chosen {s : Scheduler ι F} (h : s.Exclusive)
    (hfree : s.new_task_mutex_ = none) (i : ι) : s.group_ i ≠ .chosen := by
  intro hplace
  have hheld := (h i).mp (by simp [hplace, Service.Holds])
  exact nomatch hfree.symm.trans hheld

/-! ## The steps -/

variable [DecidableEq ι]

/-- `serve` is the next step of a thread, `raise` the end of its task by an exception, and
`expire` the end of its wait by a timeout. The clock is the system's. -/
inductive Action (ι F : Type) where
  | serve (i : ι)
  | raise (i : ι)
  | spurious (i : ι)
  | expire (i : ι)
  | schedule (f : F) (time : ℤ)
  | notifyOne (i : ι)
  | notifyNone
  | stop (drain : Bool)
  | notifyAll
  | tick (now : ℤ)

def move (i : ι) (p : Service F) (s : Scheduler ι F) : Scheduler ι F :=
  { s with group_ := Function.update s.group_ i p }

@[simp] theorem move_self (i : ι) (p : Service F) (s : Scheduler ι F) :
    (s.move i p).group_ i = p := Function.update_self ..

theorem move_of_ne {i j : ι} (h : j ≠ i) (p : Service F) (s : Scheduler ι F) :
    (s.move i p).group_ j = s.group_ j := Function.update_of_ne h ..

/-- A thread goes on without the mutex. -/
def release (i : ι) (p : Service F) (s : Scheduler ι F) : Scheduler ι F :=
  { s.move i p with new_task_mutex_ := none }

/-- A thread leaves `serviceQueue`. -/
def leave (i : ι) (s : Scheduler ι F) : Scheduler ι F :=
  { s.release i .exited with n_threads_servicing_queue_ := s.n_threads_servicing_queue_ - 1 }

/-- A thread takes the first task and unlocks. -/
def take (i : ι) (e : ℤ × F) (rest : List (ℤ × F)) (s : Scheduler ι F) : Scheduler ι F :=
  { s.release i (.running e.2) with
    task_queue_ := rest
    taken := s.taken ++ [⟨e, s.now, s.scheduled.length⟩] }

/-- The next step of a service thread. -/
def serviceQueue (i : ι) (s : Scheduler ι F) : Option (Scheduler ι F) :=
  match s.group_ i with
  | .test =>
      some (if !s.stop_requested_ && !(s.stop_when_empty_ && s.task_queue_.isEmpty) then
          s.move i .idle
        else s.leave i)
  | .idle =>
      some (if !s.stop_requested_ && !s.stop_when_empty_ && s.task_queue_.isEmpty then
          s.release i .waiting
        else s.move i .timed)
  | .timed =>
      some (match s.stop_requested_, s.task_queue_ with
        | false, e :: _ => s.release i (.sleeping e.1)
        | _, _ => s.move i .chosen)
  | .chosen =>
      some (match s.stop_requested_, s.task_queue_ with
        | true, _ => s.leave i
        | false, [] => s.move i .test
        | false, e :: rest => s.take i e rest)
  | .running _ => some (s.move i .ran)
  | p =>
      match p.resume, s.new_task_mutex_ with
      | some q, none => some { s.move i q with new_task_mutex_ := some i }
      | _, _ => none

/-- The steps of the threads, of the clock, and of the callers of `schedule` and `stop`. -/
def act [Fintype ι] : Action ι F → Scheduler ι F → Option (Scheduler ι F)
  | .serve i, s => s.serviceQueue i
  | .raise i, s =>
      match s.group_ i with
      | .running _ => some { s with
          n_threads_servicing_queue_ := s.n_threads_servicing_queue_ - 1, aborted := true }
      | _ => none
  | .spurious i, s => if (s.group_ i).Waits then some (s.move i (s.group_ i).rouse) else none
  | .expire i, s =>
      match s.group_ i with
      | .sleeping time | .roused time =>
          if time ≤ s.now then some (s.move i .expired) else none
      | _ => none
  | .schedule f time, s =>
      if s.new_task_mutex_.isNone then
        some { s with
          task_queue_ := insert (time, f) s.task_queue_
          notifyOnes := s.notifyOnes + 1
          scheduled := s.scheduled ++ [(time, f)] }
      else none
  | .notifyOne i, s =>
      if 0 < s.notifyOnes ∧ (s.group_ i).Waits then
        some { s.move i (s.group_ i).rouse with notifyOnes := s.notifyOnes - 1 }
      else none
  | .notifyNone, s =>
      if 0 < s.notifyOnes ∧ ∀ i, ¬ (s.group_ i).Waits then
        some { s with notifyOnes := s.notifyOnes - 1 }
      else none
  | .stop drain, s =>
      if s.new_task_mutex_.isNone then
        some { s with
          stop_requested_ := s.stop_requested_ || !drain
          stop_when_empty_ := s.stop_when_empty_ || drain
          notifyAlls := s.notifyAlls + 1 }
      else none
  | .notifyAll, s =>
      if 0 < s.notifyAlls then
        some { s with
          group_ := fun i => (s.group_ i).rouse
          notifyAlls := s.notifyAlls - 1 }
      else none
  | .tick now, s => some { s with now }

/-- An exception in a task runs into `assert(false)`, and nothing comes after it. -/
def step [Fintype ι] (a : Action ι F) (s : Scheduler ι F) : Option (Scheduler ι F) :=
  if s.aborted then none else act a s

def machine (ι F : Type) [DecidableEq ι] [Fintype ι] :
    Machine (Action ι F) (Scheduler ι F) where
  init s := ∃ now, s = start ι F now
  step := step

/-- The clock does not go back. -/
def Forward : Action ι F → Scheduler ι F → Prop
  | .tick now, s => s.now ≤ now
  | _, _ => True

/-- Nothing is scheduled once all threads have left. -/
def Served : Action ι F → Scheduler ι F → Prop
  | .schedule _ _, s => ∃ i, s.group_ i ≠ .exited
  | _, _ => True

/-! ## One step -/

/-- What a service thread does, with what it asks for. -/
inductive Serves (i : ι) (s : Scheduler ι F) : Scheduler ι F → Prop
  | enter (hplace : s.group_ i = .test) (hstop : s.stop_requested_ = false) :
      Serves i s (s.move i .idle)
  | quit (hplace : s.group_ i = .test ∨ s.group_ i = .chosen)
      (hleave : s.stop_requested_ = false → s.task_queue_ = []) : Serves i s (s.leave i)
  | wait (hplace : s.group_ i = .idle) (hstop : s.stop_requested_ = false)
      (hqueue : s.task_queue_ = []) : Serves i s (s.release i .waiting)
  | watch (hplace : s.group_ i = .idle) : Serves i s (s.move i .timed)
  | sleep {e : ℤ × F} {rest : List (ℤ × F)} (hplace : s.group_ i = .timed)
      (hstop : s.stop_requested_ = false) (hqueue : s.task_queue_ = e :: rest) :
      Serves i s (s.release i (.sleeping e.1))
  | choose (hplace : s.group_ i = .timed)
      (hnone : s.stop_requested_ = false → s.task_queue_ = []) : Serves i s (s.move i .chosen)
  | again (hplace : s.group_ i = .chosen) (hstop : s.stop_requested_ = false)
      (hqueue : s.task_queue_ = []) : Serves i s (s.move i .test)
  | take {e : ℤ × F} {rest : List (ℤ × F)} (hplace : s.group_ i = .chosen)
      (hstop : s.stop_requested_ = false) (hqueue : s.task_queue_ = e :: rest) :
      Serves i s (s.take i e rest)
  | finish {f : F} (hplace : s.group_ i = .running f) : Serves i s (s.move i .ran)
  | lock {q : Service F} (hplace : (s.group_ i).resume = some q)
      (hfree : s.new_task_mutex_ = none) :
      Serves i s { s.move i q with new_task_mutex_ := some i }

theorem serves_of_serviceQueue {i : ι} {s s' : Scheduler ι F} (h : s.serviceQueue i = some s') :
    Serves i s s' := by
  unfold serviceQueue at h
  split at h
  · rename_i hplace
    obtain rfl := Option.some.inj h
    split
    · rename_i hgo
      simp only [Bool.and_eq_true, Bool.not_eq_true'] at hgo
      exact .enter hplace hgo.1
    · rename_i hquit
      refine .quit (.inl hplace) fun hstop => ?_
      have hdone : s.stop_when_empty_ = true ∧ s.task_queue_ = [] := by simpa [hstop] using hquit
      exact hdone.2
  · rename_i hplace
    obtain rfl := Option.some.inj h
    split
    · rename_i hwait
      simp only [Bool.and_eq_true, Bool.not_eq_true', List.isEmpty_iff] at hwait
      exact .wait hplace hwait.1.1 hwait.2
    · exact .watch hplace
  · rename_i hplace
    obtain rfl := Option.some.inj h
    split
    · exact .sleep hplace ‹_› ‹_›
    · rename_i hnone
      refine .choose hplace fun hstop => ?_
      exact List.eq_nil_iff_forall_not_mem.mpr fun e he => by
        obtain ⟨a, l, hl⟩ := List.exists_cons_of_ne_nil (List.ne_nil_of_mem he)
        exact hnone a l hstop hl
  · rename_i hplace
    obtain rfl := Option.some.inj h
    split
    · rename_i hstop
      exact .quit (.inr hplace) fun hgo => nomatch hstop.symm.trans hgo
    · exact .again hplace ‹_› ‹_›
    · exact .take hplace ‹_› ‹_›
  · exact Option.some.inj h ▸ .finish ‹_›
  · split at h
    · exact Option.some.inj h ▸ .lock ‹_› ‹_›
    · cases h

/-- The steps of everything else, with what they ask for. -/
inductive Steps [Fintype ι] : Action ι F → Scheduler ι F → Scheduler ι F → Prop
  | serve {i s s'} (h : Serves i s s') : Steps (.serve i) s s'
  | raise {i s} {f : F} (hplace : s.group_ i = .running f) :
      Steps (.raise i) s { s with
        n_threads_servicing_queue_ := s.n_threads_servicing_queue_ - 1, aborted := true }
  | spurious {i s} (hwaits : (s.group_ i).Waits) :
      Steps (.spurious i) s (s.move i (s.group_ i).rouse)
  | expire {i s time} (hplace : s.group_ i = .sleeping time ∨ s.group_ i = .roused time)
      (htime : time ≤ s.now) : Steps (.expire i) s (s.move i .expired)
  | schedule {s} {f : F} {time : ℤ} (hfree : s.new_task_mutex_ = none) :
      Steps (.schedule f time) s { s with
        task_queue_ := insert (time, f) s.task_queue_
        notifyOnes := s.notifyOnes + 1
        scheduled := s.scheduled ++ [(time, f)] }
  | notifyOne {i s} (hwaits : (s.group_ i).Waits) :
      Steps (.notifyOne i) s { s.move i (s.group_ i).rouse with notifyOnes := s.notifyOnes - 1 }
  | notifyNone {s} : Steps .notifyNone s { s with notifyOnes := s.notifyOnes - 1 }
  | stop {s} {drain : Bool} (hfree : s.new_task_mutex_ = none) :
      Steps (.stop drain) s { s with
        stop_requested_ := s.stop_requested_ || !drain
        stop_when_empty_ := s.stop_when_empty_ || drain
        notifyAlls := s.notifyAlls + 1 }
  | notifyAll {s} (hcalls : 0 < s.notifyAlls) :
      Steps .notifyAll s { s with
        group_ := fun i => (s.group_ i).rouse
        notifyAlls := s.notifyAlls - 1 }
  | tick {s} {now : ℤ} : Steps (.tick now) s { s with now }

theorem act_cases [Fintype ι] {a : Action ι F} {s s' : Scheduler ι F}
    (h : act a s = some s') : Steps a s s' := by
  cases a with
  | serve i => exact .serve (serves_of_serviceQueue h)
  | raise i =>
      simp only [act] at h
      split at h
      · exact Option.some.inj h ▸ .raise ‹_›
      · cases h
  | spurious i =>
      simp only [act] at h
      split at h
      · exact Option.some.inj h ▸ .spurious ‹_›
      · cases h
  | expire i =>
      simp only [act] at h
      split at h
      · split at h
        · exact Option.some.inj h ▸ .expire (.inl ‹_›) ‹_›
        · cases h
      · split at h
        · exact Option.some.inj h ▸ .expire (.inr ‹_›) ‹_›
        · cases h
      · cases h
  | schedule f time =>
      simp only [act] at h
      split at h
      · exact Option.some.inj h ▸ .schedule (Option.isNone_iff_eq_none.mp ‹_›)
      · cases h
  | notifyOne i =>
      simp only [act] at h
      split at h
      · rename_i hone
        exact Option.some.inj h ▸ .notifyOne hone.2
      · cases h
  | notifyNone =>
      simp only [act] at h
      split at h
      · exact Option.some.inj h ▸ .notifyNone
      · cases h
  | stop drain =>
      simp only [act] at h
      split at h
      · exact Option.some.inj h ▸ .stop (Option.isNone_iff_eq_none.mp ‹_›)
      · cases h
  | notifyAll =>
      simp only [act] at h
      split at h
      · exact Option.some.inj h ▸ .notifyAll ‹_›
      · cases h
  | tick now => exact Option.some.inj h ▸ .tick

theorem step_cases [Fintype ι] {a : Action ι F} {s s' : Scheduler ι F}
    (h : step a s = some s') : s.aborted = false ∧ Steps a s s' := by
  rw [step] at h
  split at h
  · cases h
  · rename_i hrun
    exact ⟨Bool.eq_false_iff.mpr hrun, act_cases h⟩

theorem Serves.data {i : ι} {s s' : Scheduler ι F} (h : Serves i s s') : Data s s' := by
  cases h with
  | take _ _ hqueue => exact .take hqueue rfl rfl rfl
  | _ => exact .same rfl rfl rfl

theorem Steps.data [Fintype ι] {a : Action ι F} {s s' : Scheduler ι F} (h : Steps a s s') :
    Data s s' := by
  cases h with
  | serve h => exact h.data
  | schedule => exact .schedule rfl rfl rfl
  | _ => exact .same rfl rfl rfl

theorem Exclusive.move {s : Scheduler ι F} (h : s.Exclusive) {i : ι} {p : Service F}
    (hp : p.Holds ↔ (s.group_ i).Holds) : (s.move i p).Exclusive := by
  intro j
  by_cases hj : j = i
  · subst hj
    rw [move_self, hp]
    exact h j
  · rw [move_of_ne hj]
    exact h j

theorem Exclusive.release {s : Scheduler ι F} (h : s.Exclusive) {i : ι} {p : Service F}
    (hheld : (s.group_ i).Holds) (hp : ¬ p.Holds) : (s.release i p).Exclusive := by
  intro j
  refine iff_of_false ?_ (fun hnone => nomatch hnone)
  change ¬ ((s.move i p).group_ j).Holds
  by_cases hj : j = i
  · subst hj
    rw [move_self]
    exact hp
  · rw [move_of_ne hj]
    exact fun hhold => hj (Option.some.inj (((h j).mp hhold).symm.trans ((h i).mp hheld)))

theorem Exclusive.lock {s : Scheduler ι F} (h : s.Exclusive) {i : ι} {q : Service F}
    (hfree : s.new_task_mutex_ = none) (hq : q.Holds) :
    Exclusive { s.move i q with new_task_mutex_ := some i } := by
  intro j
  change ((s.move i q).group_ j).Holds ↔ some i = some j
  by_cases hj : j = i
  · subst hj
    rw [move_self]
    exact iff_of_true hq rfl
  · rw [move_of_ne hj]
    exact iff_of_false (fun hhold => nomatch hfree.symm.trans ((h j).mp hhold))
      fun hsome => hj (Option.some.inj hsome).symm

theorem Exclusive.serves {i : ι} {s s' : Scheduler ι F} (h : s.Exclusive) (hs : Serves i s s') :
    s'.Exclusive := by
  cases hs with
  | enter hplace => exact h.move (by simp [hplace, Service.Holds])
  | quit hplace =>
      refine Exclusive.release h ?_ id
      rcases hplace with hplace | hplace
      · simp [hplace, Service.Holds]
      · simp [hplace, Service.Holds]
  | wait hplace => exact h.release (by simp [hplace, Service.Holds]) id
  | watch hplace => exact h.move (by simp [hplace, Service.Holds])
  | sleep hplace => exact h.release (by simp [hplace, Service.Holds]) id
  | choose hplace => exact h.move (by simp [hplace, Service.Holds])
  | again hplace => exact h.move (by simp [hplace, Service.Holds])
  | take hplace =>
      exact Exclusive.release h (by simp [hplace, Service.Holds]) id
  | finish hplace => exact h.move (by simp [hplace, Service.Holds])
  | lock hplace hfree => exact h.lock hfree (Service.resume_holds hplace).1

/-- What a scheduler with one thread keeps. -/
structure Punctual (s : Scheduler ι F) : Prop where
  sorted : Sorted s.task_queue_
  exclusive : s.Exclusive
  ready : ∀ i, s.Ready (s.group_ i)
  taken : ∀ x ∈ s.taken, x.task.1 ≤ x.clock

/-- The one thread goes on. -/
theorem Punctual.move [Subsingleton ι] {s s' : Scheduler ι F} (h : s.Punctual) {i : ι}
    {p : Service F} (hp : s.Ready p) (hexclusive : s'.Exclusive)
    (hgroup : s'.group_ = (s.move i p).group_) (hqueue : s'.task_queue_ = s.task_queue_)
    (hstop : s'.stop_requested_ = s.stop_requested_) (hnow : s'.now = s.now)
    (htaken : s'.taken = s.taken) : s'.Punctual where
  sorted := hqueue ▸ h.sorted
  exclusive := hexclusive
  ready j := by
    obtain rfl := Subsingleton.elim j i
    rw [hgroup, move_self]
    exact hp.mono (fun _ hdue => hqueue ▸ hdue) hnow.ge fun _ => ⟨hstop, hqueue⟩
  taken := htaken ▸ h.taken

theorem Punctual.serves [Subsingleton ι] {i : ι} {s s' : Scheduler ι F} (h : s.Punctual)
    (hs : Serves i s s') : s'.Punctual := by
  have hexclusive : s'.Exclusive := h.exclusive.serves hs
  cases hs with
  | enter => exact h.move (p := .idle) trivial hexclusive rfl rfl rfl rfl rfl
  | quit => exact h.move (p := .exited) trivial hexclusive rfl rfl rfl rfl rfl
  | wait => exact h.move (p := .waiting) trivial hexclusive rfl rfl rfl rfl rfl
  | watch => exact h.move (p := .timed) trivial hexclusive rfl rfl rfl rfl rfl
  | again => exact h.move (p := .test) trivial hexclusive rfl rfl rfl rfl rfl
  | finish => exact h.move (p := .ran) trivial hexclusive rfl rfl rfl rfl rfl
  | sleep _ _ hqueue =>
      have hdue : Due _ s.task_queue_ := ⟨_, hqueue ▸ List.mem_cons_self, le_rfl⟩
      exact h.move (p := .sleeping _) hdue hexclusive rfl rfl rfl rfl rfl
  | choose _ hnone =>
      refine h.move (p := .chosen) ?_ hexclusive rfl rfl rfl rfl rfl
      exact fun hstop hne => absurd (hnone hstop) hne
  | lock hplace =>
      exact h.move ((h.ready i).resume hplace) hexclusive rfl rfl rfl rfl rfl
  | @take e rest hplace hstop hqueue =>
      have hsorted : Sorted (e :: rest) := hqueue ▸ h.sorted
      have hdue : Due s.now (e :: rest) := by
        have hready := h.ready i
        rw [hplace] at hready
        exact hqueue ▸ hready hstop (by simp [hqueue])
      exact {
        sorted := hsorted.tail
        exclusive := hexclusive
        ready := fun j => by
          obtain rfl := Subsingleton.elim j i
          change Ready _ ((s.move j (.running e.2)).group_ j)
          rw [move_self]
          trivial
        taken := fun x hx => by
          rcases List.mem_append.mp hx with hx | hx
          · exact h.taken x hx
          · obtain rfl := List.mem_singleton.mp hx
            exact hdue.first hsorted }

/-- Once all threads have left and none was asked to leave at once, the queue is empty. -/
def Drained (s : Scheduler ι F) : Prop :=
  s.Joined → s.stop_requested_ = false → s.task_queue_ = []

/-- A thread that has not left keeps the others from being joined. -/
theorem not_joined_of_move {i : ι} {p : Service F} {s s' : Scheduler ι F}
    (hgroup : s'.group_ = (s.move i p).group_) (hp : p ≠ .exited) : ¬ s'.Joined := by
  intro h
  have hi := h i
  rw [hgroup, move_self] at hi
  exact hp hi

theorem Serves.drained {i : ι} {s s' : Scheduler ι F} (hs : Serves i s s') : s'.Drained := by
  cases hs with
  | quit _ hleave => exact fun _ hstop => hleave hstop
  | lock hplace =>
      have hq := (Service.resume_holds hplace).1
      refine fun h => absurd h (not_joined_of_move rfl fun hexited => ?_)
      rw [hexited] at hq
      exact hq
  | _ => exact fun h => absurd h (not_joined_of_move rfl (by simp))

/-! ## The order of the tasks -/

variable [Fintype ι]

theorem inOrder_of_reaches {P : Action ι F → Scheduler ι F → Prop} {s : Scheduler ι F}
    (h : (machine ι F).Reaches P s) : s.InOrder := by
  refine h.invariant ?_ ?_
  · rintro _ ⟨now, rfl⟩
    exact InOrder.start now
  · intro a s s' hI _ hstep
    exact hI.data (step_cases hstep).2.data

/-- In every run, whatever the number of threads: no task is lost or taken twice, those of one
time are taken in the order in which they were scheduled, and none is taken while one that
was scheduled for an earlier time waits. -/
theorem tasks_in_order {s : Scheduler ι F} (h : (machine ι F).Reachable s) : s.InOrder :=
  inOrder_of_reaches h

/-! ## The mutex -/

theorem Exclusive.steps {a : Action ι F} {s s' : Scheduler ι F} (h : s.Exclusive)
    (hs : Steps a s s') : s'.Exclusive := by
  cases hs with
  | serve hs => exact h.serves hs
  | raise | schedule | notifyNone | stop | tick => exact h
  | spurious => exact h.move Service.rouse_holds
  | notifyOne => exact Exclusive.move h Service.rouse_holds
  | expire hplace =>
      refine h.move (iff_of_false id ?_)
      rcases hplace with hplace | hplace
      · simp [hplace, Service.Holds]
      · simp [hplace, Service.Holds]
  | notifyAll => exact fun j => Service.rouse_holds.trans (h j)

theorem exclusive_of_reaches {P : Action ι F → Scheduler ι F → Prop} {s : Scheduler ι F}
    (h : (machine ι F).Reaches P s) : s.Exclusive := by
  refine h.invariant ?_ ?_
  · rintro _ ⟨now, rfl⟩ i
    exact iff_of_false id (fun hnone => nomatch hnone)
  · intro a s s' hI _ hstep
    exact hI.steps (step_cases hstep).2

/-! ## Early tasks -/

theorem Punctual.start (now : ℤ) : Punctual (start ι F now) where
  sorted := List.Pairwise.nil
  exclusive := exclusive_of_reaches (.init (P := fun _ _ => True) ⟨now, rfl⟩)
  ready _ := trivial
  taken _ h := nomatch h

theorem Punctual.steps [Subsingleton ι] {a : Action ι F} {s s' : Scheduler ι F}
    (h : s.Punctual) (hforward : Forward a s) (hs : Steps a s s') : s'.Punctual := by
  have hexclusive : s'.Exclusive := h.exclusive.steps hs
  cases hs with
  | serve hs => exact h.serves hs
  | raise | notifyNone =>
      exact { sorted := h.sorted, exclusive := hexclusive, ready := h.ready, taken := h.taken }
  | @spurious i => exact h.move (h.ready i).rouse hexclusive rfl rfl rfl rfl rfl
  | @notifyOne i => exact h.move (h.ready i).rouse hexclusive rfl rfl rfl rfl rfl
  | @expire i _ time hplace htime =>
      have hdue : Due time s.task_queue_ := by
        have hready := h.ready i
        rcases hplace with hplace | hplace
        · rwa [hplace] at hready
        · rwa [hplace] at hready
      exact h.move (p := .expired) (hdue.mono htime) hexclusive rfl rfl rfl rfl rfl
  | @schedule _ f time hfree =>
      refine ⟨h.sorted.insert, hexclusive, fun i => ?_, h.taken⟩
      exact (h.ready i).mono (fun _ hdue => hdue.insert _) le_rfl
        fun hplace => absurd hplace (h.exclusive.ne_chosen hfree i)
  | stop hfree =>
      refine ⟨h.sorted, hexclusive, fun i => ?_, h.taken⟩
      exact (h.ready i).mono (fun _ hdue => hdue) le_rfl
        fun hplace => absurd hplace (h.exclusive.ne_chosen hfree i)
  | notifyAll => exact ⟨h.sorted, hexclusive, fun i => (h.ready i).rouse, h.taken⟩
  | tick =>
      refine ⟨h.sorted, hexclusive, fun i => ?_, h.taken⟩
      exact (h.ready i).mono (fun _ hdue => hdue) hforward fun _ => ⟨rfl, rfl⟩

theorem punctual_of_reaches [Subsingleton ι] {s : Scheduler ι F}
    (h : (machine ι F).Reaches Forward s) : s.Punctual := by
  refine h.invariant ?_ ?_
  · rintro _ ⟨now, rfl⟩
    exact Punctual.start now
  · intro a s s' hI hP hstep
    exact hI.steps hP (step_cases hstep).2

/-- A thread that finds a task in the queue waits for its time. -/
theorem run_sleeps {i : ι} {s : Scheduler ι F} {e : ℤ × F} {rest : List (ℤ × F)}
    (hrun : s.aborted = false) (hplace : s.group_ i = .starting)
    (hfree : s.new_task_mutex_ = none) (hstop : s.stop_requested_ = false)
    (hqueue : s.task_queue_ = e :: rest) :
    (machine ι F).run (List.replicate 4 (.serve i)) s = some (s.release i (.sleeping e.1)) := by
  simp [List.replicate, Machine.run, machine, step, act, serviceQueue, move, release,
    Service.resume, hrun, hplace, hfree, hstop, hqueue]

/-- A thread whose wait has timed out takes the first task. -/
theorem run_takes {i : ι} {s : Scheduler ι F} {e : ℤ × F} {rest : List (ℤ × F)}
    (hrun : s.aborted = false) (hplace : s.group_ i = .expired)
    (hfree : s.new_task_mutex_ = none) (hstop : s.stop_requested_ = false)
    (hqueue : s.task_queue_ = e :: rest) :
    (machine ι F).run (List.replicate 2 (.serve i)) s = some (s.take i e rest) := by
  simp [List.replicate, Machine.run, machine, step, act, serviceQueue, move, release, take,
    Service.resume, hrun, hplace, hfree, hstop, hqueue]

theorem step_expires {i : ι} {s : Scheduler ι F} {time : ℤ} (hrun : s.aborted = false)
    (hplace : s.group_ i = .sleeping time) (htime : time ≤ s.now) :
    (machine ι F).step (.expire i) s = some (s.move i .expired) := by
  simp [machine, step, act, hrun, hplace, htime]

/-- Two threads that wait for the same task: both time out, one takes it, and the other takes
the next one. -/
def earlyRun (i j : ι) (f : F) (delay : ℤ) : List (Action ι F) :=
  [.schedule f 0, .schedule f delay] ++
    (List.replicate 4 (.serve i) ++ (List.replicate 4 (.serve j) ++
    ([.expire i, .expire j] ++ (List.replicate 2 (.serve i) ++ List.replicate 2 (.serve j)))))

theorem earlyRun_takes {i j : ι} (hij : i ≠ j) (f : F) {delay : ℤ} (hdelay : 0 ≤ delay) :
    ∃ s, (machine ι F).run (earlyRun i j f delay) (start ι F 0) = some s ∧
      ⟨(delay, f), 0, 2⟩ ∈ s.taken := by
  let scheduled : Scheduler ι F := { start ι F 0 with
    task_queue_ := [(0, f), (delay, f)]
    notifyOnes := 2
    scheduled := [(0, f), (delay, f)] }
  have hscheduled : (machine ι F).run [.schedule f 0, .schedule f delay] (start ι F 0) =
      some scheduled := by
    simp [Machine.run, machine, step, act, start, Agenda.insert, hdelay, scheduled]
  let asleep := (scheduled.release i (.sleeping 0)).release j (.sleeping 0)
  have hasleep : asleep.group_ i = .sleeping 0 := by simp [asleep, release, move, hij]
  have hasleep' : (asleep.move i .expired).group_ j = .sleeping 0 := by
    simp [asleep, release, move, hij.symm]
  let late := (asleep.move i .expired).move j .expired
  have hlate : (machine ι F).run [.expire i, .expire j] asleep = some late := by
    rw [Machine.run_cons, step_expires rfl hasleep le_rfl, Option.bind_some, Machine.run_cons,
      step_expires rfl hasleep' le_rfl, Option.bind_some, Machine.run_nil]
  have hplace : late.group_ i = .expired := by simp [late, move, hij]
  have hplace' : (late.take i (0, f) [(delay, f)]).group_ j = .expired := by
    simp [late, take, release, move, hij.symm]
  refine ⟨(late.take i (0, f) [(delay, f)]).take j (delay, f) [], ?_, ?_⟩
  · rw [earlyRun, Machine.run_append, hscheduled, Option.bind_some, Machine.run_append,
      run_sleeps rfl rfl rfl rfl rfl, Option.bind_some, Machine.run_append,
      run_sleeps rfl (move_of_ne hij.symm _ _) rfl rfl rfl, Option.bind_some,
      Machine.run_append, hlate, Option.bind_some, Machine.run_append,
      run_takes rfl hplace rfl rfl rfl, Option.bind_some, run_takes rfl hplace' rfl rfl rfl]
  · exact List.mem_append_right _ (List.mem_singleton.mpr rfl)

/-- A run of two threads that takes both tasks. -/
theorem tasks_in_order_earlyRun : ∃ s : Scheduler (Fin 2) ℕ,
    ⟨(7, 5), 0, 2⟩ ∈ s.taken ∧ s.InOrder := by
  obtain ⟨s, hrun, hmem⟩ :=
    earlyRun_takes (show (0 : Fin 2) ≠ 1 by decide) 5 (show (0 : ℤ) ≤ 7 by decide)
  have hreaches : (machine (Fin 2) ℕ).Reachable s :=
    Machine.Reaches.run (.init ⟨0, rfl⟩) (fun _ _ => trivial) hrun
  exact ⟨s, hmem, tasks_in_order hreaches⟩

/-- The clock being right, tasks are run early exactly when there is more than one service
thread, and then there is no bound on how early. -/
theorem never_early_tfae (f : F) : List.TFAE [
    Subsingleton ι,
    ∀ s, (machine ι F).Reaches Forward s → ∀ x ∈ s.taken, x.task.1 ≤ x.clock,
    ∃ bound : ℤ, ∀ s, (machine ι F).Reaches Forward s →
      ∀ x ∈ s.taken, x.task.1 ≤ x.clock + bound] := by
  tfae_have 1 → 2 := fun _ s h => (punctual_of_reaches h).taken
  tfae_have 2 → 3 := fun h => ⟨0, fun s hs x hx => by simpa using h s hs x hx⟩
  tfae_have 3 → 1 := by
    rintro ⟨bound, h⟩
    refine ⟨fun i j => by_contra fun hij => ?_⟩
    obtain ⟨s, hrun, hmem⟩ := earlyRun_takes hij f (show 0 ≤ |bound| + 1 by positivity)
    have hforward : ∀ a ∈ earlyRun i j f (|bound| + 1), ∀ s, Forward a s := by
      simp [earlyRun, Forward]
    have hreaches : (machine ι F).Reaches Forward s :=
      Machine.Reaches.run_of_forall_mem (.init ⟨0, rfl⟩) hforward hrun
    have hle := h s hreaches _ hmem
    have habs := le_abs_self bound
    simp only at hle
    omega
  tfae_finish

/-! ## Shutdown -/

theorem Drained.steps {a : Action ι F} {s s' : Scheduler ι F} (h : s.Drained)
    (hserved : Served a s) (hs : Steps a s s') : s'.Drained := by
  cases hs with
  | serve hs => exact hs.drained
  | raise | notifyNone | tick => exact h
  | @spurious i _ hwaits | @notifyOne i _ hwaits =>
      refine fun hjoined => absurd hjoined (not_joined_of_move (i := i) rfl fun hexited => ?_)
      rw [Service.rouse_eq_exited] at hexited
      rw [hexited] at hwaits
      exact hwaits
  | expire => exact fun hjoined => absurd hjoined (not_joined_of_move rfl (by simp))
  | schedule =>
      obtain ⟨i, hi⟩ := hserved
      exact fun hjoined => absurd (hjoined i) hi
  | stop =>
      intro hjoined hstop
      exact h hjoined (Bool.or_eq_false_iff.mp hstop).1
  | notifyAll => exact fun hjoined => h fun i => Service.rouse_eq_exited.mp (hjoined i)

/-- `stop(true)` drains: when all threads have left, and nobody has asked them to leave at
once, every task that was scheduled while a thread was there has been run. -/
theorem drained_of_joined (i : ι) {s : Scheduler ι F} (h : (machine ι F).Reaches Served s)
    (hjoined : s.Joined) (hstop : s.stop_requested_ = false) :
    s.task_queue_ = [] ∧ (s.taken.map Taken.task).Perm s.scheduled := by
  have hdrained : s.Drained := by
    refine h.invariant ?_ ?_
    · rintro _ ⟨now, rfl⟩ hjoined
      exact nomatch hjoined i
    · intro a s s' hI hP hstep
      exact hI.steps hP (step_cases hstep).2
  have hempty : s.task_queue_ = [] := hdrained hjoined hstop
  refine ⟨hempty, ?_⟩
  classical
  refine perm_of_entriesAt fun t => ?_
  rw [← (inOrder_of_reaches h).all t, hempty, entriesAt_nil, List.append_nil]

instance (a : Action ι F) (s : Scheduler ι F) [DecidableEq F] : Decidable (Served a s) := by
  cases a <;> unfold Served <;> infer_instance

/-- One task, and a `stop(true)` that comes before it is due. -/
theorem drained_of_joined_late : ∃ s : Scheduler (Fin 1) ℕ,
    s.scheduled = [(9, 5)] ∧ s.task_queue_ = [] ∧ (s.taken.map Taken.task).Perm s.scheduled := by
  obtain ⟨s, hs, hend⟩ := Machine.exists_reaches_of_runChecked
    (M := machine (Fin 1) ℕ) (P := Served) (p := fun a s => decide (Served a s))
    (q := fun s => s.scheduled = [(9, 5)] ∧ s.Joined ∧ s.stop_requested_ = false)
    (fun a s => of_decide_eq_true) ⟨0, rfl⟩
    (l := [.schedule 5 9, .stop true, .notifyAll, .serve 0, .serve 0, .serve 0, .serve 0,
      .tick 10, .expire 0, .serve 0, .serve 0, .serve 0, .serve 0, .serve 0]) (by decide)
  obtain ⟨hscheduled, hjoined, hstop⟩ := of_decide_eq_true hend
  obtain ⟨hempty, hperm⟩ := drained_of_joined 0 hs hjoined hstop
  exact ⟨s, hscheduled, hempty, hperm⟩

/-- A sum over the threads changes by what the thread that moves contributes. -/
theorem sum_move (w : Service F → ℕ) (i : ι) (p : Service F) (s : Scheduler ι F) :
    ∑ j, w ((s.move i p).group_ j) + w (s.group_ i) = ∑ j, w (s.group_ j) + w p := by
  have hrest : ∑ j ∈ Finset.univ.erase i, w ((s.move i p).group_ j) =
      ∑ j ∈ Finset.univ.erase i, w (s.group_ j) :=
    Finset.sum_congr rfl fun j hj => by rw [move_of_ne (Finset.ne_of_mem_erase hj)]
  rw [← Finset.add_sum_erase _ (fun j => w ((s.move i p).group_ j)) (Finset.mem_univ i),
    ← Finset.add_sum_erase _ (fun j => w (s.group_ j)) (Finset.mem_univ i), hrest, move_self]
  omega

/-- What `stop` relies on: the counter is that of the threads that have not left, and a thread
that waits after `stop(false)` is going to be notified. -/
structure Stoppable (s : Scheduler ι F) : Prop where
  exclusive : s.Exclusive
  counted : s.aborted = false →
    s.n_threads_servicing_queue_ = (∑ i, (s.group_ i).present : ℕ)
  notified : s.stop_requested_ = true → s.notifyAlls = 0 → ∀ i, ¬ (s.group_ i).Waits

theorem Stoppable.start (now : ℤ) : Stoppable (start ι F now) where
  exclusive := exclusive_of_reaches (.init (P := fun _ _ => True) ⟨now, rfl⟩)
  counted _ := by simp [Scheduler.start, Service.present]
  notified h := nomatch h

/-- A thread moves on that stays, and it does not wait. -/
theorem Stoppable.move {s s' : Scheduler ι F} (h : s.Stoppable) {i : ι} {p : Service F}
    (hexclusive : s'.Exclusive) (hgroup : s'.group_ = (s.move i p).group_)
    (hpresent : p.present = (s.group_ i).present)
    (hcount : s'.n_threads_servicing_queue_ = s.n_threads_servicing_queue_)
    (haborted : s'.aborted = s.aborted) (hstop : s'.stop_requested_ = s.stop_requested_)
    (halls : s'.notifyAlls = s.notifyAlls)
    (hwaits : s.stop_requested_ = true → ¬ p.Waits) : s'.Stoppable where
  exclusive := hexclusive
  counted hrun := by
    have hsum := sum_move Service.present i p s
    rw [hcount, h.counted (haborted ▸ hrun), hgroup]
    omega
  notified hreq hall j := by
    rw [hstop] at hreq
    rw [hgroup]
    by_cases hj : j = i
    · subst hj
      rw [move_self]
      exact hwaits hreq
    · rw [move_of_ne hj]
      exact h.notified hreq (halls ▸ hall) j

theorem Stoppable.serves {i : ι} {s s' : Scheduler ι F} (h : s.Stoppable)
    (hs : Serves i s s') : s'.Stoppable := by
  have hexclusive : s'.Exclusive := h.exclusive.serves hs
  cases hs with
  | quit hplace =>
      have hhere : (s.group_ i).present = 1 := by
        rcases hplace with hplace | hplace
        · rw [hplace]
          rfl
        · rw [hplace]
          rfl
      have hsum := sum_move Service.present i .exited s
      refine ⟨hexclusive, fun hrun => ?_, fun hreq hall j => ?_⟩
      · change s.n_threads_servicing_queue_ - 1 = (∑ j, ((s.move i .exited).group_ j).present : ℕ)
        rw [h.counted hrun]
        rw [hhere] at hsum
        change _ = _ + 0 at hsum
        omega
      · change ¬ ((s.move i .exited).group_ j).Waits
        by_cases hj : j = i
        · subst hj
          rw [move_self]
          exact id
        · rw [move_of_ne hj]
          exact h.notified hreq hall j
  | wait hplace hstop | sleep hplace hstop =>
      exact h.move hexclusive rfl (by rw [hplace]; rfl) rfl rfl rfl rfl
        fun hreq => nomatch hstop.symm.trans hreq
  | lock hplace =>
      have hhere := Service.resume_present hplace
      exact h.move hexclusive rfl (hhere.1.trans hhere.2.symm) rfl rfl rfl rfl
        fun _ hwaits => hwaits.not_holds (Service.resume_holds hplace).1
  | enter hplace | watch hplace | choose hplace | again hplace | take hplace | finish hplace =>
      exact h.move hexclusive rfl (by rw [hplace]; rfl) rfl rfl rfl rfl fun _ => id

theorem Stoppable.steps {a : Action ι F} {s s' : Scheduler ι F} (h : s.Stoppable)
    (hs : Steps a s s') : s'.Stoppable := by
  have hexclusive : s'.Exclusive := h.exclusive.steps hs
  cases hs with
  | serve hs => exact h.serves hs
  | raise => exact ⟨hexclusive, (fun hrun => nomatch hrun), h.notified⟩
  | notifyNone | schedule | tick => exact ⟨hexclusive, h.counted, h.notified⟩
  | spurious | notifyOne =>
      exact h.move hexclusive rfl (Service.rouse_present _) rfl rfl rfl rfl
        fun _ => Service.rouse_not_waits _
  | @expire i _ time hplace =>
      have hhere : (s.group_ i).present = 1 := by
        rcases hplace with hplace | hplace
        · rw [hplace]
          rfl
        · rw [hplace]
          rfl
      exact h.move (p := .expired) hexclusive rfl hhere.symm rfl rfl rfl rfl fun _ => id
  | stop => exact ⟨hexclusive, h.counted, fun _ hall => nomatch hall⟩
  | notifyAll =>
      refine ⟨hexclusive, fun hrun => ?_, fun _ _ i => Service.rouse_not_waits _⟩
      simp only [Service.rouse_present]
      exact h.counted hrun

/-- Whose step an action is: that of a service thread, or of nobody in particular. -/
def Action.thread? : Action ι F → Option ι
  | .serve i | .raise i | .spurious i | .expire i => some i
  | _ => none

/-- How many steps a thread has to go where nothing has been aborted. -/
def togo (s : Scheduler ι F) (i : ι) : ℕ := if s.aborted then 0 else (s.group_ i).left

omit [DecidableEq ι] [Fintype ι] in
theorem togo_le (s : Scheduler ι F) (i : ι) : s.togo i ≤ 4 := by
  rw [togo]
  split
  · exact Nat.zero_le 4
  · exact (s.group_ i).left_le

/-- The threads have been asked to leave, and none of them waits. -/
structure Leaving (s : Scheduler ι F) : Prop where
  requested : s.stop_requested_ = true
  roused : ∀ i, ¬ (s.group_ i).Waits

/-- What a step does to threads that have been asked to leave: its own thread has one step less
to go, the others as many as before, and no task is taken. -/
structure Leaves (a : Action ι F) (s s' : Scheduler ι F) : Prop where
  leaving : s'.Leaving
  togo : ∀ i, s'.togo i + (if a.thread? = some i then 1 else 0) ≤ s.togo i
  taken : s'.taken = s.taken

omit [Fintype ι] in
/-- A thread that has been asked to leave moves on, and none begins to wait. -/
theorem Leaves.move {a : Action ι F} {s s' : Scheduler ι F} (hleaving : s.Leaving)
    (hrun : s.aborted = false) {i : ι} {p : Service F} (ha : a.thread? = some i)
    (hgroup : s'.group_ = (s.move i p).group_) (hp : (s.group_ i).left = p.left + 1)
    (hwaits : ¬ p.Waits) (hstop : s'.stop_requested_ = s.stop_requested_)
    (haborted : s'.aborted = s.aborted) (htaken : s'.taken = s.taken) : Leaves a s s' where
  leaving := by
    refine ⟨hstop.trans hleaving.requested, fun j => ?_⟩
    rw [hgroup]
    by_cases hj : j = i
    · subst hj
      rwa [move_self]
    · rw [move_of_ne hj]
      exact hleaving.roused j
  togo j := by
    rw [Scheduler.togo, Scheduler.togo, haborted, hrun, hgroup, ha]
    by_cases hj : j = i
    · subst hj
      simp [hp]
    · simp [move_of_ne hj, Ne.symm hj]
  taken := htaken

omit [Fintype ι] in
theorem Serves.leaves {i : ι} {s s' : Scheduler ι F} (hs : Serves i s s') (hleaving : s.Leaving)
    (hrun : s.aborted = false) : Leaves (.serve i) s s' := by
  have hreq := hleaving.requested
  cases hs with
  | enter _ hstop | wait _ hstop | sleep _ hstop | again _ hstop | take _ hstop =>
      rw [hreq] at hstop
      cases hstop
  | quit hplace =>
      have hhere : (s.group_ i).left = 1 := by
        rcases hplace with hplace | hplace
        · rw [hplace]
          rfl
        · rw [hplace]
          rfl
      exact .move (p := .exited) hleaving hrun rfl rfl hhere id rfl rfl rfl
  | watch hplace =>
      exact .move (p := .timed) hleaving hrun rfl rfl (by rw [hplace]; rfl) id rfl rfl rfl
  | choose hplace =>
      exact .move (p := .chosen) hleaving hrun rfl rfl (by rw [hplace]; rfl) id rfl rfl rfl
  | finish hplace =>
      exact .move (p := .ran) hleaving hrun rfl rfl (by rw [hplace]; rfl) id rfl rfl rfl
  | lock hplace =>
      have hheld := (Service.resume_holds hplace).1
      exact .move hleaving hrun rfl rfl (Service.resume_left hplace) (fun hw => hw.not_holds hheld)
        rfl rfl rfl

omit [Fintype ι] in
/-- Nobody's step: the threads stand where they stood. -/
theorem Leaves.idle {a : Action ι F} {s s' : Scheduler ι F} (hleaving : s.Leaving)
    (ha : a.thread? = none) (hgroup : s'.group_ = s.group_)
    (hstop : s'.stop_requested_ = true) (haborted : s'.aborted = s.aborted)
    (htaken : s'.taken = s.taken) : Leaves a s s' where
  leaving := ⟨hstop, by rw [hgroup]; exact hleaving.roused⟩
  togo i := by
    rw [Scheduler.togo, Scheduler.togo, haborted, hgroup, ha]
    simp
  taken := htaken

theorem Steps.leaves {a : Action ι F} {s s' : Scheduler ι F} (hs : Steps a s s')
    (hleaving : s.Leaving) (hrun : s.aborted = false) : Leaves a s s' := by
  have hreq := hleaving.requested
  cases hs with
  | serve hs => exact hs.leaves hleaving hrun
  | @raise i _ f hplace =>
      refine ⟨⟨hreq, hleaving.roused⟩, fun j => ?_, rfl⟩
      rw [Scheduler.togo, if_pos rfl, Scheduler.togo, hrun, if_neg Bool.false_ne_true]
      by_cases hj : i = j
      · subst hj
        simp [Action.thread?, hplace, Service.left]
      · simp [Action.thread?, hj]
  | spurious hwaits | notifyOne hwaits => exact absurd hwaits (hleaving.roused _)
  | @expire i _ time hplace =>
      have hroused : s.group_ i = .roused time := by
        refine hplace.resolve_left fun hsleeping => hleaving.roused i ?_
        rw [hsleeping]
        trivial
      exact .move (p := .expired) hleaving hrun rfl rfl (by rw [hroused]; rfl) id rfl rfl rfl
  | schedule | notifyNone | tick => exact .idle hleaving rfl rfl hreq rfl rfl
  | stop => exact .idle hleaving rfl rfl (by simp [hreq]) rfl rfl
  | notifyAll =>
      have hsame : (fun i => (s.group_ i).rouse) = s.group_ := by
        funext i
        have hroused := hleaving.roused i
        cases hplace : s.group_ i
        case waiting => exact absurd trivial (by rwa [hplace] at hroused)
        case sleeping => exact absurd trivial (by rwa [hplace] at hroused)
        all_goals rfl
      exact .idle hleaving rfl hsame hreq rfl rfl

/-- As long as some thread has not left, one of them can go on: the one that holds the mutex,
or any of those that need it. -/
theorem Stoppable.serves_some {s : Scheduler ι F} (h : s.Stoppable) (hleaving : s.Leaving)
    (hjoined : ¬ s.Joined) : ∃ i, (s.serviceQueue i).isSome := by
  cases hmutex : s.new_task_mutex_ with
  | some i =>
      have hheld := (h.exclusive i).mpr hmutex
      refine ⟨i, ?_⟩
      cases hplace : s.group_ i <;> simp [serviceQueue, hplace]
      all_goals rw [hplace] at hheld
      all_goals exact hheld.elim
  | none =>
      obtain ⟨i, hi⟩ := not_forall.mp hjoined
      have hheld : ¬ (s.group_ i).Holds := fun hhold =>
        nomatch hmutex.symm.trans ((h.exclusive i).mp hhold)
      have hwaits := hleaving.roused i
      refine ⟨i, ?_⟩
      cases hplace : s.group_ i <;> simp [serviceQueue, hplace, hmutex, Service.resume]
      case exited => exact hi hplace
      all_goals rw [hplace] at hwaits
      all_goals exact hwaits trivial

theorem stoppable_of_reaches {P : Action ι F → Scheduler ι F → Prop} {s : Scheduler ι F}
    (h : (machine ι F).Reaches P s) : s.Stoppable := by
  refine h.invariant ?_ ?_
  · rintro _ ⟨now, rfl⟩
    exact Stoppable.start now
  · intro a s s' hI _ hstep
    exact hI.steps (step_cases hstep).2

/-- A run of threads that have been asked to leave. -/
theorem Leaving.run {s s' : Scheduler ι F} (h : s.Leaving) {as : List (Action ι F)}
    (hrun : (machine ι F).run as s = some s') :
    s'.Leaving ∧ (∀ i, s'.togo i + as.countP (fun a => a.thread? = some i) ≤ s.togo i) ∧
      s'.taken = s.taken := by
  induction as generalizing s with
  | nil =>
      obtain rfl : s = s' := by simpa using hrun
      exact ⟨h, fun i => by simp, rfl⟩
  | cons a as ih =>
      rw [Machine.run_cons] at hrun
      obtain ⟨t, hstep, hrest⟩ := Option.bind_eq_some_iff.mp hrun
      obtain ⟨hgoing, hsteps⟩ := step_cases hstep
      have hleaves := hsteps.leaves h hgoing
      obtain ⟨hleaving, htogo, htaken⟩ := ih hleaves.leaving hrest
      refine ⟨hleaving, fun i => ?_, htaken.trans hleaves.taken⟩
      have hfirst := hleaves.togo i
      have hlater := htogo i
      rw [List.countP_cons]
      simp only [decide_eq_true_eq]
      omega

/-- `stop(false)` returns, whatever the schedule: once its notify has come, each thread has at
most four steps of its own to go in any continuation, and none takes a task; while some thread
has not left, one can go on; and when all have left, the counter that the destructor asserts to
be zero is, unless a task has thrown. -/
theorem stop_returns {P : Action ι F → Scheduler ι F → Prop} {s : Scheduler ι F}
    (h : (machine ι F).Reaches P s) (hreq : s.stop_requested_ = true) (hall : s.notifyAlls = 0)
    {as : List (Action ι F)} {s' : Scheduler ι F} (hrun : (machine ι F).run as s = some s') :
    (∀ i, as.countP (fun a => a.thread? = some i) ≤ 4) ∧ s'.taken = s.taken ∧
      (s'.aborted = false → (s'.Joined → s'.n_threads_servicing_queue_ = 0) ∧
        (¬ s'.Joined → ∃ i t, (machine ι F).step (.serve i) s' = some t)) := by
  have hstoppable := stoppable_of_reaches h
  have hstoppable' := stoppable_of_reaches (h.reachable.run (fun _ _ => trivial) hrun)
  obtain ⟨hleaving, htogo, htaken⟩ := Leaving.run ⟨hreq, hstoppable.notified hreq hall⟩ hrun
  refine ⟨fun i => ?_, htaken, fun hgoing => ⟨fun hjoined => ?_, fun hjoined => ?_⟩⟩
  · have hbound := s.togo_le i
    have hcount := htogo i
    omega
  · rw [hstoppable'.counted hgoing]
    simp [hjoined _, Service.present]
  · obtain ⟨i, hi⟩ := hstoppable'.serves_some hleaving hjoined
    obtain ⟨t, ht⟩ := Option.isSome_iff_exists.mp hi
    refine ⟨i, t, ?_⟩
    change step (.serve i) s' = some t
    rw [step, if_neg (by simp [hgoing])]
    exact ht

/-- A thread that waits when it is asked to leave, and a task that is scheduled after that. -/
theorem stop_returns_waiting : ∃ s s' : Scheduler (Fin 1) ℕ,
    s.group_ 0 = .notified ∧ (machine (Fin 1) ℕ).run
      [.schedule 7 0, .serve 0, .serve 0, .serve 0, .serve 0] s = some s' ∧
      s'.Joined ∧ s'.taken = s.taken ∧ s'.n_threads_servicing_queue_ = 0 := by
  obtain ⟨s, hs, hend⟩ := Machine.exists_reaches_of_runChecked
    (M := machine (Fin 1) ℕ) (P := fun _ _ => True) (p := fun _ _ => true)
    (q := fun s => s.stop_requested_ = true ∧ s.notifyAlls = 0 ∧ s.group_ 0 = .notified ∧
      ((machine (Fin 1) ℕ).run [.schedule 7 0, .serve 0, .serve 0, .serve 0, .serve 0] s).any
        fun t => t.aborted = false ∧ t.Joined)
    (fun _ _ _ => trivial) ⟨0, rfl⟩
    (l := [.serve 0, .serve 0, .serve 0, .stop false, .notifyAll]) (by decide)
  obtain ⟨hreq, hall, hplace, hthen⟩ := of_decide_eq_true hend
  obtain ⟨s', hsteps, hlast⟩ := (Option.any_eq_true _ _).mp hthen
  obtain ⟨hgoing, hjoined⟩ := of_decide_eq_true hlast
  obtain ⟨-, htaken, hreturns⟩ := stop_returns hs hreq hall hsteps
  exact ⟨s, s', hplace, hsteps, hjoined, htaken, (hreturns hgoing).1 hjoined⟩

end Scheduler
