import ErizoController.Library.Levels
import ErizoController.Library.Locked
import ErizoController.Redis.MutualExclusion

/-!
# Sections under RedisLocker

Threads that take their locks by `RedisLocker::lock`: a section is entered by the Redis
commands of `try_lock`, with pauses between the tries, and left by the `DEL` of `unlock`. Each
command may be answered with an error, on which `lock` reports success. Each lock has a key of
its own, on which the threads do what lockers of one key do. As long as no command on a key is
answered with an error and no held key is taken over, a run of these threads is a run of threads
whose locks are simply taken and given back.
-/

universe u v

open Locked

namespace RedisLocker

variable {C : Type} {R : C → Type} {Λ T J : Type} {σ : Type u} {τ : Type v}

/-- What a thread has left to do. One that is `trying` is inside `lock`: between two tries, or
with a command of `try_lock` to come. One that is `inside` went on after `lock` returned true,
with the `locked_` that `unlock` will look at. -/
inductive LockThread (C : Type) (R : C → Type) (Λ : Type) : Type 1 where
  | outside (p : Script C R Λ Unit)
  | trying (r : Λ) (β : Type) (body : Prog C R β) (k : Option β → Script C R Λ Unit) (pc : Pc)
      (try_time : ℤ)
  | inside (r : Λ) (β : Type) (body : Prog C R β) (k : Option β → Script C R Λ Unit)
      (locked_ : Bool)

/-- The shared state, the clock, the values of the lock keys and the threads. -/
structure LockPool (C : Type) (R : C → Type) (Λ T : Type) (σ : Type u) where
  shared : σ
  clock : ℕ
  key : Λ → Option ℕ
  thread : T → LockThread C R Λ

inductive LockAction (T J : Type) where
  | tick (now : ℕ)
  | start (t : T) (job : J)
  | command (t : T)
  /-- `lock` is called, or goes on to its next try. -/
  | tryLock (t : T)
  | tryCommand (t : T)
  /-- The next command of `try_lock` has no effect and is answered with an error. -/
  | tryError (t : T)
  | unlock (t : T)
  /-- The `DEL` of `unlock` has no effect and is answered with an error. -/
  | unlockError (t : T)

/-- No command on the key of a lock is answered with an error. -/
def LockAction.Answered : LockAction T J → Prop
  | .tryError _ | .unlockError _ => False
  | _ => True

instance : (a : LockAction T J) → Decidable a.Answered
  | .tryError _ | .unlockError _ => inferInstanceAs (Decidable False)
  | .tick _ | .start _ _ | .command _ | .tryLock _ | .tryCommand _ | .unlock _ =>
      inferInstanceAs (Decidable True)

namespace LockThread

/-- The lock whose section the thread is in. -/
def held : LockThread C R Λ → Option Λ
  | .inside r _ _ _ _ => some r
  | _ => none

/-- A thread that is in a section has `locked_` set. -/
def Locks : LockThread C R Λ → Prop
  | .inside _ _ _ _ locked_ => locked_ = true
  | _ => True

/-- The next command for the key of a lock. -/
def pc [DecidableEq Λ] (r : Λ) : LockThread C R Λ → Pc
  | .trying r' _ _ _ pc _ => if r' = r then pc else .idle
  | _ => .idle

/-- What is left to do where locks are simply taken. -/
def thread : LockThread C R Λ → Thread C R Λ
  | .outside p => .outside p
  | .trying r β body k _ _ => .outside (.locked r β body k)
  | .inside r β body k _ => .inside r β body k

end LockThread

section Step

variable [DecidableEq T] [DecidableEq Λ]
variable (step : (c : C) → σ → R c × σ) (script : J → Script C R Λ Unit)
variable (redis_lock_timeout : Fin (2 ^ 31)) (redis_lock_try_time : ℤ)

def LockPool.put (s : LockPool C R Λ T σ) (t : T) (th : LockThread C R Λ) : LockPool C R Λ T σ :=
  { s with thread := Function.update s.thread t th }

omit [DecidableEq Λ] in
@[simp] theorem LockPool.put_thread (s : LockPool C R Λ T σ) (t : T) (th : LockThread C R Λ) :
    (s.put t th).thread = Function.update s.thread t th := rfl

/-- The `locked_` with which `lock` returns true after an error: `setnx` then returns -1, which
passes for a key that was set, and after the other commands `locked_` is false. -/
def Pc.lockedOnError : Pc → Option Bool
  | .idle => none
  | .setnx _ => some true
  | .get _ | .getsetNil _ | .getsetStale _ _ => some false

/-- The end of a command of `try_lock`: the lock is taken, the try goes on, or it has failed,
and `lock` tries again unless `try_time` has run out. -/
def afterTry (r : Λ) (β : Type) (body : Prog C R β) (k : Option β → Script C R Λ Unit) (pc : Pc)
    (locked : Bool) (try_time : ℤ) : LockThread C R Λ :=
  if locked then .inside r β body k true
  else if pc ≠ .idle then .trying r β body k pc try_time
  else if try_time = 0 then .outside (k none)
  else .trying r β body k .idle (try_time - 1)

def lockStep : LockAction T J → LockPool C R Λ T σ → Option (LockPool C R Λ T σ)
  | .tick now, s => if s.clock ≤ now ∧ now < 2 ^ 63 then some { s with clock := now } else none
  | .start t job, s =>
      match s.thread t with
      | .outside (.ret _) => some (s.put t (.outside (script job)))
      | _ => none
  | .command t, s =>
      match s.thread t with
      | .outside (.cmd c k) =>
          some { s.put t (.outside (k (step c s.shared).1)) with
            shared := (step c s.shared).2 }
      | .inside r β (.cmd c k) k' locked_ =>
          some { s.put t (.inside r β (k (step c s.shared).1) k' locked_) with
            shared := (step c s.shared).2 }
      | _ => none
  | .tryLock t, s =>
      match s.thread t with
      | .outside (.locked r β body k) =>
          some (s.put t (.trying r β body k (.setnx s.clock) redis_lock_try_time))
      | .trying r β body k .idle try_time =>
          some (s.put t (.trying r β body k (.setnx s.clock) try_time))
      | _ => none
  | .tryCommand t, s =>
      match s.thread t with
      | .trying r β body k pc try_time =>
          (pc.exec redis_lock_timeout (s.key r)).map fun (key, pc, locked) =>
            { s.put t (afterTry r β body k pc locked try_time) with
              key := Function.update s.key r key }
      | _ => none
  | .tryError t, s =>
      match s.thread t with
      | .trying r β body k pc _ =>
          pc.lockedOnError.map fun locked_ => s.put t (.inside r β body k locked_)
      | _ => none
  | .unlock t, s =>
      match s.thread t with
      | .inside r _ (.ret b) k locked_ =>
          some { s.put t (.outside (k (some b))) with
            key := if locked_ then Function.update s.key r none else s.key }
      | _ => none
  | .unlockError t, s =>
      match s.thread t with
      | .inside _ _ (.ret b) k true => some (s.put t (.outside (k (some b))))
      | _ => none

/-- A step performs at most one command on the shared state. -/
theorem lockStep_shared {step : (c : C) → σ → R c × σ} {script : J → Script C R Λ Unit}
    {redis_lock_timeout : Fin (2 ^ 31)} {redis_lock_try_time : ℤ} {a : LockAction T J}
    {s s' : LockPool C R Λ T σ}
    (h : lockStep step script redis_lock_timeout redis_lock_try_time a s = some s') :
    s'.shared = s.shared ∨ ∃ c, s'.shared = (step c s.shared).2 := by
  cases a with
  | tryCommand t | tryError t =>
      simp only [lockStep] at h
      split at h
      · obtain ⟨x, -, rfl⟩ := Option.map_eq_some_iff.mp h
        exact .inl rfl
      · cases h
  | command t =>
      simp only [lockStep] at h
      split at h
      · obtain rfl := Option.some.inj h
        exact .inr ⟨_, rfl⟩
      · obtain rfl := Option.some.inj h
        exact .inr ⟨_, rfl⟩
      · cases h
  | _ =>
      simp only [lockStep] at h
      split at h <;> cases h <;> exact .inl rfl

/-- Threads that start idle, with no key of a lock in Redis. -/
def lockMachine (init : σ → Prop) : Machine (LockAction T J) (LockPool C R Λ T σ) where
  init s := init s.shared ∧ s.clock < 2 ^ 63 ∧ (∀ r, s.key r = none) ∧
    ∀ t, s.thread t = .outside (.ret ())
  step := lockStep step script redis_lock_timeout redis_lock_try_time

end Step

/-! ## One key -/

section Key

variable [DecidableEq T] [DecidableEq Λ]
variable {step : (c : C) → σ → R c × σ} {script : J → Script C R Λ Unit}
variable {redis_lock_timeout : Fin (2 ^ 31)} {redis_lock_try_time : ℤ}
variable {r : Λ} {l : State T} {s s' : LockPool C R Λ T σ}

/-- What the threads do about one lock is what lockers do about one key. -/
structure Views (r : Λ) (l : State T) (s : LockPool C R Λ T σ) : Prop where
  clock : l.clock = s.clock
  key : l.key = s.key r
  pc : ∀ i, (l.locker i).pc = (s.thread i).pc r
  locked_ : ∀ i, (l.locker i).locked_ = true ↔ (s.thread i).held = some r

/-- The action does not take over the key of a lock that somebody holds. -/
def Undisturbed (a : LockAction T J) (s : LockPool C R Λ T σ) : Prop :=
  ∀ i r now t1, a = .tryCommand i → (s.thread i).pc r = .getsetStale now t1 →
    s.key r = some t1 → ∀ j, (s.thread j).held ≠ some r

section AfterTry

omit [DecidableEq T]

variable {r' : Λ} {β : Type} {body : Prog C R β} {k : Option β → Script C R Λ Unit} {pc : Pc}
variable {locked : Bool} {try_time : ℤ}

omit [DecidableEq Λ] in
theorem held_afterTry :
    (afterTry r' β body k pc locked try_time).held = some r ↔ locked = true ∧ r' = r := by
  rw [afterTry]
  split_ifs with hlocked
  · simp [LockThread.held, hlocked]
  · simp [LockThread.held, hlocked]
  · simp [LockThread.held, hlocked]
  · simp [LockThread.held, hlocked]

theorem pc_afterTry (h : locked = true → pc = .idle) :
    (afterTry r' β body k pc locked try_time).pc r = if r' = r then pc else .idle := by
  rw [afterTry]
  split_ifs <;> simp_all [LockThread.pc]

end AfterTry

/-- A thread that goes on as before where the lock is concerned. -/
theorem Views.of_eq (h : Views r l s) {i : T} {th : LockThread C R Λ}
    (hclock : s'.clock = s.clock) (hkey : s'.key r = s.key r)
    (hthread : s'.thread = Function.update s.thread i th) (hpc : th.pc r = (s.thread i).pc r)
    (hheld : th.held = some r ↔ (s.thread i).held = some r) : Views r l s' where
  clock := h.clock.trans hclock.symm
  key := h.key.trans hkey.symm
  pc j := by
    rw [h.pc, hthread]
    by_cases hj : j = i
    · rw [hj, Function.update_self, hpc]
    · rw [Function.update_of_ne hj]
  locked_ j := by
    rw [h.locked_, hthread]
    by_cases hj : j = i
    · rw [hj, Function.update_self, hheld]
    · rw [Function.update_of_ne hj]

/-- A thread that goes on as its locker does. -/
theorem Views.of_locker (h : Views r l s) {l' : State T} {i : T} {th : LockThread C R Λ}
    {locker : Locker} (hclock : l'.clock = s'.clock) (hkey : l'.key = s'.key r)
    (hlocker : l'.locker = Function.update l.locker i locker)
    (hthread : s'.thread = Function.update s.thread i th) (hpc : locker.pc = th.pc r)
    (hlocked : locker.locked_ = true ↔ th.held = some r) : Views r l' s' where
  clock := hclock
  key := hkey
  pc j := by
    rw [hlocker, hthread]
    by_cases hj : j = i
    · rw [hj, Function.update_self, Function.update_self, hpc]
    · rw [Function.update_of_ne hj, Function.update_of_ne hj, h.pc]
  locked_ j := by
    rw [hlocker, hthread]
    by_cases hj : j = i
    · rw [hj, Function.update_self, Function.update_self, hlocked]
    · rw [Function.update_of_ne hj, Function.update_of_ne hj, h.locked_]

/-- The clock is read for a try, which for another lock is no step. -/
theorem Views.tryLock (h : Views r l s) {i : T} {r' : Λ} {β : Type} {body : Prog C R β}
    {k : Option β → Script C R Λ Unit} {try_time : ℤ} (hpc : (s.thread i).pc r = .idle)
    (hheld : (s.thread i).held = none) :
    Views r l (s.put i (.trying r' β body k (.setnx s.clock) try_time)) ∨
      ∃ l', RedisLocker.step redis_lock_timeout (.tryLock i) l = some l' ∧
        Views r l' (s.put i (.trying r' β body k (.setnx s.clock) try_time)) := by
  have hnone : (s.thread i).held ≠ some r := by
    rw [hheld]
    exact Option.some_ne_none r ∘ Eq.symm
  by_cases hr : r' = r
  · subst hr
    have hidle : ¬ (l.locker i).pc ≠ .idle := not_not_intro ((h.pc i).trans hpc)
    have hfree : ¬ (l.locker i).locked_ = true := fun hlocked => hnone ((h.locked_ i).mp hlocked)
    refine .inr ⟨l.setLocker i { l.locker i with pc := .setnx l.clock }, ?_, ?_⟩
    · rw [RedisLocker.step, if_neg hidle, if_neg hfree]
    · refine h.of_locker h.clock h.key rfl rfl ?_ (iff_of_false hfree (by simp [LockThread.held]))
      rw [LockThread.pc, if_pos rfl, h.clock]
  · refine .inl (h.of_eq rfl rfl rfl ?_ (iff_of_false (by simp [LockThread.held]) hnone))
    rw [LockThread.pc, if_neg hr, hpc]

/-- A command of `try_lock`, which for another lock is no step. -/
theorem Views.tryCommand (h : Views r l s) {i : T} {r' : Λ} {β : Type} {body : Prog C R β}
    {k : Option β → Script C R Λ Unit} {pc pc' : Pc} {try_time : ℤ} {key : Option ℕ} {locked : Bool}
    (hi : s.thread i = .trying r' β body k pc try_time)
    (hexec : pc.exec redis_lock_timeout (s.key r') = some (key, pc', locked)) :
    Views r l { s.put i (afterTry r' β body k pc' locked try_time) with
        key := Function.update s.key r' key } ∨
      ∃ l', RedisLocker.step redis_lock_timeout (.command i) l = some l' ∧
        Views r l' { s.put i (afterTry r' β body k pc' locked try_time) with
          key := Function.update s.key r' key } := by
  have hidle : locked = true → pc' = .idle := by
    rintro rfl
    exact (Pc.exec_locked hexec).1
  by_cases hr : r' = r
  · subst hr
    have hpc : (l.locker i).pc = pc := by
      rw [h.pc, hi, LockThread.pc, if_pos rfl]
    have hkey : key = Function.update s.key r' key r' := by rw [Function.update_self]
    refine .inr ⟨l.continue i key pc' locked, ?_, ?_⟩
    · rw [RedisLocker.step, hpc, h.key, hexec]
      rfl
    · refine h.of_locker h.clock hkey rfl rfl ?_ ?_
      · rw [pc_afterTry hidle, if_pos rfl]
      · rw [held_afterTry]
        exact (and_iff_left rfl).symm
  · refine .inl (h.of_eq rfl (Function.update_of_ne (Ne.symm hr) _ _) rfl ?_ (iff_of_false ?_ ?_))
    · rw [pc_afterTry hidle, if_neg hr, hi, LockThread.pc, if_neg hr]
    · exact fun hheld => hr (held_afterTry.mp hheld).2
    · rw [hi]
      exact Option.some_ne_none r ∘ Eq.symm

/-- The `DEL` of `unlock`, which for another lock is no step. -/
theorem Views.unlock (h : Views r l s) {i : T} {r' : Λ} {β : Type} {b : β}
    {k : Option β → Script C R Λ Unit} (hi : s.thread i = .inside r' β (.ret b) k true) :
    Views r l { s.put i (.outside (k (some b))) with key := Function.update s.key r' none } ∨
      ∃ l', RedisLocker.step redis_lock_timeout (.unlock i) l = some l' ∧
        Views r l' { s.put i (.outside (k (some b))) with
          key := Function.update s.key r' none } := by
  by_cases hr : r' = r
  · subst hr
    have hidle : ¬ (l.locker i).pc ≠ .idle := by
      rw [h.pc, hi]
      exact not_not_intro rfl
    have hlocked : (l.locker i).locked_ = true := by
      rw [h.locked_, hi]
      rfl
    have hkey : none = Function.update s.key r' none r' := by rw [Function.update_self]
    refine .inr ⟨{ l.setLocker i { l.locker i with locked_ := false } with key := none }, ?_, ?_⟩
    · rw [RedisLocker.step, if_neg hidle, if_pos hlocked]
    · refine h.of_locker h.clock hkey rfl rfl ?_ ?_
      · exact not_not.mp hidle
      · exact iff_of_false Bool.false_ne_true (by simp [LockThread.held])
  · refine .inl (h.of_eq rfl (Function.update_of_ne (Ne.symm hr) _ _) rfl ?_ (iff_of_false ?_ ?_))
    · rw [hi]
      rfl
    · simp [LockThread.held]
    · rw [hi]
      exact fun hheld => hr (Option.some.inj hheld)

/-- Where one lock is concerned, a step of the threads is a step of its lockers, or none. -/
theorem Views.next (h : Views r l s) {a : LockAction T J} (ha : a.Answered)
    (hlocks : ∀ i, (s.thread i).Locks) (hno : Undisturbed a s)
    (hstep : lockStep step script redis_lock_timeout redis_lock_try_time a s = some s') :
    Views r l s' ∨ ∃ b l', NoTakeover b l ∧ RedisLocker.step redis_lock_timeout b l = some l' ∧
      Views r l' s' := by
  cases a with
  | tick now =>
      simp only [lockStep] at hstep
      split at hstep
      · rename_i hnow
        obtain rfl := Option.some.inj hstep
        rw [← h.clock] at hnow
        exact .inr ⟨.tick now, _, fun i _ _ hi => (by cases hi), if_pos hnow, rfl, h.key, h.pc,
          h.locked_⟩
      · cases hstep
  | start i job =>
      simp only [lockStep] at hstep
      split at hstep
      · rename_i hi
        obtain rfl := Option.some.inj hstep
        exact .inl (h.of_eq rfl rfl rfl (by rw [hi]; rfl) (by rw [hi]; rfl))
      · cases hstep
  | command i =>
      simp only [lockStep] at hstep
      split at hstep
      · rename_i hi
        obtain rfl := Option.some.inj hstep
        exact .inl (h.of_eq rfl rfl rfl (by rw [hi]; rfl) (by rw [hi]; rfl))
      · rename_i hi
        obtain rfl := Option.some.inj hstep
        exact .inl (h.of_eq rfl rfl rfl (by rw [hi]; rfl) (by rw [hi]; rfl))
      · cases hstep
  | tryLock i =>
      have hlift : ∀ {r' β body k try_time}, (s.thread i).pc r = .idle → (s.thread i).held = none →
          Views r l (s.put i (.trying r' β body k (.setnx s.clock) try_time)) ∨
            ∃ b l', NoTakeover b l ∧ RedisLocker.step redis_lock_timeout b l = some l' ∧
              Views r l' (s.put i (.trying r' β body k (.setnx s.clock) try_time)) := by
        intro r' β body k try_time hpc hheld
        rcases h.tryLock hpc hheld with hviews | ⟨l', hl', hviews⟩
        · exact .inl hviews
        · exact .inr ⟨.tryLock i, l', fun i' _ _ hi' => (by cases hi'), hl', hviews⟩
      simp only [lockStep] at hstep
      split at hstep
      · rename_i hi
        obtain rfl := Option.some.inj hstep
        exact hlift (by rw [hi]; rfl) (by rw [hi]; rfl)
      · rename_i hi
        obtain rfl := Option.some.inj hstep
        exact hlift (by rw [hi, LockThread.pc, ite_self]) (by rw [hi]; rfl)
      · cases hstep
  | tryCommand i =>
      simp only [lockStep] at hstep
      split at hstep
      · rename_i r' β body k pc try_time hi
        obtain ⟨⟨key, pc', locked⟩, hexec, rfl⟩ := Option.map_eq_some_iff.mp hstep
        rcases h.tryCommand hi hexec with hviews | ⟨l', hl', hviews⟩
        · exact .inl hviews
        · refine .inr ⟨.command i, l', fun i' now t1 hi' hpc hkey j => ?_, hl', hviews⟩
          obtain rfl : i = i' := Action.command.inj hi'
          have hfree := hno i r now t1 rfl (h.pc i ▸ hpc) (h.key ▸ hkey) j
          exact Bool.eq_false_iff.mpr fun hlocked => hfree ((h.locked_ j).mp hlocked)
      · cases hstep
  | tryError i | unlockError i => exact ha.elim
  | unlock i =>
      simp only [lockStep] at hstep
      split at hstep
      · rename_i r' β b k locked_ hi
        obtain rfl : locked_ = true := by
          have hlocked := hlocks i
          rwa [hi] at hlocked
        obtain rfl := Option.some.inj hstep
        rcases h.unlock hi with hviews | ⟨l', hl', hviews⟩
        · exact .inl hviews
        · exact .inr ⟨.unlock i, l', fun i' _ _ hi' => (by cases hi'), hl', hviews⟩
      · cases hstep

end Key

/-! ## All keys -/

section Keys

variable [DecidableEq T] [DecidableEq Λ]
variable {step : (c : C) → σ → R c × σ} {script : J → Script C R Λ Unit}
variable {redis_lock_timeout : Fin (2 ^ 31)} {redis_lock_try_time : ℤ} {init : σ → Prop}
variable {s s' : LockPool C R Λ T σ} {a : LockAction T J}

/-- No two threads are inside the same section. -/
def Exclusive (s : LockPool C R Λ T σ) : Prop :=
  ∀ i j r, (s.thread i).held = some r → (s.thread j).held = some r → i = j

/-- While a thread has a lock, the clock is at most the timeout past the time stamp that is
stored under its key. -/
def Timely (redis_lock_timeout : Fin (2 ^ 31)) (s : LockPool C R Λ T σ) : Prop :=
  ∀ i, ∀ r ∈ (s.thread i).held, ∀ v ∈ s.key r, s.clock ≤ v + redis_lock_timeout

/-- Every lock is as lockers of its key leave it, none of which took over a held key, and who is
in a section will unlock it. -/
structure Lockers (redis_lock_timeout : Fin (2 ^ 31)) (s : LockPool C R Λ T σ) : Prop where
  view : ∀ r, ∃ l, (RedisLocker.machine T redis_lock_timeout).Reaches NoTakeover l ∧ Views r l s
  locks : ∀ i, (s.thread i).Locks

theorem Lockers.start
    (h : (lockMachine step script redis_lock_timeout redis_lock_try_time init).init s) :
    Lockers redis_lock_timeout s := by
  obtain ⟨-, hclock, hkey, hidle⟩ := h
  refine ⟨fun r => ⟨{ clock := s.clock, key := none, locker := fun _ => {}, turns := 0 },
    .init ⟨hclock, rfl, rfl, fun _ => rfl⟩, rfl, (hkey r).symm, fun i => ?_, fun i => ?_⟩,
    fun i => ?_⟩
  · rw [hidle]
    rfl
  · rw [hidle]
    simp [LockThread.held]
  · rw [hidle]
    trivial

omit [DecidableEq Λ] in
theorem locks_afterTry {r : Λ} {β : Type} {body : Prog C R β} {k : Option β → Script C R Λ Unit}
    {pc : Pc} {locked : Bool} {try_time : ℤ} :
    (afterTry r β body k pc locked try_time).Locks := by
  rw [afterTry]
  split_ifs
  · rfl
  · trivial
  · trivial
  · trivial

theorem locks_next (h : ∀ i, (s.thread i).Locks) (ha : a.Answered)
    (hstep : lockStep step script redis_lock_timeout redis_lock_try_time a s = some s') (i : T) :
    (s'.thread i).Locks := by
  have hput : ∀ (t : T) (th : LockThread C R Λ), th.Locks →
      (Function.update s.thread t th i).Locks := by
    intro t th hth
    by_cases hi : i = t
    · rw [hi, Function.update_self]
      exact hth
    · rw [Function.update_of_ne hi]
      exact h i
  cases a with
  | tick now =>
      simp only [lockStep] at hstep
      split at hstep
      · obtain rfl := Option.some.inj hstep
        exact h i
      · cases hstep
  | command t =>
      simp only [lockStep] at hstep
      split at hstep
      · obtain rfl := Option.some.inj hstep
        exact hput t _ trivial
      · rename_i ht
        have hlocked := h t
        rw [ht] at hlocked
        obtain rfl := Option.some.inj hstep
        exact hput t _ hlocked
      · cases hstep
  | tryCommand t =>
      simp only [lockStep] at hstep
      split at hstep
      · obtain ⟨x, -, rfl⟩ := Option.map_eq_some_iff.mp hstep
        exact hput t _ locks_afterTry
      · cases hstep
  | tryError t | unlockError t => exact ha.elim
  | start t | tryLock t | unlock t =>
      simp only [lockStep] at hstep
      split at hstep <;> cases hstep <;> exact hput t _ trivial

theorem Lockers.next (h : Lockers redis_lock_timeout s) (ha : a.Answered) (hno : Undisturbed a s)
    (hstep : lockStep step script redis_lock_timeout redis_lock_try_time a s = some s') :
    Lockers redis_lock_timeout s' := by
  refine ⟨fun r => ?_, locks_next h.locks ha hstep⟩
  obtain ⟨l, hl, hviews⟩ := h.view r
  rcases hviews.next ha h.locks hno hstep with hviews' | ⟨b, l', hb, hl', hviews'⟩
  · exact ⟨l, hl, hviews'⟩
  · exact ⟨l', .step hl hb hl', hviews'⟩

theorem Lockers.exclusive (h : Lockers redis_lock_timeout s) : Exclusive s := by
  intro i j r hi hj
  obtain ⟨l, hl, hviews⟩ := h.view r
  have hheld : Held l := held_of_reaches (fun _ _ _ hno => hno) hl
  exact hheld.unique i j ((hviews.locked_ i).mpr hi) ((hviews.locked_ j).mpr hj)

/-- A key that is held within its time is not taken over. -/
theorem Lockers.undisturbed (h : Lockers redis_lock_timeout s)
    (htimely : Timely redis_lock_timeout s) : Undisturbed a s := by
  intro i r now t1 _ hpc hkey j hj
  obtain ⟨l, hl, hviews⟩ := h.view r
  have hwithin : HeldWithinStamp redis_lock_timeout l := by
    intro i' hi' v hv
    rw [hviews.clock]
    exact htimely i' r ((hviews.locked_ i').mp hi') v (hviews.key ▸ hv)
  have hno := noTakeover_of_heldWithinStamp (a := .command i) (readings_of_reaches hl) hwithin i
    now t1 rfl ((hviews.pc i).trans hpc) (hviews.key.trans hkey) j
  exact absurd ((hviews.locked_ j).mpr hj) (Bool.eq_false_iff.mp hno)

/-! ## Threads whose locks are simply taken -/

/-- The threads on simple locks stand where those under `RedisLocker` stand. -/
structure Simulates (redis_lock_timeout : Fin (2 ^ 31)) (s : Pool C R Λ T σ)
    (t : LockPool C R Λ T σ) : Prop where
  shared : s.shared = t.shared
  thread : s.thread = LockThread.thread ∘ t.thread
  owner : ∀ r i, s.owner r = some i ↔ (t.thread i).held = some r
  lockers : Lockers redis_lock_timeout t

variable {t t' : LockPool C R Λ T σ} {p : Pool C R Λ T σ}

/-- A thread that goes on without taking or giving back a lock. -/
theorem Simulates.of_put (h : Simulates redis_lock_timeout p t) {p' : Pool C R Λ T σ} {i : T}
    {th : LockThread C R Λ} (hlockers : Lockers redis_lock_timeout t')
    (hshared : p'.shared = t'.shared) (hp : p'.thread = Function.update p.thread i th.thread)
    (ht : t'.thread = Function.update t.thread i th) (howner : p'.owner = p.owner)
    (hheld : th.held = (t.thread i).held) : Simulates redis_lock_timeout p' t' where
  shared := hshared
  thread := by rw [hp, ht, h.thread, Function.comp_update]
  owner r j := by
    rw [howner, ht]
    by_cases hj : j = i
    · rw [hj, Function.update_self, hheld]
      exact h.owner r i
    · rw [Function.update_of_ne hj]
      exact h.owner r j
  lockers := hlockers

section AfterTry

omit [DecidableEq T] [DecidableEq Λ]

variable {r : Λ} {β : Type} {body : Prog C R β} {k : Option β → Script C R Λ Unit} {pc : Pc}
variable {try_time : ℤ}

theorem held_afterTry_false : (afterTry r β body k pc false try_time).held = none := by
  rw [afterTry, if_neg Bool.false_ne_true]
  split_ifs <;> rfl

/-- A command of `try_lock` that does not take the lock: `lock` goes on, or gives up. -/
theorem thread_afterTry_false :
    (afterTry r β body k pc false try_time).thread = .outside (.locked r β body k) ∨
      (afterTry r β body k pc false try_time).thread = .outside (k none) := by
  rw [afterTry, if_neg Bool.false_ne_true]
  split_ifs
  · exact .inl rfl
  · exact .inr rfl
  · exact .inl rfl

end AfterTry

/-- The locks after one has been taken or given back. -/
theorem Simulates.owner_update (h : Simulates redis_lock_timeout p t) {i : T} {r : Λ}
    {th : LockThread C R Λ} {o : Option T}
    (ht : t'.thread = Function.update t.thread i th)
    (ho : ∀ j, o = some j ↔ (t'.thread j).held = some r)
    (hother : ∀ r', r' ≠ r → (th.held = some r' ↔ (t.thread i).held = some r')) (r' : Λ) (j : T) :
    Function.update p.owner r o r' = some j ↔ (t'.thread j).held = some r' := by
  by_cases hr : r' = r
  · rw [hr, Function.update_self]
    exact ho j
  · rw [Function.update_of_ne hr, h.owner, ht]
    by_cases hj : j = i
    · rw [hj, Function.update_self, hother r' hr]
    · rw [Function.update_of_ne hj]

/-- The lock is taken, which nobody has. -/
theorem Simulates.acquire (h : Simulates redis_lock_timeout p t) {i : T} {r : Λ} {β : Type}
    {body : Prog C R β} {k : Option β → Script C R Λ Unit} {pc : Pc} {try_time : ℤ}
    (hlockers : Lockers redis_lock_timeout t') (hi : t.thread i = .trying r β body k pc try_time)
    (hshared : t'.shared = t.shared)
    (ht : t'.thread = Function.update t.thread i (.inside r β body k true)) :
    ∃ p', poolStep step script (.acquire i) p = some p' ∧ Simulates redis_lock_timeout p' t' := by
  have hthread : p.thread i = .outside (.locked r β body k) := by
    rw [h.thread, Function.comp_apply, hi]
    rfl
  have hheld : (t'.thread i).held = some r := by
    rw [ht, Function.update_self]
    rfl
  have hfree : p.owner r = none := by
    refine Option.eq_none_iff_forall_ne_some.mpr fun j hj => ?_
    have hj' := (h.owner r j).mp hj
    have hne : j ≠ i := by
      rintro rfl
      rw [hi] at hj'
      cases hj'
    have hother : (t'.thread j).held = some r := by
      rw [ht, Function.update_of_ne hne]
      exact hj'
    exact hne (hlockers.exclusive j i r hother hheld)
  refine ⟨{ p.put i (.inside r β body k) with owner := Function.update p.owner r (some i) }, ?_,
    h.shared.trans hshared.symm, ?_, fun r' j => ?_, hlockers⟩
  · rw [poolStep, hthread]
    exact if_pos hfree
  · rw [ht, Function.comp_update, ← h.thread]
    rfl
  · refine h.owner_update ht (fun j => ⟨fun hj => ?_, fun hj => ?_⟩) (fun r' hr' => ?_) r' j
    · rw [← Option.some.inj hj]
      exact hheld
    · rw [hlockers.exclusive i j r hheld hj]
    · rw [hi]
      exact iff_of_false (fun heq => hr' (Option.some.inj heq).symm)
        (Option.some_ne_none r' ∘ Eq.symm)

/-- The lock is given back. -/
theorem Simulates.release (h : Simulates redis_lock_timeout p t) {i : T} {r : Λ} {β : Type} {b : β}
    {k : Option β → Script C R Λ Unit} {locked_ : Bool}
    (hlockers : Lockers redis_lock_timeout t')
    (hi : t.thread i = .inside r β (.ret b) k locked_) (hshared : t'.shared = t.shared)
    (ht : t'.thread = Function.update t.thread i (.outside (k (some b)))) :
    ∃ p', poolStep step script (.release i) p = some p' ∧ Simulates redis_lock_timeout p' t' := by
  have hthread : p.thread i = .inside r β (.ret b) k := by
    rw [h.thread, Function.comp_apply, hi]
    rfl
  have hheld : (t.thread i).held = some r := by
    rw [hi]
    rfl
  refine ⟨{ p.put i (.outside (k (some b))) with owner := Function.update p.owner r none }, ?_,
    h.shared.trans hshared.symm, ?_, fun r' j => ?_, hlockers⟩
  · rw [poolStep, hthread]
  · rw [ht, Function.comp_update, ← h.thread]
    rfl
  · refine h.owner_update ht (fun j => iff_of_false (Option.some_ne_none j ∘ Eq.symm) ?_)
      (fun r' hr' => ?_) r' j
    · intro hj
      rw [ht] at hj
      by_cases hji : j = i
      · rw [hji, Function.update_self] at hj
        cases hj
      · rw [Function.update_of_ne hji] at hj
        exact hji (h.lockers.exclusive j i r hj hheld)
    · rw [hheld]
      exact iff_of_false (Option.some_ne_none r' ∘ Eq.symm)
        fun heq => hr' (Option.some.inj heq).symm

/-- A command of `try_lock` takes the lock, goes on, or gives up. -/
theorem Simulates.tryCommand (h : Simulates redis_lock_timeout p t) {i : T} {r : Λ} {β : Type}
    {body : Prog C R β} {k : Option β → Script C R Λ Unit} {pc pc' : Pc} {try_time : ℤ}
    {key : Option ℕ} {locked : Bool} (hi : t.thread i = .trying r β body k pc try_time)
    (ht : t' = { t.put i (afterTry r β body k pc' locked try_time) with
      key := Function.update t.key r key })
    (hlockers : Lockers redis_lock_timeout t') :
    Simulates redis_lock_timeout p t' ∨ ∃ b p', (∀ i job, b ≠ .start i job) ∧
      poolStep step script b p = some p' ∧ Simulates redis_lock_timeout p' t' := by
  subst ht
  have hthread : p.thread i = .outside (.locked r β body k) := by
    rw [h.thread, Function.comp_apply, hi]
    rfl
  cases locked with
  | true =>
      have hacquire : ∃ p', poolStep step script (.acquire i) p = some p' ∧
          Simulates redis_lock_timeout p' _ := h.acquire hlockers hi rfl rfl
      obtain ⟨p', hp', hsim⟩ := hacquire
      exact .inr ⟨.acquire i, p', fun _ _ hb => (by cases hb), hp', hsim⟩
  | false =>
      have hheld : (afterTry r β body k pc' false try_time).held = (t.thread i).held := by
        rw [held_afterTry_false, hi]
        rfl
      have hcases : (afterTry r β body k pc' false try_time).thread =
          .outside (.locked r β body k) ∨
          (afterTry r β body k pc' false try_time).thread = .outside (k none) :=
        thread_afterTry_false
      rcases hcases with hagain | hgiveUp
      · refine .inl (h.of_put hlockers h.shared ?_ rfl rfl hheld)
        rw [hagain, ← hthread, Function.update_eq_self]
      · refine .inr ⟨.giveUp i, p.put i (.outside (k none)), fun _ _ hb => (by cases hb), ?_, ?_⟩
        · rw [poolStep, hthread]
        · refine h.of_put hlockers h.shared ?_ rfl rfl hheld
          rw [hgiveUp]
          rfl

/-- A step of the threads under `RedisLocker` is a step of those on simple locks, or none. -/
theorem Simulates.next (h : Simulates redis_lock_timeout p t) (ha : a.Answered)
    (hno : Undisturbed a t)
    (hstep : lockStep step script redis_lock_timeout redis_lock_try_time a t = some t') :
    Simulates redis_lock_timeout p t' ∨ ∃ b p', (∀ i job, b = .start i job → a = .start i job) ∧
      poolStep step script b p = some p' ∧ Simulates redis_lock_timeout p' t' := by
  have hlockers := h.lockers.next ha hno hstep
  have hthread : ∀ i, p.thread i = (t.thread i).thread := fun i => congrFun h.thread i
  cases a with
  | tick now =>
      simp only [lockStep] at hstep
      split at hstep
      · obtain rfl := Option.some.inj hstep
        exact .inl ⟨h.shared, h.thread, h.owner, hlockers⟩
      · cases hstep
  | start i job =>
      simp only [lockStep] at hstep
      split at hstep
      · rename_i hi
        obtain rfl := Option.some.inj hstep
        refine .inr ⟨.start i job, p.put i (.outside (script job)), fun _ _ hb => ?_, ?_, ?_⟩
        · cases hb
          rfl
        · rw [poolStep, hthread, hi]
          rfl
        · exact h.of_put hlockers h.shared rfl rfl rfl (by rw [hi]; rfl)
      · cases hstep
  | command i =>
      simp only [lockStep] at hstep
      split at hstep
      · rename_i c k hi
        obtain rfl := Option.some.inj hstep
        refine .inr ⟨.command i, { p.put i (.outside (k (step c p.shared).1)) with
          shared := (step c p.shared).2 }, fun _ _ hb => (by cases hb), ?_, ?_⟩
        · rw [poolStep, hthread, hi]
          rfl
        · rw [h.shared]
          exact h.of_put hlockers rfl rfl rfl rfl (by rw [hi]; rfl)
      · rename_i r β c k k' locked_ hi
        obtain rfl := Option.some.inj hstep
        refine .inr ⟨.command i, { p.put i (.inside r β (k (step c p.shared).1) k') with
          shared := (step c p.shared).2 }, fun _ _ hb => (by cases hb), ?_, ?_⟩
        · rw [poolStep, hthread, hi]
          rfl
        · rw [h.shared]
          exact h.of_put hlockers rfl rfl rfl rfl (by rw [hi]; rfl)
      · cases hstep
  | tryLock i =>
      simp only [lockStep] at hstep
      split at hstep
      · rename_i r β body k hi
        obtain rfl := Option.some.inj hstep
        refine .inl (h.of_put hlockers h.shared ?_ rfl rfl (by rw [hi]; rfl))
        have hi' : p.thread i = .outside (.locked r β body k) := by
          rw [hthread, hi]
          rfl
        exact (Function.update_eq_self_iff.mpr hi'.symm).symm
      · rename_i r β body k try_time hi
        obtain rfl := Option.some.inj hstep
        refine .inl (h.of_put hlockers h.shared ?_ rfl rfl (by rw [hi]; rfl))
        have hi' : p.thread i = .outside (.locked r β body k) := by
          rw [hthread, hi]
          rfl
        exact (Function.update_eq_self_iff.mpr hi'.symm).symm
      · cases hstep
  | tryCommand i =>
      simp only [lockStep] at hstep
      split at hstep
      · rename_i r β body k pc try_time hi
        obtain ⟨⟨key, pc', locked⟩, -, ht⟩ := Option.map_eq_some_iff.mp hstep
        rcases h.tryCommand hi ht.symm hlockers with hsim | ⟨b, p', hb, hp', hsim⟩
        · exact .inl hsim
        · exact .inr ⟨b, p', fun i job heq => absurd heq (hb i job), hp', hsim⟩
      · cases hstep
  | tryError i | unlockError i => exact ha.elim
  | unlock i =>
      simp only [lockStep] at hstep
      split at hstep
      · rename_i r β b k locked_ hi
        obtain rfl := Option.some.inj hstep
        have hrelease : ∃ p', poolStep step script (.release i) p = some p' ∧
            Simulates redis_lock_timeout p' _ := h.release hlockers hi rfl rfl
        obtain ⟨p', hp', hsim⟩ := hrelease
        exact .inr ⟨.release i, p', fun _ _ hb => (by cases hb), hp', hsim⟩
      · cases hstep

theorem Simulates.start (h : (lockMachine step script redis_lock_timeout redis_lock_try_time
      init).init t) :
    ∃ p, (Locked.machine step script init).init p ∧ Simulates redis_lock_timeout p t := by
  have hlockers := Lockers.start h
  obtain ⟨hshared, -, -, hidle⟩ := h
  have hthread : LockThread.thread ∘ t.thread = fun _ => .outside (.ret ()) := by
    funext i
    rw [Function.comp_apply, hidle]
    rfl
  refine ⟨⟨t.shared, LockThread.thread ∘ t.thread, fun _ => none⟩,
    ⟨hshared, fun i => congrFun hthread i, fun _ => rfl⟩, rfl, rfl, fun r i => ?_, hlockers⟩
  rw [hidle]
  exact iff_of_false (Option.some_ne_none i ∘ Eq.symm) (Option.some_ne_none r ∘ Eq.symm)

/-- As long as no command on a key is answered with an error and no held key is taken over, what
the threads under `RedisLocker` reach is what the threads on simple locks reach. -/
theorem exists_simulates {P : Locked.Action T J → Pool C R Λ T σ → Prop}
    {Q : LockAction T J → LockPool C R Λ T σ → Prop}
    (hQ : ∀ a t, Lockers redis_lock_timeout t → Q a t → a.Answered ∧ Undisturbed a t)
    (hP : ∀ a b p t, Simulates redis_lock_timeout p t → Q a t →
      (∀ i job, b = .start i job → a = .start i job) → P b p)
    (ht : (lockMachine step script redis_lock_timeout redis_lock_try_time init).Reaches Q t) :
    ∃ p, (Locked.machine step script init).Reaches P p ∧ Simulates redis_lock_timeout p t := by
  refine Machine.Reaches.exists_sim (fun t h => Simulates.start h) ?_ ht
  intro a p t t' hcond h hstep
  obtain ⟨ha, hno⟩ := hQ a t h.lockers hcond
  rcases h.next ha hno hstep with h' | ⟨b, p', hb, hp', h'⟩
  · exact .inl h'
  · exact .inr ⟨b, p', hP a b p t h hcond hb, hp', h'⟩

omit [DecidableEq Λ] in
/-- A thread comes into the section that another is in. -/
theorem not_exclusive_of_update {i j : T} {r : Λ} {th : LockThread C R Λ}
    (hj : (s.thread j).held = some r) (hi : (s.thread i).held ≠ some r) (hth : th.held = some r)
    (hthread : s'.thread = Function.update s.thread i th) : ¬ Exclusive s' := by
  have hne : j ≠ i := by
    rintro rfl
    exact hi hj
  refine fun hexclusive => hne (hexclusive j i r ?_ ?_)
  · rw [hthread, Function.update_of_ne hne]
    exact hj
  · rw [hthread, Function.update_self]
    exact hth

/-- Who has a command of `try_lock` to come is trying. -/
theorem LockThread.eq_trying_of_pc {th : LockThread C R Λ} {r : Λ} (h : th.pc r ≠ .idle) :
    ∃ β body k try_time, th = .trying r β body k (th.pc r) try_time := by
  cases th with
  | outside p => exact absurd rfl h
  | inside r' β body k locked_ => exact absurd rfl h
  | trying r' β body k pc try_time =>
      rw [LockThread.pc] at h
      split at h
      · rename_i hr
        subst hr
        exact ⟨β, body, k, try_time, by rw [LockThread.pc, if_pos rfl]⟩
      · exact absurd rfl h

/-- A taken key that is taken over lets two threads into one section. -/
theorem not_exclusive_of_takeover (h : ¬ Undisturbed a s) :
    ∃ s', lockStep step script redis_lock_timeout redis_lock_try_time a s = some s' ∧
      ¬ Exclusive s' := by
  simp only [Undisturbed, not_forall, not_not] at h
  obtain ⟨i, r, now, t1, rfl, hpc, hkey, j, hj⟩ := h
  have htrying : (s.thread i).pc r ≠ .idle := by
    rw [hpc]
    exact Pc.noConfusion
  obtain ⟨β, body, k, try_time, hi⟩ := LockThread.eq_trying_of_pc htrying
  rw [hpc] at hi
  refine ⟨{ s.put i (.inside r β body k true) with
    key := Function.update s.key r (some now) }, ?_, ?_⟩
  · simp only [lockStep, hi, hkey, Pc.exec, Option.getD_some, beq_self_eq_true, Option.map_some]
    rfl
  · refine not_exclusive_of_update hj ?_ rfl rfl
    rw [hi]
    exact Option.some_ne_none r ∘ Eq.symm

theorem Pc.lockedOnError_isSome {pc : Pc} (h : pc ≠ .idle) : pc.lockedOnError.isSome := by
  cases pc with
  | idle => exact absurd rfl h
  | setnx now | get now | getsetNil now | getsetStale now t1 => rfl

/-- An error lets a thread into the section that another is in. -/
theorem not_exclusive_of_error {i j : T} {r : Λ} (hpc : (s.thread i).pc r ≠ .idle)
    (hj : (s.thread j).held = some r) :
    ∃ s', lockStep step script redis_lock_timeout redis_lock_try_time (.tryError i) s = some s' ∧
      ¬ Exclusive s' := by
  obtain ⟨β, body, k, try_time, hi⟩ := LockThread.eq_trying_of_pc hpc
  obtain ⟨locked_, hlocked⟩ := Option.isSome_iff_exists.mp (Pc.lockedOnError_isSome hpc)
  refine ⟨s.put i (.inside r β body k locked_), ?_, ?_⟩
  · rw [lockStep, hi]
    simp only [hlocked, Option.map_some]
  · refine not_exclusive_of_update hj ?_ rfl rfl
    rw [hi]
    exact Option.some_ne_none r ∘ Eq.symm

/-- As long as no command on a key is answered with an error, no two threads are ever inside the
same section exactly when no held key is ever taken over. -/
theorem throughout_exclusive_iff {as : List (LockAction T J)} (has : ∀ a ∈ as, a.Answered)
    (h : Lockers redis_lock_timeout s) :
    (lockMachine step script redis_lock_timeout redis_lock_try_time init).Throughout
        Exclusive as s ↔
      (lockMachine step script redis_lock_timeout redis_lock_try_time init).Along
        Undisturbed as s := by
  constructor
  · exact Machine.Throughout.along fun a s hno => not_exclusive_of_takeover hno
  · exact fun halong => (halong.and_mem has).throughout (I := Lockers redis_lock_timeout)
      (fun _ hs => hs.exclusive) (fun _ _ _ hs ha hstep => hs.next ha.2 ha.1 hstep) h

end Keys

/-! ## Threads under RedisLocker on two levels -/

section Levels

variable {Sound : (c : C) → R c → Prop} {Proper : C → Prop} {Rel : σ → τ → Prop}

def LockThread.Relies (Sound : (c : C) → R c → Prop) (Proper : C → Prop) :
    LockThread C R Λ → Prop
  | .outside p => p.Relies Sound Proper fun _ => True
  | .trying _ _ body k _ _ =>
      (body.Relies Sound Proper fun b => (k (some b)).Relies Sound Proper fun _ => True) ∧
        (k none).Relies Sound Proper fun _ => True
  | .inside _ _ body k _ =>
      body.Relies Sound Proper fun b => (k (some b)).Relies Sound Proper fun _ => True

/-- Two pools that stand at the same place, on states that are related. -/
structure LockAlike (Sound : (c : C) → R c → Prop) (Proper : C → Prop) (Rel : σ → τ → Prop)
    (s : LockPool C R Λ T σ) (t : LockPool C R Λ T τ) : Prop where
  shared : Rel s.shared t.shared
  clock : s.clock = t.clock
  key : s.key = t.key
  thread : s.thread = t.thread
  relies : ∀ i, (s.thread i).Relies Sound Proper

variable [DecidableEq T] {s : LockPool C R Λ T σ} {t : LockPool C R Λ T τ}

theorem LockAlike.put (h : LockAlike Sound Proper Rel s t) {i : T} {th : LockThread C R Λ}
    (hth : th.Relies Sound Proper) : LockAlike Sound Proper Rel (s.put i th) (t.put i th) where
  shared := h.shared
  clock := h.clock
  key := h.key
  thread := by rw [LockPool.put_thread, LockPool.put_thread, h.thread]
  relies j := by
    rw [LockPool.put_thread]
    by_cases hj : j = i
    · rw [hj, Function.update_self]
      exact hth
    · rw [Function.update_of_ne hj]
      exact h.relies j

variable {step : (c : C) → σ → R c × σ} {step' : (c : C) → τ → R c × τ}

/-- A command is performed for a thread. -/
theorem LockAlike.command (h : LockAlike Sound Proper Rel s t)
    (hrep : Represents Sound Proper step step' Rel) {c : C} (hc : Proper c) {i : T}
    {th : R c → LockThread C R Λ} (hth : ∀ reply, Sound c reply → (th reply).Relies Sound Proper) :
    LockAlike Sound Proper Rel
      { s.put i (th (step c s.shared).1) with shared := (step c s.shared).2 }
      { t.put i (th (step' c t.shared).1) with shared := (step' c t.shared).2 } := by
  have hput := h.put (i := i) (hth _ (hrep.sound c _ _ hc h.shared))
  rw [← hrep.reply c _ _ hc h.shared]
  exact ⟨hrep.next c _ _ hc h.shared, hput.clock, hput.key, hput.thread, hput.relies⟩

/-- A thread goes on, and the keys of the locks have changed. -/
theorem LockAlike.putKey (h : LockAlike Sound Proper Rel s t) {i : T} {th : LockThread C R Λ}
    (hth : th.Relies Sound Proper) (key : Λ → Option ℕ) :
    LockAlike Sound Proper Rel { s.put i th with key := key } { t.put i th with key := key } :=
  ⟨h.shared, h.clock, rfl, (h.put hth).thread, (h.put hth).relies⟩

theorem relies_afterTry {r : Λ} {β : Type} {body : Prog C R β} {k : Option β → Script C R Λ Unit}
    {pc pc' : Pc} {locked : Bool} {try_time : ℤ}
    (h : (LockThread.trying r β body k pc try_time).Relies Sound Proper) :
    (afterTry r β body k pc' locked try_time).Relies Sound Proper := by
  rw [afterTry]
  split_ifs
  · exact h.1
  · exact h
  · exact h.2
  · exact h

variable [DecidableEq Λ] {redis_lock_timeout : Fin (2 ^ 31)} {redis_lock_try_time : ℤ}
variable {script : J → Script C R Λ Unit}

/-- The pools step alike. -/
theorem LockAlike.next (h : LockAlike Sound Proper Rel s t)
    (hrep : Represents Sound Proper step step' Rel) {a : LockAction T J}
    (hjob : ∀ i job, a = .start i job → (script job).Relies Sound Proper fun _ => True) :
    Option.Rel (LockAlike Sound Proper Rel)
      (lockStep step script redis_lock_timeout redis_lock_try_time a s)
      (lockStep step' script redis_lock_timeout redis_lock_try_time a t) := by
  cases a with
  | tick now =>
      simp only [lockStep, ← h.clock]
      split
      · exact .some ⟨h.shared, rfl, h.key, h.thread, h.relies⟩
      · exact .none
  | start i job =>
      simp only [lockStep, ← h.thread]
      split
      · exact .some (h.put (hjob i job rfl))
      · exact .none
  | command i =>
      have hi := h.relies i
      simp only [lockStep, ← h.thread]
      split
      · rename_i c k hat
        rw [hat] at hi
        have hth : ∀ reply, Sound c reply →
            (LockThread.outside (k reply) : LockThread C R Λ).Relies Sound Proper := hi.2
        exact .some (h.command hrep hi.1 hth)
      · rename_i r β c k k' locked_ hat
        rw [hat] at hi
        have hth : ∀ reply, Sound c reply →
            (LockThread.inside r β (k reply) k' locked_).Relies Sound Proper := hi.2
        exact .some (h.command hrep hi.1 hth)
      · exact .none
  | tryLock i =>
      have hi := h.relies i
      simp only [lockStep, ← h.thread, ← h.clock]
      split
      · rename_i r β body k hat
        rw [hat] at hi
        have hth : (LockThread.trying r β body k (.setnx s.clock) redis_lock_try_time).Relies
            Sound Proper := hi
        exact .some (h.put hth)
      · rename_i r β body k try_time hat
        rw [hat] at hi
        have hth : (LockThread.trying r β body k (.setnx s.clock) try_time).Relies
            Sound Proper := hi
        exact .some (h.put hth)
      · exact .none
  | tryCommand i =>
      have hi := h.relies i
      simp only [lockStep, ← h.thread, ← h.key]
      split
      · rename_i r β body k pc try_time hat
        rw [hat] at hi
        cases pc.exec redis_lock_timeout (s.key r) with
        | none => exact .none
        | some result =>
            obtain ⟨key, pc', locked⟩ := result
            have hth : (afterTry r β body k pc' locked try_time).Relies Sound Proper :=
              relies_afterTry hi
            exact .some (h.putKey hth _)
      · exact .none
  | tryError i =>
      have hi := h.relies i
      simp only [lockStep, ← h.thread]
      split
      · rename_i r β body k pc try_time hat
        rw [hat] at hi
        cases pc.lockedOnError with
        | none => exact .none
        | some locked_ =>
            have hth : (LockThread.inside r β body k locked_).Relies Sound Proper := hi.1
            exact .some (h.put hth)
      · exact .none
  | unlock i =>
      have hi := h.relies i
      simp only [lockStep, ← h.thread, ← h.key]
      split
      · rename_i r β b k locked_ hat
        rw [hat] at hi
        have hth : (LockThread.outside (k (some b))).Relies Sound Proper := hi
        exact .some (h.putKey hth _)
      · exact .none
  | unlockError i =>
      have hi := h.relies i
      simp only [lockStep, ← h.thread]
      split
      · rename_i r β b k hat
        rw [hat] at hi
        have hth : (LockThread.outside (k (some b))).Relies Sound Proper := hi
        exact .some (h.put hth)
      · exact .none

end Levels

end RedisLocker
