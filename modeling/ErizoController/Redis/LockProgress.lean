import ErizoController.Library.Progress
import ErizoController.Redis.LockThreads

/-!
# Jobs under RedisLocker end

No thread waits for another: `lock` tries again and again and then gives up. So a thread comes
to the end of its job by its own steps, whatever the other threads do and even if one of them
stops inside a section. The number of tries must not be negative, for then `try_time--` moves
away from zero.
-/

universe u

namespace RedisLocker

variable {C : Type} {R : C → Type} {Λ T J : Type} {σ : Type u}

/-- The thread that takes the step. -/
def LockAction.thread? : LockAction T J → Option T
  | .tick _ => none
  | .start t _ => some t
  | .command t => some t
  | .tryLock t => some t
  | .tryCommand t => some t
  | .tryError t => some t
  | .unlock t => some t
  | .unlockError t => some t

/-- The thread has a job. -/
def LockThread.Busy (th : LockThread C R Λ) : Prop := th ≠ .outside (.ret ())

section After

variable (redis_lock_timeout : Fin (2 ^ 31)) (redis_lock_try_time : ℤ)

/-- What a thread may come to by a step of its own, whatever the replies to its commands, the
clock and the values of the keys are. -/
inductive After : LockThread C R Λ → LockThread C R Λ → Prop
  | command (c : C) (k : R c → Script C R Λ Unit) (reply : R c) :
      After (.outside (k reply)) (.outside (.cmd c k))
  | commandInside (r : Λ) (β : Type) (c : C) (k : R c → Prog C R β)
      (k' : Option β → Script C R Λ Unit) (locked_ : Bool) (reply : R c) :
      After (.inside r β (k reply) k' locked_) (.inside r β (.cmd c k) k' locked_)
  | lock (r : Λ) (β : Type) (body : Prog C R β) (k : Option β → Script C R Λ Unit) (now : ℕ) :
      After (.trying r β body k (.setnx now) redis_lock_try_time) (.outside (.locked r β body k))
  | again (r : Λ) (β : Type) (body : Prog C R β) (k : Option β → Script C R Λ Unit) (now : ℕ)
      (try_time : ℤ) :
      After (.trying r β body k (.setnx now) try_time) (.trying r β body k .idle try_time)
  | tryCommand (r : Λ) (β : Type) (body : Prog C R β) (k : Option β → Script C R Λ Unit)
      (pc pc' : Pc) (try_time : ℤ) (key key' : Option ℕ) (locked : Bool)
      (h : pc.exec redis_lock_timeout key = some (key', pc', locked)) :
      After (afterTry r β body k pc' locked try_time) (.trying r β body k pc try_time)
  | tryError (r : Λ) (β : Type) (body : Prog C R β) (k : Option β → Script C R Λ Unit) (pc : Pc)
      (try_time : ℤ) (locked_ : Bool) :
      After (.inside r β body k locked_) (.trying r β body k pc try_time)
  | unlock (r : Λ) (β : Type) (b : β) (k : Option β → Script C R Λ Unit) (locked_ : Bool) :
      After (.outside (k (some b))) (.inside r β (.ret b) k locked_)

/-- The thread can take only so many steps of its own. -/
abbrev Ends (th : LockThread C R Λ) : Prop :=
  Acc (After redis_lock_timeout redis_lock_try_time) th

end After

section Ends

variable {redis_lock_timeout : Fin (2 ^ 31)} {redis_lock_try_time : ℤ}

theorem ends_idle :
    Ends redis_lock_timeout redis_lock_try_time (.outside (.ret ()) : LockThread C R Λ) :=
  Acc.intro _ fun _ h => by cases h

section Section

variable {r : Λ} {β : Type} {body : Prog C R β} {k : Option β → Script C R Λ Unit}

theorem ends_inside {locked_ : Bool}
    (hk : ∀ b, Ends redis_lock_timeout redis_lock_try_time (.outside (k (some b)))) :
    Ends redis_lock_timeout redis_lock_try_time (.inside r β body k locked_) := by
  induction body with
  | ret b =>
      refine Acc.intro _ fun th h => ?_
      cases h with
      | unlock => exact hk b
  | cmd c k' ih =>
      refine Acc.intro _ fun th h => ?_
      cases h with
      | commandInside _ _ _ _ _ _ reply => exact ih reply

/-- How many steps of `try_lock` may be to come. -/
def Pc.rank : Pc → ℕ
  | .idle => 3
  | .setnx _ => 2
  | .get _ => 1
  | .getsetNil _ => 0
  | .getsetStale _ _ => 0

/-- A command of `try_lock` is the end of the try or leaves fewer to come. -/
theorem Pc.rank_exec {pc pc' : Pc} {key key' : Option ℕ} {locked : Bool}
    (h : pc.exec redis_lock_timeout key = some (key', pc', locked)) :
    pc' = .idle ∨ pc'.rank < pc.rank := by
  cases pc with
  | idle => cases h
  | setnx now =>
      cases key with
      | none =>
          cases h
          exact .inl rfl
      | some v =>
          cases h
          exact .inr (Nat.lt_succ_self 1)
  | get now =>
      cases key with
      | none =>
          cases h
          exact .inr Nat.zero_lt_one
      | some t1 =>
          simp only [Pc.exec, Option.some.injEq, Prod.mk.injEq] at h
          obtain ⟨-, rfl, -⟩ := h
          split_ifs
          · exact .inr Nat.zero_lt_one
          · exact .inl rfl
  | getsetNil now =>
      cases h
      exact .inl rfl
  | getsetStale now t1 =>
      cases h
      exact .inl rfl

theorem ends_trying {pc : Pc} {try_time : ℤ} (htry : 0 ≤ try_time)
    (hbody : ∀ locked_, Ends redis_lock_timeout redis_lock_try_time (.inside r β body k locked_))
    (hnone : Ends redis_lock_timeout redis_lock_try_time (.outside (k none))) :
    Ends redis_lock_timeout redis_lock_try_time (.trying r β body k pc try_time) := by
  -- by the number of tries left, and the commands left of this one
  induction hn : 4 * try_time.toNat + pc.rank using Nat.strong_induction_on
    generalizing pc try_time with
  | _ n ih =>
      subst hn
      refine Acc.intro _ fun th h => ?_
      cases h with
      | again _ _ _ _ now =>
          refine ih _ ?_ htry rfl
          simp only [Pc.rank]
          omega
      | tryCommand _ _ _ _ _ pc' _ _ _ locked h =>
          rw [afterTry]
          split_ifs with hlocked hpc hzero
          · exact hbody true
          · refine ih _ ?_ htry rfl
            have hrank := (Pc.rank_exec h).resolve_left hpc
            omega
          · exact hnone
          · refine ih _ ?_ (by omega) rfl
            simp only [Pc.rank]
            omega
      | tryError _ _ _ _ _ _ locked_ => exact hbody locked_

end Section

theorem ends_outside (htry : 0 ≤ redis_lock_try_time) (p : Script C R Λ Unit) :
    Ends redis_lock_timeout redis_lock_try_time (.outside p) := by
  induction p with
  | ret a => exact ends_idle
  | cmd c k ih =>
      refine Acc.intro _ fun th h => ?_
      cases h with
      | command _ _ reply => exact ih reply
  | locked r β body k ih =>
      refine Acc.intro _ fun th h => ?_
      cases h with
      | lock => exact ends_trying htry (fun _ => ends_inside fun b => ih (some b)) (ih none)

end Ends

/-! ## Runs without end -/

section Runs

variable [DecidableEq T] [DecidableEq Λ]
variable {step : (c : C) → σ → R c × σ} {script : J → Script C R Λ Unit}
variable {redis_lock_timeout : Fin (2 ^ 31)} {redis_lock_try_time : ℤ} {init : σ → Prop}
variable {s s' : LockPool C R Λ T σ} {a : LockAction T J} {i : T}

/-- A step of another thread, or of the clock. -/
theorem thread_of_step
    (h : lockStep step script redis_lock_timeout redis_lock_try_time a s = some s')
    (ha : a.thread? ≠ some i) : s'.thread i = s.thread i := by
  have hput : ∀ {t : T} {th : LockThread C R Λ}, t ≠ i → Function.update s.thread t th i =
      s.thread i := fun hne => Function.update_of_ne hne.symm _ _
  have hne : ∀ t, a.thread? = some t → t ≠ i := by
    rintro t ht rfl
    exact ha ht
  cases a with
  | tick now =>
      simp only [lockStep] at h
      split at h
      · obtain rfl := Option.some.inj h
        rfl
      · cases h
  | tryCommand t | tryError t =>
      simp only [lockStep] at h
      split at h
      · obtain ⟨x, -, rfl⟩ := Option.map_eq_some_iff.mp h
        exact hput (hne t rfl)
      · cases h
  | start t | command t | tryLock t | unlock t | unlockError t =>
      simp only [lockStep] at h
      split at h <;> cases h <;> exact hput (hne t rfl)

/-- A step of the thread: it gets a job, or goes on with its own. -/
theorem after_of_step
    (h : lockStep step script redis_lock_timeout redis_lock_try_time a s = some s')
    (ha : a.thread? = some i) :
    (s.thread i = .outside (.ret ()) ∧ ∃ job, s'.thread i = .outside (script job)) ∨
      After redis_lock_timeout redis_lock_try_time (s'.thread i) (s.thread i) := by
  cases a with
  | tick now => cases ha
  | start t job =>
      obtain rfl := Option.some.inj ha
      simp only [lockStep] at h
      split at h
      · rename_i hi
        obtain rfl := Option.some.inj h
        exact .inl ⟨hi, job, Function.update_self _ _ _⟩
      · cases h
  | command t =>
      obtain rfl := Option.some.inj ha
      simp only [lockStep] at h
      split at h
      · rename_i c k hi
        obtain rfl := Option.some.inj h
        rw [hi]
        simp only [LockPool.put_thread, Function.update_self]
        exact .inr (.command c k _)
      · rename_i r β c k k' locked_ hi
        obtain rfl := Option.some.inj h
        rw [hi]
        simp only [LockPool.put_thread, Function.update_self]
        exact .inr (.commandInside r β c k k' locked_ _)
      · cases h
  | tryLock t =>
      obtain rfl := Option.some.inj ha
      simp only [lockStep] at h
      split at h
      · rename_i r β body k hi
        obtain rfl := Option.some.inj h
        rw [hi, LockPool.put_thread, Function.update_self]
        exact .inr (.lock r β body k _)
      · rename_i r β body k try_time hi
        obtain rfl := Option.some.inj h
        rw [hi, LockPool.put_thread, Function.update_self]
        exact .inr (.again r β body k _ try_time)
      · cases h
  | tryCommand t =>
      obtain rfl := Option.some.inj ha
      simp only [lockStep] at h
      split at h
      · rename_i r β body k pc try_time hi
        obtain ⟨⟨key, pc', locked⟩, hexec, rfl⟩ := Option.map_eq_some_iff.mp h
        rw [hi]
        simp only [LockPool.put_thread, Function.update_self]
        exact .inr (.tryCommand r β body k pc pc' try_time _ key locked hexec)
      · cases h
  | tryError t =>
      obtain rfl := Option.some.inj ha
      simp only [lockStep] at h
      split at h
      · rename_i r β body k pc try_time hi
        obtain ⟨locked_, -, rfl⟩ := Option.map_eq_some_iff.mp h
        rw [hi, LockPool.put_thread, Function.update_self]
        exact .inr (.tryError r β body k pc try_time locked_)
      · cases h
  | unlock t =>
      obtain rfl := Option.some.inj ha
      simp only [lockStep] at h
      split at h
      · rename_i r β b k locked_ hi
        obtain rfl := Option.some.inj h
        rw [hi]
        simp only [LockPool.put_thread, Function.update_self]
        exact .inr (.unlock r β b k locked_)
      · cases h
  | unlockError t =>
      obtain rfl := Option.some.inj ha
      simp only [lockStep] at h
      split at h
      · rename_i r β b k hi
        obtain rfl := Option.some.inj h
        rw [hi, LockPool.put_thread, Function.update_self]
        exact .inr (.unlock r β b k true)
      · cases h

/-- The thread can go on with its job. -/
def CanGoOn (step : (c : C) → σ → R c × σ) (script : J → Script C R Λ Unit)
    (redis_lock_timeout : Fin (2 ^ 31)) (redis_lock_try_time : ℤ) (i : T)
    (s : LockPool C R Λ T σ) : Prop :=
  ∃ a : LockAction T J, a.thread? = some i ∧ (∀ job, a ≠ .start i job) ∧
    (lockStep step script redis_lock_timeout redis_lock_try_time a s).isSome

/-- No thread waits for another. -/
theorem canGoOn_of_busy (hbusy : (s.thread i).Busy) :
    CanGoOn step script redis_lock_timeout redis_lock_try_time i s := by
  cases hi : s.thread i with
  | outside p =>
      cases p with
      | ret a => exact absurd hi hbusy
      | cmd c k =>
          exact ⟨.command i, rfl, fun _ h => (by cases h),
            by simp only [lockStep, hi, Option.isSome_some]⟩
      | locked r β body k =>
          exact ⟨.tryLock i, rfl, fun _ h => (by cases h),
            by simp only [lockStep, hi, Option.isSome_some]⟩
  | trying r β body k pc try_time =>
      cases pc with
      | idle =>
          exact ⟨.tryLock i, rfl, fun _ h => (by cases h),
            by simp only [lockStep, hi, Option.isSome_some]⟩
      | setnx now | get now | getsetNil now | getsetStale now t1 =>
          refine ⟨.tryCommand i, rfl, fun _ h => (by cases h), ?_⟩
          simp only [lockStep, hi, Option.isSome_map]
          cases s.key r <;> rfl
  | inside r β body k locked_ =>
      cases body with
      | ret b =>
          exact ⟨.unlock i, rfl, fun _ h => (by cases h),
            by simp only [lockStep, hi, Option.isSome_some]⟩
      | cmd c k' =>
          exact ⟨.command i, rfl, fun _ h => (by cases h),
            by simp only [lockStep, hi, Option.isSome_some]⟩

theorem ends_of_reachable (htry : 0 ≤ redis_lock_try_time)
    (h : (lockMachine step script redis_lock_timeout redis_lock_try_time init).Reachable s)
    (i : T) :
    Ends redis_lock_timeout redis_lock_try_time (s.thread i) := by
  induction h with
  | init h =>
      rw [h.2.2.2 i]
      exact ends_idle
  | @step s s' a _ _ h ih =>
      by_cases ha : a.thread? = some i
      · rcases after_of_step h ha with ⟨-, job, hjob⟩ | hafter
        · rw [hjob]
          exact ends_outside htry (script job)
        · exact ih.inv hafter
      · rw [thread_of_step h ha]
        exact ih

/-- In every run without end, a thread that is not left out for ever while it can go on is idle
again and again. -/
theorem idle_again (htry : 0 ≤ redis_lock_try_time) {as : ℕ → LockAction T J}
    {s : ℕ → LockPool C R Λ T σ}
    (h : (lockMachine step script redis_lock_timeout redis_lock_try_time init).Forever as s)
    (hfair : ∀ n, ∃ m ≥ n,
      ¬ CanGoOn step script redis_lock_timeout redis_lock_try_time i (s m) ∨
        (as m).thread? = some i) (n : ℕ) : ∃ m ≥ n, ¬ ((s m).thread i).Busy := by
  refine Machine.rests_again (f := fun n => (s n).thread i)
    (r := After redis_lock_timeout redis_lock_try_time) (P := fun th => ¬ th.Busy)
    (fun n => ends_of_reachable htry (h.reachable n) i)
    (fun n hn => thread_of_step (h.next n) hn) (fun n hn hbusy => ?_) (fun n => ?_) n
  · exact (after_of_step (h.next n) hn).resolve_left fun hidle => hbusy fun hne => hne hidle.1
  · obtain ⟨m, hm, hstuck | hmoved⟩ := hfair n
    · exact ⟨m, hm, .inl fun hbusy => hstuck (canGoOn_of_busy hbusy)⟩
    · exact ⟨m, hm, .inr hmoved⟩

/-- There are runs in which nobody but one thread takes a step. -/
theorem exists_forever_alone (job : J)
    (hs : (lockMachine step script redis_lock_timeout redis_lock_try_time init).Reachable s) :
    ∃ (as : ℕ → LockAction T J) (t : ℕ → LockPool C R Λ T σ), t 0 = s ∧
      (lockMachine step script redis_lock_timeout redis_lock_try_time init).Forever as t ∧
      ∀ n, (as n).thread? = some i := by
  refine Machine.exists_forever (Q := fun a => a.thread? = some i) (fun s => ?_) hs
  by_cases hbusy : (s.thread i).Busy
  · have hgo : CanGoOn step script redis_lock_timeout redis_lock_try_time i s :=
      canGoOn_of_busy hbusy
    obtain ⟨a, ha, -, hstep⟩ := hgo
    obtain ⟨s', hs'⟩ := Option.isSome_iff_exists.mp hstep
    exact ⟨a, s', ha, hs'⟩
  · refine ⟨.start i job, s.put i (.outside (script job)), rfl, ?_⟩
    simp only [lockMachine, lockStep, not_not.mp hbusy]

end Runs

end RedisLocker
