import Mathlib.Data.Fintype.Basic
import ErizoController.Redis.KeyOwner

/-!
# Who holds a RedisLocker

Both results about ownership come from one invariant, `Held`: at most one locker
has `locked_ = true`, and while one has, the key is in Redis. A step breaks it only
when the `GETSET` of the stale branch finds the time stamp it read before while
somebody still holds the key; `NoTakeover` says that this does not happen.

`HeldWithinStamp` is the timing under which it cannot happen. It counts from the
time stamp stored under the key, not from the return of `lock()`: the stored value
is read at the start of `try_lock`, and a losing `GETSET` replaces it.
-/

namespace RedisLocker

variable {ι : Type} [DecidableEq ι] {timeout : Fin (2 ^ 31)}

/-- No two lockers have `locked_ = true`. -/
def MutualExclusion (s : State ι) : Prop :=
  ∀ i j, (s.locker i).locked_ = true → (s.locker j).locked_ = true → i = j

/-- Every locker with `locked_ = true` got it less than the timeout ago. -/
def HeldBriefly (timeout : Fin (2 ^ 31)) (s : State ι) : Prop :=
  ∀ i, (s.locker i).locked_ = true → s.clock < (s.locker i).lockedAt + timeout

/-- While a locker has `locked_ = true`, the clock is at most the timeout past the
time stamp stored under the key. -/
def HeldWithinStamp (timeout : Fin (2 ^ 31)) (s : State ι) : Prop :=
  ∀ i, (s.locker i).locked_ = true → ∀ v ∈ s.key, s.clock ≤ v + timeout

/-- The action is not a stale takeover of a key that somebody still holds. -/
def NoTakeover (a : Action ι) (s : State ι) : Prop :=
  ∀ i now t1, a = .command i → (s.locker i).pc = .getsetStale now t1 → s.key = some t1 →
    ∀ j, (s.locker j).locked_ = false

/-- Whether the next command is a stale takeover that succeeds on this key. -/
def Pc.takesOver (key : Option ℕ) : Pc → Bool
  | .getsetStale _ t1 => key == some t1
  | _ => false

omit [DecidableEq ι] in
theorem Pc.takesOver_iff {key : Option ℕ} {pc : Pc} :
    pc.takesOver key = true ↔ ∃ now t1, pc = .getsetStale now t1 ∧ key = some t1 := by
  cases pc <;> simp [Pc.takesOver]

/-- Whether the action is a command of locker `i`. -/
def Action.commands (i : ι) : Action ι → Bool
  | .command j => i == j
  | _ => false

theorem Action.commands_iff {i : ι} {a : Action ι} :
    a.commands i = true ↔ a = .command i := by
  cases a with
  | command j =>
      simp only [Action.commands, beq_iff_eq, Action.command.injEq]
      exact eq_comm
  | tick | tryLock | unlock => simp [Action.commands]

/-- Whoever calls `unlock()` now would not delete the key of a locker that
acquired it later and still holds it. -/
def ReleasesOwn (s : State ι) : Prop :=
  ∀ i, (s.locker i).locked_ = true →
    ∀ j, (s.locker j).locked_ = true → (s.locker j).turn ≤ (s.locker i).turn

/-! ## Invariants -/

/-- The clock readings in a state. -/
structure Readings (timeout : Fin (2 ^ 31)) (s : State ι) : Prop where
  clock : s.clock < 2 ^ 63
  key : ∀ v ∈ s.key, v ≤ s.clock
  pc : ∀ i, (s.locker i).pc.ReadBy timeout s.clock

theorem Readings.step {a : Action ι} {s s' : State ι} (h : Readings timeout s)
    (hstep : step timeout a s = some s') : Readings timeout s' := by
  obtain ⟨hclock, hkey, hpc⟩ := h
  cases a with
  | tick now =>
      simp only [RedisLocker.step] at hstep
      split at hstep <;> cases hstep
      rename_i hnow
      exact ⟨hnow.2, fun v hv => (hkey v hv).trans hnow.1, fun i => (hpc i).mono hnow.1⟩
  | tryLock i =>
      simp only [RedisLocker.step] at hstep
      split at hstep
      · cases hstep
      split at hstep <;> cases hstep
      · exact ⟨hclock, hkey, hpc⟩
      refine ⟨hclock, hkey, fun j => ?_⟩
      by_cases hj : j = i
      · subst hj
        simp [Pc.ReadBy]
      · simpa [State.setLocker_ne _ _ hj] using hpc j
  | command i =>
      simp only [RedisLocker.step, Option.map_eq_some_iff] at hstep
      obtain ⟨⟨key, pc, locked⟩, hexec, rfl⟩ := hstep
      obtain ⟨hpc', hkey'⟩ := Pc.exec_readBy hexec hclock (hpc i) hkey
      refine ⟨hclock, hkey', fun j => ?_⟩
      by_cases hj : j = i
      · subst hj
        simpa [State.continue] using hpc'
      · simpa [State.continue, hj] using hpc j
  | unlock i =>
      simp only [RedisLocker.step] at hstep
      split at hstep
      · cases hstep
      split at hstep <;> cases hstep
      · refine ⟨hclock, by simp, fun j => ?_⟩
        by_cases hj : j = i
        · subst hj
          simpa using hpc j
        · simpa [State.setLocker_ne _ _ hj] using hpc j
      · exact ⟨hclock, hkey, hpc⟩

theorem readings_of_reaches {P : Action ι → State ι → Prop} {s : State ι}
    (h : (machine ι timeout).Reaches P s) : Readings timeout s := by
  refine h.invariant ?_ fun _ _ _ hs _ hstep => hs.step hstep
  rintro s ⟨hclock, hkey, -, hlocker⟩
  exact ⟨hclock, by simp [hkey], fun i => by simp [hlocker, Pc.ReadBy]⟩

/-- Who holds the key: at most one locker, outside `try_lock`, and the key is then
in Redis. -/
structure Held (s : State ι) : Prop where
  idle : ∀ i, (s.locker i).locked_ = true → (s.locker i).pc = .idle
  unique : MutualExclusion s
  present : ∀ i, (s.locker i).locked_ = true → s.key.isSome
  turn : ∀ i, (s.locker i).locked_ = true → (s.locker i).turn < s.turns

omit [DecidableEq ι] in
/-- A command that acquires a key that is absent, or still has its stale time stamp, does so
while nobody holds it. -/
theorem Held.free_of_acquire {s : State ι} (h : Held s) {i : ι}
    (hkey : s.key = none ∨ ∃ now t1, (s.locker i).pc = .getsetStale now t1 ∧ s.key = some t1)
    (hno : NoTakeover (.command i) s) (j : ι) : (s.locker j).locked_ = false := by
  rcases hkey with hfree | ⟨now, t1, hpc, hkey⟩
  · by_contra hlock
    have hsome := h.present j (by simpa using hlock)
    simp [hfree] at hsome
  · exact hno i now t1 rfl hpc hkey j

/-- A command that acquires the key while nobody holds it, or leaves a present key present. -/
theorem Held.continue {s : State ι} (h : Held s) {i : ι} {key : Option ℕ} {pc : Pc} {locked : Bool}
    (hacquire : locked = true → pc = .idle ∧ key.isSome ∧ ∀ j, (s.locker j).locked_ = false)
    (hpresent : s.key.isSome → key.isSome) : Held (s.continue i key pc locked) := by
  cases locked with
  | true =>
      obtain ⟨rfl, hkey, hfree⟩ := hacquire rfl
      have honly : ∀ j, ((s.continue i key .idle true).locker j).locked_ = true → j = i := by
        intro j hj
        by_contra hji
        simp [State.continue, hji, hfree j] at hj
      refine ⟨fun j hj => ?_, fun j k hj hk => ?_, fun _ _ => hkey, fun j hj => ?_⟩
      · obtain rfl := honly j hj
        simp [State.continue]
      · rw [honly j hj, honly k hk]
      · obtain rfl := honly j hj
        simp [State.continue]
  | false =>
      have hother : ∀ j, ((s.continue i key pc false).locker j).locked_ = true →
          j ≠ i ∧ (s.locker j).locked_ = true := by
        intro j hj
        by_cases hji : j = i
        · subst hji
          simp [State.continue] at hj
        · exact ⟨hji, by simpa [State.continue, hji] using hj⟩
      refine ⟨fun j hj => ?_, fun j k hj hk => ?_, fun j hj => ?_, fun j hj => ?_⟩
      · obtain ⟨hji, hlock⟩ := hother j hj
        simpa [State.continue, hji] using h.idle j hlock
      · exact h.unique j k (hother j hj).2 (hother k hk).2
      · exact hpresent (h.present j (hother j hj).2)
      · obtain ⟨hji, hlock⟩ := hother j hj
        simpa [State.continue, hji] using h.turn j hlock

theorem Held.step {a : Action ι} {s s' : State ι} (h : Held s) (hno : NoTakeover a s)
    (hstep : step timeout a s = some s') : Held s' := by
  cases a with
  | tick now =>
      simp only [RedisLocker.step] at hstep
      split at hstep <;> cases hstep
      exact ⟨h.idle, h.unique, h.present, h.turn⟩
  | tryLock i =>
      simp only [RedisLocker.step] at hstep
      split at hstep
      · cases hstep
      split at hstep <;> cases hstep
      · exact h
      rename_i hlock
      -- only a locker that holds nothing moves
      have hother :
        ∀ j, ((s.setLocker i { s.locker i with pc := .setnx s.clock }).locker j).locked_ =
          true → j ≠ i ∧ (s.locker j).locked_ = true := by
        intro j hj
        by_cases hji : j = i
        · subst hji
          exact absurd (by simpa using hj) hlock
        · exact ⟨hji, by rwa [State.setLocker_ne _ _ hji] at hj⟩
      refine ⟨fun j hj => ?_, fun j k hj hk => ?_, fun j hj => ?_, fun j hj => ?_⟩
      · rw [State.setLocker_ne _ _ (hother j hj).1]
        exact h.idle j (hother j hj).2
      · exact h.unique j k (hother j hj).2 (hother k hk).2
      · exact h.present j (hother j hj).2
      · rw [State.setLocker_ne _ _ (hother j hj).1]
        exact h.turn j (hother j hj).2
  | command i =>
      simp only [RedisLocker.step, Option.map_eq_some_iff] at hstep
      obtain ⟨⟨key, pc, locked⟩, hexec, rfl⟩ := hstep
      refine h.continue (fun hlocked => ?_) (Pc.exec_present hexec)
      subst hlocked
      obtain ⟨hpc, hkey, hold⟩ := Pc.exec_locked hexec
      exact ⟨hpc, hkey, h.free_of_acquire hold hno⟩
  | unlock i =>
      simp only [RedisLocker.step] at hstep
      split at hstep
      · cases hstep
      split at hstep <;> cases hstep
      · rename_i hlock
        -- the only holder releases, so nobody is left
        have hnone : ∀ j, ((s.setLocker i { s.locker i with locked_ := false }).locker j).locked_ =
            false := by
          intro j
          by_cases hj : j = i
          · subst hj
            simp
          · rw [State.setLocker_ne _ _ hj]
            by_contra hjlock
            exact hj (h.unique j i (by simpa using hjlock) hlock)
        exact ⟨fun j hj => by simp [hnone] at hj, fun j _ hj => by simp [hnone] at hj,
          fun j hj => by simp [hnone] at hj, fun j hj => by simp [hnone] at hj⟩
      · exact h

omit [DecidableEq ι] in
theorem Held.init {s : State ι} (hlocker : ∀ i, s.locker i = {}) : Held s :=
  ⟨by simp [hlocker], fun i j hi => by simp [hlocker] at hi, by simp [hlocker], by simp [hlocker]⟩

theorem held_of_reaches {P : Action ι → State ι → Prop}
    (hP : ∀ a s, Readings timeout s → P a s → NoTakeover a s) {s : State ι}
    (h : (machine ι timeout).Reaches P s) : Held s := by
  have hboth : Held s ∧ Readings timeout s := by
    refine h.invariant (I := fun s => Held s ∧ Readings timeout s) ?_ ?_
    · intro s hs
      exact ⟨.init hs.2.2.2, readings_of_reaches (P := P) (.init hs)⟩
    · rintro a s s' ⟨hheld, hread⟩ hPa hstep
      exact ⟨hheld.step (hP a s hread hPa) hstep, hread.step hstep⟩
  exact hboth.1

/-! ## Mutual exclusion -/

omit [DecidableEq ι] in
/-- Under `HeldWithinStamp` a stale time stamp means that nobody holds the key. -/
theorem noTakeover_of_heldWithinStamp {a : Action ι} {s : State ι}
    (hread : Readings timeout s) (h : HeldWithinStamp timeout s) : NoTakeover a s := by
  intro i now t1 _ hpc hkey j
  have hstale := hread.pc i
  rw [hpc] at hstale
  by_contra hlock
  have hlate := h j (by simpa using hlock) t1 hkey
  exact absurd (hstale.2.trans_le hstale.1) (by omega)

/-- Mutual exclusion: if no locker holds the key for longer than the timeout past
the time stamp stored under it, no two lockers have `locked_ = true`. -/
theorem mutualExclusion {s : State ι}
    (h : (machine ι timeout).Reaches (fun _ s => HeldWithinStamp timeout s) s) :
    MutualExclusion s :=
  (held_of_reaches (fun _ _ => noTakeover_of_heldWithinStamp) h).unique

/-- The clock reading that a locker inside `try_lock` would store. -/
def Pc.reading : Pc → ℕ
  | .idle => 0
  | .setnx now | .get now | .getsetNil now | .getsetStale now _ => now

/-- The action does not run a command later than `delay` after the clock reading of
its `try_lock`, and every holder is at least `delay` short of the timeout. -/
def PromptWithin (timeout : Fin (2 ^ 31)) (delay : ℕ) (a : Action ι) (s : State ι) : Prop :=
  (∀ i, a = .command i → s.clock ≤ (s.locker i).pc.reading + delay) ∧
    ∀ i, (s.locker i).locked_ = true → s.clock + delay ≤ (s.locker i).lockedAt + timeout

/-- The stored time stamp is at most `delay` older than the acquisition. -/
def StampFresh (delay : ℕ) (s : State ι) : Prop :=
  ∀ i, (s.locker i).locked_ = true →
    (s.locker i).lockedAt ≤ s.clock ∧ ∀ v ∈ s.key, (s.locker i).lockedAt ≤ v + delay

omit [DecidableEq ι] in
/-- A command leaves the value of the key or stores its own reading. -/
theorem Pc.exec_key {pc pc' : Pc} {key key' : Option ℕ} {locked : Bool}
    (h : pc.exec timeout key = some (key', pc', locked)) :
    key' = some pc.reading ∨ key' = key ∧ locked = false := by
  cases pc <;> cases key <;>
    simp only [Pc.exec, Option.some.injEq, Prod.mk.injEq, reduceCtorEq] at h <;>
    obtain ⟨rfl, rfl, rfl⟩ := h <;> simp [Pc.reading]

theorem StampFresh.step {delay : ℕ} {a : Action ι} {s s' : State ι} (h : StampFresh delay s)
    (hP : PromptWithin timeout delay a s)
    (hstep : RedisLocker.step timeout a s = some s') : StampFresh delay s' := by
  cases a with
  | tick now =>
      simp only [RedisLocker.step] at hstep
      split at hstep <;> cases hstep
      rename_i hnow
      exact fun i hi => ⟨(h i hi).1.trans hnow.1, (h i hi).2⟩
  | tryLock i =>
      simp only [RedisLocker.step] at hstep
      split at hstep
      · cases hstep
      split at hstep <;> cases hstep
      · exact h
      intro j hj
      by_cases hji : j = i
      · subst hji
        simpa using h j (by simpa using hj)
      · rw [State.setLocker_ne _ _ hji] at hj ⊢
        exact h j hj
  | command i =>
      simp only [RedisLocker.step, Option.map_eq_some_iff] at hstep
      obtain ⟨⟨key, pc, locked⟩, hexec, rfl⟩ := hstep
      have hprompt : s.clock ≤ (s.locker i).pc.reading + delay := hP.1 i rfl
      intro j hj
      by_cases hji : j = i
      · -- the command's own locker has just acquired the key
        subst hji
        have hlocked : locked = true := by simpa [State.continue] using hj
        subst hlocked
        refine ⟨by simp [State.continue], fun v hv => ?_⟩
        rcases Pc.exec_key hexec with hkey | ⟨-, hfalse⟩
        · obtain rfl : (s.locker j).pc.reading = v := by simpa [State.continue, hkey] using hv
          simpa [State.continue] using hprompt
        · cases hfalse
      · have hlock : (s.locker j).locked_ = true := by simpa [State.continue, hji] using hj
        obtain ⟨hclock, hstamp⟩ := h j hlock
        refine ⟨by simpa [State.continue, hji] using hclock, fun v hv => ?_⟩
        have hgoal : (s.locker j).lockedAt ≤ v + delay := by
          rcases Pc.exec_key hexec with hkey | ⟨hkey, -⟩
          · obtain rfl : (s.locker i).pc.reading = v := by simpa [State.continue, hkey] using hv
            exact hclock.trans hprompt
          · exact hstamp v (by simpa [State.continue, hkey] using hv)
        simpa [State.continue, hji] using hgoal
  | unlock i =>
      simp only [RedisLocker.step] at hstep
      split at hstep
      · cases hstep
      split at hstep <;> cases hstep
      · intro j hj
        by_cases hji : j = i
        · subst hji
          simp at hj
        · simp only [State.setLocker_ne _ _ hji] at hj ⊢
          exact ⟨(h j hj).1, by simp⟩
      · exact h

/-- The same in terms of `lock()`: if a `try_lock` takes at most `delay` from its clock
reading to its last command, and every holder is done `delay` before the timeout
after `lock()` returned, no two lockers have `locked_ = true`. -/
theorem mutualExclusion_of_promptWithin {delay : ℕ} {s : State ι}
    (h : (machine ι timeout).Reaches (PromptWithin timeout delay) s) : MutualExclusion s := by
  have hboth : (machine ι timeout).Reaches (fun _ s => HeldWithinStamp timeout s) s ∧
      StampFresh delay s := by
    induction h with
    | init hinit => exact ⟨.init hinit, fun i hi => by simp [hinit.2.2.2 i] at hi⟩
    | @step s s' a _ hP hstep ih =>
        refine ⟨.step ih.1 (fun i hi v hv => ?_) hstep, ih.2.step hP hstep⟩
        have hfresh := (ih.2 i hi).2 v hv
        have hdone := hP.2 i hi
        omega
  exact mutualExclusion hboth.1

/-- The hypothesis of `mutualExclusion` is as weak as it can be: once the clock is
more than the timeout past the stored time stamp, any idle locker that tries now
takes the key over, and both lockers have `locked_ = true`. -/
theorem takeover_of_overdue {s : State ι} {i j : ι} {v : ℕ} (hread : Readings timeout s)
    (hi : (s.locker i).locked_ = true) (hj : (s.locker j).locked_ = false)
    (hpc : (s.locker j).pc = .idle) (hkey : s.key = some v) (hlate : v + timeout < s.clock) :
    ∃ s', (machine ι timeout).run
        [.tryLock j, .command j, .command j, .command j] s = some s' ∧
      (s'.locker i).locked_ = true ∧ (s'.locker j).locked_ = true := by
  have hij : i ≠ j := by
    rintro rfl
    simp [hi] at hj
  have hexp : expired timeout s.clock v = true := by
    have hclock := hread.clock
    simp only [expired, decide_eq_true_eq]
    omega
  simp [Machine.run_cons, machine, step, hpc, hj, Pc.exec, hkey, hexp, State.continue,
    State.setLocker, hij, hi]

section Runs

instance (timeout : Fin (2 ^ 31)) (s : State Bool) : Decidable (HeldBriefly timeout s) :=
  inferInstanceAs (Decidable (∀ _, _ → _))

instance (timeout : Fin (2 ^ 31)) (s : State Bool) : Decidable (HeldWithinStamp timeout s) :=
  inferInstanceAs (Decidable (∀ _, _ → ∀ v ∈ s.key, _))

/-- Two idle lockers at clock `1000`. -/
def twoLockers : State Bool := { clock := 1000, key := none, locker := fun _ => {}, turns := 0 }

theorem twoLockers_init (timeout : Fin (2 ^ 31)) : (machine Bool timeout).init twoLockers := by
  simp [machine, twoLockers]

/-- Locker `false` reads the clock at 1000 and its `SETNX` runs at 4000, so the time
stamp it stores is stale at once; locker `true` takes the key over while `false`
has held it for no time at all. -/
theorem mutualExclusion_fails_after_slow_setnx :
    ¬ ∀ s : State Bool, (machine Bool 2000).Reaches (fun _ s => HeldBriefly 2000 s) s →
      HeldBriefly 2000 s → MutualExclusion s := by
  intro hclaim
  obtain ⟨s, hs, hq⟩ := Machine.exists_reaches_of_runChecked
    (M := machine Bool 2000) (P := fun _ s => HeldBriefly 2000 s)
    (p := fun _ s => decide (HeldBriefly 2000 s))
    (q := fun s => decide (HeldBriefly 2000 s) && (s.locker false).locked_ &&
      (s.locker true).locked_)
    (l := [.tryLock false, .tick 4000, .command false,
      .tryLock true, .command true, .command true, .command true])
    (fun _ _ h => by simpa using h) (twoLockers_init 2000) (by decide)
  simp only [Bool.and_eq_true, decide_eq_true_eq] at hq
  exact Bool.false_ne_true (hclaim s hs hq.1.1 false true hq.1.2 hq.2)

/-- A run with a clean hand-over: locker `false` acquires and releases, then `true`
acquires the key. -/
theorem mutualExclusion_after_handover :
    ∃ s : State Bool, (s.locker true).locked_ = true ∧ MutualExclusion s := by
  obtain ⟨s, hs, hq⟩ := Machine.exists_reaches_of_runChecked
    (M := machine Bool 2000) (P := fun _ s => HeldWithinStamp 2000 s)
    (p := fun _ s => decide (HeldWithinStamp 2000 s))
    (q := fun s => (s.locker true).locked_)
    (l := [.tryLock false, .command false, .tick 1500, .unlock false,
      .tryLock true, .command true])
    (fun _ _ h => by simpa using h) (twoLockers_init 2000) (by decide)
  exact ⟨s, hq, mutualExclusion hs⟩

end Runs

/-! ## Releasing only one's own lock -/

variable {redis_lock_timeout : ℤ}

theorem Pc.execAny_locked {pc pc' : Pc} {key key' : Option ℕ}
    (h : pc.execAny redis_lock_timeout key = some (key', pc', true)) :
    pc' = .idle ∧ key'.isSome ∧
      (key = none ∨ ∃ now t1, pc = .getsetStale now t1 ∧ key = some t1) := by
  cases pc with
  | get now => cases key <;> simp [Pc.execAny, Pc.exec] at h
  | idle | setnx _ | getsetNil _ | getsetStale _ _ => exact @Pc.exec_locked 0 _ _ _ _ h

theorem Pc.execAny_kept {pc pc' : Pc} {key key' : Option ℕ} {locked : Bool}
    (h : pc.execAny redis_lock_timeout key = some (key', pc', locked)) (hkey : key.isSome) :
    key'.isSome := by
  cases pc with
  | get now =>
      obtain ⟨v, rfl⟩ := Option.isSome_iff_exists.mp hkey
      simp only [Pc.execAny, Option.some.injEq, Prod.mk.injEq] at h
      rw [← h.1]
      rfl
  | idle | setnx _ | getsetNil _ | getsetStale _ _ =>
      simp only [Pc.execAny] at h
      exact Pc.exec_present h hkey

/-- Whatever the clocks read, only a takeover makes a second holder. -/
theorem Held.stepAny {a : Action ι} {s s' : State ι} (h : Held s) (hno : NoTakeover a s)
    (hstep : stepAny redis_lock_timeout a s = some s') : Held s' := by
  cases a with
  | tick now =>
      simp only [RedisLocker.stepAny] at hstep
      split at hstep <;> cases hstep
      exact ⟨h.idle, h.unique, h.present, h.turn⟩
  | command i =>
      simp only [RedisLocker.stepAny, Option.map_eq_some_iff] at hstep
      obtain ⟨⟨key, pc, locked⟩, hexec, rfl⟩ := hstep
      refine h.continue (fun hlocked => ?_) (Pc.execAny_kept hexec)
      subst hlocked
      obtain ⟨hpc, hkey, hold⟩ := Pc.execAny_locked hexec
      exact ⟨hpc, hkey, h.free_of_acquire hold hno⟩
  | tryLock i =>
      have hstep' : RedisLocker.step 0 (.tryLock i) s = some s' := hstep
      exact h.step hno hstep'
  | unlock i =>
      have hstep' : RedisLocker.step 0 (.unlock i) s = some s' := hstep
      exact h.step hno hstep'

omit [DecidableEq ι] in
theorem Held.releasesOwn {s : State ι} (h : Held s) : ReleasesOwn s := by
  intro i hi j hj
  rw [h.unique i j hi hj]

/-- A takeover of a key that somebody still holds is at once a state in which that
holder's `unlock()` deletes the new owner's key. -/
theorem Held.not_releasesOwn_of_takeover {s s' : State ι} {i j : ι} {now t1 : ℕ}
    (h : Held s) (hpc : (s.locker i).pc = .getsetStale now t1) (hkey : s.key = some t1)
    (hj : (s.locker j).locked_ = true)
    (hstep : RedisLocker.stepAny redis_lock_timeout (.command i) s = some s') :
    ¬ ReleasesOwn s' := by
  have hji : j ≠ i := by
    rintro rfl
    simp [h.idle j hj] at hpc
  simp only [RedisLocker.stepAny, hpc, hkey, Pc.execAny, Pc.exec, Option.map_some,
    Option.some.injEq, Option.getD_some, beq_self_eq_true] at hstep
  subst hstep
  intro hown
  have hle := hown j (by simpa [State.continue, hji] using hj) i (by simp [State.continue])
  simp only [State.continue, Function.update_self, Function.update_of_ne hji, if_true] at hle
  exact absurd (h.turn j hj) (by omega)

/-- In a run without takeovers from a live holder, whatever the clocks read, `unlock()` never
deletes the key of a locker that acquired it later and still holds it; and the first such
takeover is what makes it possible. -/
theorem unlock_releases_own {s : State ι}
    (h : (machineAny ι redis_lock_timeout).Reaches NoTakeover s) :
    (∀ i s', (s.locker i).locked_ = true → stepAny redis_lock_timeout (.unlock i) s = some s' →
      s'.key = none ∧ ∀ j, j ≠ i → (s.locker j).locked_ = true →
        (s.locker j).turn ≤ (s.locker i).turn) ∧
    ∀ a s', stepAny redis_lock_timeout a s = some s' → (ReleasesOwn s' ↔ NoTakeover a s) := by
  have hheld : Held s := h.invariant (fun s hinit => .init hinit.2.2.2)
    fun a s s' hs hno hstep => hs.stepAny hno hstep
  refine ⟨fun i s' hi hstep => ?_, fun a s' hstep => ⟨fun hown => ?_, fun hno => ?_⟩⟩
  · simp only [RedisLocker.stepAny, RedisLocker.step, hheld.idle i hi, hi, ne_eq,
      not_true_eq_false, if_false, if_true, Option.some.injEq] at hstep
    subst hstep
    exact ⟨rfl, fun j _ hj => hheld.releasesOwn i hi j hj⟩
  · rintro i now t1 rfl hpc hkey j
    by_contra hj
    exact hheld.not_releasesOwn_of_takeover hpc hkey (by simpa using hj) hstep hown
  · exact (hheld.stepAny hno hstep).releasesOwn

section Runs

instance (a : Action Bool) (s : State Bool) : Decidable (NoTakeover a s) :=
  decidable_of_iff
    (∀ i, a.commands i = true → (s.locker i).pc.takesOver s.key = true →
      ∀ j, (s.locker j).locked_ = false) (by
    constructor
    · rintro h i now t1 rfl hpc hkey
      exact h i (by simp [Action.commands]) (by simp [Pc.takesOver, hpc, hkey])
    · intro h i ha hpc
      obtain ⟨now, t1, hstale, hkey⟩ := Pc.takesOver_iff.mp hpc
      exact h i now t1 (Action.commands_iff.mp ha) hstale hkey)

theorem twoLockers_init_any : (machineAny Bool 2000).init twoLockers := by
  simp [machineAny, twoLockers]

/-- Locker `false` keeps the key for longer than the timeout; `true` takes it over, and
the `unlock()` of `false` deletes the key of `true`. -/
theorem unlock_deletes_taken_key :
    ¬ ∀ s s' : State Bool, (machineAny Bool 2000).Reachable s →
      ∀ i, (s.locker i).locked_ = true → stepAny 2000 (.unlock i) s = some s' →
        ∀ j, j ≠ i → (s.locker j).locked_ = true →
          (s.locker j).turn ≤ (s.locker i).turn := by
  intro hclaim
  obtain ⟨s, hs, hq⟩ := Machine.exists_reaches_of_runChecked
    (M := machineAny Bool 2000) (P := fun _ _ => True) (p := fun _ _ => true)
    (q := fun s => (s.locker false).locked_ && (s.locker true).locked_ &&
      decide ((s.locker false).turn < (s.locker true).turn) &&
      (stepAny 2000 (.unlock false) s).isSome)
    (l := [.tryLock false, .command false, .tick 3001,
      .tryLock true, .command true, .command true, .command true])
    (fun _ _ _ => trivial) twoLockers_init_any (by decide)
  simp only [Bool.and_eq_true, decide_eq_true_eq] at hq
  obtain ⟨⟨⟨hfalse, htrue⟩, hturn⟩, hsome⟩ := hq
  obtain ⟨s', hs'⟩ := Option.isSome_iff_exists.mp hsome
  exact absurd (hclaim s s' hs false hfalse hs' true (by decide) htrue) (by omega)

/-- A contended run: `true` finds the key busy, and gets it once `false` is done. -/
theorem unlock_releases_own_after_contention :
    ∃ s : State Bool, (s.locker true).locked_ = true ∧
      ∀ s', stepAny 2000 (.unlock true) s = some s' → s'.key = none := by
  obtain ⟨s, hs, hq⟩ := Machine.exists_reaches_of_runChecked
    (M := machineAny Bool 2000) (P := NoTakeover) (p := fun a s => decide (NoTakeover a s))
    (q := fun s => (s.locker true).locked_)
    (l := [.tryLock false, .command false, .tryLock true, .command true, .command true,
      .unlock false, .tick 4000, .tryLock true, .command true])
    (fun _ _ h => by simpa using h) twoLockers_init_any (by decide)
  exact ⟨s, hq, fun s' hstep => ((unlock_releases_own hs).1 true s' hq hstep).1⟩

end Runs

end RedisLocker
