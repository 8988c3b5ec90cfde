import Mathlib.Algebra.Group.Int.Defs
import ErizoController.Redis.Locker

/-!
# The owner of a present key

Here the lockers of one key read the clock freely: each reading is any unsigned 64-bit
number, `redis_lock_timeout` is any integer, and a holder may hold for ever. Mutual
exclusion is then out of the question, but a key that is in Redis still has an owner,
so a losing attempt never leaves a key behind that nobody deletes. A command of
`try_lock` and the assignment of `locked_` that follows it are one step.
-/

namespace RedisLocker

/-- The test `now > t1 + redis_lock_timeout` for a timeout of any sign, which C++ converts
to an unsigned 64-bit number. -/
def expiredAny (redis_lock_timeout : ℤ) (now t1 : ℕ) : Bool :=
  (t1 + redis_lock_timeout) % 2 ^ 64 < now

/-- The effect of the next command of `try_lock` for any clock readings: the number
`std::stoll` reads back is below `2 ^ 63`, and it throws on a larger one. -/
def Pc.execAny (redis_lock_timeout : ℤ) : Pc → Option ℕ → Option (Option ℕ × Pc × Bool)
  | .get now, some t1 =>
      some (some t1,
        if t1 < 2 ^ 63 ∧ expiredAny redis_lock_timeout now t1 then .getsetStale now t1 else .idle,
        false)
  | pc, key => pc.exec 0 key

variable {ι : Type} [DecidableEq ι] {redis_lock_timeout : ℤ}

def stepAny (redis_lock_timeout : ℤ) : Action ι → State ι → Option (State ι)
  -- the next reading of the clock, by whatever locker
  | .tick now, s => if now < 2 ^ 64 then some { s with clock := now } else none
  | .command i, s =>
      ((s.locker i).pc.execAny redis_lock_timeout s.key).map fun (key, pc, locked) =>
        s.continue i key pc locked
  | a, s => step 0 a s

/-- The lockers of one key, with clock readings that need not agree or grow. -/
def machineAny (ι : Type) [DecidableEq ι] (redis_lock_timeout : ℤ) :
    Machine (Action ι) (State ι) where
  init s := s.clock < 2 ^ 64 ∧ s.key = none ∧ s.turns = 0 ∧ ∀ i, s.locker i = {}
  step := stepAny redis_lock_timeout

/-- The next command of the locker is a `GETSET`, in the nil branch or the stale one. -/
def Pc.getsets : Pc → Bool
  | .getsetNil _ | .getsetStale _ _ => true
  | _ => false

/-- A command that leaves the key in Redis either makes its locker the owner or found
the key there. -/
theorem Pc.execAny_present {pc pc' : Pc} {key key' : Option ℕ} {locked : Bool}
    (h : pc.execAny redis_lock_timeout key = some (key', pc', locked)) (hkey' : key'.isSome) :
    locked = true ∧ pc' = .idle ∨ locked = false ∧ key.isSome := by
  cases pc with
  | idle => simp [Pc.execAny, Pc.exec] at h
  | setnx now =>
      cases key <;>
        simp only [Pc.execAny, Pc.exec, Option.some.injEq, Prod.mk.injEq] at h <;>
        obtain ⟨rfl, rfl, rfl⟩ := h
      · exact .inl ⟨rfl, rfl⟩
      · exact .inr ⟨rfl, rfl⟩
  | get now =>
      cases key <;>
        simp only [Pc.execAny, Pc.exec, Option.some.injEq, Prod.mk.injEq] at h <;>
        obtain ⟨rfl, rfl, rfl⟩ := h
      · cases hkey'
      · exact .inr ⟨rfl, rfl⟩
  | getsetNil now =>
      simp only [Pc.execAny, Pc.exec, Option.some.injEq, Prod.mk.injEq] at h
      obtain ⟨rfl, rfl, rfl⟩ := h
      cases key with
      | none => exact .inl ⟨rfl, rfl⟩
      | some v => exact .inr ⟨rfl, rfl⟩
  | getsetStale now t1 =>
      simp only [Pc.execAny, Pc.exec, Option.some.injEq, Prod.mk.injEq] at h
      obtain ⟨rfl, rfl, rfl⟩ := h
      cases key with
      | none => exact .inl ⟨by simp, rfl⟩
      | some t2 =>
          by_cases ht : t2 = t1
          · exact .inl ⟨by simp [ht], rfl⟩
          · exact .inr ⟨by simp [ht], rfl⟩

/-- A `GETSET` that finds the key gone makes its caller the owner: on nil the old value
keeps the time stamp that `GET` returned. -/
theorem Pc.execAny_getset_nil {pc : Pc} (hpc : pc.getsets = true) :
    ∃ now, pc.execAny redis_lock_timeout none = some (some now, .idle, true) := by
  cases pc with
  | idle | setnx _ | get _ => cases hpc
  | getsetNil now => exact ⟨now, rfl⟩
  | getsetStale now t1 => exact ⟨now, by simp [Pc.execAny, Pc.exec]⟩

/-- A locker in the middle of `try_lock` holds nothing, and a present key has an owner. -/
structure Owned (s : State ι) : Prop where
  idle : ∀ i, (s.locker i).locked_ = true → (s.locker i).pc = .idle
  owner : s.key.isSome → ∃ i, (s.locker i).locked_ = true

omit [DecidableEq ι] in
theorem Owned.init {s : State ι} (hkey : s.key = none) (h : ∀ i, s.locker i = {}) : Owned s where
  idle i _ := by rw [h i]
  owner hsome := by simp [hkey] at hsome

/-- The command of one locker, which held nothing before it. -/
theorem Owned.command {s : State ι} {i : ι} {key' : Option ℕ} {pc' : Pc} {locked : Bool}
    (hs : Owned s)
    (h : (s.locker i).pc.execAny redis_lock_timeout s.key = some (key', pc', locked)) :
    Owned (s.continue i key' pc' locked) := by
  have hfree : (s.locker i).locked_ ≠ true := by
    intro hi
    simp [hs.idle i hi, Pc.execAny, Pc.exec] at h
  constructor
  · intro j hj
    by_cases hji : j = i
    · subst hji
      simp only [State.continue, Function.update_self] at hj ⊢
      subst hj
      cases hpc : (s.locker j).pc with
      | idle => simp [hpc, Pc.execAny, Pc.exec] at h
      | setnx now =>
          cases hkey : s.key <;> simp [hpc, hkey, Pc.execAny, Pc.exec] at h
          exact h.2.symm
      | get now => cases hkey : s.key <;> simp [hpc, hkey, Pc.execAny, Pc.exec] at h
      | getsetNil now | getsetStale now t1 =>
          simp only [hpc, Pc.execAny, Pc.exec, Option.some.injEq, Prod.mk.injEq] at h
          exact h.2.1.symm
    · simp only [State.continue, Function.update_of_ne hji] at hj ⊢
      exact hs.idle j hj
  · intro hkey'
    obtain ⟨rfl, rfl⟩ | ⟨rfl, hkey⟩ := Pc.execAny_present h hkey'
    · exact ⟨i, by simp [State.continue]⟩
    · obtain ⟨j, hj⟩ := hs.owner hkey
      have hji : j ≠ i := by
        rintro rfl
        exact hfree hj
      exact ⟨j, by simpa [State.continue, hji] using hj⟩

theorem Owned.step {a : Action ι} {s s' : State ι} (hs : Owned s)
    (h : stepAny redis_lock_timeout a s = some s') : Owned s' := by
  cases a with
  | tick now =>
      simp only [stepAny, Option.ite_none_right_eq_some, Option.some.injEq] at h
      obtain ⟨-, rfl⟩ := h
      exact ⟨hs.idle, hs.owner⟩
  | command i =>
      simp only [stepAny, Option.map_eq_some_iff, Prod.exists] at h
      obtain ⟨key', pc', locked, hexec, rfl⟩ := h
      exact hs.command hexec
  | tryLock i =>
      simp only [stepAny, RedisLocker.step] at h
      split at h
      · cases h
      split at h
      · cases h
        exact hs
      · rename_i hfree
        cases h
        constructor
        · intro j hj
          by_cases hji : j = i
          · subst hji
            simp only [State.setLocker_self] at hj
            exact absurd hj hfree
          · rw [State.setLocker_ne s _ hji] at hj ⊢
            exact hs.idle j hj
        · intro hkey
          obtain ⟨j, hj⟩ := hs.owner hkey
          have hji : j ≠ i := by
            rintro rfl
            exact hfree hj
          exact ⟨j, by rwa [State.setLocker_ne s _ hji]⟩
  | unlock i =>
      simp only [stepAny, RedisLocker.step] at h
      split at h
      · cases h
      rename_i hpc
      split at h
      · cases h
        refine ⟨fun j hj => ?_, fun hkey => by cases hkey⟩
        by_cases hji : j = i
        · subst hji
          simp at hj
        · simp only [State.setLocker, Function.update_of_ne hji] at hj ⊢
          exact hs.idle j hj
      · cases h
        exact hs

/-- No abandoned key: whatever the clock readings, the order of the commands and the
takeovers, a key that is in Redis has a locker with `locked_ = true`; and a `GETSET`
that finds the key gone makes its caller such a locker. -/
theorem key_has_owner {s : State ι} (h : (machineAny ι redis_lock_timeout).Reachable s) :
    (s.key.isSome → ∃ i, (s.locker i).locked_ = true) ∧
    ∀ i, (s.locker i).pc.getsets = true → s.key = none →
      ∃ s', stepAny redis_lock_timeout (.command i) s = some s' ∧
        s'.key.isSome ∧ (s'.locker i).locked_ = true := by
  have howned : Owned s := h.invariant (fun s hinit => .init hinit.2.1 hinit.2.2.2)
    (fun a s s' hs _ hstep => hs.step hstep)
  refine ⟨howned.owner, fun i hpc hkey => ?_⟩
  obtain ⟨now, hexec⟩ : ∃ now, (s.locker i).pc.execAny redis_lock_timeout none = _ :=
    Pc.execAny_getset_nil hpc
  exact ⟨s.continue i (some now) .idle true, by simp [stepAny, hkey, hexec], rfl,
    by simp [State.continue]⟩

/-- Lockers 1 and 2 both find the key of locker 0 stale. Locker 2 takes it over and
releases it, so the `GETSET` of locker 1 finds the key gone. -/
theorem key_has_owner_after_lost_takeover :
    ∃ s : State (Fin 3), (s.locker 1).pc.getsets = true ∧ s.key = none ∧
      ∃ s', stepAny 2000 (.command 1) s = some s' ∧ s'.key.isSome ∧
        (s'.locker 1).locked_ = true := by
  have hinit : (machineAny (Fin 3) 2000).init
      { clock := 1000, key := none, locker := fun _ => {}, turns := 0 } := by
    simp [machineAny]
  obtain ⟨s, hs, hq⟩ := Machine.exists_reaches_of_runChecked
    (M := machineAny (Fin 3) 2000) (P := fun _ _ => True) (p := fun _ _ => true)
    (q := fun s => (s.locker 1).pc.getsets && s.key.isNone)
    (l := [.tryLock 0, .command 0, .tick 9000,
      .tryLock 1, .command 1, .command 1, .tick 8000,
      .tryLock 2, .command 2, .command 2, .command 2, .unlock 2])
    (fun _ _ _ => trivial) hinit (by decide)
  simp only [Bool.and_eq_true, Option.isNone_iff_eq_none] at hq
  exact ⟨s, hq.1, hq.2, (key_has_owner hs).2 1 hq.1 hq.2⟩

end RedisLocker
