import Mathlib.Algebra.Group.Nat.Defs
import Mathlib.Data.Fintype.Basic
import Mathlib.Logic.Function.Basic
import ErizoController.Library.Machine

/-!
# RedisLocker

Any number of `RedisLocker` objects contend for one Redis key. A locker runs
`try_lock` one Redis command at a time; `Pc` is the command it issues next and
carries the local variables that are still needed. Every Redis command is atomic
and succeeds. The value stored under the key is a decimal time stamp, so it is
kept as the number that `std::stoll` reads back, and `none` is the nil reply.

`lockedAt` and `turn` are ghost fields: the clock when `lock()` returned true, and
the position of that acquisition among all acquisitions of the key.
-/

namespace RedisLocker

/-- The next command of a locker that is inside `try_lock`; `now` is the clock
read at its start and `t1` the stale time stamp that `GET` returned. -/
inductive Pc where
  | idle
  | setnx (now : ℕ)
  | get (now : ℕ)
  | getsetNil (now : ℕ)
  | getsetStale (now t1 : ℕ)
  deriving DecidableEq, Repr

/-- The test `now > t1 + redis_lock_timeout`, in unsigned 64-bit arithmetic. -/
def expired (timeout : Fin (2 ^ 31)) (now t1 : ℕ) : Bool :=
  (t1 + timeout) % 2 ^ 64 < now

/-- The effect of the next command of `try_lock`, given the value of the key:
the new value of the key, the next command, and the new `locked_`. -/
def Pc.exec (timeout : Fin (2 ^ 31)) : Pc → Option ℕ → Option (Option ℕ × Pc × Bool)
  | .idle, _ => none
  | .setnx now, none => some (some now, .idle, true)
  | .setnx now, some v => some (some v, .get now, false)
  | .get now, none => some (none, .getsetNil now, false)
  | .get now, some t1 =>
      some (some t1, if expired timeout now t1 then .getsetStale now t1 else .idle, false)
  | .getsetNil now, old => some (some now, .idle, old.isNone)
  -- `ACLRedis::getset` leaves `value` untouched on nil, so `t2` is then `t1` again
  | .getsetStale now t1, old => some (some now, .idle, old.getD t1 == t1)

structure Locker where
  pc : Pc := .idle
  locked_ : Bool := false
  lockedAt : ℕ := 0
  turn : ℕ := 0

structure State (ι : Type) where
  clock : ℕ
  key : Option ℕ
  locker : ι → Locker
  turns : ℕ

inductive Action (ι : Type) where
  /-- Time passes; the system clock counts in a signed 64-bit integer. -/
  | tick (now : ℕ)
  /-- `try_lock` is called and reads the clock. -/
  | tryLock (i : ι)
  /-- The next Redis command of a running `try_lock`. -/
  | command (i : ι)
  /-- `unlock()` or the destructor: `DEL` when `locked_`, else nothing. -/
  | unlock (i : ι)

variable {ι : Type} [DecidableEq ι]

def State.setLocker (s : State ι) (i : ι) (l : Locker) : State ι :=
  { s with locker := Function.update s.locker i l }

@[simp] theorem State.setLocker_clock (s : State ι) (i : ι) (l : Locker) :
    (s.setLocker i l).clock = s.clock := rfl

@[simp] theorem State.setLocker_key (s : State ι) (i : ι) (l : Locker) :
    (s.setLocker i l).key = s.key := rfl

@[simp] theorem State.setLocker_self (s : State ι) (i : ι) (l : Locker) :
    (s.setLocker i l).locker i = l := by
  simp [State.setLocker]

theorem State.setLocker_ne (s : State ι) {i j : ι} (l : Locker) (h : j ≠ i) :
    (s.setLocker i l).locker j = s.locker j := by
  simp [State.setLocker, h]

/-- Locker `i` continues as `pc` with the given `locked_`, and the key as `key`. -/
def State.continue (s : State ι) (i : ι) (key : Option ℕ) (pc : Pc) (locked : Bool) : State ι :=
  { s with
    key := key
    locker := Function.update s.locker i
      { pc := pc, locked_ := locked,
        lockedAt := if locked then s.clock else (s.locker i).lockedAt
        turn := if locked then s.turns else (s.locker i).turn }
    turns := if locked then s.turns + 1 else s.turns }

def step (timeout : Fin (2 ^ 31)) : Action ι → State ι → Option (State ι)
  | .tick now, s =>
      if s.clock ≤ now ∧ now < 2 ^ 63 then some { s with clock := now } else none
  | .tryLock i, s =>
      if (s.locker i).pc ≠ .idle then none
      else if (s.locker i).locked_ then some s
      else some (s.setLocker i { s.locker i with pc := .setnx s.clock })
  | .command i, s =>
      ((s.locker i).pc.exec timeout s.key).map fun (key, pc, locked) =>
        s.continue i key pc locked
  | .unlock i, s =>
      if (s.locker i).pc ≠ .idle then none
      else if (s.locker i).locked_ then
        some { s.setLocker i { s.locker i with locked_ := false } with key := none }
      else some s

/-- The lockers of one key: nobody holds it, and it is not in Redis. -/
def machine (ι : Type) [DecidableEq ι] (timeout : Fin (2 ^ 31)) :
    Machine (Action ι) (State ι) where
  init s := s.clock < 2 ^ 63 ∧ s.key = none ∧ s.turns = 0 ∧ ∀ i, s.locker i = {}
  step := step timeout

/-! ## What one command can do -/

/-- A command sets `locked_` only on a key that is absent, or that still holds the
stale time stamp read before; the key is then present. -/
theorem Pc.exec_locked {timeout : Fin (2 ^ 31)} {pc pc' : Pc} {key key' : Option ℕ}
    (h : pc.exec timeout key = some (key', pc', true)) :
    pc' = .idle ∧ key'.isSome ∧
      (key = none ∨ ∃ now t1, pc = .getsetStale now t1 ∧ key = some t1) := by
  cases pc with
  | idle => simp [Pc.exec] at h
  | setnx now => cases key <;> simp_all [Pc.exec]; rw [← h.1]; rfl
  | get now => cases key <;> simp [Pc.exec] at h
  | getsetNil now =>
      simp only [Pc.exec, Option.some.injEq, Prod.mk.injEq, Option.isNone_iff_eq_none] at h
      obtain ⟨rfl, rfl, rfl⟩ := h
      simp
  | getsetStale now t1 =>
      simp only [Pc.exec, Option.some.injEq, Prod.mk.injEq, beq_iff_eq] at h
      obtain ⟨rfl, rfl, ht⟩ := h
      cases key with
      | none => simp
      | some t2 =>
          obtain rfl : t2 = t1 := by simpa using ht
          simp

/-- A command that does not end in `locked_ = true` never removes the key. -/
theorem Pc.exec_present {timeout : Fin (2 ^ 31)} {pc pc' : Pc} {key key' : Option ℕ}
    {locked : Bool} (h : pc.exec timeout key = some (key', pc', locked))
    (hkey : key.isSome) : key'.isSome := by
  obtain ⟨v, rfl⟩ := Option.isSome_iff_exists.mp hkey
  cases pc <;> simp only [Pc.exec, Option.some.injEq, Prod.mk.injEq, reduceCtorEq] at h
  all_goals rw [← h.1]; rfl

/-- The clock readings a locker carries are not ahead of `clock`, and a locker
about to take over read the clock more than the timeout past `t1`. -/
def Pc.ReadBy (timeout : Fin (2 ^ 31)) (clock : ℕ) : Pc → Prop
  | .idle => True
  | .setnx now | .get now | .getsetNil now => now ≤ clock
  | .getsetStale now t1 => now ≤ clock ∧ t1 + timeout < now

theorem Pc.ReadBy.mono {timeout : Fin (2 ^ 31)} {clock clock' : ℕ} {pc : Pc}
    (h : pc.ReadBy timeout clock) (hle : clock ≤ clock') : pc.ReadBy timeout clock' := by
  cases pc with
  | idle => trivial
  | setnx now | get now | getsetNil now => exact le_trans (b := clock) h hle
  | getsetStale now t1 => exact ⟨h.1.trans hle, h.2⟩

/-- A command keeps the readings and stores only readings. The sum in `expired`
does not wrap, because the stored value is below `2 ^ 63`. -/
theorem Pc.exec_readBy {timeout : Fin (2 ^ 31)} {clock : ℕ} {pc pc' : Pc}
    {key key' : Option ℕ} {locked : Bool}
    (h : pc.exec timeout key = some (key', pc', locked)) (hclock : clock < 2 ^ 63)
    (hpc : pc.ReadBy timeout clock) (hkey : ∀ v ∈ key, v ≤ clock) :
    pc'.ReadBy timeout clock ∧ ∀ v ∈ key', v ≤ clock := by
  have hT : (timeout : ℕ) < 2 ^ 31 := timeout.isLt
  cases pc with
  | idle => simp [Pc.exec] at h
  | setnx now =>
      cases key <;>
        simp only [Pc.exec, Option.some.injEq, Prod.mk.injEq] at h <;>
        obtain ⟨rfl, rfl, rfl⟩ := h
      · exact ⟨trivial, fun v hv => by obtain rfl := Option.some.inj hv; exact hpc⟩
      · exact ⟨hpc, hkey⟩
  | get now =>
      cases key with
      | none =>
          simp only [Pc.exec, Option.some.injEq, Prod.mk.injEq] at h
          obtain ⟨rfl, rfl, rfl⟩ := h
          exact ⟨hpc, hkey⟩
      | some t1 =>
          simp only [Pc.exec, Option.some.injEq, Prod.mk.injEq] at h
          obtain ⟨rfl, rfl, rfl⟩ := h
          refine ⟨?_, hkey⟩
          have ht1 : t1 ≤ clock := hkey t1 rfl
          split
          · rename_i hexp
            simp only [expired, decide_eq_true_eq] at hexp
            exact ⟨hpc, by omega⟩
          · trivial
  | getsetNil now =>
      simp only [Pc.exec, Option.some.injEq, Prod.mk.injEq] at h
      obtain ⟨rfl, rfl, rfl⟩ := h
      exact ⟨trivial, fun v hv => by obtain rfl := Option.some.inj hv; exact hpc⟩
  | getsetStale now t1 =>
      simp only [Pc.exec, Option.some.injEq, Prod.mk.injEq] at h
      obtain ⟨rfl, rfl, rfl⟩ := h
      exact ⟨trivial, fun v hv => by obtain rfl := Option.some.inj hv; exact hpc.1⟩

end RedisLocker
