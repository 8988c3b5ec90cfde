import Mathlib.Data.Nat.Find
import Mathlib.Data.Nat.Init
import ErizoController.Library.Machine

/-!
# Runs without end

An infinite run of a machine from a state that it reaches. A part of the state that is changed
by moves of its own only, each of them a step down, comes to rest again and again, as long as
it is moved whenever it is not at rest.
-/

namespace Machine

universe u v w

variable {A : Type u} {σ : Type v}

/-- A run without end, from a state that the machine reaches. -/
structure Forever (M : Machine A σ) (as : ℕ → A) (s : ℕ → σ) : Prop where
  start : M.Reachable (s 0)
  next : ∀ n, M.step (as n) (s n) = some (s (n + 1))

theorem Forever.reachable {M : Machine A σ} {as : ℕ → A} {s : ℕ → σ} (h : M.Forever as s) (n : ℕ) :
    M.Reachable (s n) := by
  induction n with
  | zero => exact h.start
  | succ n ih => exact .step ih trivial (h.next n)

/-- A machine that can always take a step of some kind. -/
theorem exists_forever {M : Machine A σ} {Q : A → Prop}
    (hgo : ∀ s, ∃ a s', Q a ∧ M.step a s = some s') {s : σ} (hs : M.Reachable s) :
    ∃ (as : ℕ → A) (t : ℕ → σ), t 0 = s ∧ M.Forever as t ∧ ∀ n, Q (as n) := by
  choose act next hact hnext using hgo
  let t : ℕ → σ := Nat.rec s fun _ => next
  exact ⟨fun n => act (t n), t, rfl, ⟨hs, fun n => hnext (t n)⟩, fun n => hact (t n)⟩

section Rest

variable {α : Type w} {r : α → α → Prop} {f : ℕ → α} {Moved : ℕ → Prop} {P : α → Prop}

/-- Nothing changes before the first move. -/
theorem eq_of_not_moved (hstay : ∀ n, ¬ Moved n → f (n + 1) = f n) {n m : ℕ} (hle : n ≤ m)
    (hnot : ∀ k, n ≤ k → k < m → ¬ Moved k) : f m = f n := by
  induction m, hle using Nat.le_induction with
  | base => rfl
  | succ m hle ih =>
      rw [hstay m (hnot m hle (Nat.lt_succ_self m))]
      exact ih fun k hnk hk => hnot k hnk (Nat.lt_succ_of_lt hk)

/-- What only moves down comes to rest again and again. -/
theorem rests_again (hacc : ∀ n, Acc r (f n)) (hstay : ∀ n, ¬ Moved n → f (n + 1) = f n)
    (hdown : ∀ n, Moved n → ¬ P (f n) → r (f (n + 1)) (f n))
    (hfair : ∀ n, ∃ m ≥ n, P (f m) ∨ Moved m) (n : ℕ) : ∃ m ≥ n, P (f m) := by
  classical
  have hrests : ∀ a, Acc r a → ∀ n, f n = a → ∃ m ≥ n, P (f m) := by
    intro a ha
    induction ha with
    | intro a _ ih =>
        rintro n rfl
        -- the first time that it is at rest or moved
        obtain ⟨hle, hfirst⟩ := Nat.find_spec (hfair n)
        have hsame : f (Nat.find (hfair n)) = f n :=
          eq_of_not_moved hstay hle fun k hnk hk hmoved =>
            Nat.find_min (hfair n) hk ⟨hnk, .inr hmoved⟩
        by_cases hrest : P (f (Nat.find (hfair n)))
        · exact ⟨_, hle, hrest⟩
        · have hmoved := hfirst.resolve_left hrest
          have hlower := hdown _ hmoved hrest
          rw [hsame] at hlower
          obtain ⟨m, hm, hrest'⟩ := ih _ hlower _ rfl
          exact ⟨m, Nat.le_trans hle (Nat.le_of_succ_le hm), hrest'⟩
  exact hrests (f n) (hacc n) n rfl

end Rest

end Machine
