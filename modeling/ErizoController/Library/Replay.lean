import Mathlib.Data.Finset.Insert
import Mathlib.Data.Finset.Erase
import Mathlib.Data.List.Basic

/-!
# Replaying a log

A log of insertions and removals, applied to a set in its order. Whether an element is in
the set at the end depends on the entries about it alone, so entries about different
elements may overtake each other on their way.
-/

universe u

namespace Replay

variable {K : Type u} [DecidableEq K] {k : K} {s : Finset K}

/-- An entry of a log: the element, and whether it is inserted or removed. -/
def enter (s : Finset K) (entry : K × Bool) : Finset K :=
  if entry.2 then insert entry.1 s else s.erase entry.1

def replay (s : Finset K) (log : List (K × Bool)) : Finset K := log.foldl enter s

@[simp] theorem replay_nil : replay s [] = s := rfl

theorem replay_cons (entry : K × Bool) (log : List (K × Bool)) :
    replay s (entry :: log) = replay (enter s entry) log := rfl

theorem replay_append (log log' : List (K × Bool)) :
    replay s (log ++ log') = replay (replay s log) log' := List.foldl_append

theorem mem_enter_of_ne {entry : K × Bool} (h : entry.1 ≠ k) : k ∈ enter s entry ↔ k ∈ s := by
  rw [enter]
  split
  · exact Finset.mem_insert.trans (or_iff_right (Ne.symm h))
  · exact Finset.mem_erase.trans (and_iff_right (Ne.symm h))

/-- Only the entries about an element matter for it. -/
theorem mem_replay_filter (log : List (K × Bool)) :
    k ∈ replay s log ↔ k ∈ replay s (log.filter fun entry => entry.1 = k) := by
  suffices hall : ∀ s s' : Finset K, (k ∈ s ↔ k ∈ s') →
      (k ∈ replay s log ↔ k ∈ replay s' (log.filter fun entry => entry.1 = k)) from
    hall s s Iff.rfl
  induction log with
  | nil => exact fun s s' h => h
  | cons entry log ih =>
      intro s s' h
      rw [replay_cons, List.filter_cons]
      by_cases hk : entry.1 = k
      · rw [if_pos (decide_eq_true hk), replay_cons]
        refine ih _ _ ?_
        rw [enter, enter, hk]
        split
        · exact iff_of_true (Finset.mem_insert_self k s) (Finset.mem_insert_self k s')
        · exact iff_of_false (Finset.notMem_erase k s) (Finset.notMem_erase k s')
      · rw [if_neg fun htrue => hk (of_decide_eq_true htrue)]
        exact ih _ _ ((mem_enter_of_ne hk).trans h)

/-- A log that does not remove an element. -/
theorem mem_replay_of_inserts {log : List (K × Bool)} (h : (k, false) ∉ log) :
    k ∈ replay s log ↔ k ∈ s ∨ (k, true) ∈ log := by
  induction log generalizing s with
  | nil => simp
  | cons entry log ih =>
      obtain ⟨hentry, hlog⟩ := not_or.mp (mt List.mem_cons.mpr h)
      obtain ⟨k', b⟩ := entry
      rw [replay_cons, ih hlog, List.mem_cons]
      by_cases hk : k' = k
      · subst hk
        cases b with
        | false => exact absurd rfl hentry
        | true => simp [enter]
      · rw [mem_enter_of_ne hk]
        simp [Ne.symm hk]

/-- A log that does not insert an element. -/
theorem mem_replay_of_removals {log : List (K × Bool)} (h : (k, true) ∉ log) :
    k ∈ replay s log ↔ k ∈ s ∧ (k, false) ∉ log := by
  induction log generalizing s with
  | nil => simp
  | cons entry log ih =>
      obtain ⟨hentry, hlog⟩ := not_or.mp (mt List.mem_cons.mpr h)
      obtain ⟨k', b⟩ := entry
      rw [replay_cons, ih hlog, List.mem_cons, not_or]
      by_cases hk : k' = k
      · subst hk
        cases b with
        | false => simp [enter]
        | true => exact absurd rfl hentry
      · rw [mem_enter_of_ne hk]
        simp [Ne.symm hk]

/-! ## Entries on their way -/

/-- An entry that is taken out before others overtakes none that it must not overtake. -/
theorem filter_overtake {α : Type u} {p : α → Bool} {before after arrived : List α} {a : α}
    (h : p a = true → ∀ b ∈ before, p b = false) :
    (arrived ++ [a] ++ (before ++ after)).filter p =
    (arrived ++ (before ++ a :: after)).filter p := by
  by_cases ha : p a = true
  · have hbefore : before.filter p = [] :=
      List.filter_eq_nil_iff.mpr fun b hb => ne_true_of_eq_false (h ha b hb)
    simp [hbefore, ha]
  · simp [ha]

/-! ## Senders with queues of their own -/

variable {ι : Type u} {α : Type u} [DecidableEq ι]

/-- The first entry of a sender among all that wait, with what waits before and after it. -/
def takeFirst (i : ι) : List (ι × α) → Option (List (ι × α) × α × List (ι × α))
  | [] => none
  | (j, a) :: waiting =>
      if j = i then some ([], a, waiting)
      else (takeFirst i waiting).map fun next => ((j, a) :: next.1, next.2)

theorem takeFirst_eq_some {i : ι} {waiting : List (ι × α)}
    {next : List (ι × α) × α × List (ι × α)} (h : takeFirst i waiting = some next) :
    waiting = next.1 ++ (i, next.2.1) :: next.2.2 ∧ ∀ b ∈ next.1, b.1 ≠ i := by
  induction waiting generalizing next with
  | nil => cases h
  | cons entry waiting ih =>
      rw [takeFirst] at h
      split at h
      · rename_i hi
        obtain rfl := Option.some.inj h
        exact ⟨by rw [← hi]; rfl, by simp⟩
      · rename_i hi
        obtain ⟨rest, hrest, rfl⟩ := Option.map_eq_some_iff.mp h
        obtain ⟨heq, hother⟩ := ih hrest
        refine ⟨congrArg (entry :: ·) heq, fun b hb => ?_⟩
        rcases List.mem_cons.mp hb with rfl | hb
        · exact hi
        · exact hother b hb

end Replay
