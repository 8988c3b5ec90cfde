import Mathlib.Data.List.Pairwise
import Mathlib.Order.Nat
import Mathlib.Logic.Function.Basic

/-!
# Workers with queues

Tasks are numbered in the order in which they are dealt, and each worker runs its own
tasks one after the other, in steps that may put out values. Nothing is said about which
worker gets which task, nor about the order in which the workers take steps; the values
put out by one worker are still in the order of its tasks.
-/

universe u v w

/-- A value put out by a worker while it ran the task with the given number. -/
structure Output (W : Type u) (ε : Type v) where
  worker : W
  number : ℕ
  value : ε

/-- The tasks waiting at each worker, the running one first, and all that was put out. -/
structure Workers (W : Type u) (τ : Type v) (ε : Type w) where
  dealt : ℕ := 0
  queue : W → List (ℕ × τ) := fun _ => []
  output : List (Output W ε) := []

namespace Workers

variable {W : Type u} {τ : Type v} {ε : Type w} [DecidableEq W]

/-- A new task at the end of the queue of a worker. -/
def deal (w : W) (t : τ) (s : Workers W τ ε) : Workers W τ ε :=
  { s with
    dealt := s.dealt + 1
    queue := Function.update s.queue w (s.queue w ++ [(s.dealt, t)]) }

/-- One step of the running task of a worker: what is left of the task, `none` when it is
done, and the values it puts out. -/
def advance (step : τ → Option (Option τ × List ε)) (w : W) (s : Workers W τ ε) :
    Option (Workers W τ ε) :=
  match s.queue w with
  | [] => none
  | (n, t) :: rest =>
      (step t).map fun (t', es) =>
        { s with
          queue := Function.update s.queue w (t'.toList.map (n, ·) ++ rest)
          output := s.output ++ es.map fun e => ⟨w, n, e⟩ }

/-- Each queue is in the order of the numbers, and behind what its worker has put out. -/
structure InOrder (s : Workers W τ ε) : Prop where
  dealt : ∀ w, ∀ p ∈ s.queue w, p.1 < s.dealt
  queue : ∀ w, (s.queue w).Pairwise fun p q => p.1 < q.1
  waiting : ∀ o ∈ s.output, o.number < s.dealt ∧ ∀ p ∈ s.queue o.worker, o.number ≤ p.1
  output : s.output.Pairwise fun o o' => o.worker = o'.worker → o.number ≤ o'.number

omit [DecidableEq W] in
theorem inOrder_init : InOrder ({} : Workers W τ ε) := by
  constructor <;> simp

theorem InOrder.deal {s : Workers W τ ε} (hs : InOrder s) (w : W) (t : τ) :
    InOrder (s.deal w t) := by
  constructor
  · intro v p hp
    by_cases hv : v = w
    · subst hv
      simp only [Workers.deal, Function.update_self, List.mem_append, List.mem_singleton] at hp ⊢
      rcases hp with hp | rfl
      · exact (hs.dealt v p hp).trans (Nat.lt_succ_self _)
      · exact Nat.lt_succ_self _
    · simp only [Workers.deal, Function.update_of_ne hv] at hp ⊢
      exact (hs.dealt v p hp).trans (Nat.lt_succ_self _)
  · intro v
    by_cases hv : v = w
    · subst hv
      simp only [Workers.deal, Function.update_self, List.pairwise_append, List.pairwise_singleton,
        List.mem_singleton, forall_eq, true_and]
      exact ⟨hs.queue v, fun p hp => hs.dealt v p hp⟩
    · simp only [Workers.deal, Function.update_of_ne hv]
      exact hs.queue v
  · intro o ho
    obtain ⟨hlt, hle⟩ := hs.waiting o ho
    refine ⟨hlt.trans (Nat.lt_succ_self _), fun p hp => ?_⟩
    by_cases hv : o.worker = w
    · simp only [Workers.deal, hv, Function.update_self, List.mem_append, List.mem_singleton] at hp
      rcases hp with hp | rfl
      · exact hle p (hv ▸ hp)
      · exact hlt.le
    · simp only [Workers.deal, Function.update_of_ne hv] at hp
      exact hle p hp
  · exact hs.output

/-- What one step of a worker does to its queue: the running task stays in front or is
gone. -/
theorem advance_cases {step : τ → Option (Option τ × List ε)} {w : W} {s s' : Workers W τ ε}
    (h : s.advance step w = some s') :
    ∃ n t rest t' es, s.queue w = (n, t) :: rest ∧ step t = some (t', es) ∧
      s' = { s with
        queue := Function.update s.queue w (t'.toList.map (n, ·) ++ rest)
        output := s.output ++ es.map fun e => ⟨w, n, e⟩ } := by
  rw [advance] at h
  split at h
  · cases h
  · rename_i n t rest hqueue
    obtain ⟨⟨t', es⟩, hstep, rfl⟩ := Option.map_eq_some_iff.mp h
    exact ⟨n, t, rest, t', es, hqueue, hstep, rfl⟩

theorem InOrder.advance {step : τ → Option (Option τ × List ε)} {w : W} {s s' : Workers W τ ε}
    (hs : InOrder s) (h : s.advance step w = some s') : InOrder s' := by
  obtain ⟨n, t, rest, t', es, hqueue, -, rfl⟩ := advance_cases h
  have hn : n < s.dealt := hs.dealt w (n, t) (by simp [hqueue])
  have hsorted := hs.queue w
  rw [hqueue, List.pairwise_cons] at hsorted
  have hlater : ∀ p ∈ t'.toList.map (n, ·) ++ rest, n ≤ p.1 ∧ p.1 < s.dealt := by
    intro p hp
    rcases List.mem_append.mp hp with hp | hp
    · obtain ⟨x, -, rfl⟩ := List.mem_map.mp hp
      exact ⟨le_rfl, hn⟩
    · exact ⟨(hsorted.1 p hp).le, hs.dealt w p (by simp [hqueue, hp])⟩
  constructor
  · intro v p hp
    by_cases hv : v = w
    · subst hv
      simp only [Function.update_self] at hp
      exact (hlater p hp).2
    · simp only [Function.update_of_ne hv] at hp
      exact hs.dealt v p hp
  · intro v
    by_cases hv : v = w
    · subst hv
      simp only [Function.update_self]
      cases t' with
      | none => simpa using hsorted.2
      | some t' => simpa using hsorted
    · simp only [Function.update_of_ne hv]
      exact hs.queue v
  · intro o ho
    rcases List.mem_append.mp ho with ho | ho
    · obtain ⟨hlt, hle⟩ := hs.waiting o ho
      refine ⟨hlt, fun p hp => ?_⟩
      by_cases hv : o.worker = w
      · simp only [hv, Function.update_self] at hp
        exact (hle (n, t) (by simp [hv, hqueue])).trans (hlater p hp).1
      · simp only [Function.update_of_ne hv] at hp
        exact hle p hp
    · obtain ⟨e, -, rfl⟩ := List.mem_map.mp ho
      refine ⟨hn, fun p hp => ?_⟩
      simp only [Function.update_self] at hp
      exact (hlater p hp).1
  · rw [List.pairwise_append]
    refine ⟨hs.output, ?_, ?_⟩
    · rw [List.pairwise_map]
      exact List.pairwise_of_forall fun _ _ _ => le_rfl
    · intro o ho o' ho' hw
      obtain ⟨e, -, rfl⟩ := List.mem_map.mp ho'
      exact (hs.waiting o ho).2 (n, t) (by simp [hw, hqueue])

/-- The workers that have or had tasks are among those tasks were dealt to. -/
structure Within (P : W → Prop) (s : Workers W τ ε) : Prop where
  queue : ∀ w, s.queue w ≠ [] → P w
  output : ∀ o ∈ s.output, P o.worker

omit [DecidableEq W] in
theorem within_init (P : W → Prop) : Within P ({} : Workers W τ ε) := by
  constructor <;> simp

theorem Within.deal {P : W → Prop} {s : Workers W τ ε} (hs : s.Within P) {w : W} (hw : P w)
    (t : τ) : (s.deal w t).Within P := by
  refine ⟨fun v hv => ?_, hs.output⟩
  by_cases hvw : v = w
  · rwa [hvw]
  · simp only [Workers.deal, Function.update_of_ne hvw] at hv
    exact hs.queue v hv

theorem Within.advance {P : W → Prop} {step : τ → Option (Option τ × List ε)} {w : W}
    {s s' : Workers W τ ε} (hs : s.Within P) (h : s.advance step w = some s') : s'.Within P := by
  obtain ⟨n, t, rest, t', es, hqueue, -, rfl⟩ := advance_cases h
  have hw : P w := hs.queue w (by simp [hqueue])
  constructor
  · intro v hv
    by_cases hvw : v = w
    · rwa [hvw]
    · simp only [Function.update_of_ne hvw] at hv
      exact hs.queue v hv
  · intro o ho
    rcases List.mem_append.mp ho with ho | ho
    · exact hs.output o ho
    · obtain ⟨e, -, rfl⟩ := List.mem_map.mp ho
      exact hw

end Workers
