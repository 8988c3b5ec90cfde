import Mathlib.Logic.Relation
import Mathlib.Data.List.Basic

/-!
# Machines with a partial step function

A machine is a set of initial states together with a step function that takes
an action and answers `none` where the action is not enabled. Keeping the step
a function makes every run a list of actions, so a concrete run can be
evaluated. The inductive form `Reaches` restricts the runs to those whose
steps meet a condition on the action and the state it is taken in; the
unrestricted case is `Reachable`.
-/

universe u v

/-- A machine with actions `A` and states `σ`: `step a s` is the state after
the action `a`, and `none` where `a` is not enabled in `s`. -/
structure Machine (A : Type u) (σ : Type v) where
  init : σ → Prop
  step : A → σ → Option σ

namespace Machine

variable {A : Type u} {σ : Type v} (M : Machine A σ)

/-- The state after a list of actions, `none` as soon as one is not enabled. -/
def run : List A → σ → Option σ
  | [], s => some s
  | a :: as, s => (M.step a s).bind (run as)

@[simp] theorem run_nil (s : σ) : M.run [] s = some s := rfl

theorem run_cons (a : A) (as : List A) (s : σ) :
    M.run (a :: as) s = (M.step a s).bind (M.run as) := rfl

theorem run_append (as bs : List A) (s : σ) :
    M.run (as ++ bs) s = (M.run as s).bind (M.run bs) := by
  induction as generalizing s with
  | nil => rfl
  | cons a as ih =>
      rw [List.cons_append, run_cons, run_cons]
      cases M.step a s with
      | none => rfl
      | some s' => exact ih s'

/-- Every step of the run meets `P`. -/
def Along (P : A → σ → Prop) : List A → σ → Prop
  | [], _ => True
  | a :: as, s => P a s ∧ ∀ s', M.step a s = some s' → Along P as s'

@[simp] theorem along_nil (P : A → σ → Prop) (s : σ) : M.Along P [] s := trivial

theorem along_cons_iff {P : A → σ → Prop} {a : A} {as : List A} {s s' : σ}
    (h : M.step a s = some s') : M.Along P (a :: as) s ↔ P a s ∧ M.Along P as s' := by
  simp [Along, h]

/-- Every state of the run, the first and the last included, has the property `G`. -/
def Throughout (G : σ → Prop) : List A → σ → Prop
  | [], s => G s
  | a :: as, s => G s ∧ ∀ s', M.step a s = some s' → Throughout G as s'

variable {M} in
theorem Throughout.head {G : σ → Prop} {as : List A} {s : σ} (h : M.Throughout G as s) : G s := by
  cases as with
  | nil => exact h
  | cons a as => exact h.1

variable {M} in
theorem Throughout.last {G : σ → Prop} {as : List A} {s s' : σ} (h : M.Throughout G as s)
    (hrun : M.run as s = some s') : G s' := by
  induction as generalizing s with
  | nil =>
      obtain rfl : s = s' := by simpa using hrun
      exact h
  | cons a as ih =>
      rw [run_cons] at hrun
      obtain ⟨t, ht, hrest⟩ := Option.bind_eq_some_iff.mp hrun
      exact ih (h.2 t ht) hrest

variable {M} in
/-- A property holds throughout a run exactly when every step meets the condition under
which the step keeps it; an invariant of the machine may be used. -/
theorem throughout_iff_along_of_invariant {P : A → σ → Prop} {I G : σ → Prop}
    (hkeep : ∀ a s s', I s → M.step a s = some s' → I s')
    (hstep : ∀ a s s', I s → G s → M.step a s = some s' → (G s' ↔ P a s))
    (hsome : ∀ a s, P a s ∨ M.step a s ≠ none) {as : List A} {s : σ} (hI : I s) (hG : G s) :
    M.Throughout G as s ↔ M.Along P as s := by
  induction as generalizing s with
  | nil => exact iff_of_true hG trivial
  | cons a as ih =>
      constructor
      · rintro ⟨-, hrest⟩
        refine ⟨(hsome a s).elim id fun hne => ?_, fun s' hs' => ?_⟩
        · obtain ⟨s', hs'⟩ := Option.ne_none_iff_exists'.mp hne
          exact (hstep a s s' hI hG hs').mp (hrest s' hs').head
        · exact (ih (hkeep a s s' hI hs') (hrest s' hs').head).mp (hrest s' hs')
      · rintro ⟨hP, hrest⟩
        exact ⟨hG, fun s' hs' =>
          (ih (hkeep a s s' hI hs') ((hstep a s s' hI hG hs').mpr hP)).mpr (hrest s' hs')⟩

variable {M} in
theorem throughout_iff_along {P : A → σ → Prop} {G : σ → Prop}
    (hstep : ∀ a s s', G s → M.step a s = some s' → (G s' ↔ P a s))
    (hsome : ∀ a s, P a s ∨ M.step a s ≠ none) {as : List A} {s : σ} (hG : G s) :
    M.Throughout G as s ↔ M.Along P as s :=
  throughout_iff_along_of_invariant (I := fun _ => True) (fun _ _ _ _ _ => trivial)
    (fun a s s' _ => hstep a s s') hsome trivial hG

variable {M} in
theorem Along.mono {P Q : A → σ → Prop} (hPQ : ∀ a s, P a s → Q a s) {as : List A} {s : σ}
    (h : M.Along P as s) : M.Along Q as s := by
  induction as generalizing s with
  | nil => trivial
  | cons a as ih => exact ⟨hPQ a s h.1, fun s' hs' => ih (h.2 s' hs')⟩

variable {M} in
/-- Two conditions on the steps that agree as long as the first of them has been met
single out the same runs. -/
theorem along_congr {P Q : A → σ → Prop} {I : σ → Prop} (hPQ : ∀ a s, I s → (P a s ↔ Q a s))
    (hkeep : ∀ a s s', I s → P a s → M.step a s = some s' → I s') {as : List A} {s : σ}
    (hI : I s) : M.Along P as s ↔ M.Along Q as s := by
  induction as generalizing s with
  | nil => exact Iff.rfl
  | cons a as ih =>
      constructor
      · rintro ⟨hP, hrest⟩
        exact ⟨(hPQ a s hI).mp hP, fun s' hs' => (ih (hkeep a s s' hI hP hs')).mp (hrest s' hs')⟩
      · rintro ⟨hQ, hrest⟩
        have hP : P a s := (hPQ a s hI).mpr hQ
        exact ⟨hP, fun s' hs' => (ih (hkeep a s s' hI hP hs')).mpr (hrest s' hs')⟩

/-- The states reached from an initial one by steps that all meet `P`, a
condition on the action and on the state before it. -/
inductive Reaches (P : A → σ → Prop) : σ → Prop
  | init {s : σ} (h : M.init s) : Reaches P s
  | step {s s' : σ} {a : A} (hs : Reaches P s) (hP : P a s)
      (h : M.step a s = some s') : Reaches P s'

/-- The states reached without any condition on the steps. -/
abbrev Reachable : σ → Prop := M.Reaches fun _ _ => True

variable {M}

/-- An invariant holds of every state that is reached: it holds initially and
every step that meets the condition keeps it. -/
theorem Reaches.invariant {P : A → σ → Prop} {I : σ → Prop}
    (hinit : ∀ s, M.init s → I s)
    (hstep : ∀ a s s', I s → P a s → M.step a s = some s' → I s')
    {s : σ} (h : M.Reaches P s) : I s := by
  induction h with
  | init h => exact hinit _ h
  | step _ hP h ih => exact hstep _ _ _ ih hP h

/-- A weaker condition on the steps reaches at least as many states. -/
theorem Reaches.mono {P P' : A → σ → Prop} (hPP : ∀ a s, P a s → P' a s)
    {s : σ} (h : M.Reaches P s) : M.Reaches P' s := by
  induction h with
  | init h => exact .init h
  | step _ hP h ih => exact .step ih (hPP _ _ hP) h

theorem Reaches.reachable {P : A → σ → Prop} {s : σ} (h : M.Reaches P s) :
    M.Reachable s :=
  h.mono fun _ _ _ => trivial

/-- A run of actions that meet the condition in every state. -/
theorem Reaches.run_of_forall_mem {P : A → σ → Prop} {s s' : σ} {as : List A}
    (h : M.Reaches P s) (hP : ∀ a ∈ as, ∀ s, P a s) (hrun : M.run as s = some s') :
    M.Reaches P s' := by
  induction as generalizing s with
  | nil =>
      obtain rfl : s = s' := by simpa using hrun
      exact h
  | cons a as ih =>
      rw [run_cons] at hrun
      obtain ⟨t, ht, hrest⟩ := Option.bind_eq_some_iff.mp hrun
      have hhead : P a s := hP a List.mem_cons_self s
      exact ih (.step h hhead ht) (fun b hb => hP b (List.mem_cons_of_mem a hb)) hrest

theorem Reaches.run {P : A → σ → Prop} {s s' : σ} {as : List A}
    (h : M.Reaches P s) (hP : ∀ a s, P a s) (hrun : M.run as s = some s') :
    M.Reaches P s' :=
  h.run_of_forall_mem (fun a _ => hP a) hrun

/-- A property that an invariant gives holds throughout a run whose steps all meet the
condition under which the invariant is kept. -/
theorem Along.throughout {P : A → σ → Prop} {I G : σ → Prop} (hG : ∀ s, I s → G s)
    (hstep : ∀ a s s', I s → P a s → M.step a s = some s' → I s')
    {as : List A} {s : σ} (hI : I s) (halong : M.Along P as s) : M.Throughout G as s := by
  induction as generalizing s with
  | nil => exact hG s hI
  | cons a as ih =>
      exact ⟨hG s hI, fun s' hs' => ih (hstep a s s' hI halong.1 hs') (halong.2 s' hs')⟩

/-- What every step keeps, a run keeps. -/
theorem run_invariant {I : σ → Prop} (hstep : ∀ a s s', I s → M.step a s = some s' → I s')
    {as : List A} {s s' : σ} (hI : I s) (hrun : M.run as s = some s') : I s' := by
  induction as generalizing s with
  | nil =>
      obtain rfl : s = s' := by simpa using hrun
      exact hI
  | cons a as ih =>
      rw [run_cons] at hrun
      obtain ⟨t, ht, hrest⟩ := Option.bind_eq_some_iff.mp hrun
      exact ih (hstep _ _ _ hI ht) hrest

/-- A property that no step restores holds at the end of a run exactly when every step
meets the condition under which it is kept. -/
theorem run_iff_along {P : A → σ → Prop} {I G : σ → Prop}
    (hkeep : ∀ a s s', I s → G s → P a s → M.step a s = some s' → I s' ∧ G s')
    (hbreak : ∀ a s s', I s → G s → ¬P a s → M.step a s = some s' → ¬G s')
    (hanti : ∀ a s s', M.step a s = some s' → G s' → G s)
    {as : List A} {s s' : σ} (hI : I s) (hG : G s) (hrun : M.run as s = some s') :
    G s' ↔ M.Along P as s := by
  have hback : ∀ {as : List A} {t t' : σ}, M.run as t = some t' → G t' → G t := by
    intro as
    induction as with
    | nil =>
        intro t t' h
        obtain rfl : t = t' := by simpa using h
        exact id
    | cons a as ih =>
        intro t t' h hG'
        obtain ⟨u, hu, hrest⟩ := Option.bind_eq_some_iff.mp (M.run_cons a as t ▸ h)
        exact hanti _ _ _ hu (ih hrest hG')
  induction as generalizing s with
  | nil =>
      obtain rfl : s = s' := by simpa using hrun
      exact iff_of_true hG trivial
  | cons a as ih =>
      rw [run_cons] at hrun
      obtain ⟨t, ht, hrest⟩ := Option.bind_eq_some_iff.mp hrun
      rw [along_cons_iff M ht]
      by_cases hP : P a s
      · obtain ⟨hI', hG'⟩ := hkeep _ _ _ hI hG hP ht
        exact (ih hI' hG' hrest).trans (and_iff_right hP).symm
      · refine iff_of_false ?_ (fun h => hP h.1)
        intro hend
        exact hbreak _ _ _ hI hG hP ht (hback hrest hend)

/-- In a run whose steps meet a condition that an invariant needs, a property holds throughout
exactly when every step meets the condition under which the step keeps it. -/
theorem Along.throughout_iff {P Q : A → σ → Prop} {I G : σ → Prop}
    (hkeep : ∀ a s s', I s → Q a s → M.step a s = some s' → I s')
    (hstep : ∀ a s s', I s → G s → Q a s → M.step a s = some s' → (G s' ↔ P a s))
    {as : List A} {s s' : σ} (hI : I s) (hG : G s) (hQ : M.Along Q as s)
    (hrun : M.run as s = some s') : M.Throughout G as s ↔ M.Along P as s := by
  induction as generalizing s with
  | nil => exact iff_of_true hG trivial
  | cons a as ih =>
      rw [run_cons] at hrun
      obtain ⟨t, ht, hrest⟩ := Option.bind_eq_some_iff.mp hrun
      obtain ⟨hQa, hQ'⟩ := (along_cons_iff M ht).mp hQ
      have hiff : G t ↔ P a s := hstep a s t hI hG hQa ht
      rw [along_cons_iff M ht]
      constructor
      · rintro ⟨-, hthroughout⟩
        have hGt : G t := (hthroughout t ht).head
        exact ⟨hiff.mp hGt, (ih (hkeep a s t hI hQa ht) hGt hQ' hrest).mp (hthroughout t ht)⟩
      · rintro ⟨hP, halong⟩
        refine ⟨hG, fun t' ht' => ?_⟩
        obtain rfl : t = t' := Option.some.inj (ht.symm.trans ht')
        exact (ih (hkeep a s t hI hQa ht) (hiff.mpr hP) hQ' hrest).mpr halong

/-- A run whose steps meet the condition goes on reaching. -/
theorem Reaches.along {P : A → σ → Prop} {as : List A} {s s' : σ} (h : M.Reaches P s)
    (halong : M.Along P as s) (hrun : M.run as s = some s') : M.Reaches P s' := by
  induction as generalizing s with
  | nil =>
      obtain rfl : s = s' := by simpa using hrun
      exact h
  | cons a as ih =>
      obtain ⟨t, ht, hrest⟩ := Option.bind_eq_some_iff.mp hrun
      exact ih (.step h halong.1 ht) (halong.2 t ht) hrest

/-- The steps of a run meet what its states have too. -/
theorem Along.and_throughout {P : A → σ → Prop} {G : σ → Prop} {as : List A} {s : σ}
    (halong : M.Along P as s) (h : M.Throughout G as s) :
    M.Along (fun a s => P a s ∧ G s) as s := by
  induction as generalizing s with
  | nil => trivial
  | cons a as ih =>
      exact ⟨⟨halong.1, h.1⟩, fun s' hs' => ih (halong.2 s' hs') (h.2 s' hs')⟩

/-- The steps of a run meet what its actions have too. -/
theorem Along.and_mem {P : A → σ → Prop} {Q : A → Prop} {as : List A} {s : σ}
    (halong : M.Along P as s) (h : ∀ a ∈ as, Q a) :
    M.Along (fun a s => P a s ∧ Q a) as s := by
  induction as generalizing s with
  | nil => trivial
  | cons a as ih =>
      obtain ⟨ha, has⟩ := List.forall_mem_cons.mp h
      exact ⟨⟨halong.1, ha⟩, fun s' hs' => ih (halong.2 s' hs') has⟩

/-- A property that breaks at once where a step does not meet a condition. -/
theorem Throughout.along {P : A → σ → Prop} {G : σ → Prop}
    (hbreak : ∀ a s, ¬ P a s → ∃ s', M.step a s = some s' ∧ ¬ G s') {as : List A} {s : σ}
    (h : M.Throughout G as s) : M.Along P as s := by
  induction as generalizing s with
  | nil => trivial
  | cons a as ih =>
      refine ⟨by_contra fun hP => ?_, fun s' hs' => ih (h.2 s' hs')⟩
      obtain ⟨s', hs', hG⟩ := hbreak a s hP
      exact hG (h.2 s' hs').head

/-- A run whose condition is checked at every step. -/
def runChecked (M : Machine A σ) (p : A → σ → Bool) : List A → σ → Option σ
  | [], s => some s
  | a :: as, s => if p a s then (M.step a s).bind (runChecked M p as) else none

/-- A checked run is a run whose steps all meet the condition. -/
theorem run_of_runChecked {P : A → σ → Prop} {p : A → σ → Bool}
    (hp : ∀ a s, p a s = true → P a s) {s s' : σ} {as : List A}
    (hrun : M.runChecked p as s = some s') : M.run as s = some s' ∧ M.Along P as s := by
  induction as generalizing s with
  | nil => exact ⟨hrun, trivial⟩
  | cons a as ih =>
      rw [runChecked] at hrun
      split at hrun
      · rename_i hpa
        obtain ⟨t, ht, hrest⟩ := Option.bind_eq_some_iff.mp hrun
        obtain ⟨htail, halong⟩ := ih hrest
        exact ⟨by rw [run_cons, ht]; exact htail, (along_cons_iff M ht).mpr ⟨hp _ _ hpa, halong⟩⟩
      · cases hrun

/-- A checked run reaches its last state by steps that meet the condition. -/
theorem Reaches.runChecked {P : A → σ → Prop} {p : A → σ → Bool}
    (hp : ∀ a s, p a s = true → P a s) {s s' : σ} {as : List A}
    (h : M.Reaches P s) (hrun : M.runChecked p as s = some s') :
    M.Reaches P s' := by
  induction as generalizing s with
  | nil =>
      obtain rfl : s = s' := by simpa [Machine.runChecked] using hrun
      exact h
  | cons a as ih =>
      rw [Machine.runChecked] at hrun
      split at hrun
      · rename_i hpa
        obtain ⟨t, ht, hrest⟩ := Option.bind_eq_some_iff.mp hrun
        exact ih (.step h (hp _ _ hpa) ht) hrest
      · cases hrun

/-- A checked run whose last state passes a test reaches such a state. -/
theorem exists_reaches_of_runChecked {P : A → σ → Prop} {p : A → σ → Bool} {q : σ → Bool}
    (hp : ∀ a s, p a s = true → P a s) {s : σ} {l : List A} (hs : M.init s)
    (hrun : (M.runChecked p l s).any q = true) : ∃ s', M.Reaches P s' ∧ q s' = true := by
  obtain ⟨s', hs', hq⟩ := (Option.any_eq_true _ _).mp hrun
  exact ⟨s', (Reaches.init hs).runChecked hp hs', hq⟩

end Machine
