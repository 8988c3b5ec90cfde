import ErizoController.Library.Locked

/-!
# Sections that a run enters

`Guard.keeps_of_free` asks of every section of every script that it keeps the invariant of
its lock. Here this is only asked of the sections that a run enters, in the states in which
it enters them, so that it may rest on what else is known of these states. The commands
outside of all sections are judged in the same way.
-/

universe u v

namespace Locked

variable {C : Type} {R : C → Type} {Λ T J : Type} {σ : Type u} {V : Type v}

/-! ## What is left of a script -/

section Rest

variable {P : C → Prop} {B : {β : Type} → Λ → Prog C R β → Prop}

/-- What a thread does after its section, or what is left of it outside of any. -/
def Thread.Rest (P : C → Prop) (B : {β : Type} → Λ → Prog C R β → Prop) : Thread C R Λ → Prop
  | .outside p => p.All P B
  | .inside _ _ _ k => ∀ b, (k b).All P B

theorem Thread.Rest.moves {script : J → Script C R Λ Unit} (hscript : ∀ job, (script job).All P B)
    {th th' : Thread C R Λ} (h : th.Rest P B) (hmove : th.Moves script th') : th'.Rest P B := by
  cases hmove with
  | start job => exact hscript job
  | acquire r β body k => exact h.2
  | giveUp r β body k => exact h.2 none
  | release r β b k => exact h (some b)

theorem Thread.Rest.issues {th : Thread C R Λ} {c : C} {k : R c → Thread C R Λ}
    (h : th.Rest P B) (hissue : th.Issues c k) (reply : R c) : (k reply).Rest P B := by
  cases hissue with
  | outside c k => exact h.2 reply
  | inside r β c k k' => exact h

/-- What holds of all scripts holds of what is left of them in every run. -/
theorem rest_of_reaches [DecidableEq T] [DecidableEq Λ] {step : (c : C) → σ → R c × σ}
    {script : J → Script C R Λ Unit} {init : σ → Prop} {Q : Action T J → Pool C R Λ T σ → Prop}
    {s : Pool C R Λ T σ} (hscript : ∀ job, (script job).All P B)
    (hs : (machine step script init).Reaches Q s) (t : T) : (s.thread t).Rest P B := by
  have hall : ∀ t, (s.thread t).Rest P B := by
    refine hs.invariant (I := fun s => ∀ t, (s.thread t).Rest P B) (fun s hs t => ?_)
      fun a s s' h _ hstep => ?_
    · rw [hs.2.1 t]
      trivial
    · have hput : ∀ {t : T} {th : Thread C R Λ}, s'.thread = Function.update s.thread t th →
          th.Rest P B → ∀ t', (s'.thread t').Rest P B := by
        intro t th hthread hth t'
        rw [hthread]
        by_cases hne : t' = t
        · subst hne
          rwa [Function.update_self]
        · rw [Function.update_of_ne hne]
          exact h t'
      rcases poolStep_cases hstep with
        ⟨t, th, hmove, -, hthread⟩ | ⟨t, c, k, hissue, -, hthread⟩
      · exact hput hthread ((h t).moves hscript hmove)
      · exact hput hthread ((h t).issues hissue _)
  exact hall t

end Rest

/-! ## The locks of a run -/

namespace Guard

variable {step : (c : C) → σ → R c × σ} (G : Guard C R Λ σ V step) (Keeps : Λ → V → Prop)

/-- The views are as the sections leave them, and whoever is inside a section has allowed
commands left. -/
structure Entered (s : Pool C R Λ T σ) : Prop where
  inv : G.Inv s.shared
  held : s.Held
  inside : ∀ t r β body k, s.thread t = .inside r β body k → body.Each (G.Sec r)
  views : ∀ r, G.ViewOk Keeps s r

/-- A command outside of all sections is allowed there, and a section that is entered keeps
the invariant of its lock, from any view of the state in which it is entered. -/
def Enters (a : Action T J) (s : Pool C R Λ T σ) : Prop :=
  match a with
  | .command t => ∀ c k, s.thread t = .outside (.cmd c k) → G.Out c
  | .acquire t => ∀ r β body k, s.thread t = .outside (.locked r β body k) →
      body.Each (G.Sec r) ∧
        ∀ v, G.Sees r v s.shared → Keeps r v → body.Wlp G.sem (fun _ => Keeps r) v
  | _ => True

variable {G Keeps} [DecidableEq T] [DecidableEq Λ] {script : J → Script C R Λ Unit}
variable {a : Action T J} {s s' : Pool C R Λ T σ}

omit [DecidableEq Λ] in
/-- A thread that goes on with allowed commands, or outside. -/
theorem Entered.inside_update (h : G.Entered Keeps s) {t : T} {th : Thread C R Λ}
    (hthread : s'.thread = Function.update s.thread t th)
    (hth : ∀ r β body k, th = .inside r β body k → body.Each (G.Sec r)) :
    ∀ t r β body k, s'.thread t = .inside r β body k → body.Each (G.Sec r) := by
  intro t' r β body k hinside
  rw [hthread] at hinside
  by_cases hne : t' = t
  · subst hne
    rw [Function.update_self] at hinside
    exact hth r β body k hinside
  · rw [Function.update_of_ne hne] at hinside
    exact h.inside t' r β body k hinside

omit [DecidableEq T] [DecidableEq Λ] in
/-- A lock inside of which nobody is is free. -/
theorem Entered.free (h : G.Entered Keeps s) {r : Λ}
    (hout : ∀ t β body k, s.thread t ≠ .inside r β body k) : s.owner r = none := by
  obtain ⟨v, -, hlead⟩ := h.views r
  cases howner : s.owner r with
  | none => rfl
  | some t =>
      simp only [howner] at hlead
      cases hthread : s.thread t with
      | outside p =>
          rw [hthread] at hlead
          exact hlead.elim
      | inside r' β body k =>
          rw [hthread] at hlead
          obtain ⟨rfl, -⟩ := hlead
          exact absurd hthread (hout t β body k)

theorem Entered.next (h : G.Entered Keeps s) (ha : G.Enters Keeps a s)
    (hstep : poolStep step script a s = some s') : G.Entered Keeps s' := by
  have hheld := h.held.next hstep
  have hnone : ∀ {p : Script C R Λ Unit} {r β body} {k : Option β → Script C R Λ Unit},
      (Thread.outside p : Thread C R Λ) = .inside r β body k → body.Each (G.Sec r) := by
    intro p r β body k heq
    cases heq
  cases a with
  | start t job =>
      simp only [poolStep] at hstep
      split at hstep
      · rename_i ht
        obtain rfl := Option.some.inj hstep
        exact ⟨h.inv, hheld, h.inside_update rfl fun _ _ _ _ => hnone, viewOk_put h.views ht⟩
      · cases hstep
  | command t =>
      simp only [poolStep] at hstep
      split at hstep
      · rename_i c k ht
        obtain rfl := Option.some.inj hstep
        exact ⟨G.inv_step c _ h.inv, hheld, h.inside_update rfl fun _ _ _ _ => hnone,
          viewOk_command_outside h.inv h.views ht (ha c k ht)⟩
      · rename_i r β c k k' ht
        obtain rfl := Option.some.inj hstep
        have heach := h.inside t r β _ k' ht
        refine ⟨G.inv_step c _ h.inv, hheld, h.inside_update rfl fun r' β' body k'' heq => ?_,
          viewOk_command_inside h.inv h.views ht (h.held t r β _ k' ht) heach.1⟩
        cases heq
        exact heach.2 _
      · cases hstep
  | acquire t =>
      simp only [poolStep] at hstep
      split at hstep
      · rename_i r β body k ht
        split at hstep
        · rename_i hfree
          obtain rfl := Option.some.inj hstep
          obtain ⟨heach, hbody⟩ := ha r β body k ht
          refine ⟨h.inv, hheld, h.inside_update rfl fun r' β' body' k' heq => ?_,
            viewOk_acquire h.views ht hfree hbody⟩
          cases heq
          exact heach
        · cases hstep
      · cases hstep
  | giveUp t =>
      simp only [poolStep] at hstep
      split at hstep
      · rename_i r β body k ht
        obtain rfl := Option.some.inj hstep
        exact ⟨h.inv, hheld, h.inside_update rfl fun _ _ _ _ => hnone, viewOk_put h.views ht⟩
      · cases hstep
  | release t =>
      simp only [poolStep] at hstep
      split at hstep
      · rename_i r β b k ht
        obtain rfl := Option.some.inj hstep
        exact ⟨h.inv, hheld, h.inside_update rfl fun _ _ _ _ => hnone,
          viewOk_release h.views ht (h.held t r β _ k ht)⟩
      · cases hstep

section Run

variable {init : σ → Prop} {P : Action T J → Pool C R Λ T σ → Prop}
variable (henters : ∀ a s, (machine step script init).Reaches P s → P a s → G.Enters Keeps a s)
variable (hinit : ∀ s, init s → G.Inv s ∧ ∀ r, ∃ v, G.Sees r v s ∧ Keeps r v)
include henters hinit

theorem entered_of_reaches (hs : (machine step script init).Reaches P s) : G.Entered Keeps s := by
  induction hs with
  | @init s h =>
      obtain ⟨hshared, hidle, hfree⟩ := h
      obtain ⟨hinv, hviews⟩ := hinit _ hshared
      refine ⟨hinv, fun t r β body k hinside => ?_, fun t r β body k hinside => ?_, fun r => ?_⟩
      · rw [hidle t] at hinside
        cases hinside
      · rw [hidle t] at hinside
        cases hinside
      · obtain ⟨v, hv, hkeeps⟩ := hviews r
        exact ⟨v, hv, by rw [hfree r]; exact hkeeps⟩
  | step hs ha hstep ih => exact ih.next (henters _ _ hs ha) hstep

/-- Whenever nobody is inside a lock, what it guards keeps its invariant, in the runs whose
steps enter such sections only. -/
theorem keeps_of_entered (hs : (machine step script init).Reaches P s) {r : Λ}
    (hout : ∀ t β body k, s.thread t ≠ .inside r β body k) :
    ∃ v, G.Sees r v s.shared ∧ Keeps r v := by
  have hentered := entered_of_reaches henters hinit hs
  obtain ⟨v, hv, hkeeps⟩ := hentered.views r
  rw [hentered.free hout] at hkeeps
  exact ⟨v, hv, hkeeps⟩

end Run

end Guard

end Locked
