import ErizoController.Library.Machine
import ErizoController.Library.Program

/-!
# Two levels of one design

A machine stands for another along a relation between their states: what steps alike runs
alike, and where some steps of the concrete machine are none of the abstract one, what the one
reaches stands for something that the other reaches. On two representations of one state a
command that is proper acts alike. A program relies on the replies it gets: as long as they are
sound, its commands are proper.
-/

universe u v

variable {C : Type} {R : C → Type} {α β : Type}

/-! ## Programs that rely on their replies -/

section Relies

variable (Sound : (c : C) → R c → Prop) (Proper : C → Prop)

/-- As long as the replies are sound, the commands are proper; and so the value meets `Q`. -/
def Prog.Relies (Q : α → Prop) : Prog C R α → Prop
  | .ret a => Q a
  | .cmd c k => Proper c ∧ ∀ reply, Sound c reply → Relies Q (k reply)

/-- The same of a script. -/
def Script.Relies {Λ : Type} (Q : α → Prop) : Script C R Λ α → Prop
  | .ret a => Q a
  | .cmd c k => Proper c ∧ ∀ reply, Sound c reply → Relies Q (k reply)
  | .locked _ _ body k =>
      body.Relies Sound Proper (fun b => Relies Q (k (some b))) ∧ Relies Q (k none)

variable {Sound Proper}

namespace Prog

theorem Relies.mono {Q Q' : α → Prop} (hQ : ∀ a, Q a → Q' a) {p : Prog C R α}
    (h : p.Relies Sound Proper Q) : p.Relies Sound Proper Q' := by
  induction p with
  | ret a => exact hQ a h
  | cmd c k ih => exact ⟨h.1, fun reply hreply => ih reply (h.2 reply hreply)⟩

theorem Relies.bind {Q : α → Prop} {Q' : β → Prop} {p : Prog C R α} {f : α → Prog C R β}
    (h : p.Relies Sound Proper Q) (hf : ∀ a, Q a → (f a).Relies Sound Proper Q') :
    (p >>= f).Relies Sound Proper Q' := by
  induction p with
  | ret a => exact hf a h
  | cmd c k ih => exact ⟨h.1, fun reply hreply => ih reply (h.2 reply hreply)⟩

theorem relies_issue {c : C} {Q : R c → Prop} (hc : Proper c)
    (hQ : ∀ reply, Sound c reply → Q reply) :
    (issue c : Prog C R (R c)).Relies Sound Proper Q :=
  ⟨hc, hQ⟩

/-- A program whose commands are proper whatever the replies. -/
theorem relies_of_each {p : Prog C R α} (h : p.Each Proper) :
    p.Relies Sound Proper fun _ => True := by
  induction p with
  | ret a => trivial
  | cmd c k ih => exact ⟨h.1, fun reply _ => ih reply (h.2 reply)⟩

/-- A loop whose bodies return elements that meet `Q`. -/
theorem relies_collect {Q : β → Prop} {f : α → Prog C R (Option (List β))} {as : List α}
    (h : ∀ a ∈ as, (f a).Relies Sound Proper fun bs => ∀ b ∈ bs.getD [], Q b) :
    (collect f as).Relies Sound Proper fun bs => ∀ b ∈ bs.getD [], Q b := by
  induction as with
  | nil => exact fun b hb => absurd hb List.not_mem_nil
  | cons a as ih =>
      have htail := ih fun a' ha' => h a' (List.mem_cons_of_mem a ha')
      refine (h a List.mem_cons_self).bind fun bs hbs => ?_
      cases bs with
      | none => exact fun b hb => absurd hb List.not_mem_nil
      | some bs =>
          refine htail.bind fun rest hrest => ?_
          cases rest with
          | none => exact fun b hb => absurd hb List.not_mem_nil
          | some rest =>
              intro b hb
              rcases List.mem_append.mp hb with hb | hb
              · exact hbs b hb
              · exact hrest b hb

end Prog

namespace Script

variable {Λ : Type}

theorem Relies.bind {Q : α → Prop} {Q' : β → Prop} {p : Script C R Λ α} {f : α → Script C R Λ β}
    (h : p.Relies Sound Proper Q) (hf : ∀ a, Q a → (f a).Relies Sound Proper Q') :
    (p >>= f).Relies Sound Proper Q' := by
  induction p with
  | ret a => exact hf a h
  | cmd c k ih => exact ⟨h.1, fun reply hreply => ih reply (h.2 reply hreply)⟩
  | locked r γ body k ih =>
      exact ⟨h.1.mono fun b hb => ih (some b) hb, ih none h.2⟩

theorem relies_lift {Q : α → Prop} {p : Prog C R α} (h : p.Relies Sound Proper Q) :
    (monadLift p : Script C R Λ α).Relies Sound Proper Q := by
  change (Script.lift p).Relies Sound Proper Q
  induction p with
  | ret a => exact h
  | cmd c k ih => exact ⟨h.1, fun reply hreply => ih reply (h.2 reply hreply)⟩

theorem relies_withLock {r : Λ} {Q : Option α → Prop} {body : Prog C R α}
    (h : body.Relies Sound Proper fun b => Q (some b)) (hnone : Q none) :
    (withLock r body).Relies Sound Proper Q :=
  ⟨h, hnone⟩

end Script

end Relies

/-! ## Machines that step alike -/

namespace Machine

variable {A : Type} {σ : Type u} {τ : Type v} {M : Machine A σ} {N : Machine A τ}
variable {Rel : σ → τ → Prop} {s : σ} {t : τ}

/-- What steps alike runs alike. -/
theorem run_rel {P : A → Prop}
    (hstep : ∀ a s t, P a → Rel s t → Option.Rel Rel (M.step a s) (N.step a t))
    {as : List A} (has : ∀ a ∈ as, P a) (h : Rel s t) :
    Option.Rel Rel (M.run as s) (N.run as t) := by
  induction as generalizing s t with
  | nil => exact .some h
  | cons a as ih =>
      have hnext := hstep a s t (has a List.mem_cons_self) h
      rw [run_cons, run_cons]
      generalize M.step a s = s', N.step a t = t' at hnext ⊢
      cases hnext with
      | some hrel => exact ih (fun a' ha' => has a' (List.mem_cons_of_mem _ ha')) hrel
      | none => exact .none

/-- What the steps of the one run meet those of the other meet. -/
theorem Along.of_rel {P : A → Prop} {P' : A → σ → Prop} {Q : A → τ → Prop}
    (hstep : ∀ a s t, P a → Rel s t → Option.Rel Rel (M.step a s) (N.step a t))
    (hQ : ∀ a s t, P a → Rel s t → P' a s → Q a t) {as : List A} (has : ∀ a ∈ as, P a)
    (h : Rel s t) (halong : M.Along P' as s) : N.Along Q as t := by
  induction as generalizing s t with
  | nil => trivial
  | cons a as ih =>
      have ha : P a := has a List.mem_cons_self
      refine ⟨hQ a s t ha h halong.1, fun t' ht' => ?_⟩
      have hnext := hstep a s t ha h
      rw [ht'] at hnext
      generalize hs' : M.step a s = s' at hnext
      cases hnext with
      | some hrel =>
          exact ih (fun a' ha' => has a' (List.mem_cons_of_mem _ ha')) hrel (halong.2 _ hs')

/-- What one machine reaches stands for something that the other reaches. -/
theorem Reaches.exists_rel {P : A → σ → Prop} {Q : A → τ → Prop}
    (hinit : ∀ t, N.init t → ∃ s, M.init s ∧ Rel s t)
    (hstep : ∀ a s t, Q a t → Rel s t → Option.Rel Rel (M.step a s) (N.step a t))
    (hP : ∀ a s t, Rel s t → Q a t → P a s) (ht : N.Reaches Q t) :
    ∃ s, M.Reaches P s ∧ Rel s t := by
  induction ht with
  | @init t h =>
      obtain ⟨s, hs, hrel⟩ := hinit t h
      exact ⟨s, .init hs, hrel⟩
  | @step t t' a _ hcond hnext ih =>
      obtain ⟨s, hs, hrel⟩ := ih
      have halike := hstep a s t hcond hrel
      rw [hnext] at halike
      generalize hs' : M.step a s = s' at halike
      cases halike with
      | some hrel' => exact ⟨_, .step hs (hP a s t hrel hcond) hs', hrel'⟩

/-- The same where a step of the one machine may be no step of the other. -/
theorem Reaches.exists_sim {B : Type} {M : Machine B σ} {P : B → σ → Prop} {Q : A → τ → Prop}
    (hinit : ∀ t, N.init t → ∃ s, M.init s ∧ Rel s t)
    (hstep : ∀ a s t t', Q a t → Rel s t → N.step a t = some t' →
      Rel s t' ∨ ∃ b s', P b s ∧ M.step b s = some s' ∧ Rel s' t')
    (ht : N.Reaches Q t) : ∃ s, M.Reaches P s ∧ Rel s t := by
  induction ht with
  | @init t h =>
      obtain ⟨s, hs, hrel⟩ := hinit t h
      exact ⟨s, .init hs, hrel⟩
  | @step t t' a _ hcond hnext ih =>
      obtain ⟨s, hs, hrel⟩ := ih
      rcases hstep a s t t' hcond hrel hnext with hrel' | ⟨b, s', hP, hs', hrel'⟩
      · exact ⟨s, hs, hrel'⟩
      · exact ⟨s', .step hs hP hs', hrel'⟩

end Machine

/-! ## Commands on two levels -/

/-- A proper command acts alike on related states, and its reply is sound. -/
structure Represents {σ : Type u} {τ : Type v} (Sound : (c : C) → R c → Prop) (Proper : C → Prop)
    (step : (c : C) → σ → R c × σ) (step' : (c : C) → τ → R c × τ) (Rel : σ → τ → Prop) :
    Prop where
  reply : ∀ c s t, Proper c → Rel s t → (step c s).1 = (step' c t).1
  sound : ∀ c s t, Proper c → Rel s t → Sound c (step c s).1
  next : ∀ c s t, Proper c → Rel s t → Rel (step c s).2 (step' c t).2
