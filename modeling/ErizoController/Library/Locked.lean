import Mathlib.Logic.Function.Basic
import ErizoController.Library.Machine
import ErizoController.Library.Program

/-!
# Threads with critical sections

Threads run scripts on one shared state, a command at a time and in any order, and no two
are inside the same lock. What a lock guards is described by views: a view of a lock
shows a part of the shared state that commands outside its sections leave alone, and on
which the commands inside them act as if nobody else were there. If every section,
run alone on a view, keeps an invariant, then the invariant holds of the guarded part
whenever the lock is free, whatever the interleaving.
-/

universe u v w

namespace Locked

variable {C : Type} {R : C → Type} {Λ T J : Type} {σ : Type u} {V : Type v}

/-- A thread outside of any section, or inside one with what is left of it and what comes
after it. -/
inductive Thread (C : Type) (R : C → Type) (Λ : Type) : Type 1 where
  | outside (p : Script C R Λ Unit)
  | inside (r : Λ) (β : Type) (body : Prog C R β) (k : Option β → Script C R Λ Unit)

/-- The shared state, the threads, and which thread holds each lock. -/
structure Pool (C : Type) (R : C → Type) (Λ T : Type) (σ : Type u) where
  shared : σ
  thread : T → Thread C R Λ
  owner : Λ → Option T

/-- A thread starts a job, issues its next command, enters a section, does not obtain the
lock, or leaves the section. -/
inductive Action (T J : Type) where
  | start (t : T) (job : J)
  | command (t : T)
  | acquire (t : T)
  | giveUp (t : T)
  | release (t : T)

section Step

variable [DecidableEq T] [DecidableEq Λ]
variable (step : (c : C) → σ → R c × σ) (script : J → Script C R Λ Unit)

/-- The pool with another state of one thread. -/
def Pool.put (s : Pool C R Λ T σ) (t : T) (th : Thread C R Λ) : Pool C R Λ T σ :=
  { s with thread := Function.update s.thread t th }

def poolStep : Action T J → Pool C R Λ T σ → Option (Pool C R Λ T σ)
  | .start t job, s =>
      match s.thread t with
      | .outside (.ret _) => some (s.put t (.outside (script job)))
      | _ => none
  | .command t, s =>
      match s.thread t with
      | .outside (.cmd c k) =>
          some { s.put t (.outside (k (step c s.shared).1)) with
            shared := (step c s.shared).2 }
      | .inside r β (.cmd c k) k' =>
          some { s.put t (.inside r β (k (step c s.shared).1) k') with
            shared := (step c s.shared).2 }
      | _ => none
  | .acquire t, s =>
      match s.thread t with
      | .outside (.locked r β body k) =>
          if s.owner r = none then
            some { s.put t (.inside r β body k) with owner := Function.update s.owner r (some t) }
          else none
      | _ => none
  | .giveUp t, s =>
      match s.thread t with
      | .outside (.locked _ _ _ k) => some (s.put t (.outside (k none)))
      | _ => none
  | .release t, s =>
      match s.thread t with
      | .inside r _ (.ret b) k =>
          some { s.put t (.outside (k (some b))) with owner := Function.update s.owner r none }
      | _ => none

/-- Threads that start idle, with all locks free. -/
def machine (init : σ → Prop) : Machine (Action T J) (Pool C R Λ T σ) where
  init s := init s.shared ∧ (∀ t, s.thread t = .outside (.ret ())) ∧ ∀ r, s.owner r = none
  step := poolStep step script

/-- A step performs at most one command. -/
theorem poolStep_shared {step : (c : C) → σ → R c × σ} {script : J → Script C R Λ Unit}
    {a : Action T J} {s s' : Pool C R Λ T σ} (h : poolStep step script a s = some s') :
    s'.shared = s.shared ∨ ∃ c, s'.shared = (step c s.shared).2 := by
  cases a with
  | start t job =>
      simp only [poolStep] at h
      split at h
      · obtain rfl := Option.some.inj h
        exact .inl rfl
      · cases h
  | command t =>
      simp only [poolStep] at h
      split at h
      · obtain rfl := Option.some.inj h
        exact .inr ⟨_, rfl⟩
      · obtain rfl := Option.some.inj h
        exact .inr ⟨_, rfl⟩
      · cases h
  | acquire t =>
      simp only [poolStep] at h
      split at h
      · split at h
        · obtain rfl := Option.some.inj h
          exact .inl rfl
        · cases h
      · cases h
  | giveUp t =>
      simp only [poolStep] at h
      split at h
      · obtain rfl := Option.some.inj h
        exact .inl rfl
      · cases h
  | release t =>
      simp only [poolStep] at h
      split at h
      · obtain rfl := Option.some.inj h
        exact .inl rfl
      · cases h

/-! ## What a step is -/

/-- The thread issues `c` next and goes on with `k`. -/
inductive Thread.Issues : Thread C R Λ → (c : C) → (R c → Thread C R Λ) → Prop
  | outside (c : C) (k : R c → Script C R Λ Unit) :
      Issues (.outside (.cmd c k)) c fun reply => .outside (k reply)
  | inside (r : Λ) (β : Type) (c : C) (k : R c → Prog C R β) (k' : Option β → Script C R Λ Unit) :
      Issues (.inside r β (.cmd c k) k') c fun reply => .inside r β (k reply) k'

/-- The thread goes on without a command. -/
inductive Thread.Moves (script : J → Script C R Λ Unit) : Thread C R Λ → Thread C R Λ → Prop
  | start (job : J) : Moves script (.outside (.ret ())) (.outside (script job))
  | acquire (r : Λ) (β : Type) (body : Prog C R β) (k : Option β → Script C R Λ Unit) :
      Moves script (.outside (.locked r β body k)) (.inside r β body k)
  | giveUp (r : Λ) (β : Type) (body : Prog C R β) (k : Option β → Script C R Λ Unit) :
      Moves script (.outside (.locked r β body k)) (.outside (k none))
  | release (r : Λ) (β : Type) (b : β) (k : Option β → Script C R Λ Unit) :
      Moves script (.inside r β (.ret b) k) (.outside (k (some b)))

/-- A step is a move of one thread, or a command of one. -/
theorem poolStep_cases {step : (c : C) → σ → R c × σ} {script : J → Script C R Λ Unit}
    {a : Action T J} {s s' : Pool C R Λ T σ} (h : poolStep step script a s = some s') :
    (∃ t th, (s.thread t).Moves script th ∧ s'.shared = s.shared ∧
      s'.thread = Function.update s.thread t th) ∨
    ∃ t c k, (s.thread t).Issues c k ∧ s'.shared = (step c s.shared).2 ∧
      s'.thread = Function.update s.thread t (k (step c s.shared).1) := by
  cases a with
  | start t job =>
      simp only [poolStep] at h
      split at h
      · rename_i ht
        obtain rfl := Option.some.inj h
        exact .inl ⟨t, _, ht ▸ .start job, rfl, rfl⟩
      · cases h
  | command t =>
      simp only [poolStep] at h
      split at h
      · rename_i c k ht
        obtain rfl := Option.some.inj h
        exact .inr ⟨t, c, fun reply => .outside (k reply), ht ▸ .outside c k, rfl, rfl⟩
      · rename_i r β c k k' ht
        obtain rfl := Option.some.inj h
        exact .inr ⟨t, c, fun reply => .inside r β (k reply) k', ht ▸ .inside r β c k k', rfl, rfl⟩
      · cases h
  | acquire t =>
      simp only [poolStep] at h
      split at h
      · rename_i r β body k ht
        split at h
        · obtain rfl := Option.some.inj h
          exact .inl ⟨t, _, ht ▸ .acquire r β body k, rfl, rfl⟩
        · cases h
      · cases h
  | giveUp t =>
      simp only [poolStep] at h
      split at h
      · rename_i r β body k ht
        obtain rfl := Option.some.inj h
        exact .inl ⟨t, _, ht ▸ .giveUp r β body k, rfl, rfl⟩
      · cases h
  | release t =>
      simp only [poolStep] at h
      split at h
      · rename_i r β b k ht
        obtain rfl := Option.some.inj h
        exact .inl ⟨t, _, ht ▸ .release r β b k, rfl, rfl⟩
      · cases h

/-- Who is inside a lock holds it. -/
def Pool.Held (s : Pool C R Λ T σ) : Prop :=
  ∀ t r β body k, s.thread t = .inside r β body k → s.owner r = some t

omit [DecidableEq T] [DecidableEq Λ] in
theorem Pool.Held.exclusive {s : Pool C R Λ T σ} (h : s.Held) {t t' : T} {r : Λ} {β β' : Type}
    {body : Prog C R β} {body' : Prog C R β'} {k : Option β → Script C R Λ Unit}
    {k' : Option β' → Script C R Λ Unit} (ht : s.thread t = .inside r β body k)
    (ht' : s.thread t' = .inside r β' body' k') : t = t' :=
  Option.some.inj ((h t r β body k ht).symm.trans (h t' r β' body' k' ht'))

theorem Pool.Held.next {step : (c : C) → σ → R c × σ} {script : J → Script C R Λ Unit}
    {a : Action T J} {s s' : Pool C R Λ T σ} (hs : s.Held)
    (h : poolStep step script a s = some s') : s'.Held := by
  -- Another thread stays where it is, and its lock stays its own.
  have hother : ∀ {t : T} {th : Thread C R Λ}, s'.thread = Function.update s.thread t th →
      (∀ t' r, t' ≠ t → s.owner r = some t' → s'.owner r = some t') →
      (∀ r β body k, th = .inside r β body k → s'.owner r = some t) → s'.Held := by
    intro t th hthread howner hself t' r β body k hinside
    rw [hthread] at hinside
    by_cases hne : t' = t
    · subst hne
      rw [Function.update_self] at hinside
      exact hself r β body k hinside
    · rw [Function.update_of_ne hne] at hinside
      exact howner t' r hne (hs t' r β body k hinside)
  cases a with
  | start t job =>
      simp only [poolStep] at h
      split at h
      · obtain rfl := Option.some.inj h
        exact hother rfl (fun _ _ _ => id) fun _ _ _ _ heq => by cases heq
      · cases h
  | command t =>
      simp only [poolStep] at h
      split at h
      · obtain rfl := Option.some.inj h
        exact hother rfl (fun _ _ _ => id) fun _ _ _ _ heq => by cases heq
      · rename_i r β c k k' ht
        obtain rfl := Option.some.inj h
        refine hother rfl (fun _ _ _ => id) fun r' β' body k'' heq => ?_
        cases heq
        exact hs t r β _ k' ht
      · cases h
  | acquire t =>
      simp only [poolStep] at h
      split at h
      · split at h
        · rename_i hfree
          obtain rfl := Option.some.inj h
          refine hother rfl (fun t' r' _ howner => ?_) fun r' β' body k'' heq => ?_
          · refine (Function.update_of_ne ?_ _ _).trans howner
            rintro rfl
            exact absurd (hfree.symm.trans howner) (Option.some_ne_none t').symm
          · cases heq
            exact Function.update_self _ _ _
        · cases h
      · cases h
  | giveUp t =>
      simp only [poolStep] at h
      split at h
      · obtain rfl := Option.some.inj h
        exact hother rfl (fun _ _ _ => id) fun _ _ _ _ heq => by cases heq
      · cases h
  | release t =>
      simp only [poolStep] at h
      split at h
      · rename_i r β b k ht
        obtain rfl := Option.some.inj h
        refine hother rfl (fun t' r' hne howner => ?_) fun _ _ _ _ heq => by cases heq
        refine (Function.update_of_ne ?_ _ _).trans howner
        rintro rfl
        exact hne (Option.some.inj (howner.symm.trans (hs t r' β _ k ht)))
      · cases h

theorem held_of_reaches {step : (c : C) → σ → R c × σ} {script : J → Script C R Λ Unit}
    {init : σ → Prop} {P : Action T J → Pool C R Λ T σ → Prop} {s : Pool C R Λ T σ}
    (hs : (machine step script init).Reaches P s) : s.Held := by
  refine hs.invariant (fun s hs t r β body k hinside => ?_) fun a s s' h _ hstep => h.next hstep
  rw [hs.2.1 t] at hinside
  cases hinside

end Step

/-! ## What the locks guard -/

/-- Views of the shared state, one kind for each lock. `Sees r v s` says that `v` shows
what `r` guards in `s`, and `sem` is the meaning of a command on a view. -/
structure Guard (C : Type) (R : C → Type) (Λ : Type) (σ : Type u) (V : Type v)
    (step : (c : C) → σ → R c × σ) where
  Inv : σ → Prop
  Sees : Λ → V → σ → Prop
  sem : (c : C) → V → R c → V → Prop
  /-- The commands allowed in the sections of a lock, and outside of all sections. -/
  Sec : Λ → C → Prop
  Out : C → Prop
  inv_step : ∀ c s, Inv s → Inv (step c s).2
  sees_out : ∀ r v c s, Inv s → Out c → Sees r v s → Sees r v (step c s).2
  sees_other : ∀ r r' v c s, Inv s → r' ≠ r → Sec r' c → Sees r v s → Sees r v (step c s).2
  sees_sec : ∀ r v c s, Inv s → Sec r c → Sees r v s →
    ∃ v', sem c v (step c s).1 v' ∧ Sees r v' (step c s).2

namespace Guard

variable {step : (c : C) → σ → R c × σ} (G : Guard C R Λ σ V step)
variable (Ready Keeps : Λ → V → Prop)

/-- A section of `r` issues allowed commands only and, from a view that is ready, keeps
the invariant. -/
def Section {β : Type} (r : Λ) (body : Prog C R β) : Prop :=
  body.Each (G.Sec r) ∧ ∀ v, Ready r v → Keeps r v → body.Wlp G.sem (fun _ => Keeps r) v

/-- A script all of whose sections keep the invariant. -/
def Disciplined (p : Script C R Λ Unit) : Prop :=
  p.All G.Out (G.Section Ready Keeps)

/-- What is known about a thread. -/
def ThreadOk (s : Pool C R Λ T σ) (t : T) : Prop :=
  match s.thread t with
  | .outside p => G.Disciplined Ready Keeps p
  | .inside r _ body k => s.owner r = some t ∧ body.Each (G.Sec r) ∧
      ∀ b, G.Disciplined Ready Keeps (k b)

/-- The rest of the section that a thread is in leads back to the invariant. -/
def Leads (r : Λ) (v : V) : Thread C R Λ → Prop
  | .outside _ => False
  | .inside r' _ body _ => r' = r ∧ body.Wlp G.sem (fun _ => Keeps r) v

/-- The view of a lock: the invariant holds of it when the lock is free, and the holder is
on the way back to the invariant when it is not. -/
def ViewOk (s : Pool C R Λ T σ) (r : Λ) : Prop :=
  ∃ v, G.Sees r v s.shared ∧
    match s.owner r with
    | none => Keeps r v
    | some t => G.Leads Keeps r v (s.thread t)

structure Ok (s : Pool C R Λ T σ) : Prop where
  inv : G.Inv s.shared
  threads : ∀ t, G.ThreadOk Ready Keeps s t
  views : ∀ r, G.ViewOk Keeps s r

/-! ## One step -/

section Put

variable [DecidableEq T] {s : Pool C R Λ T σ} {t : T} {th : Thread C R Λ}

@[simp] theorem put_self : (s.put t th).thread t = th := Function.update_self _ _ _

theorem put_ne {t' : T} (h : t' ≠ t) : (s.put t th).thread t' = s.thread t' :=
  Function.update_of_ne h _ _

end Put

variable {G Ready Keeps}

section Steps

variable {s s' : Pool C R Λ T σ} {t : T}

/-- A thread outside of all sections holds no lock. -/
theorem ViewOk.owner_ne {r : Λ} {p : Script C R Λ Unit} (h : G.ViewOk Keeps s r)
    (ht : s.thread t = .outside p) : s.owner r ≠ some t := by
  intro howner
  obtain ⟨v, -, hlead⟩ := h
  rw [howner] at hlead
  simp only [ht, Leads] at hlead

/-- A thread inside a section holds no other lock. -/
theorem ViewOk.owner_ne_of_inside {r r' : Λ} {β : Type} {body : Prog C R β}
    {k : Option β → Script C R Λ Unit} (h : G.ViewOk Keeps s r')
    (ht : s.thread t = .inside r β body k) (hne : r' ≠ r) : s.owner r' ≠ some t := by
  intro howner
  obtain ⟨v, -, hlead⟩ := h
  rw [howner] at hlead
  simp only [ht, Leads] at hlead
  exact hne hlead.1.symm

/-- What is known about a thread stays known when its locks stay its own. -/
theorem ThreadOk.of_eq (h : G.ThreadOk Ready Keeps s t) (hthread : s'.thread t = s.thread t)
    (howner : ∀ r, s.owner r = some t → s'.owner r = some t) : G.ThreadOk Ready Keeps s' t := by
  rw [ThreadOk] at h ⊢
  rw [hthread]
  cases hth : s.thread t with
  | outside p =>
      rw [hth] at h
      exact h
  | inside r β body k =>
      rw [hth] at h
      exact ⟨howner r h.1, h.2⟩

/-- A view stays as it is when another thread acts on another part of the state. -/
theorem ViewOk.of_eq {r : Λ} (h : G.ViewOk Keeps s r)
    (hsees : ∀ v, G.Sees r v s.shared → G.Sees r v s'.shared)
    (howner : s'.owner r = s.owner r)
    (hthread : ∀ t, s.owner r = some t → s'.thread t = s.thread t) : G.ViewOk Keeps s' r := by
  obtain ⟨v, hv, hkeeps⟩ := h
  refine ⟨v, hsees v hv, ?_⟩
  rw [howner]
  cases ht : s.owner r with
  | none =>
      rw [ht] at hkeeps
      exact hkeeps
  | some t =>
      rw [ht] at hkeeps
      dsimp only at hkeeps ⊢
      rw [hthread t ht]
      exact hkeeps

variable [DecidableEq T]

/-! What a step does to the views. -/

theorem viewOk_put {p q : Script C R Λ Unit} (h : ∀ r, G.ViewOk Keeps s r)
    (ht : s.thread t = .outside p) (r : Λ) : G.ViewOk Keeps (s.put t (.outside q)) r := by
  refine (h r).of_eq (fun _ => id) rfl fun t' ht' => put_ne ?_
  rintro rfl
  exact (h r).owner_ne ht ht'

theorem viewOk_command_outside {c : C} {k : R c → Script C R Λ Unit} (hinv : G.Inv s.shared)
    (h : ∀ r, G.ViewOk Keeps s r) (ht : s.thread t = .outside (.cmd c k)) (hc : G.Out c) (r : Λ) :
    G.ViewOk Keeps { s.put t (.outside (k (step c s.shared).1)) with
      shared := (step c s.shared).2 } r :=
  (viewOk_put (q := k (step c s.shared).1) h ht r).of_eq
    (fun v => G.sees_out r v c _ hinv hc) rfl fun _ _ => rfl

theorem viewOk_command_inside {r : Λ} {β : Type} {c : C} {k : R c → Prog C R β}
    {k' : Option β → Script C R Λ Unit} (hinv : G.Inv s.shared) (h : ∀ r, G.ViewOk Keeps s r)
    (ht : s.thread t = .inside r β (.cmd c k) k') (howner : s.owner r = some t) (hc : G.Sec r c)
    (r' : Λ) :
    G.ViewOk Keeps { s.put t (.inside r β (k (step c s.shared).1) k') with
      shared := (step c s.shared).2 } r' := by
  by_cases hr : r' = r
  · subst hr
    obtain ⟨v, hv, hlead⟩ := h r'
    rw [howner] at hlead
    simp only [ht, Leads] at hlead
    obtain ⟨v', hsem, hv'⟩ := G.sees_sec r' v c _ hinv hc hv
    refine ⟨v', hv', ?_⟩
    change match s.owner r' with
      | none => _
      | some t' => _
    rw [howner]
    simp only [put_self, Leads]
    exact ⟨trivial, hlead.2 _ _ hsem⟩
  · refine (h r').of_eq (fun v => G.sees_other r' r v c _ hinv (Ne.symm hr) hc) rfl
      fun t' ht' => put_ne ?_
    rintro rfl
    exact (h r').owner_ne_of_inside ht hr ht'

variable [DecidableEq Λ]

theorem viewOk_acquire {r : Λ} {β : Type} {body : Prog C R β} {k : Option β → Script C R Λ Unit}
    (h : ∀ r, G.ViewOk Keeps s r) (ht : s.thread t = .outside (.locked r β body k))
    (hfree : s.owner r = none)
    (hbody : ∀ v, G.Sees r v s.shared → Keeps r v → body.Wlp G.sem (fun _ => Keeps r) v) (r' : Λ) :
    G.ViewOk Keeps { s.put t (.inside r β body k) with
      owner := Function.update s.owner r (some t) } r' := by
  by_cases hr : r' = r
  · subst hr
    obtain ⟨v, hv, hkeeps⟩ := h r'
    rw [hfree] at hkeeps
    refine ⟨v, hv, ?_⟩
    simp only [Function.update_self, put_self, Leads]
    exact ⟨trivial, hbody v hv hkeeps⟩
  · refine (h r').of_eq (fun _ => id) (Function.update_of_ne hr _ _) fun t' ht' => put_ne ?_
    rintro rfl
    exact (h r').owner_ne ht ht'

theorem viewOk_release {r : Λ} {β : Type} {b : β} {k : Option β → Script C R Λ Unit}
    (h : ∀ r, G.ViewOk Keeps s r) (ht : s.thread t = .inside r β (.ret b) k)
    (howner : s.owner r = some t) (r' : Λ) :
    G.ViewOk Keeps { s.put t (.outside (k (some b))) with
      owner := Function.update s.owner r none } r' := by
  by_cases hr : r' = r
  · subst hr
    obtain ⟨v, hv, hlead⟩ := h r'
    rw [howner] at hlead
    simp only [ht, Leads] at hlead
    refine ⟨v, hv, ?_⟩
    simp only [Function.update_self]
    exact hlead.2
  · refine (h r').of_eq (fun _ => id) (Function.update_of_ne hr _ _) fun t' ht' => put_ne ?_
    rintro rfl
    exact (h r').owner_ne_of_inside ht hr ht'

/-! What it does to all that is known. -/

omit [DecidableEq Λ] in
/-- A thread outside goes on with another script. -/
theorem Ok.put {p q : Script C R Λ Unit} (h : G.Ok Ready Keeps s)
    (ht : s.thread t = .outside p) (hq : G.Disciplined Ready Keeps q) :
    G.Ok Ready Keeps (s.put t (.outside q)) where
  inv := h.inv
  threads t' := by
    by_cases hne : t' = t
    · subst hne
      rw [ThreadOk, put_self]
      exact hq
    · exact (h.threads t').of_eq (put_ne hne) fun _ => id
  views := viewOk_put h.views ht

omit [DecidableEq Λ] in
/-- A command outside of all sections. -/
theorem Ok.command_outside {c : C} {k : R c → Script C R Λ Unit} (h : G.Ok Ready Keeps s)
    (ht : s.thread t = .outside (.cmd c k)) :
    G.Ok Ready Keeps { s.put t (.outside (k (step c s.shared).1)) with
      shared := (step c s.shared).2 } := by
  have hok := h.threads t
  rw [ThreadOk, ht] at hok
  have hput := h.put ht (hok.2 (step c s.shared).1)
  exact ⟨G.inv_step c _ h.inv, fun t' => (hput.threads t').of_eq rfl fun _ => id,
    viewOk_command_outside h.inv h.views ht hok.1⟩

omit [DecidableEq Λ] in
/-- A command inside a section. -/
theorem Ok.command_inside {r : Λ} {β : Type} {c : C} {k : R c → Prog C R β}
    {k' : Option β → Script C R Λ Unit} (h : G.Ok Ready Keeps s)
    (ht : s.thread t = .inside r β (.cmd c k) k') :
    G.Ok Ready Keeps { s.put t (.inside r β (k (step c s.shared).1) k') with
      shared := (step c s.shared).2 } := by
  have hok := h.threads t
  rw [ThreadOk, ht] at hok
  obtain ⟨howner, heach, hk⟩ := hok
  refine ⟨G.inv_step c _ h.inv, fun t' => ?_,
    viewOk_command_inside h.inv h.views ht howner heach.1⟩
  by_cases hne : t' = t
  · subst hne
    rw [ThreadOk]
    simp only [put_self]
    exact ⟨howner, heach.2 _, hk⟩
  · exact (h.threads t').of_eq (put_ne hne) fun _ => id

/-- A thread enters a section of a free lock. -/
theorem Ok.acquire {r : Λ} {β : Type} {body : Prog C R β} {k : Option β → Script C R Λ Unit}
    (h : G.Ok Ready Keeps s) (hready : ∀ v, G.Sees r v s.shared → Ready r v)
    (ht : s.thread t = .outside (.locked r β body k)) (hfree : s.owner r = none) :
    G.Ok Ready Keeps { s.put t (.inside r β body k) with
      owner := Function.update s.owner r (some t) } := by
  have hok := h.threads t
  rw [ThreadOk, ht] at hok
  obtain ⟨⟨heach, hbody⟩, hk⟩ := hok
  refine ⟨h.inv, fun t' => ?_,
    viewOk_acquire h.views ht hfree fun v hv => hbody v (hready v hv)⟩
  by_cases hne : t' = t
  · subst hne
    rw [ThreadOk]
    simp only [put_self]
    exact ⟨Function.update_self _ _ _, heach, hk⟩
  · refine (h.threads t').of_eq (put_ne hne) fun r' howner => ?_
    refine (Function.update_of_ne ?_ _ _).trans howner
    rintro rfl
    exact absurd (hfree.symm.trans howner) (Option.some_ne_none t').symm

/-- A thread leaves its section. -/
theorem Ok.release {r : Λ} {β : Type} {b : β} {k : Option β → Script C R Λ Unit}
    (h : G.Ok Ready Keeps s) (ht : s.thread t = .inside r β (.ret b) k) :
    G.Ok Ready Keeps { s.put t (.outside (k (some b))) with
      owner := Function.update s.owner r none } := by
  have hok := h.threads t
  rw [ThreadOk, ht] at hok
  obtain ⟨howner, -, hk⟩ := hok
  refine ⟨h.inv, fun t' => ?_, viewOk_release h.views ht howner⟩
  by_cases hne : t' = t
  · subst hne
    rw [ThreadOk]
    simp only [put_self]
    exact hk (some b)
  · refine (h.threads t').of_eq (put_ne hne) fun r' howner' => ?_
    refine (Function.update_of_ne ?_ _ _).trans howner'
    rintro rfl
    exact hne (Option.some.inj (howner'.symm.trans howner))

variable {script : J → Script C R Λ Unit}

theorem Ok.next {a : Action T J} (h : G.Ok Ready Keeps s)
    (hscript : ∀ t job, a = .start t job → G.Disciplined Ready Keeps (script job))
    (hready : ∀ r v, G.Sees r v s.shared → Ready r v)
    (hstep : poolStep step script a s = some s') : G.Ok Ready Keeps s' := by
  cases a with
  | start t job =>
      simp only [poolStep] at hstep
      split at hstep
      · rename_i ht
        obtain rfl := Option.some.inj hstep
        exact h.put ht (hscript t job rfl)
      · cases hstep
  | command t =>
      simp only [poolStep] at hstep
      split at hstep
      · rename_i ht
        obtain rfl := Option.some.inj hstep
        exact h.command_outside ht
      · rename_i ht
        obtain rfl := Option.some.inj hstep
        exact h.command_inside ht
      · cases hstep
  | acquire t =>
      simp only [poolStep] at hstep
      split at hstep
      · rename_i r β body k ht
        split at hstep
        · rename_i hfree
          obtain rfl := Option.some.inj hstep
          exact h.acquire (hready r) ht hfree
        · cases hstep
      · cases hstep
  | giveUp t =>
      simp only [poolStep] at hstep
      split at hstep
      · rename_i r β body k ht
        obtain rfl := Option.some.inj hstep
        have hok := h.threads t
        rw [ThreadOk, ht] at hok
        exact h.put ht (hok.2 none)
      · cases hstep
  | release t =>
      simp only [poolStep] at hstep
      split at hstep
      · rename_i ht
        obtain rfl := Option.some.inj hstep
        exact h.release ht
      · cases hstep

end Steps

/-! ## Every run -/

variable [DecidableEq T] [DecidableEq Λ] {script : J → Script C R Λ Unit} {init : σ → Prop}
  {P : Action T J → Pool C R Λ T σ → Prop}

/-- Whenever a lock is free, what it guards keeps its invariant. The steps meet a condition
`P`: the scripts that they start are disciplined, and all views are ready. -/
theorem keeps_of_free {s : Pool C R Λ T σ}
    (hscript : ∀ t job s, P (.start t job) s → G.Disciplined Ready Keeps (script job))
    (hready : ∀ a s r v, P a s → G.Sees r v s.shared → Ready r v)
    (hinit : ∀ s, init s → G.Inv s ∧ ∀ r, ∃ v, G.Sees r v s ∧ Keeps r v)
    (hs : (machine step script init).Reaches P s) {r : Λ}
    (hfree : s.owner r = none) : ∃ v, G.Sees r v s.shared ∧ Keeps r v := by
  have hok : G.Ok Ready Keeps s := by
    refine hs.invariant ?_ fun a s s' h hP hstep => h.next ?_ (fun r v => hready a s r v hP) hstep
    rotate_left
    · rintro t job rfl
      exact hscript t job s hP
    rintro s ⟨hshared, hidle, hfree⟩
    obtain ⟨hinv, hviews⟩ := hinit _ hshared
    refine ⟨hinv, fun t => ?_, fun r => ?_⟩
    · rw [ThreadOk, hidle t]
      trivial
    · obtain ⟨v, hv, hkeeps⟩ := hviews r
      exact ⟨v, hv, by rw [hfree r]; exact hkeeps⟩
  obtain ⟨v, hv, hkeeps⟩ := hok.views r
  rw [hfree] at hkeeps
  exact ⟨v, hv, hkeeps⟩

end Guard

end Locked
