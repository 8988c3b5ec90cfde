import Mathlib.Data.List.Basic

/-!
# Programs as trees of commands

A program issues a command, continues with its reply and in the end returns a value.
`Prog` is a stretch of such commands. `Script` adds critical sections: `locked r body k`
tries to take the lock `r`, runs `body` under it and releases it, and goes on with
`k (some b)`; where the lock is not obtained it goes on with `k none`. A program says
nothing about what its commands do, so the same tree is run alone by an interpreter and
interleaved with others by a machine.
-/

universe u

/-- A program with commands `C`, whose replies have type `R c`. -/
inductive Prog (C : Type) (R : C → Type) (α : Type) : Type where
  | ret (a : α)
  | cmd (c : C) (k : R c → Prog C R α)

namespace Prog

variable {C : Type} {R : C → Type} {α β γ : Type}

protected def bind : Prog C R α → (α → Prog C R β) → Prog C R β
  | ret a, f => f a
  | cmd c k, f => cmd c fun r => (k r).bind f

instance : Monad (Prog C R) where
  pure := ret
  bind := Prog.bind

/-- The program that issues one command and returns its reply. -/
def issue (c : C) : Prog C R (R c) := cmd c ret

theorem bind_ret (p : Prog C R α) : p.bind ret = p := by
  induction p with
  | ret a => rfl
  | cmd c k ih => exact congrArg (cmd c) (funext ih)

theorem bind_bind (p : Prog C R α) (f : α → Prog C R β) (g : β → Prog C R γ) :
    (p.bind f).bind g = p.bind fun a => (f a).bind g := by
  induction p with
  | ret a => rfl
  | cmd c k ih => exact congrArg (cmd c) (funext ih)

instance : LawfulMonad (Prog C R) :=
  LawfulMonad.mk' _ bind_ret (fun _ _ => rfl) bind_bind

/-! ## Running a program alone -/

section Run

variable {σ : Type u} (step : (c : C) → σ → R c × σ)

/-- The value and the state a program ends with. -/
def run : Prog C R α → σ → α × σ
  | ret a, s => (a, s)
  | cmd c k, s => run (k (step c s).1) (step c s).2

@[simp] theorem run_pure (a : α) (s : σ) : (pure a : Prog C R α).run step s = (a, s) := rfl

@[simp] theorem run_issue (c : C) (s : σ) : (issue c : Prog C R (R c)).run step s = step c s := rfl

@[simp] theorem run_bind (p : Prog C R α) (f : α → Prog C R β) (s : σ) :
    (p >>= f).run step s = (f (p.run step s).1).run step (p.run step s).2 := by
  induction p generalizing s with
  | ret a => rfl
  | cmd c k ih => exact ih _ _

@[simp] theorem run_map (p : Prog C R α) (f : α → β) (s : σ) :
    (f <$> p).run step s = (f (p.run step s).1, (p.run step s).2) := by
  rw [map_eq_pure_bind, run_bind, run_pure]

/-- The commands that a program issues when it is run alone. -/
def issued : Prog C R α → σ → List C
  | ret _, _ => []
  | cmd c k, s => c :: issued (k (step c s).1) (step c s).2

end Run

/-! ## Lists of programs -/

/-- One program for each element, in order. The results are concatenated, and the first
`none` ends the loop. -/
def collect (f : α → Prog C R (Option (List β))) : List α → Prog C R (Option (List β))
  | [] => pure (some [])
  | a :: as => do
      let some bs ← f a | return none
      let some rest ← collect f as | return none
      return some (bs ++ rest)

@[simp] theorem collect_nil (f : α → Prog C R (Option (List β))) :
    collect f [] = pure (some []) := rfl

theorem collect_append (f : α → Prog C R (Option (List β))) (as bs : List α) :
    collect f (as ++ bs) = (do
      let some xs ← collect f as | return none
      let some ys ← collect f bs | return none
      return some (xs ++ ys)) := by
  induction as with
  | nil =>
      simp only [List.nil_append, collect_nil, pure_bind]
      conv_lhs => rw [← bind_pure (collect f bs)]
      refine congrArg _ (funext fun r => ?_)
      cases r <;> rfl
  | cons a as ih =>
      simp only [List.cons_append, collect, ih, bind_assoc]
      refine congrArg _ (funext fun r => ?_)
      cases r with
      | none => simp only [pure_bind]
      | some xs =>
          simp only [bind_assoc]
          refine congrArg _ (funext fun r => ?_)
          cases r with
          | none => simp only [pure_bind]
          | some ys =>
              simp only [pure_bind, bind_assoc]
              refine congrArg _ (funext fun r => ?_)
              cases r with
              | none => simp only [pure_bind]
              | some zs => simp only [pure_bind, List.append_assoc]

/-- A loop in a loop is one loop over all the elements. -/
theorem collect_flatMap (f : β → Prog C R (Option (List γ))) (ys : α → List β) (xs : List α) :
    collect (fun x => collect f (ys x)) xs = collect f (xs.flatMap ys) := by
  induction xs with
  | nil => rfl
  | cons x xs ih => rw [List.flatMap_cons, collect_append, collect, ih]

theorem collect_map (g : α → β) (f : β → Prog C R (Option (List γ)))
    (xs : List α) :
    collect f (xs.map g) = collect (fun x => f (g x)) xs := by
  induction xs with
  | nil => rfl
  | cons x xs ih => rw [List.map_cons, collect, collect, ih]

theorem collect_filter (c : α → Bool) (f : α → Prog C R (Option (List γ)))
    (xs : List α) :
    collect f (xs.filter c) =
      collect (fun x => if c x then f x else pure (some [])) xs := by
  induction xs with
  | nil => rfl
  | cons x xs ih =>
      rw [List.filter_cons, collect]
      split
      · rw [collect, ih]
      · rw [ih, pure_bind]
        conv_lhs => rw [← bind_pure (collect _ xs)]
        refine congrArg _ (funext fun r => ?_)
        cases r <;> rfl

/-! ## The commands of a program -/

/-- Every command the program can issue meets `P`, whatever the replies. -/
def Each (P : C → Prop) : Prog C R α → Prop
  | ret _ => True
  | cmd c k => P c ∧ ∀ r, Each P (k r)

section Each

variable {P : C → Prop}

@[simp] theorem each_pure (a : α) : (pure a : Prog C R α).Each P := trivial

@[simp] theorem each_issue (c : C) : (issue c : Prog C R (R c)).Each P ↔ P c :=
  and_iff_left fun _ => trivial

theorem Each.bind {p : Prog C R α} {f : α → Prog C R β} (hp : p.Each P)
    (hf : ∀ a, (f a).Each P) : (p >>= f).Each P := by
  induction p with
  | ret a => exact hf a
  | cmd c k ih => exact ⟨hp.1, fun r => ih r (hp.2 r)⟩

theorem Each.mono {P' : C → Prop} (h : ∀ c, P c → P' c) {p : Prog C R α} (hp : p.Each P) :
    p.Each P' := by
  induction p with
  | ret a => trivial
  | cmd c k ih => exact ⟨h c hp.1, fun r => ih r (hp.2 r)⟩

theorem Each.and {P' : C → Prop} {p : Prog C R α} (hp : p.Each P) (hp' : p.Each P') :
    p.Each fun c => P c ∧ P' c := by
  induction p with
  | ret a => trivial
  | cmd c k ih => exact ⟨⟨hp.1, hp'.1⟩, fun r => ih r (hp.2 r) (hp'.2 r)⟩

/-- What every command keeps that meets `P`, the program keeps. -/
theorem Each.run {σ : Type u} {step : (c : C) → σ → R c × σ} {I : σ → Prop} {p : Prog C R α}
    (hp : p.Each P) (hstep : ∀ c s, P c → I s → I (step c s).2) {s : σ} (hs : I s) :
    I (p.run step s).2 := by
  induction p generalizing s with
  | ret a => exact hs
  | cmd c k ih => exact ih _ (hp.2 _) (hstep c s hp.1 hs)

theorem Each.collect {f : α → Prog C R (Option (List β))} {as : List α}
    (h : ∀ a ∈ as, (f a).Each P) : (collect f as).Each P := by
  induction as with
  | nil => trivial
  | cons a as ih =>
      refine (h a List.mem_cons_self).bind fun r => ?_
      cases r with
      | none => trivial
      | some bs =>
          refine (ih fun a ha => h a (List.mem_cons_of_mem _ ha)).bind fun r => ?_
          cases r <;> trivial

end Each

/-! ## The results of a program -/

/-- Every result of the program meets `Q`, whatever the replies. -/
def Returns (Q : α → Prop) : Prog C R α → Prop
  | ret a => Q a
  | cmd _ k => ∀ r, Returns Q (k r)

section Returns

variable {Q : α → Prop}

theorem returns_true (p : Prog C R α) : p.Returns fun _ => True := by
  induction p with
  | ret a => trivial
  | cmd c k ih => exact ih

theorem Returns.bind {Q' : β → Prop} {p : Prog C R α} {f : α → Prog C R β} (hp : p.Returns Q)
    (hf : ∀ a, Q a → (f a).Returns Q') : (p >>= f).Returns Q' := by
  induction p with
  | ret a => exact hf a hp
  | cmd c k ih => exact fun r => ih r (hp r)

theorem Returns.run {p : Prog C R α} (hp : p.Returns Q) {σ : Type u}
    (step : (c : C) → σ → R c × σ) (s : σ) : Q (p.run step s).1 := by
  induction p generalizing s with
  | ret a => exact hp
  | cmd c k ih => exact ih _ (hp _) _

theorem Each.bind_returns {P : C → Prop} {p : Prog C R α} {f : α → Prog C R β} (hp : p.Each P)
    (hQ : p.Returns Q) (hf : ∀ a, Q a → (f a).Each P) : (p >>= f).Each P := by
  induction p with
  | ret a => exact hf a hQ
  | cmd c k ih => exact ⟨hp.1, fun r => ih r (hp.2 r) (hQ r)⟩

end Returns

/-! ## What a program establishes -/

/-- The weakest liberal precondition of `Q`, where the meaning of a command is a relation
between the state before, the reply and the state after. -/
def Wlp {σ : Type u} (step : (c : C) → σ → R c → σ → Prop) :
    Prog C R α → (α → σ → Prop) → σ → Prop
  | ret a, Q, s => Q a s
  | cmd c k, Q, s => ∀ r s', step c s r s' → Wlp step (k r) Q s'

theorem Wlp.and {σ : Type u} {step : (c : C) → σ → R c → σ → Prop} {p : Prog C R α}
    {Q Q' : α → σ → Prop} {s : σ} (h : p.Wlp step Q s) (h' : p.Wlp step Q' s) :
    p.Wlp step (fun a t => Q a t ∧ Q' a t) s := by
  induction p generalizing s with
  | ret a => exact ⟨h, h'⟩
  | cmd c k ih => exact fun r t hstep => ih r (h r t hstep) (h' r t hstep)

end Prog

/-- A program with critical sections. -/
inductive Script (C : Type) (R : C → Type) (Λ : Type) (α : Type) : Type 1 where
  | ret (a : α)
  | cmd (c : C) (k : R c → Script C R Λ α)
  | locked (r : Λ) (β : Type) (body : Prog C R β) (k : Option β → Script C R Λ α)

namespace Script

variable {C : Type} {R : C → Type} {Λ : Type} {α β : Type}

protected def bind : Script C R Λ α → (α → Script C R Λ β) → Script C R Λ β
  | ret a, f => f a
  | cmd c k, f => cmd c fun r => (k r).bind f
  | locked r γ body k, f => locked r γ body fun b => (k b).bind f

instance : Monad (Script C R Λ) where
  pure := ret
  bind := Script.bind

/-- A stretch of commands outside any critical section. -/
def lift : Prog C R α → Script C R Λ α
  | .ret a => ret a
  | .cmd c k => cmd c fun r => lift (k r)

instance : MonadLift (Prog C R) (Script C R Λ) := ⟨lift⟩

/-- The critical section of `r`, `none` where the lock is not obtained. -/
def withLock (r : Λ) (body : Prog C R α) : Script C R Λ (Option α) :=
  locked r α body ret

section Run

variable {σ : Type u} (step : (c : C) → σ → R c × σ) (lock : Λ → σ → Bool × σ)

/-- The value and the state a script ends with when it is run alone. The lock attempt
is answered by `lock`. -/
def run : Script C R Λ α → σ → α × σ
  | ret a, s => (a, s)
  | cmd c k, s => run (k (step c s).1) (step c s).2
  | locked r _ body k, s =>
      let (taken, s) := lock r s
      if taken then
        let (b, s) := body.run step s
        run (k (some b)) s
      else run (k none) s

@[simp] theorem run_pure (a : α) (s : σ) :
    (pure a : Script C R Λ α).run step lock s = (a, s) := rfl

@[simp] theorem run_bind (p : Script C R Λ α) (f : α → Script C R Λ β) (s : σ) :
    (p >>= f).run step lock s =
      (f (p.run step lock s).1).run step lock (p.run step lock s).2 := by
  induction p generalizing s with
  | ret a => rfl
  | cmd c k ih => exact ih _ _
  | locked r γ body k ih =>
      change (locked r γ body fun b => (k b).bind f).run step lock s = _
      simp only [run]
      split
      · exact ih _ _
      · exact ih _ _

@[simp] theorem run_lift (p : Prog C R α) (s : σ) :
    (lift p : Script C R Λ α).run step lock s = p.run step s := by
  induction p generalizing s with
  | ret a => rfl
  | cmd c k ih => exact ih _ _

@[simp] theorem run_monadLift (p : Prog C R α) (s : σ) :
    (monadLift p : Script C R Λ α).run step lock s = p.run step s := run_lift step lock p s

end Run

/-- Every command outside the critical sections meets `P`, and every critical section
meets `B`, whatever the replies. -/
def All (P : C → Prop) (B : {β : Type} → Λ → Prog C R β → Prop) : Script C R Λ α → Prop
  | ret _ => True
  | cmd c k => P c ∧ ∀ r, All P B (k r)
  | locked r _ body k => B r body ∧ ∀ b, All P B (k b)

section All

variable {P : C → Prop} {B : {β : Type} → Λ → Prog C R β → Prop}

@[simp] theorem all_pure (a : α) : (pure a : Script C R Λ α).All P B := trivial

theorem All.bind {p : Script C R Λ α} {f : α → Script C R Λ β} (hp : p.All P B)
    (hf : ∀ a, (f a).All P B) : (p >>= f).All P B := by
  induction p with
  | ret a => exact hf a
  | cmd c k ih => exact ⟨hp.1, fun r => ih r (hp.2 r)⟩
  | locked r γ body k ih => exact ⟨hp.1, fun b => ih b (hp.2 b)⟩

theorem all_lift {p : Prog C R α} (hp : p.Each P) : (lift p : Script C R Λ α).All P B := by
  induction p with
  | ret a => trivial
  | cmd c k ih => exact ⟨hp.1, fun r => ih r (hp.2 r)⟩

theorem all_monadLift {p : Prog C R α} (hp : p.Each P) :
    (monadLift p : Script C R Λ α).All P B := all_lift hp

theorem All.imp {P' : C → Prop} {B' : {β : Type} → Λ → Prog C R β → Prop}
    (hP : ∀ c, P c → P' c) (hB : ∀ {β : Type} (r : Λ) (body : Prog C R β), B r body → B' r body)
    {p : Script C R Λ α} (hp : p.All P B) : p.All P' B' := by
  induction p with
  | ret a => trivial
  | cmd c k ih => exact ⟨hP c hp.1, fun r => ih r (hp.2 r)⟩
  | locked r γ body k ih => exact ⟨hB r body hp.1, fun b => ih b (hp.2 b)⟩

theorem All.mono {B' : {β : Type} → Λ → Prog C R β → Prop}
    (h : ∀ {β : Type} (r : Λ) (body : Prog C R β), B r body → B' r body)
    {p : Script C R Λ α} (hp : p.All P B) : p.All P B' := hp.imp (fun _ => id) h

theorem all_withLock {r : Λ} {body : Prog C R α} (h : B r body) : (withLock r body).All P B :=
  ⟨h, fun _ => trivial⟩

/-- What the commands, the lock attempts and the sections keep, the script keeps. -/
theorem All.run {σ : Type u} (step : (c : C) → σ → R c × σ) (lock : Λ → σ → Bool × σ) (I : σ → Prop)
    (hcommand : ∀ c s, P c → I s → I (step c s).2) (hlock : ∀ r s, I s → I (lock r s).2)
    (hbody : ∀ {β : Type} (r : Λ) (body : Prog C R β) s, B r body → I s → I (body.run step s).2)
    {p : Script C R Λ α} (hp : p.All P B) {s : σ} (hs : I s) : I (p.run step lock s).2 := by
  induction p generalizing s with
  | ret a => exact hs
  | cmd c k ih => exact ih _ (hp.2 _) (hcommand c s hp.1 hs)
  | locked r γ body k ih =>
      have hlocked := hlock r s hs
      rw [Script.run]
      cases hresult : lock r s with
      | mk taken s' =>
          rw [hresult] at hlocked
          cases taken with
          | true => exact ih _ (hp.2 _) (hbody r body s' hp.1 hlocked)
          | false => exact ih _ (hp.2 _) hlocked

end All

/-- Every result of the script meets `Q`, whatever the replies. -/
def Returns (Q : α → Prop) : Script C R Λ α → Prop
  | ret a => Q a
  | cmd _ k => ∀ r, Returns Q (k r)
  | locked _ _ _ k => ∀ b, Returns Q (k b)

section Returns

theorem returns_true (p : Script C R Λ α) : p.Returns fun _ => True := by
  induction p with
  | ret a => trivial
  | cmd c k ih => exact ih
  | locked r γ body k ih => exact ih

theorem Returns.bind {Q : α → Prop} {Q' : β → Prop} {p : Script C R Λ α}
    {f : α → Script C R Λ β} (hp : p.Returns Q) (hf : ∀ a, Q a → (f a).Returns Q') :
    (p >>= f).Returns Q' := by
  induction p with
  | ret a => exact hf a hp
  | cmd c k ih => exact fun r => ih r (hp r)
  | locked r γ body k ih => exact fun b => ih b (hp b)

end Returns

end Script
