import ErizoController.Library.Locked

/-!
# Watching threads

A monitor gives each thread a state of its own that moves with the commands the thread
issues and the replies it gets. When every job follows the monitor, an invariant of the
shared state and the monitor states can be shown without looking at the programs again:
what matters of a thread is the state its monitor is in.

A finished job may report its result. The reports are commands of their own, which append
to a log.
-/

universe u

namespace Locked

variable {C N M : Type} {R : C → Type} {Λ T J α β : Type} {σ : Type u}

/-! ## Reports -/

/-- The replies to commands and to reports. -/
@[reducible] def Reported (N : Type) (R : C → Type) : C ⊕ N → Type
  | .inl c => R c
  | .inr _ => Unit

def Prog.embed (N : Type) : Prog C R β → Prog (C ⊕ N) (Reported N R) β
  | .ret b => .ret b
  | .cmd c k => .cmd (.inl c) fun reply => Prog.embed N (k reply)

/-- The script that reports its value at its end. -/
def Script.reporting (report : α → N) : Script C R Λ α → Script (C ⊕ N) (Reported N R) Λ Unit
  | .ret a => .cmd (.inr (report a)) fun _ => .ret ()
  | .cmd c k => .cmd (.inl c) fun reply => Script.reporting report (k reply)
  | .locked r β body k => .locked r β (Prog.embed N body) fun b => Script.reporting report (k b)

/-- A command acts on the state, and a report is appended to the log. -/
def reportStep (step : (c : C) → σ → R c × σ) :
    (c : C ⊕ N) → σ × List N → Reported N R c × (σ × List N)
  | .inl c, (s, log) => ((step c s).1, ((step c s).2, log))
  | .inr n, (s, log) => ((), (s, log ++ [n]))

/-! ## Monitors -/

/-- The commands a thread may issue in each state of its monitor, and the state after the
reply. -/
structure Monitor (C : Type) (R : C → Type) (M : Type) where
  allows : M → C → Prop
  next : M → (c : C) → R c → M

/-- What holds of each thread and its state holds when one thread moves to where it holds. -/
theorem forall_update {B : Type*} [DecidableEq T] {P : M → B → Prop} {m : T → M} {f : T → B} {t : T}
    {n : M} {b : B} (h : ∀ t, P (m t) (f t)) (hnb : P n b) (t' : T) :
    P (Function.update m t n t') (Function.update f t b t') := by
  by_cases hne : t' = t
  · subst hne
    rwa [Function.update_self, Function.update_self]
  · rw [Function.update_of_ne hne, Function.update_of_ne hne]
    exact h t'

namespace Monitor

/-- What the monitor says of the commands that are no reports. -/
def commands (W : Monitor (C ⊕ N) (Reported N R) M) : Monitor C R M where
  allows m c := W.allows m (.inl c)
  next m c reply := W.next m (.inl c) reply

variable (W : Monitor C R M)

/-- The program issues allowed commands only, and ends in a monitor state with `Q`. -/
def Follows (Q : M → β → Prop) : M → Prog C R β → Prop
  | m, .ret b => Q m b
  | m, .cmd c k => W.allows m c ∧ ∀ reply, Follows Q (W.next m c reply) (k reply)

/-- The same of a script. -/
def FollowsScript (Q : M → α → Prop) : M → Script C R Λ α → Prop
  | m, .ret a => Q m a
  | m, .cmd c k => W.allows m c ∧ ∀ reply, FollowsScript Q (W.next m c reply) (k reply)
  | m, .locked _ _ body k =>
      W.Follows (fun m' b => FollowsScript Q m' (k (some b))) m body ∧ FollowsScript Q m (k none)

variable {W}

theorem Follows.bind {Q : M → α → Prop} {Q' : M → β → Prop} {p : Prog C R α} {f : α → Prog C R β}
    {m : M} (h : W.Follows Q m p) (hf : ∀ m a, Q m a → W.Follows Q' m (f a)) :
    W.Follows Q' m (p >>= f) := by
  induction p generalizing m with
  | ret a => exact hf m a h
  | cmd c k ih => exact ⟨h.1, fun reply => ih reply (h.2 reply)⟩

theorem Follows.mono {Q Q' : M → α → Prop} {p : Prog C R α} {m : M} (h : W.Follows Q m p)
    (hQ : ∀ m a, Q m a → Q' m a) : W.Follows Q' m p := by
  induction p generalizing m with
  | ret a => exact hQ m a h
  | cmd c k ih => exact ⟨h.1, fun reply => ih reply (h.2 reply)⟩

theorem Follows.returns {Q : M → α → Prop} {Q' : α → Prop} {p : Prog C R α} {m : M}
    (h : W.Follows Q m p) (hp : p.Returns Q') : W.Follows (fun m a => Q m a ∧ Q' a) m p := by
  induction p generalizing m with
  | ret a => exact ⟨h, hp⟩
  | cmd c k ih => exact ⟨h.1, fun reply => ih reply (h.2 reply) (hp reply)⟩

/-- A program whose commands are all allowed in a state that they do not change. -/
theorem follows_of_each {p : Prog C R α} {m : M} {P : C → Prop} (hp : p.Each P)
    (hP : ∀ c, P c → W.allows m c ∧ ∀ reply, W.next m c reply = m) :
    W.Follows (fun m' _ => m' = m) m p := by
  induction p with
  | ret a => rfl
  | cmd c k ih =>
      obtain ⟨hallows, hnext⟩ := hP c hp.1
      refine ⟨hallows, fun reply => ?_⟩
      rw [hnext reply]
      exact ih reply (hp.2 reply)

theorem FollowsScript.bind {Q : M → α → Prop} {Q' : M → β → Prop} {p : Script C R Λ α}
    {f : α → Script C R Λ β} {m : M} (h : W.FollowsScript Q m p)
    (hf : ∀ m a, Q m a → W.FollowsScript Q' m (f a)) : W.FollowsScript Q' m (p >>= f) := by
  induction p generalizing m with
  | ret a => exact hf m a h
  | cmd c k ih => exact ⟨h.1, fun reply => ih reply (h.2 reply)⟩
  | locked r γ body k ih =>
      exact ⟨h.1.mono fun m' b hk => ih (some b) hk, ih none h.2⟩

theorem followsScript_lift {Q : M → α → Prop} {p : Prog C R α} {m : M} (h : W.Follows Q m p) :
    W.FollowsScript Q m (monadLift p : Script C R Λ α) := by
  change W.FollowsScript Q m (Script.lift p)
  induction p generalizing m with
  | ret a => exact h
  | cmd c k ih => exact ⟨h.1, fun reply => ih reply (h.2 reply)⟩

/-- A script whose commands, in its sections and outside of them, are all allowed in a
state that they do not change. -/
theorem followsScript_of_all {p : Script C R Λ α} {m : M} {P P' : C → Prop}
    {B : {β : Type} → Λ → Prog C R β → Prop} (hp : p.All P B)
    (hP : ∀ c, P c → W.allows m c ∧ ∀ reply, W.next m c reply = m)
    (hB : ∀ {β : Type} (r : Λ) (body : Prog C R β), B r body → body.Each P')
    (hP' : ∀ c, P' c → W.allows m c ∧ ∀ reply, W.next m c reply = m) :
    W.FollowsScript (fun m' _ => m' = m) m p := by
  induction p with
  | ret a => rfl
  | cmd c k ih =>
      obtain ⟨hallows, hnext⟩ := hP c hp.1
      refine ⟨hallows, fun reply => ?_⟩
      rw [hnext reply]
      exact ih reply (hp.2 reply)
  | locked r β body k ih =>
      refine ⟨(follows_of_each (hB r body hp.1) hP').mono ?_, ih none (hp.2 none)⟩
      rintro m' b rfl
      exact ih (some b) (hp.2 (some b))

section Reporting

variable {W : Monitor (C ⊕ N) (Reported N R) M}

theorem Follows.embed {Q : M → β → Prop} {p : Prog C R β} {m : M}
    (h : W.commands.Follows Q m p) : W.Follows Q m (Prog.embed N p) := by
  induction p generalizing m with
  | ret b => exact h
  | cmd c k ih => exact ⟨h.1, fun reply => ih reply (h.2 reply)⟩

/-- A script that ends in a state in which its report is allowed. -/
theorem FollowsScript.reporting {report : α → N} {p : Script C R Λ α} {m : M}
    (h : W.commands.FollowsScript (fun m' a => W.allows m' (.inr (report a))) m p) :
    W.FollowsScript (fun _ _ => True) m (Script.reporting report p) := by
  induction p generalizing m with
  | ret a => exact ⟨h, fun _ => trivial⟩
  | cmd c k ih => exact ⟨h.1, fun reply => ih reply (h.2 reply)⟩
  | locked r β body k ih =>
      exact ⟨Follows.embed (h.1.mono fun m' b hk => ih (some b) hk), ih none h.2⟩

end Reporting

/-! ## Every run -/

variable (W)

def FollowsThread (m : M) : Thread C R Λ → Prop
  | .outside p => W.FollowsScript (fun _ _ => True) m p
  | .inside _ _ body k =>
      W.Follows (fun m' b => W.FollowsScript (fun _ _ => True) m' (k (some b))) m body

section Run

variable [DecidableEq T] [DecidableEq Λ]
variable {step : (c : C) → σ → R c × σ} {script : J → Script C R Λ Unit}
variable {A : J → σ → Prop} {K : σ → σ → Prop}

/-- The jobs are started in states that meet `A`, and every other step takes the shared
state to one that is related to it by `K`. -/
def Meets (step : (c : C) → σ → R c × σ) (script : J → Script C R Λ Unit) (A : J → σ → Prop)
    (K : σ → σ → Prop) : Action T J → Pool C R Λ T σ → Prop
  | .start _ job, s => A job s.shared
  | a, s => ∀ s', poolStep step script a s = some s' → K s.shared s'.shared

variable {W}

/-- An invariant of the shared state and the monitor states, kept by every start of a job
and by every allowed command. -/
theorem exists_invariant {I : σ → (T → M) → Prop} {init : σ → Prop} {idle : M} {enter : J → M}
    (hscript : ∀ job s, A job s → W.FollowsScript (fun _ _ => True) (enter job) (script job))
    (hinit : ∀ s, init s → I s fun _ => idle)
    (hstart : ∀ job t s m, I s m → A job s → I s (Function.update m t (enter job)))
    (hact : ∀ c t s m, I s m → W.allows (m t) c → K s (step c s).2 →
      I (step c s).2 (Function.update m t (W.next (m t) c (step c s).1)))
    {s : Pool C R Λ T σ} (hs : (machine step script init).Reaches (Meets step script A K) s) :
    ∃ m, I s.shared m := by
  suffices hfollows : ∃ m, I s.shared m ∧ ∀ t, W.FollowsThread (m t) (s.thread t) from
    hfollows.imp fun _ => And.left
  refine Machine.Reaches.invariant
    (I := fun s => ∃ m, I s.shared m ∧ ∀ t, W.FollowsThread (m t) (s.thread t))
    (fun s (hs : (machine step script init).init s) => ⟨fun _ => idle, hinit _ hs.1, fun t => ?_⟩)
    (fun a s s' ⟨m, hI, hm⟩ hmeets h => ?_) hs
  · rw [hs.2.1 t]
    trivial
  -- Only the thread that acts is in another state.
  have hput : ∀ {t : T} {th : Thread C R Λ} {m' : M}, W.FollowsThread m' th →
      ∀ t', W.FollowsThread (Function.update m t m' t') (Function.update s.thread t th t') := by
    intro t th m' hth t'
    exact forall_update hm hth t'
  cases a with
  | start t job =>
      simp only [machine, poolStep] at h
      split at h
      · obtain rfl := Option.some.inj h
        exact ⟨_, hstart job t _ m hI hmeets, hput (hscript job _ hmeets)⟩
      · cases h
  | command t =>
      have hK := hmeets s' h
      simp only [machine, poolStep] at h
      have ht := hm t
      split at h
      · rename_i c k heq
        obtain rfl := Option.some.inj h
        rw [heq] at ht
        exact ⟨_, hact c t _ m hI ht.1 hK, hput (ht.2 _)⟩
      · rename_i r β c k k' heq
        obtain rfl := Option.some.inj h
        rw [heq] at ht
        exact ⟨_, hact c t _ m hI ht.1 hK, hput (ht.2 _)⟩
      · cases h
  | acquire t =>
      simp only [machine, poolStep] at h
      have ht := hm t
      split at h
      · rename_i r β body k heq
        split at h
        · obtain rfl := Option.some.inj h
          rw [heq] at ht
          refine ⟨m, hI, ?_⟩
          have hall := @hput t (.inside r β body k) (m t) ht.1
          rwa [Function.update_eq_self] at hall
        · cases h
      · cases h
  | giveUp t =>
      simp only [machine, poolStep] at h
      have ht := hm t
      split at h
      · rename_i r β body k heq
        obtain rfl := Option.some.inj h
        rw [heq] at ht
        refine ⟨m, hI, ?_⟩
        have hall := @hput t (.outside (k none)) (m t) ht.2
        rwa [Function.update_eq_self] at hall
      · cases h
  | release t =>
      simp only [machine, poolStep] at h
      have ht := hm t
      split at h
      · rename_i r β b k heq
        obtain rfl := Option.some.inj h
        rw [heq] at ht
        refine ⟨m, hI, ?_⟩
        have hall := @hput t (.outside (k (some b))) (m t) ht
        rwa [Function.update_eq_self] at hall
      · cases h

end Run

end Monitor

end Locked
