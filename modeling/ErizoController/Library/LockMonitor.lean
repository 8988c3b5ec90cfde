import ErizoController.Library.Monitor

/-!
# Watching threads and their locks

A lock monitor is a monitor that also knows which lock its thread is inside. Its
invariants may use that no two threads are inside the same lock, so that what a section
has read under the lock is still true when the section writes. The runs may start from any
pool, for example from one that another run has reached.
-/

universe u

namespace Locked

variable {C N M : Type} {R : C → Type} {Λ T J α β : Type} {σ : Type u}

/-! ## The lock of a thread -/

/-- The lock a thread is inside. -/
def Thread.lock : Thread C R Λ → Option Λ
  | .outside _ => none
  | .inside r _ _ _ => some r

/-- The locks the threads are inside. -/
def Pool.locks (s : Pool C R Λ T σ) (t : T) : Option Λ := (s.thread t).lock

/-- No two threads are inside the same lock. -/
def Exclusive (h : T → Option Λ) : Prop := ∀ t t' r, h t = some r → h t' = some r → t = t'

theorem Pool.owner_of_locks {s : Pool C R Λ T σ} (hs : s.Held) {t : T} {r : Λ}
    (h : s.locks t = some r) : s.owner r = some t := by
  unfold Pool.locks at h
  cases ht : s.thread t with
  | outside p =>
      rw [ht] at h
      cases h
  | inside r' β body k =>
      rw [ht] at h
      obtain rfl := Option.some.inj h
      exact hs t r' β body k ht

theorem Pool.Held.exclusive_locks {s : Pool C R Λ T σ} (hs : s.Held) : Exclusive s.locks :=
  fun _ _ _ h h' => Option.some.inj ((owner_of_locks hs h).symm.trans (owner_of_locks hs h'))

/-- A script among reports. -/
def Script.embed (N : Type) : Script C R Λ α → Script (C ⊕ N) (Reported N R) Λ α
  | .ret a => .ret a
  | .cmd c k => .cmd (.inl c) fun reply => Script.embed N (k reply)
  | .locked r β body k => .locked r β (Prog.embed N body) fun b => Script.embed N (k b)

/-- Threads that start in any pools. -/
def machineFrom [DecidableEq T] [DecidableEq Λ] (step : (c : C) → σ → R c × σ)
    (script : J → Script C R Λ Unit) (init : Pool C R Λ T σ → Prop) :
    Machine (Action T J) (Pool C R Λ T σ) where
  init := init
  step := poolStep step script

/-! ## Lock monitors -/

/-- The commands a thread may issue, by the lock it is inside and the state of its monitor,
the states after a reply and after the end of a section, and the replies that a thread has
to reckon with. -/
structure LockMonitor (C : Type) (R : C → Type) (Λ M : Type) where
  allows : Option Λ → M → C → Prop
  next : Option Λ → M → (c : C) → R c → M
  leave : M → M
  occurs : (c : C) → R c → Prop

namespace LockMonitor

/-- What the monitor says of the commands that are no reports. -/
def commands (W : LockMonitor (C ⊕ N) (Reported N R) Λ M) : LockMonitor C R Λ M where
  allows r m c := W.allows r m (.inl c)
  next r m c reply := W.next r m (.inl c) reply
  leave := W.leave
  occurs c reply := W.occurs (.inl c) reply

variable (W : LockMonitor C R Λ M)

/-- The program, under a lock or under none, issues allowed commands only and ends in a
monitor state with `Q`. -/
def Follows (r : Option Λ) (Q : M → β → Prop) : M → Prog C R β → Prop
  | m, .ret b => Q m b
  | m, .cmd c k => W.allows r m c ∧
      ∀ reply, W.occurs c reply → Follows r Q (W.next r m c reply) (k reply)

/-- The same of a script. -/
def FollowsScript (Q : M → α → Prop) : M → Script C R Λ α → Prop
  | m, .ret a => Q m a
  | m, .cmd c k => W.allows none m c ∧
      ∀ reply, W.occurs c reply → FollowsScript Q (W.next none m c reply) (k reply)
  | m, .locked r _ body k =>
      W.Follows (some r) (fun m' b => FollowsScript Q (W.leave m') (k (some b))) m body ∧
        FollowsScript Q m (k none)

/-- The command is allowed in a state that it does not change. -/
def Steady (r : Option Λ) (m : M) (c : C) : Prop :=
  W.allows r m c ∧ ∀ reply, W.next r m c reply = m

variable {W}

section Prog

variable {r : Option Λ}

theorem Follows.bind {Q : M → α → Prop} {Q' : M → β → Prop} {p : Prog C R α} {f : α → Prog C R β}
    {m : M} (h : W.Follows r Q m p) (hf : ∀ m a, Q m a → W.Follows r Q' m (f a)) :
    W.Follows r Q' m (p >>= f) := by
  induction p generalizing m with
  | ret a => exact hf m a h
  | cmd c k ih => exact ⟨h.1, fun reply hreply => ih reply (h.2 reply hreply)⟩

theorem Follows.mono {Q Q' : M → α → Prop} {p : Prog C R α} {m : M} (h : W.Follows r Q m p)
    (hQ : ∀ m a, Q m a → Q' m a) : W.Follows r Q' m p := by
  induction p generalizing m with
  | ret a => exact hQ m a h
  | cmd c k ih => exact ⟨h.1, fun reply hreply => ih reply (h.2 reply hreply)⟩

/-- A program whose commands are all allowed in the states `Z`, and lead from them to
them. -/
theorem follows_of_each {P : C → Prop} {Z : M → Prop} {Q : α → Prop} {p : Prog C R α} {m : M}
    (hp : p.Each P) (hQ : p.Returns Q) (hm : Z m)
    (hP : ∀ m c, Z m → P c → W.allows r m c ∧ ∀ reply, Z (W.next r m c reply)) :
    W.Follows r (fun m' a => Z m' ∧ Q a) m p := by
  induction p generalizing m with
  | ret a => exact ⟨hm, hQ⟩
  | cmd c k ih =>
      obtain ⟨hallows, hnext⟩ := hP m c hm hp.1
      exact ⟨hallows, fun reply _ => ih reply (hp.2 reply) (hQ reply) (hnext reply)⟩

theorem follows_steady {P : C → Prop} {Q : α → Prop} {p : Prog C R α} {m : M} (hp : p.Each P)
    (hQ : p.Returns Q) (hP : ∀ c, P c → W.Steady r m c) :
    W.Follows r (fun m' a => m' = m ∧ Q a) m p := by
  refine follows_of_each (Z := fun m' => m' = m) hp hQ rfl fun m' c hm' hc => ?_
  subst hm'
  exact hP c hc

/-- A loop whose body takes the states of the elements done to those of one more. -/
theorem follows_collect {f : α → Prog C R (Option (List β))} {g : α → β} {Z : List α → M → Prop}
    (hf : ∀ finished a m, Z finished m →
      W.Follows r (fun m' b => Z (finished ++ [a]) m' ∧ b = some [g a]) m (f a))
    {as : List α} (finished : List α) {m : M} (hm : Z finished m) :
    W.Follows r (fun m' b => Z (finished ++ as) m' ∧
      b = some (as.map g)) m (Prog.collect f as) := by
  induction as generalizing finished m with
  | nil => exact ⟨(List.append_nil finished).symm ▸ hm, rfl⟩
  | cons a as ih =>
      refine Follows.bind (hf finished a m hm) fun m' b ⟨hm', hb⟩ => ?_
      subst hb
      refine Follows.bind (ih (finished ++ [a]) hm') fun m'' b ⟨hm'', hb⟩ => ?_
      subst hb
      refine ⟨?_, rfl⟩
      rwa [List.append_assoc, List.singleton_append] at hm''

end Prog

theorem FollowsScript.mono {Q Q' : M → α → Prop} {p : Script C R Λ α} {m : M}
    (h : W.FollowsScript Q m p) (hQ : ∀ m a, Q m a → Q' m a) : W.FollowsScript Q' m p := by
  induction p generalizing m with
  | ret a => exact hQ m a h
  | cmd c k ih => exact ⟨h.1, fun reply hreply => ih reply (h.2 reply hreply)⟩
  | locked r γ body k ih =>
      exact ⟨h.1.mono fun m' b hk => ih (some b) hk, ih none h.2⟩

theorem FollowsScript.bind {Q : M → α → Prop} {Q' : M → β → Prop} {p : Script C R Λ α}
    {f : α → Script C R Λ β} {m : M} (h : W.FollowsScript Q m p)
    (hf : ∀ m a, Q m a → W.FollowsScript Q' m (f a)) : W.FollowsScript Q' m (p >>= f) := by
  induction p generalizing m with
  | ret a => exact hf m a h
  | cmd c k ih => exact ⟨h.1, fun reply hreply => ih reply (h.2 reply hreply)⟩
  | locked r γ body k ih =>
      exact ⟨h.1.mono fun m' b hk => ih (some b) hk, ih none h.2⟩

theorem followsScript_lift {Q : M → α → Prop} {p : Prog C R α} {m : M}
    (h : W.Follows none Q m p) : W.FollowsScript Q m (monadLift p : Script C R Λ α) := by
  change W.FollowsScript Q m (Script.lift p)
  induction p generalizing m with
  | ret a => exact h
  | cmd c k ih => exact ⟨h.1, fun reply hreply => ih reply (h.2 reply hreply)⟩

theorem followsScript_withLock {Q : M → Option α → Prop} {r : Λ} {body : Prog C R α} {m : M}
    (h : W.Follows (some r) (fun m' a => Q (W.leave m') (some a)) m body) (hnone : Q m none) :
    W.FollowsScript Q m (Script.withLock r body) := ⟨h, hnone⟩

/-- A script whose commands and sections are all allowed in the states `Z`, and lead from
them to them. -/
theorem followsScript_of_all {P : C → Prop} {B : {β : Type} → Λ → Prog C R β → Prop} {Z : M → Prop}
    {p : Script C R Λ α} {m : M} (hp : p.All P B) (hm : Z m)
    (hP : ∀ m c, Z m → P c → W.allows none m c ∧ ∀ reply, Z (W.next none m c reply))
    (hB : ∀ {β : Type} (r : Λ) (body : Prog C R β) m, Z m → B r body →
      W.Follows (some r) (fun m' _ => Z (W.leave m')) m body) :
    W.FollowsScript (fun m' _ => Z m') m p := by
  induction p generalizing m with
  | ret a => exact hm
  | cmd c k ih =>
      obtain ⟨hallows, hnext⟩ := hP m c hm hp.1
      exact ⟨hallows, fun reply _ => ih reply (hp.2 reply) (hnext reply)⟩
  | locked r β body k ih =>
      exact ⟨(hB r body m hm hp.1).mono fun m' b hm' => ih (some b) (hp.2 (some b)) hm',
        ih none (hp.2 none) hm⟩

/-- A script whose commands and sections all leave the monitor in one state. -/
theorem followsScript_steady {P : C → Prop} {B : {β : Type} → Λ → Prog C R β → Prop}
    {p : Script C R Λ α} {m : M} (hp : p.All P B) (hP : ∀ c, P c → W.Steady none m c)
    (hB : ∀ {β : Type} (r : Λ) (body : Prog C R β), B r body →
      W.Follows (some r) (fun m' _ => W.leave m' = m) m body) :
    W.FollowsScript (fun m' _ => m' = m) m p := by
  refine followsScript_of_all (Z := fun m' => m' = m) hp rfl (fun m' c hm' hc => ?_)
    fun r body m' hm' hbody => ?_
  · subst hm'
    exact hP c hc
  · subst hm'
    exact hB r body hbody

section Reporting

variable {W : LockMonitor (C ⊕ N) (Reported N R) Λ M}

theorem Follows.embed {Q : M → β → Prop} {p : Prog C R β} {m : M} {r : Option Λ}
    (h : W.commands.Follows r Q m p) : W.Follows r Q m (Prog.embed N p) := by
  induction p generalizing m with
  | ret b => exact h
  | cmd c k ih => exact ⟨h.1, fun reply hreply => ih reply (h.2 reply hreply)⟩

theorem FollowsScript.embed {Q : M → α → Prop} {p : Script C R Λ α} {m : M}
    (h : W.commands.FollowsScript Q m p) : W.FollowsScript Q m (Script.embed N p) := by
  induction p generalizing m with
  | ret a => exact h
  | cmd c k ih => exact ⟨h.1, fun reply hreply => ih reply (h.2 reply hreply)⟩
  | locked r β body k ih =>
      exact ⟨Follows.embed (h.1.mono fun m' b hk => ih (some b) hk), ih none h.2⟩

/-- A script that ends in a state in which its report is allowed. -/
theorem FollowsScript.reporting {report : α → N} {p : Script C R Λ α} {m : M}
    (h : W.commands.FollowsScript (fun m' a => W.allows none m' (.inr (report a))) m p) :
    W.FollowsScript (fun _ _ => True) m (Script.reporting report p) := by
  induction p generalizing m with
  | ret a => exact ⟨h, fun _ _ => trivial⟩
  | cmd c k ih => exact ⟨h.1, fun reply hreply => ih reply (h.2 reply hreply)⟩
  | locked r β body k ih =>
      exact ⟨Follows.embed (h.1.mono fun m' b hk => ih (some b) hk), ih none h.2⟩

end Reporting

/-! ## Every run -/

variable (W)

def FollowsThread (m : M) : Thread C R Λ → Prop
  | .outside p => W.FollowsScript (fun _ _ => True) m p
  | .inside r _ body k =>
      W.Follows (some r) (fun m' b => W.FollowsScript (fun _ _ => True) (W.leave m') (k (some b)))
        m body

/-- The threads follow their monitors. -/
def FollowsPool (s : Pool C R Λ T σ) (m : T → M) : Prop := ∀ t, W.FollowsThread (m t) (s.thread t)

variable {W}

section Run

variable [DecidableEq T] [DecidableEq Λ]
variable {step : (c : C) → σ → R c × σ} {script : J → Script C R Λ Unit}
variable {A : J → σ → Prop} {K : σ → σ → Prop}

/-- An invariant of the shared state, the locks and the monitor states, kept by every start
of a job, every allowed command, and every entry and end of a section. -/
theorem exists_invariant {I : σ → (T → Option Λ) → (T → M) → Prop}
    {init : Pool C R Λ T σ → Prop} {enter : J → M}
    (hscript : ∀ job s, A job s → W.FollowsScript (fun _ _ => True) (enter job) (script job))
    (hinit : ∀ s, init s → s.Held ∧ ∃ m, I s.shared s.locks m ∧ W.FollowsPool s m)
    (hstart : ∀ job t s h m, I s h m → h t = none → A job s →
      I s h (Function.update m t (enter job)))
    (hoccurs : ∀ c s h m, I s h m → W.occurs c (step c s).1)
    (hact : ∀ c t s h m, Exclusive h → I s h m → W.allows (h t) (m t) c → K s (step c s).2 →
      I (step c s).2 h (Function.update m t (W.next (h t) (m t) c (step c s).1)))
    (hacquire : ∀ r t s h m, I s h m → h t = none → (∀ t', h t' ≠ some r) →
      I s (Function.update h t (some r)) m)
    (hrelease : ∀ r t s h m, I s h m → h t = some r →
      I s (Function.update h t none) (Function.update m t (W.leave (m t))))
    {s : Pool C R Λ T σ}
    (hs : (machineFrom step script init).Reaches (Monitor.Meets step script A K) s) :
    s.Held ∧ ∃ m, I s.shared s.locks m ∧ W.FollowsPool s m := by
  refine hs.invariant hinit fun a s s' ⟨hheld, m, hI, hm⟩ hmeets h => ⟨hheld.next h, ?_⟩
  have hexclusive := hheld.exclusive_locks
  -- Only the thread that acts has another lock, and is in another state.
  have hput : ∀ {t : T} {th : Thread C R Λ} {n : M}, s'.thread = Function.update s.thread t th →
      W.FollowsThread n th → W.FollowsPool s' (Function.update m t n) := by
    intro t th n hthread hth t'
    rw [hthread]
    exact forall_update hm hth t'
  have hlocks : ∀ {t : T} {th : Thread C R Λ}, s'.thread = Function.update s.thread t th →
      s'.locks = Function.update s.locks t th.lock := by
    intro t th hthread
    funext t'
    rw [Pool.locks, hthread]
    exact Function.apply_update (fun _ => Thread.lock) s.thread t th t'
  have hsame : ∀ {t : T} {th : Thread C R Λ}, s'.thread = Function.update s.thread t th →
      th.lock = s.locks t → s'.locks = s.locks := by
    intro t th hthread hlock
    rw [hlocks hthread, hlock, Function.update_eq_self]
  cases a with
  | start t job =>
      simp only [machineFrom, poolStep] at h
      split at h
      · rename_i heq
        obtain rfl := Option.some.inj h
        have hnone : s.locks t = none := by rw [Pool.locks, heq, Thread.lock]
        refine ⟨_, ?_, hput rfl (hscript job _ hmeets)⟩
        rw [hsame (t := t) rfl (by rw [hnone, Thread.lock])]
        exact hstart job t _ _ m hI hnone hmeets
      · cases h
  | command t =>
      have hK := hmeets s' h
      simp only [machineFrom, poolStep] at h
      have ht := hm t
      split at h
      · rename_i c k heq
        obtain rfl := Option.some.inj h
        rw [heq] at ht
        have hnone : s.locks t = none := by rw [Pool.locks, heq, Thread.lock]
        have hlock : W.allows (s.locks t) (m t) c := by
          rw [hnone]
          exact ht.1
        refine ⟨_, ?_, hput rfl (ht.2 _ (hoccurs _ _ _ m hI))⟩
        rw [hsame (t := t) rfl (by rw [hnone, Thread.lock])]
        have hI' := hact c t _ _ m hexclusive hI hlock hK
        rwa [hnone] at hI'
      · rename_i r β c k k' heq
        obtain rfl := Option.some.inj h
        rw [heq] at ht
        have hsome : s.locks t = some r := by rw [Pool.locks, heq, Thread.lock]
        have hlock : W.allows (s.locks t) (m t) c := by
          rw [hsome]
          exact ht.1
        refine ⟨_, ?_, hput rfl (ht.2 _ (hoccurs _ _ _ m hI))⟩
        rw [hsame (t := t) rfl (by rw [hsome, Thread.lock])]
        have hI' := hact c t _ _ m hexclusive hI hlock hK
        rwa [hsome] at hI'
      · cases h
  | acquire t =>
      simp only [machineFrom, poolStep] at h
      have ht := hm t
      split at h
      · rename_i r β body k heq
        split at h
        · rename_i hfree
          obtain rfl := Option.some.inj h
          rw [heq] at ht
          have hnone : s.locks t = none := by rw [Pool.locks, heq, Thread.lock]
          refine ⟨m, ?_, ?_⟩
          · rw [hlocks (t := t) rfl]
            refine hacquire r t _ _ m hI hnone fun t' ht' => ?_
            exact absurd (hfree.symm.trans (Pool.owner_of_locks hheld ht'))
              (Option.some_ne_none _).symm
          · have hall := hput (t := t) (n := m t) rfl (by exact ht.1)
            rwa [Function.update_eq_self] at hall
        · cases h
      · cases h
  | giveUp t =>
      simp only [machineFrom, poolStep] at h
      have ht := hm t
      split at h
      · rename_i r β body k heq
        obtain rfl := Option.some.inj h
        rw [heq] at ht
        have hnone : s.locks t = none := by rw [Pool.locks, heq, Thread.lock]
        refine ⟨m, ?_, ?_⟩
        · rw [hsame (t := t) rfl (by rw [hnone, Thread.lock])]
          exact hI
        · have hall := hput (t := t) (n := m t) rfl (by exact ht.2)
          rwa [Function.update_eq_self] at hall
      · cases h
  | release t =>
      simp only [machineFrom, poolStep] at h
      have ht := hm t
      split at h
      · rename_i r β b k heq
        obtain rfl := Option.some.inj h
        rw [heq] at ht
        have hsome : s.locks t = some r := by rw [Pool.locks, heq, Thread.lock]
        refine ⟨_, ?_, hput (t := t) (n := W.leave (m t)) rfl (by exact ht)⟩
        rw [hlocks (t := t) rfl]
        exact hrelease r t _ _ m hI hsome
      · cases h

end Run

end LockMonitor

end Locked
