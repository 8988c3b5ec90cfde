import ErizoController.Library.LockMonitor

/-!
# Series of jobs

A thread may run a series of jobs in one script and report what it is doing between them.
Such a pool does what a pool does whose threads are given the jobs one by one: the reports
change nothing, and where a job begins in the series, the other thread starts it. What holds of
every run of jobs therefore holds of the runs of their series. A monitor may also be told of
some of the reports only.
-/

universe u

namespace Locked

variable {C N N' M : Type} {R : C → Type} {Λ T J J' α β : Type} {σ : Type u}

/-! ## Scripts -/

/-- The script is the rest of a job and then a series of jobs that meet `A`, each of which
begins at a report; the reports meet `B`. -/
inductive Series (script : J → Script C R Λ Unit) (A : J → Prop) (B : N → Prop) :
    Script C R Λ Unit → Script (C ⊕ N) (Reported N R) Λ Unit → Prop
  | done : Series script A B (.ret ()) (.ret ())
  | cmd {c : C} {k : R c → Script C R Λ Unit} {k' : R c → Script (C ⊕ N) (Reported N R) Λ Unit}
      (h : ∀ reply, Series script A B (k reply) (k' reply)) :
      Series script A B (.cmd c k) (.cmd (.inl c) k')
  | locked {r : Λ} {β : Type} {body : Prog C R β} {k : Option β → Script C R Λ Unit}
      {k' : Option β → Script (C ⊕ N) (Reported N R) Λ Unit}
      (h : ∀ b, Series script A B (k b) (k' b)) :
      Series script A B (.locked r β body k) (.locked r β (Prog.embed N body) k')
  | report {n : N} {k : Unit → Script (C ⊕ N) (Reported N R) Λ Unit} (hn : B n)
      (h : Series script A B (.ret ()) (k ())) : Series script A B (.ret ()) (.cmd (.inr n) k)
  | start {n : N} {k : Unit → Script (C ⊕ N) (Reported N R) Λ Unit} (job : J) (hjob : A job)
      (hn : B n) (h : Series script A B (script job) (k ())) :
      Series script A B (.ret ()) (.cmd (.inr n) k)

/-- A script with its reports renamed. -/
def Prog.relabel (f : N → N') : Prog (C ⊕ N) (Reported N R) β → Prog (C ⊕ N') (Reported N' R) β
  | .ret b => .ret b
  | .cmd (.inl c) k => .cmd (.inl c) fun reply => Prog.relabel f (k reply)
  | .cmd (.inr n) k => .cmd (.inr (f n)) fun _ => Prog.relabel f (k ())

def Script.relabel (f : N → N') :
    Script (C ⊕ N) (Reported N R) Λ α → Script (C ⊕ N') (Reported N' R) Λ α
  | .ret a => .ret a
  | .cmd (.inl c) k => .cmd (.inl c) fun reply => Script.relabel f (k reply)
  | .cmd (.inr n) k => .cmd (.inr (f n)) fun _ => Script.relabel f (k ())
  | .locked r β body k => .locked r β (Prog.relabel f body) fun b => Script.relabel f (k b)

theorem Prog.relabel_embed (f : N → N') (p : Prog C R β) :
    Prog.relabel f (Prog.embed N p) = Prog.embed N' p := by
  induction p with
  | ret b => rfl
  | cmd c k ih => exact congrArg (Prog.cmd (Sum.inl c)) (funext ih)

theorem Script.returns_monadLift {Q : α → Prop} {p : Prog C R α} (h : p.Returns Q) :
    (monadLift p : Script C R Λ α).Returns Q := by
  change (Script.lift p).Returns Q
  induction p with
  | ret a => exact h
  | cmd c k ih => exact fun reply => ih reply (h reply)

section Series

variable {script : J → Script C R Λ Unit} {A : J → Prop} {B : N → Prop}

/-- A job, then what comes after it. -/
theorem series_embed_bind {Q : α → Prop} {p : Script C R Λ α} (hp : p.Returns Q)
    {g : α → Script (C ⊕ N) (Reported N R) Λ Unit}
    (h : ∀ a, Q a → Series script A B (.ret ()) (g a)) :
    Series script A B (p >>= fun _ => .ret ()) (Script.embed N p >>= g) := by
  induction p with
  | ret a => exact h a hp
  | cmd c k ih => exact .cmd fun reply => ih reply (hp reply)
  | locked r β body k ih => exact .locked fun b => ih b (hp b)

/-- A job that reports its value at its end. -/
theorem series_reporting {p : Script C R Λ α} {report : α → N} (h : ∀ a, B (report a)) :
    Series script A B (p >>= fun _ => .ret ()) (Script.reporting report p) := by
  induction p with
  | ret a => exact .report (h a) .done
  | cmd c k ih => exact .cmd fun reply => ih reply
  | locked r β body k ih => exact .locked fun b => ih b

theorem series_embed {p : Script C R Λ Unit} : Series script A B p (Script.embed N p) := by
  induction p with
  | ret a => exact .done
  | cmd c k ih => exact .cmd fun reply => ih reply
  | locked r β body k ih => exact .locked fun b => ih b

theorem Series.relabel {q : Script C R Λ Unit} {p : Script (C ⊕ N) (Reported N R) Λ Unit}
    (h : Series script A B q p) {f : N → N'} {B' : N' → Prop} (hf : ∀ n, B n → B' (f n)) :
    Series script A B' q (Script.relabel f p) := by
  induction h with
  | done => exact .done
  | cmd _ ih => exact .cmd ih
  | locked _ ih =>
      rw [Script.relabel, Prog.relabel_embed]
      exact .locked ih
  | report hn _ ih => exact .report (hf _ hn) ih
  | start job hjob hn _ ih => exact .start job hjob (hf _ hn) ih

end Series

/-! ## Pools -/

/-- The threads of one pool run one by one the jobs of the series that those of the other run. -/
inductive Mirrors (script : J → Script C R Λ Unit) (A : J → Prop) (B : N → Prop) :
    Thread C R Λ → Thread (C ⊕ N) (Reported N R) Λ → Prop
  | outside {q : Script C R Λ Unit} {p : Script (C ⊕ N) (Reported N R) Λ Unit}
      (h : Series script A B q p) : Mirrors script A B (.outside q) (.outside p)
  | inside {r : Λ} {β : Type} {body : Prog C R β} {k : Option β → Script C R Λ Unit}
      {k' : Option β → Script (C ⊕ N) (Reported N R) Λ Unit}
      (h : ∀ b, Series script A B (k b) (k' b)) :
      Mirrors script A B (.inside r β body k) (.inside r β (Prog.embed N body) k')

structure Mirrored (script : J → Script C R Λ Unit) (A : J → Prop) (B : N → Prop)
    (s : Pool C R Λ T σ) (s' : Pool (C ⊕ N) (Reported N R) Λ T (σ × List N)) : Prop where
  shared : s.shared = s'.shared.1
  owner : s.owner = s'.owner
  thread : ∀ t, Mirrors script A B (s.thread t) (s'.thread t)

section Step

variable [DecidableEq T] [DecidableEq Λ]
variable {step : (c : C) → σ → R c × σ} {script : J → Script C R Λ Unit}
variable {script' : J' → Script (C ⊕ N) (Reported N R) Λ Unit} {A : J → Prop} {B : N → Prop}

omit [DecidableEq Λ] in
/-- A thread goes on in both pools. -/
theorem Mirrored.put {s : Pool C R Λ T σ}
    {s' : Pool (C ⊕ N) (Reported N R) Λ T (σ × List N)} (h : Mirrored script A B s s') {t : T}
    {th : Thread C R Λ} {th' : Thread (C ⊕ N) (Reported N R) Λ} (hth : Mirrors script A B th th') :
    Mirrored script A B (s.put t th) (s'.put t th') where
  shared := h.shared
  owner := h.owner
  thread t' := by
    change Mirrors script A B (Function.update s.thread t th t')
      (Function.update s'.thread t th' t')
    by_cases hne : t' = t
    · subst hne
      rwa [Function.update_self, Function.update_self]
    · rw [Function.update_of_ne hne, Function.update_of_ne hne]
      exact h.thread t'

/-- A step of the series is a step of the jobs, or a report between two of them. -/
theorem Mirrored.next {s : Pool C R Λ T σ}
    {s' t' : Pool (C ⊕ N) (Reported N R) Λ T (σ × List N)} (h : Mirrored script A B s s')
    {a : Action T J'}
    (hjob : ∀ t job', a = .start t job' → ∃ job, Series script A B (script job) (script' job'))
    (hstep : poolStep (reportStep step) script' a s' = some t') :
    Mirrored script A B s t' ∨
      ∃ (a' : Action T J) (t : Pool C R Λ T σ), poolStep step script a' s = some t ∧
        Mirrored script A B t t' := by
  cases a with
  | start t job' =>
      have hth := h.thread t
      simp only [poolStep] at hstep
      split at hstep
      · rename_i heq
        obtain rfl := Option.some.inj hstep
        obtain ⟨job, hseries⟩ := hjob t job' rfl
        rw [heq] at hth
        generalize hs : s.thread t = th at hth
        cases hth with
        | outside hq =>
            cases hq
            refine .inr ⟨.start t job, s.put t (.outside (script job)), ?_,
              h.put (.outside hseries)⟩
            simp only [poolStep, hs]
      · cases hstep
  | command t =>
      have hth := h.thread t
      simp only [poolStep] at hstep
      split at hstep
      · rename_i c' k' heq
        obtain rfl := Option.some.inj hstep
        rw [heq] at hth
        generalize hs : s.thread t = th at hth
        cases hth with
        | outside hq =>
            cases hq with
            | @cmd c k _ hk =>
                refine .inr ⟨.command t, { s.put t (.outside (k (step c s.shared).1)) with
                  shared := (step c s.shared).2 }, by simp only [poolStep, hs], ?_⟩
                rw [h.shared]
                have hput := h.put (t := t) (.outside (hk (step c s'.shared.1).1))
                exact ⟨rfl, hput.owner, hput.thread⟩
            | report _ hq =>
                have hput := h.put (t := t) (.outside hq)
                rw [← hs, Pool.put, Function.update_eq_self] at hput
                exact .inl ⟨hput.shared, hput.owner, hput.thread⟩
            | start job _ _ hq =>
                have hput := h.put (t := t) (.outside hq)
                refine .inr ⟨.start t job, s.put t (.outside (script job)), ?_,
                  ⟨hput.shared, hput.owner, hput.thread⟩⟩
                simp only [poolStep, hs]
      · rename_i r β c' k' k'' heq
        obtain rfl := Option.some.inj hstep
        rw [heq] at hth
        generalize hs : s.thread t = th at hth
        generalize hbody : Prog.cmd c' k' = body' at hth
        cases hth with
        | @inside _ _ body k _ hk =>
            cases body with
            | ret b => cases hbody
            | cmd c kb =>
                obtain ⟨rfl, hkb⟩ := Prog.cmd.inj hbody
                obtain rfl := eq_of_heq hkb
                refine .inr ⟨.command t, { s.put t (.inside r β (kb (step c s.shared).1) k) with
                  shared := (step c s.shared).2 }, by simp only [poolStep, hs], ?_⟩
                rw [h.shared]
                have hinside : Mirrors script A B (.inside r β (kb (step c s'.shared.1).1) k)
                    (.inside r β (Prog.embed N (kb (step c s'.shared.1).1)) k'') := .inside hk
                have hput := h.put (t := t) hinside
                exact ⟨rfl, hput.owner, hput.thread⟩
      · cases hstep
  | acquire t =>
      have hth := h.thread t
      simp only [poolStep] at hstep
      split at hstep
      · rename_i r β body' k' heq
        split at hstep
        · rename_i hfree
          obtain rfl := Option.some.inj hstep
          rw [heq] at hth
          generalize hs : s.thread t = th at hth
          cases hth with
          | outside hq =>
              cases hq with
              | @locked _ _ body k _ hk =>
                  refine .inr ⟨.acquire t, { s.put t (.inside r β body k) with
                    owner := Function.update s.owner r (some t) }, ?_, ?_⟩
                  · simp only [poolStep, hs]
                    rw [if_pos (h.owner ▸ hfree)]
                  · have hinside : Mirrors script A B (.inside r β body k)
                        (.inside r β (Prog.embed N body) k') := .inside hk
                    have hput := h.put (t := t) hinside
                    exact ⟨hput.shared, by rw [h.owner], hput.thread⟩
        · cases hstep
      · cases hstep
  | giveUp t =>
      have hth := h.thread t
      simp only [poolStep] at hstep
      split at hstep
      · rename_i r β body' k' heq
        obtain rfl := Option.some.inj hstep
        rw [heq] at hth
        generalize hs : s.thread t = th at hth
        cases hth with
        | outside hq =>
            cases hq with
            | @locked _ _ body k _ hk =>
                refine .inr ⟨.giveUp t, s.put t (.outside (k none)), ?_, h.put (.outside (hk none))⟩
                simp only [poolStep, hs]
      · cases hstep
  | release t =>
      have hth := h.thread t
      simp only [poolStep] at hstep
      split at hstep
      · rename_i r β b k' heq
        obtain rfl := Option.some.inj hstep
        rw [heq] at hth
        generalize hs : s.thread t = th at hth
        generalize hbody : Prog.ret b = body' at hth
        cases hth with
        | @inside _ _ body k _ hk =>
            cases body with
            | cmd c kb => cases hbody
            | ret b' =>
                obtain rfl := Prog.ret.inj hbody
                refine .inr ⟨.release t, { s.put t (.outside (k (some b))) with
                  owner := Function.update s.owner r none }, by simp only [poolStep, hs], ?_⟩
                have hput := h.put (t := t) (.outside (hk (some b)))
                exact ⟨hput.shared, by rw [h.owner], hput.thread⟩
      · cases hstep

/-- What a pool of series reaches, a pool of jobs reaches. -/
theorem Mirrored.reaches {init : Pool C R Λ T σ → Prop}
    {init' : Pool (C ⊕ N) (Reported N R) Λ T (σ × List N) → Prop}
    {P : Action T J' → Pool (C ⊕ N) (Reported N R) Λ T (σ × List N) → Prop}
    (hinit : ∀ s', init' s' → ∃ s, init s ∧ Mirrored script A B s s')
    (hjob : ∀ t job' s', P (.start t job') s' →
      ∃ job, Series script A B (script job) (script' job'))
    {s' : Pool (C ⊕ N) (Reported N R) Λ T (σ × List N)}
    (hs : (machineFrom (reportStep step) script' init').Reaches P s') :
    ∃ s, (machineFrom step script init).Reachable s ∧ Mirrored script A B s s' := by
  induction hs with
  | init h =>
      obtain ⟨s, hs, hmirrored⟩ := hinit _ h
      exact ⟨s, .init hs, hmirrored⟩
  | @step s' t' a _ hP hstep ih =>
      obtain ⟨s, hs, hmirrored⟩ := ih
      have hstart : ∀ t job', a = .start t job' →
          ∃ job, Series script A B (script job) (script' job') := by
        rintro t job' rfl
        exact hjob t job' s' hP
      rcases hmirrored.next hstart hstep with hsame | ⟨a', t, hnext, hmirrored'⟩
      · exact ⟨s, hs, hsame⟩
      · exact ⟨t, .step hs trivial hnext, hmirrored'⟩

end Step

/-! ## Monitors that are told of some reports -/

namespace LockMonitor

/-- The monitor is told of the reports that `f` translates. -/
def filtered (W : LockMonitor (C ⊕ N) (Reported N R) Λ M) (f : N' → Option N) :
    LockMonitor (C ⊕ N') (Reported N' R) Λ M where
  allows
    | r, m, .inl c => W.allows r m (.inl c)
    | r, m, .inr n' => ∀ n, f n' = some n → W.allows r m (.inr n)
  next
    | r, m, .inl c, reply => W.next r m (.inl c) reply
    | r, m, .inr n', _ => (f n').elim m fun n => W.next r m (.inr n) ()
  leave := W.leave
  occurs
    | .inl c, reply => W.occurs (.inl c) reply
    | .inr n', _ => ∀ n, f n' = some n → W.occurs (.inr n) ()

variable {W : LockMonitor (C ⊕ N) (Reported N R) Λ M} {f : N' → Option N}

theorem filtered_next {n' : N'} {n : N} (hf : f n' = some n) (r : Option Λ) (m : M) :
    (W.filtered f).next r m (.inr n') () = W.next r m (.inr n) () := by
  change (f n').elim m _ = _
  rw [hf]
  rfl

theorem filtered_next_none {n' : N'} (hf : f n' = none) (r : Option Λ) (m : M) :
    (W.filtered f).next r m (.inr n') () = m := by
  change (f n').elim m _ = _
  rw [hf]
  rfl

theorem Follows.relabel {g : N → N'} (hf : ∀ n, f (g n) = some n) {r : Option Λ}
    {Q : M → β → Prop} {p : Prog (C ⊕ N) (Reported N R) β} {m : M} (h : W.Follows r Q m p) :
    (W.filtered f).Follows r Q m (Prog.relabel g p) := by
  induction p generalizing m with
  | ret b => exact h
  | cmd c k ih =>
      cases c with
      | inl c => exact ⟨h.1, fun reply hreply => ih reply (h.2 reply hreply)⟩
      | inr n =>
          refine ⟨fun n' hn' => ?_, fun _ hreply => ?_⟩
          · obtain rfl := Option.some.inj ((hf n).symm.trans hn')
            exact h.1
          · rw [filtered_next (hf n)]
            exact ih () (h.2 () (hreply n (hf n)))

/-- A script that tells the monitor of all its reports. -/
theorem FollowsScript.relabel {g : N → N'} (hf : ∀ n, f (g n) = some n) {Q : M → α → Prop}
    {p : Script (C ⊕ N) (Reported N R) Λ α} {m : M} (h : W.FollowsScript Q m p) :
    (W.filtered f).FollowsScript Q m (Script.relabel g p) := by
  induction p generalizing m with
  | ret a => exact h
  | cmd c k ih =>
      cases c with
      | inl c => exact ⟨h.1, fun reply hreply => ih reply (h.2 reply hreply)⟩
      | inr n =>
          refine ⟨fun n' hn' => ?_, fun _ hreply => ?_⟩
          · obtain rfl := Option.some.inj ((hf n).symm.trans hn')
            exact h.1
          · rw [filtered_next (hf n)]
            exact ih () (h.2 () (hreply n (hf n)))
  | locked r β body k ih =>
      exact ⟨Follows.relabel hf (h.1.mono fun m' b hk => ih (some b) hk), ih none h.2⟩

/-- A series that tells the monitor of nothing, and whose jobs lead from a state of the monitor
back to it. -/
theorem FollowsScript.series {script : J → Script C R Λ Unit} {A : J → Prop} {B : N' → Prop}
    {m₀ : M} (hB : ∀ n', B n' → f n' = none)
    (hA : ∀ job, A job → W.commands.FollowsScript (fun m' _ => m' = m₀) m₀ (script job))
    {q : Script C R Λ Unit} {p : Script (C ⊕ N') (Reported N' R) Λ Unit}
    (hseries : Series script A B q p) {m : M}
    (h : W.commands.FollowsScript (fun m' _ => m' = m₀) m q) :
    (W.filtered f).FollowsScript (fun _ _ => True) m p := by
  induction hseries generalizing m with
  | done => trivial
  | cmd _ ih => exact ⟨h.1, fun reply hreply => ih reply (h.2 reply hreply)⟩
  | locked _ ih =>
      refine ⟨Follows.embed ?_, ih none h.2⟩
      exact Follows.mono (W := W.commands) h.1 fun m' b hk => ih (some b) hk
  | report hn _ ih =>
      refine ⟨(fun n hf => nomatch (hB _ hn).symm.trans hf), fun _ _ => ?_⟩
      rw [filtered_next_none (hB _ hn)]
      exact ih h
  | start job hjob hn _ ih =>
      refine ⟨(fun n hf => nomatch (hB _ hn).symm.trans hf), fun _ _ => ?_⟩
      rw [filtered_next_none (hB _ hn)]
      obtain rfl : m = m₀ := h
      exact ih (hA job hjob)

end LockMonitor

end Locked
