import ErizoController.Library.Locked

/-!
# Values that are introduced once

A token is a value that a thread draws outside of all locks, that is filed under one lock,
and that may be filed again there by whoever has read it in the same section. It is
removed by sections that do not file it. Programs that keep to this discipline file a
token once: after it has been removed it never comes back, whatever the interleaving.
-/

universe u

namespace Locked

variable {C : Type} {R : C → Type} {Λ T J : Type} {σ : Type u}

/-- A value of the shared state, the lock under which it is filed, and what commands do to
it. -/
structure Token (C : Type) (R : C → Type) (Λ : Type) (σ : Type u)
    (step : (c : C) → σ → R c × σ) where
  Inv : σ → Prop
  Drawn : σ → Prop
  Stored : σ → Prop
  lock : Λ
  draws : (c : C) → R c → Prop
  reads : (c : C) → R c → Prop
  files : C → Prop
  removes : C → Prop
  inv_step : ∀ c s, Inv s → Inv (step c s).2
  /-- It is drawn at most once, and not by accident. -/
  drawn_step : ∀ c s, Inv s → Drawn s → Drawn (step c s).2 ∧ ¬ draws c (step c s).1
  drawn_of_step : ∀ c s, Drawn (step c s).2 → Drawn s ∨ draws c (step c s).1
  drawn_of_draws : ∀ c s, draws c (step c s).1 → Drawn (step c s).2
  stored_step : ∀ c s, Stored s → Stored (step c s).2 ∨ removes c
  stored_of_step : ∀ c s, Stored (step c s).2 → Stored s ∨ files c
  stored_of_reads : ∀ c s, reads c (step c s).1 → Stored s

namespace Token

variable {step : (c : C) → σ → R c × σ} (K : Token C R Λ σ step)

/-! ## The discipline -/

/-- The program files the token only after it has read it. -/
def Avoids {β : Type} : Prog C R β → Prop
  | .ret _ => True
  | .cmd c k => ¬ K.files c ∧ ∀ reply, ¬ K.reads c reply → Avoids (k reply)

/-- A section under the lock of the token does not both file and remove it, and one under
another lock does neither. -/
def Separate {β : Type} (r : Λ) (body : Prog C R β) : Prop :=
  (r = K.lock → (body.Each fun c => ¬ K.files c) ∨ body.Each fun c => ¬ K.removes c) ∧
    (r ≠ K.lock → body.Each fun c => ¬ K.files c ∧ ¬ K.removes c)

/-- A section of a program that has not drawn the token. -/
def CleanSection {β : Type} (r : Λ) (body : Prog C R β) : Prop :=
  K.Separate r body ∧ (r = K.lock → K.Avoids body)

/-- A section in which a drawn token is filed. -/
def Filing {β : Type} (r : Λ) (body : Prog C R β) : Prop :=
  (r = K.lock → body.Each fun c => ¬ K.removes c) ∧
    (r ≠ K.lock → body.Each fun c => ¬ K.files c ∧ ¬ K.removes c)

mutual

/-- The script files the token only if it draws it, or where it has read it. -/
def Clean {α : Type} : Script C R Λ α → Prop
  | .ret _ => True
  | .cmd c k => ¬ K.files c ∧ ¬ K.removes c ∧
      ∀ reply, (¬ K.draws c reply → Clean (k reply)) ∧ (K.draws c reply → Once (k reply))
  | .locked r _ body k => K.CleanSection r body ∧ ∀ b, Clean (k b)

/-- The script has drawn the token and files it in its next section at most. -/
def Once {α : Type} : Script C R Λ α → Prop
  | .ret _ => True
  | .cmd c k => ¬ K.files c ∧ ¬ K.removes c ∧ ∀ reply, Once (k reply)
  | .locked r _ body k => K.Filing r body ∧ ∀ b, Clean (k b)

end

variable {K}

theorem avoids_of_each {β : Type} {body : Prog C R β} (h : body.Each fun c => ¬ K.files c) :
    K.Avoids body := by
  induction body with
  | ret b => trivial
  | cmd c k ih => exact ⟨h.1, fun reply _ => ih reply (h.2 reply)⟩

theorem Filing.separate {β : Type} {r : Λ} {body : Prog C R β} (h : K.Filing r body) :
    K.Separate r body := ⟨fun hr => .inr (h.1 hr), h.2⟩

/-- A section that never files the token. -/
theorem cleanSection_of_each {β : Type} {r : Λ} {body : Prog C R β}
    (hfiles : body.Each fun c => ¬ K.files c)
    (hremoves : r ≠ K.lock → body.Each fun c => ¬ K.removes c) : K.CleanSection r body :=
  ⟨⟨fun _ => .inl hfiles, fun hr => hfiles.and (hremoves hr)⟩, fun _ => avoids_of_each hfiles⟩

/-- Scripts that keep to the discipline one after the other. -/
theorem Clean.bind {α β : Type} {p : Script C R Λ α} {f : α → Script C R Λ β} (hp : K.Clean p)
    (hf : ∀ a, K.Clean (f a) ∧ K.Once (f a)) : K.Clean (p >>= f) := by
  suffices hboth : (K.Clean p → K.Clean (p >>= f)) ∧ (K.Once p → K.Once (p >>= f)) from hboth.1 hp
  clear hp
  induction p with
  | ret a => exact ⟨fun _ => (hf a).1, fun _ => (hf a).2⟩
  | cmd c k ih =>
      constructor
      · rintro ⟨hfiles, hremoves, hk⟩
        exact ⟨hfiles, hremoves, fun reply =>
          ⟨fun h => (ih reply).1 ((hk reply).1 h), fun h => (ih reply).2 ((hk reply).2 h)⟩⟩
      · rintro ⟨hfiles, hremoves, hk⟩
        exact ⟨hfiles, hremoves, fun reply => (ih reply).2 (hk reply)⟩
  | locked r γ body k ih =>
      constructor
      · rintro ⟨hbody, hk⟩
        exact ⟨hbody, fun b => (ih b).1 (hk b)⟩
      · rintro ⟨hbody, hk⟩
        exact ⟨hbody, fun b => (ih b).1 (hk b)⟩

/-- A script that does not draw the token. -/
theorem clean_of_all {α : Type} {P : C → Prop} {B : {β : Type} → Λ → Prog C R β → Prop}
    (hP : ∀ c, P c → ¬ K.files c ∧ ¬ K.removes c ∧ ∀ reply, ¬ K.draws c reply)
    (hB : ∀ {β : Type} (r : Λ) (body : Prog C R β), B r body → K.CleanSection r body)
    {p : Script C R Λ α} (h : p.All P B) : K.Clean p := by
  induction p with
  | ret a => trivial
  | cmd c k ih =>
      obtain ⟨hfiles, hremoves, hdraws⟩ := hP c h.1
      exact ⟨hfiles, hremoves, fun reply =>
        ⟨fun _ => ih reply (h.2 reply), fun hdraw => absurd hdraw (hdraws reply)⟩⟩
  | locked r β body k ih => exact ⟨hB r body h.1, fun b => ih b (h.2 b)⟩

/-! ## Threads that keep to it -/

variable (K)

/-- The thread has nothing to do with the token. -/
def CleanThread : Thread C R Λ → Prop
  | .outside p => K.Clean p
  | .inside r _ body k => K.CleanSection r body ∧ ∀ b, K.Clean (k b)

/-- The thread has drawn the token. -/
def OnceThread : Thread C R Λ → Prop
  | .outside p => K.Once p
  | .inside r _ body k => K.Filing r body ∧ ∀ b, K.Clean (k b)

/-- The thread may hold the token in its section. -/
def LateThread : Thread C R Λ → Prop
  | .outside p => K.Clean p
  | .inside r _ body k => K.Separate r body ∧ ∀ b, K.Clean (k b)

variable {K} {th th' : Thread C R Λ} {c : C} {k : R c → Thread C R Λ} {reply : R c}

theorem CleanThread.late (h : K.CleanThread th) : K.LateThread th := by
  cases th with
  | outside p => exact h
  | inside r β body k => exact ⟨h.1.1, h.2⟩

section Moves

variable {script : J → Script C R Λ Unit} (hscript : ∀ job, K.Clean (script job))
include hscript

theorem CleanThread.moves (h : K.CleanThread th) (hmove : th.Moves script th') :
    K.CleanThread th' := by
  cases hmove with
  | start job => exact hscript job
  | acquire r β body k => exact h
  | giveUp r β body k => exact h.2 none
  | release r β b k => exact h.2 (some b)

theorem LateThread.moves (h : K.LateThread th) (hmove : th.Moves script th') :
    K.LateThread th' := by
  cases hmove with
  | start job => exact hscript job
  | acquire r β body k => exact ⟨h.1.1, h.2⟩
  | giveUp r β body k => exact h.2 none
  | release r β b k => exact h.2 (some b)

theorem OnceThread.moves (h : K.OnceThread th) (hmove : th.Moves script th') :
    K.OnceThread th' ∨ K.CleanThread th' := by
  cases hmove with
  | start job => exact .inr (hscript job)
  | acquire r β body k => exact .inl h
  | giveUp r β body k => exact .inr (h.2 none)
  | release r β b k => exact .inr (h.2 (some b))

end Moves

theorem Separate.next {β : Type} {r : Λ} {k : R c → Prog C R β} (h : K.Separate r (.cmd c k)) :
    K.Separate r (k reply) :=
  ⟨fun hr => (h.1 hr).imp (fun h => h.2 reply) fun h => h.2 reply, fun hr => (h.2 hr).2 reply⟩

theorem CleanThread.issues (h : K.CleanThread th) (hissue : th.Issues c k)
    (hreads : ¬ K.reads c reply) :
    ¬ K.files c ∧ (K.CleanThread (k reply) ∨ K.draws c reply ∧ K.OnceThread (k reply)) := by
  cases hissue with
  | outside c k =>
      obtain ⟨hfiles, -, hk⟩ := h
      refine ⟨hfiles, ?_⟩
      by_cases hdraws : K.draws c reply
      · exact .inr ⟨hdraws, (hk reply).2 hdraws⟩
      · exact .inl ((hk reply).1 hdraws)
  | inside r β c k k' =>
      obtain ⟨⟨hseparate, havoids⟩, hk⟩ := h
      refine ⟨?_, .inl ⟨⟨hseparate.next, fun hr => (havoids hr).2 reply hreads⟩, hk⟩⟩
      by_cases hr : r = K.lock
      · exact (havoids hr).1
      · exact (hseparate.2 hr).1.1

theorem LateThread.issues (h : K.LateThread th) (hissue : th.Issues c k)
    (hdraws : ¬ K.draws c reply) :
    K.LateThread (k reply) ∧ (K.removes c →
      (∃ β body k', th = .inside K.lock β body k') ∧ K.CleanThread (k reply)) := by
  cases hissue with
  | outside c k =>
      obtain ⟨-, hremoves, hk⟩ := h
      exact ⟨(hk reply).1 hdraws, fun hc => absurd hc hremoves⟩
  | inside r β c k k' =>
      obtain ⟨hseparate, hk⟩ := h
      refine ⟨⟨hseparate.next, hk⟩, fun hc => ?_⟩
      by_cases hr : r = K.lock
      · subst hr
        rcases hseparate.1 rfl with hfiles | hremoves
        · exact ⟨⟨_, _, _, rfl⟩, cleanSection_of_each (hfiles.2 reply) (absurd rfl), hk⟩
        · exact absurd hc hremoves.1
      · exact absurd hc (hseparate.2 hr).1.2

theorem OnceThread.issues (h : K.OnceThread th) (hissue : th.Issues c k) :
    K.OnceThread (k reply) ∧ (K.files c → K.LateThread (k reply)) := by
  cases hissue with
  | outside c k => exact ⟨h.2.2 reply, fun hc => absurd hc h.1⟩
  | inside r β c k k' =>
      obtain ⟨hfiling, hk⟩ := h
      have hnext : K.Filing r (k reply) :=
        ⟨fun hr => (hfiling.1 hr).2 reply, fun hr => (hfiling.2 hr).2 reply⟩
      exact ⟨⟨hnext, hk⟩, fun _ => ⟨hnext.separate, hk⟩⟩

/-! ## The life of a token -/

variable (K)

/-- Before it is drawn, no thread has to do with it. -/
def Before (s : Pool C R Λ T σ) : Prop :=
  ¬ K.Drawn s.shared ∧ ¬ K.Stored s.shared ∧ ∀ t, K.CleanThread (s.thread t)

/-- One thread has drawn it and not filed it yet. -/
def Pending (s : Pool C R Λ T σ) : Prop :=
  K.Drawn s.shared ∧ ¬ K.Stored s.shared ∧
    ∃ t, K.OnceThread (s.thread t) ∧ ∀ t', t' ≠ t → K.CleanThread (s.thread t')

def Live (s : Pool C R Λ T σ) : Prop :=
  K.Drawn s.shared ∧ K.Stored s.shared ∧ ∀ t, K.LateThread (s.thread t)

/-- It has been removed, or is drawn and will not be filed. -/
def Gone (s : Pool C R Λ T σ) : Prop :=
  K.Drawn s.shared ∧ ¬ K.Stored s.shared ∧ ∀ t, K.CleanThread (s.thread t)

/-- The state fits the discipline, and who is inside a lock holds it. -/
def Fair (s : Pool C R Λ T σ) : Prop := K.Inv s.shared ∧ s.Held

section Life

variable [DecidableEq T] [DecidableEq Λ] {script : J → Script C R Λ Unit}
variable {a : Action T J} {s s' : Pool C R Λ T σ}

omit [DecidableEq Λ] in
theorem forall_update {P : T → Thread C R Λ → Prop} {f : T → Thread C R Λ} {t : T}
    (hother : ∀ t', t' ≠ t → P t' (f t')) (ht : P t th) :
    ∀ t', P t' (Function.update f t th t') := by
  intro t'
  by_cases hne : t' = t
  · subst hne
    rwa [Function.update_self]
  · rw [Function.update_of_ne hne]
    exact hother t' hne

variable {K} (hscript : ∀ job, K.Clean (script job))
include hscript

/-- A token that is gone stays gone. -/
theorem Gone.next (h : K.Gone s) (hinv : K.Inv s.shared)
    (hstep : poolStep step script a s = some s') : K.Gone s' := by
  obtain ⟨hdrawn, hstored, hclean⟩ := h
  rcases poolStep_cases hstep with
    ⟨t, th, hmove, hshared, hthread⟩ | ⟨t, c, k, hissue, hshared, hthread⟩
  · rw [Gone, hshared, hthread]
    exact ⟨hdrawn, hstored, forall_update (fun t' _ => hclean t') ((hclean t).moves hscript hmove)⟩
  · have hreads : ¬ K.reads c (step c s.shared).1 := fun h => hstored (K.stored_of_reads c _ h)
    obtain ⟨hstill, hdraws⟩ := K.drawn_step c _ hinv hdrawn
    obtain ⟨hfiles, hnext⟩ := (hclean t).issues hissue hreads
    rw [Gone, hshared, hthread]
    refine ⟨hstill, fun hin => (K.stored_of_step c _ hin).elim hstored hfiles, ?_⟩
    exact forall_update (fun t' _ => hclean t') (hnext.resolve_right fun h => hdraws h.1)

/-- A token that is stored stays so until it is removed. -/
theorem Live.next (h : K.Live s) (hinv : K.Inv s.shared) (hheld : s.Held)
    (hstep : poolStep step script a s = some s') : K.Live s' ∨ K.Gone s' := by
  obtain ⟨hdrawn, hstored, hlate⟩ := h
  rcases poolStep_cases hstep with
    ⟨t, th, hmove, hshared, hthread⟩ | ⟨t, c, k, hissue, hshared, hthread⟩
  · rw [Live, hshared, hthread]
    exact .inl ⟨hdrawn, hstored,
      forall_update (fun t' _ => hlate t') ((hlate t).moves hscript hmove)⟩
  · obtain ⟨hstill, hdraws⟩ := K.drawn_step c _ hinv hdrawn
    obtain ⟨hnext, hremove⟩ := (hlate t).issues hissue hdraws
    rw [Live, Gone, hshared, hthread]
    by_cases hin : K.Stored (step c s.shared).2
    · exact .inl ⟨hstill, hin, forall_update (fun t' _ => hlate t') hnext⟩
    · -- Only its own lock's holder can have removed it, so nobody else has read it.
      obtain ⟨⟨β, body, k', ht⟩, hclean⟩ :=
        hremove ((K.stored_step c _ hstored).resolve_left hin)
      refine .inr ⟨hstill, hin, forall_update (fun t' hne => ?_) hclean⟩
      have hother := hlate t'
      cases ht' : s.thread t' with
      | outside p =>
          rw [ht'] at hother
          exact hother
      | inside r β' body' k'' =>
          rw [ht'] at hother
          refine ⟨⟨hother.1, fun hr => ?_⟩, hother.2⟩
          subst hr
          exact absurd (hheld.exclusive ht' ht) hne

/-- A token that is drawn is filed, or never will be. -/
theorem Pending.next (h : K.Pending s) (hinv : K.Inv s.shared)
    (hstep : poolStep step script a s = some s') : K.Pending s' ∨ K.Live s' ∨ K.Gone s' := by
  obtain ⟨hdrawn, hstored, t₀, honce, hclean⟩ := h
  rcases poolStep_cases hstep with
    ⟨t, th, hmove, hshared, hthread⟩ | ⟨t, c, k, hissue, hshared, hthread⟩
  · rw [Pending, Gone, hshared, hthread]
    by_cases ht : t = t₀
    · subst ht
      rcases honce.moves hscript hmove with hnext | hnext
      · refine .inl ⟨hdrawn, hstored, t, by rwa [Function.update_self], ?_⟩
        exact forall_update (P := fun t' th => t' ≠ t → K.CleanThread th)
          (fun t' _ => hclean t') (absurd rfl)
      · exact .inr (.inr ⟨hdrawn, hstored, forall_update hclean hnext⟩)
    · refine .inl ⟨hdrawn, hstored, t₀, by rwa [Function.update_of_ne (Ne.symm ht)], ?_⟩
      exact forall_update (P := fun t' th => t' ≠ t₀ → K.CleanThread th)
        (fun t' _ => hclean t') fun _ => (hclean t ht).moves hscript hmove
  · obtain ⟨hstill, hdraws⟩ := K.drawn_step c _ hinv hdrawn
    rw [Pending, Live, hshared, hthread]
    by_cases ht : t = t₀
    · subst ht
      obtain ⟨hnext, hlate⟩ : K.OnceThread (k (step c s.shared).1) ∧
          (K.files c → K.LateThread (k (step c s.shared).1)) := honce.issues hissue
      by_cases hin : K.Stored (step c s.shared).2
      · have hfiles := (K.stored_of_step c _ hin).resolve_left hstored
        exact .inr (.inl ⟨hstill, hin, forall_update (fun t' hne => (hclean t' hne).late)
          (hlate hfiles)⟩)
      · refine .inl ⟨hstill, hin, t, by rwa [Function.update_self], ?_⟩
        exact forall_update (P := fun t' th => t' ≠ t → K.CleanThread th)
          (fun t' _ => hclean t') (absurd rfl)
    · have hreads : ¬ K.reads c (step c s.shared).1 := fun h => hstored (K.stored_of_reads c _ h)
      obtain ⟨hfiles, hnext⟩ := (hclean t ht).issues hissue hreads
      refine .inl ⟨hstill, fun hin => (K.stored_of_step c _ hin).elim hstored hfiles, t₀,
        by rwa [Function.update_of_ne (Ne.symm ht)], ?_⟩
      exact forall_update (P := fun t' th => t' ≠ t₀ → K.CleanThread th)
        (fun t' _ => hclean t') fun _ => hnext.resolve_right fun h => hdraws h.1

theorem Before.next (h : K.Before s) (hstep : poolStep step script a s = some s') :
    K.Before s' ∨ K.Pending s' ∨ K.Gone s' := by
  obtain ⟨hdrawn, hstored, hclean⟩ := h
  rcases poolStep_cases hstep with
    ⟨t, th, hmove, hshared, hthread⟩ | ⟨t, c, k, hissue, hshared, hthread⟩
  · rw [Before, hshared, hthread]
    exact .inl ⟨hdrawn, hstored,
      forall_update (fun t' _ => hclean t') ((hclean t).moves hscript hmove)⟩
  · have hreads : ¬ K.reads c (step c s.shared).1 := fun h => hstored (K.stored_of_reads c _ h)
    obtain ⟨hfiles, hnext⟩ := (hclean t).issues hissue hreads
    have hout : ¬ K.Stored (step c s.shared).2 :=
      fun hin => (K.stored_of_step c _ hin).elim hstored hfiles
    rw [Before, Pending, Gone, hshared, hthread]
    rcases hnext with hnext | ⟨hdraws, honce⟩
    · have hall := forall_update (P := fun _ => K.CleanThread) (t := t)
        (fun t' _ => hclean t') hnext
      by_cases hstill : K.Drawn (step c s.shared).2
      · exact .inr (.inr ⟨hstill, hout, hall⟩)
      · exact .inl ⟨hstill, hout, hall⟩
    · refine .inr (.inl ⟨K.drawn_of_draws c _ hdraws, hout, t, by rwa [Function.update_self], ?_⟩)
      exact forall_update (P := fun t' th => t' ≠ t → K.CleanThread th)
        (fun t' _ _ => hclean t') (absurd rfl)

/-! ## Every run -/

omit hscript in
theorem Fair.next (h : K.Fair s) (hstep : poolStep step script a s = some s') : K.Fair s' := by
  refine ⟨?_, h.2.next hstep⟩
  rcases poolStep_shared hstep with heq | ⟨c, heq⟩
  · rw [heq]
    exact h.1
  · rw [heq]
    exact K.inv_step c _ h.1

variable {init : σ → Prop} {P : Action T J → Pool C R Λ T σ → Prop}

theorem phases (hinit : ∀ s, init s → K.Inv s ∧ ¬ K.Stored s)
    (hs : (machine step script init).Reaches P s) :
    K.Fair s ∧ (K.Before s ∨ K.Pending s ∨ K.Live s ∨ K.Gone s) := by
  refine Machine.Reaches.invariant
    (I := fun s => K.Fair s ∧ (K.Before s ∨ K.Pending s ∨ K.Live s ∨ K.Gone s))
    (fun s hs => ?_) (fun a s s' ⟨hfair, h⟩ _ hstep => ⟨hfair.next hstep, ?_⟩) hs
  · obtain ⟨hinv, hout⟩ := hinit _ hs.1
    have hclean : ∀ t, K.CleanThread (s.thread t) := by
      intro t
      rw [hs.2.1 t]
      trivial
    refine ⟨⟨hinv, held_of_reaches (.init (P := P) hs)⟩, ?_⟩
    by_cases hdrawn : K.Drawn s.shared
    · exact .inr (.inr (.inr ⟨hdrawn, hout, hclean⟩))
    · exact .inl ⟨hdrawn, hout, hclean⟩
  · rcases h with h | h | h | h
    · rcases h.next hscript hstep with h | h | h
      · exact .inl h
      · exact .inr (.inl h)
      · exact .inr (.inr (.inr h))
    · exact .inr (h.next hscript hfair.1 hstep)
    · exact .inr (.inr (h.next hscript hfair.1 hfair.2 hstep))
    · exact .inr (.inr (.inr (h.next hscript hfair.1 hstep)))

/-- A token that was stored and is not stored any more is never stored again. -/
theorem never_again (hinit : ∀ s, init s → K.Inv s ∧ ¬ K.Stored s)
    (hs : (machine step script init).Reaches P s) (hstored : K.Stored s.shared)
    {as as' : List (Action T J)} {s'' : Pool C R Λ T σ}
    (hrun : (machine step script init).run as s = some s') (hgone : ¬ K.Stored s'.shared)
    (hrun' : (machine step script init).run as' s' = some s'') : ¬ K.Stored s''.shared := by
  obtain ⟨hfair, hphase⟩ := phases hscript hinit hs
  have hlive : K.Live s := by
    rcases hphase with h | h | h | h
    · exact absurd hstored h.2.1
    · exact absurd hstored h.2.1
    · exact h
    · exact absurd hstored h.2.1
  obtain ⟨hfair', hlater⟩ : K.Fair s' ∧ (K.Live s' ∨ K.Gone s') := by
    refine Machine.run_invariant (I := fun s => K.Fair s ∧ (K.Live s ∨ K.Gone s))
      (fun a s s' ⟨hfair, h⟩ hstep => ⟨hfair.next hstep, ?_⟩) ⟨hfair, .inl hlive⟩ hrun
    rcases h with h | h
    · exact h.next hscript hfair.1 hfair.2 hstep
    · exact .inr (h.next hscript hfair.1 hstep)
  have hgone' : K.Gone s' := hlater.resolve_left fun h => hgone h.2.1
  have hend : K.Fair s'' ∧ K.Gone s'' :=
    Machine.run_invariant (I := fun s => K.Fair s ∧ K.Gone s)
      (fun a s s' ⟨hfair, h⟩ hstep => ⟨hfair.next hstep, h.next hscript hfair.1 hstep⟩)
      ⟨hfair', hgone'⟩ hrun'
  exact hend.2.2.1

end Life

end Token

end Locked
