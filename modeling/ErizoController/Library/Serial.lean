import ErizoController.Library.Entering

/-!
# Sections run one after the other

In a run of threads the commands of a section come between the commands of others. As far
as the views of its lock show, each section nevertheless runs alone: from the view that the
section before it has left, it issues the commands and returns the result that it issues and
returns without anybody else, and it leaves the view that it leaves then. So every run is
serial in the sections of each lock, in the order in which they were entered.
-/

universe u v

/-! ## What a run puts out -/

namespace Machine

variable {A : Type u} {σ : Type v} {O : Type*} (M : Machine A σ)

/-- What the steps of a run put out. -/
def outputs (out : A → σ → List O) : List A → σ → List O
  | [], _ => []
  | a :: as, s => out a s ++ (M.step a s).elim [] (outputs out as)

variable {M}

/-- What every step keeps of the state and of what has been put out so far. -/
theorem run_outputs {out : A → σ → List O} {I : σ → List O → Prop}
    (hstep : ∀ a s s' l, I s l → M.step a s = some s' → I s' (l ++ out a s))
    {as : List A} {s s' : σ} {l : List O} (hI : I s l) (hrun : M.run as s = some s') :
    I s' (l ++ M.outputs out as s) := by
  induction as generalizing s l with
  | nil =>
      obtain rfl : s = s' := by simpa using hrun
      rwa [outputs, List.append_nil]
  | cons a as ih =>
      rw [run_cons] at hrun
      obtain ⟨t, ht, hrest⟩ := Option.bind_eq_some_iff.mp hrun
      have hnext := ih (hstep a s t l hI ht) hrest
      rwa [outputs, ht, Option.elim_some, ← List.append_assoc]

end Machine

/-! ## Programs run part of the way -/

namespace Prog

variable {C : Type} {R : C → Type} {α : Type} {V : Type v} {sem : (c : C) → V → R c → V → Prop}

/-- The program, run from `v`, has issued `cs` and has come to `v'` with `q` left. -/
inductive Runs (sem : (c : C) → V → R c → V → Prop) :
    Prog C R α → V → List C → Prog C R α → V → Prop
  | refl (p : Prog C R α) (v : V) : Runs sem p v [] p v
  | cmd {c : C} {k : R c → Prog C R α} {q : Prog C R α} {v v' v'' : V} {reply : R c}
      {cs : List C} (hsem : sem c v reply v') (h : Runs sem (k reply) v' cs q v'') :
      Runs sem (.cmd c k) v (c :: cs) q v''

theorem wlp_true (p : Prog C R α) (v : V) : p.Wlp sem (fun _ _ => True) v := by
  induction p generalizing v with
  | ret a => trivial
  | cmd c k ih => exact fun reply v' _ => ih reply v'

theorem Runs.snoc {p q : Prog C R α} {v v' v'' : V} {cs : List C} {c : C}
    {k : R c → Prog C R α} {reply : R c} (h : Runs sem p v cs q v') (hq : q = .cmd c k)
    (hsem : sem c v' reply v'') : Runs sem p v (cs ++ [c]) (k reply) v'' := by
  induction h with
  | refl p v =>
      subst hq
      exact .cmd hsem (.refl _ _)
  | cmd hfirst h ih => exact .cmd hfirst (ih hq hsem)

end Prog

namespace Locked

variable {C : Type} {R : C → Type} {Λ T J : Type} {σ : Type u} {V : Type v}

/-! ## What happens in the sections of a lock -/

/-- A thread enters a section, issues a command there, or leaves with a result. -/
inductive Event (C : Type) (R : C → Type) (T : Type) : Type 1 where
  | enter (t : T) (β : Type) (body : Prog C R β)
  | command (c : C)
  | leave (β : Type) (b : β)

/-- The section that a thread enters. -/
def Event.entered? : Event C R T → Option (Σ β : Type, Prog C R β)
  | .enter _ β body => some ⟨β, body⟩
  | _ => none

/-- The whole of a section that issues `cs` and returns `b`. -/
def whole (t : T) (β : Type) (body : Prog C R β) (cs : List C) (b : β) : List (Event C R T) :=
  .enter t β body :: cs.map .command ++ [.leave β b]

theorem filterMap_entered_whole (t : T) (β : Type) (body : Prog C R β) (cs : List C) (b : β) :
    (whole t β body cs b).filterMap Event.entered? = [⟨β, body⟩] := by
  have hcommands : (cs.map (Event.command (R := R) (T := T))).filterMap Event.entered? = [] := by
    simp [List.filterMap_map, Function.comp_def, Event.entered?]
  rw [whole, List.cons_append, List.filterMap_cons, List.filterMap_append, hcommands]
  rfl

/-- Sections run one after the other, each alone and from beginning to end. -/
inductive Serial (sem : (c : C) → V → R c → V → Prop) (B : (β : Type) → Prog C R β → Prop)
    (v₀ : V) : List (Event C R T) → V → Prop
  | nil : Serial sem B v₀ [] v₀
  | snoc {l : List (Event C R T)} {v v' : V} {β : Type} {body : Prog C R β} {cs : List C} {b : β}
      (h : Serial sem B v₀ l v) (t : T) (hB : B β body) (hruns : body.Runs sem v cs (.ret b) v') :
      Serial sem B v₀ (l ++ whole t β body cs b) v'

section Events

variable [DecidableEq Λ] (r : Λ)

/-- What a step puts out in the sections of `r`. -/
def events : Action T J → Pool C R Λ T σ → List (Event C R T)
  | .command t, s =>
      match s.thread t with
      | .inside r' _ (.cmd c _) _ => if r' = r then [.command c] else []
      | _ => []
  | .acquire t, s =>
      match s.thread t with
      | .outside (.locked r' β body _) => if r' = r then [.enter t β body] else []
      | _ => []
  | .release t, s =>
      match s.thread t with
      | .inside r' β (.ret b) _ => if r' = r then [.leave β b] else []
      | _ => []
  | _, _ => []

@[simp] theorem events_start (t : T) (job : J) (s : Pool C R Λ T σ) :
    events r (.start t job) s = [] := rfl

@[simp] theorem events_giveUp (t : T) (s : Pool C R Λ T σ) :
    events (J := J) r (.giveUp t) s = [] := rfl

end Events

namespace Guard

variable {step : (c : C) → σ → R c × σ} (G : Guard C R Λ σ V step)
variable (B : {β : Type} → Λ → Prog C R β → Prop) (r : Λ) (v₀ : V)

/-- What has happened in the sections of `r` is serial, up to the section somebody is in. -/
def Serialized (s : Pool C R Λ T σ) (l : List (Event C R T)) : Prop :=
  match s.owner r with
  | none => ∃ v, G.Sees r v s.shared ∧ Serial G.sem (fun _ => B r) v₀ l v
  | some t => ∃ done cs v v', ∃ (β : Type) (start body : Prog C R β) (k : _),
      s.thread t = .inside r β body k ∧ l = done ++ .enter t β start :: cs.map .command ∧
      Serial G.sem (fun _ => B r) v₀ done v ∧ B r start ∧ start.Runs G.sem v cs body v' ∧
      G.Sees r v' s.shared

variable {G B r v₀} {s s' : Pool C R Λ T σ} {l : List (Event C R T)}

theorem serialized_free (hfree : s.owner r = none) : G.Serialized B r v₀ s l ↔
    ∃ v, G.Sees r v s.shared ∧ Serial G.sem (fun _ => B r) v₀ l v := by
  rw [Serialized, hfree]

theorem serialized_held {t : T} (howner : s.owner r = some t) : G.Serialized B r v₀ s l ↔
    ∃ done cs v v', ∃ (β : Type) (start body : Prog C R β) (k : _),
      s.thread t = .inside r β body k ∧ l = done ++ .enter t β start :: cs.map .command ∧
      Serial G.sem (fun _ => B r) v₀ done v ∧ B r start ∧ start.Runs G.sem v cs body v' ∧
      G.Sees r v' s.shared := by
  rw [Serialized, howner]

/-- Who holds the lock is inside it. -/
theorem Serialized.inside (h : G.Serialized B r v₀ s l) {t : T} (howner : s.owner r = some t) :
    ∃ β body k, s.thread t = .inside r β body k := by
  obtain ⟨-, -, -, -, β, -, body, k, hthread, -⟩ := (serialized_held howner).mp h
  exact ⟨β, body, k, hthread⟩

/-- A step of another thread on another part of the state. -/
theorem Serialized.of_eq (h : G.Serialized B r v₀ s l)
    (hsees : ∀ v, G.Sees r v s.shared → G.Sees r v s'.shared)
    (howner : s'.owner r = s.owner r)
    (hthread : ∀ t, s.owner r = some t → s'.thread t = s.thread t) :
    G.Serialized B r v₀ s' l := by
  cases hs : s.owner r with
  | none =>
      obtain ⟨v, hv, hserial⟩ := (serialized_free hs).mp h
      exact (serialized_free (howner.trans hs)).mpr ⟨v, hsees v hv, hserial⟩
  | some t =>
      obtain ⟨done, cs, v, v', β, start, body, k, ht, hl, hserial, hB, hruns, hv⟩ :=
        (serialized_held hs).mp h
      exact (serialized_held (howner.trans hs)).mpr ⟨done, cs, v, v', β, start, body, k,
        (hthread t hs).trans ht, hl, hserial, hB, hruns, hsees v' hv⟩

/-- Who is inside another lock does not hold this one. -/
theorem Serialized.ne_of_inside {t : T} {r' : Λ} {β : Type} {body : Prog C R β}
    {k : Option β → Script C R Λ Unit} (h : G.Serialized B r v₀ s l)
    (ht : s.thread t = .inside r' β body k) (hne : r' ≠ r) {t' : T}
    (howner : s.owner r = some t') : t' ≠ t := by
  rintro rfl
  obtain ⟨β', body', k', hinside⟩ := h.inside howner
  rw [ht] at hinside
  cases hinside
  exact hne rfl

section Steps

variable [DecidableEq T] {t : T}

theorem Serialized.put {p q : Script C R Λ Unit} (h : G.Serialized B r v₀ s l)
    (ht : s.thread t = .outside p) : G.Serialized B r v₀ (s.put t (.outside q)) l := by
  refine h.of_eq (fun _ => id) rfl fun t' howner => put_ne ?_
  rintro rfl
  obtain ⟨β, body, k, hinside⟩ := h.inside howner
  rw [ht] at hinside
  cases hinside

theorem Serialized.command_outside {c : C} {k : R c → Script C R Λ Unit} (hinv : G.Inv s.shared)
    (h : G.Serialized B r v₀ s l) (ht : s.thread t = .outside (.cmd c k)) (hc : G.Out c) :
    G.Serialized B r v₀ { s.put t (.outside (k (step c s.shared).1)) with
      shared := (step c s.shared).2 } l :=
  (h.put (q := k (step c s.shared).1) ht).of_eq (fun v => G.sees_out r v c _ hinv hc) rfl
    fun _ _ => rfl

variable [DecidableEq Λ]

theorem Serialized.command_inside {r' : Λ} {β : Type} {c : C} {k : R c → Prog C R β}
    {k' : Option β → Script C R Λ Unit} (hinv : G.Inv s.shared)
    (h : G.Serialized B r v₀ s l) (ht : s.thread t = .inside r' β (.cmd c k) k')
    (howner : s.owner r' = some t) (hc : G.Sec r' c) :
    G.Serialized B r v₀ { s.put t (.inside r' β (k (step c s.shared).1) k') with
      shared := (step c s.shared).2 } (l ++ if r' = r then [.command c] else []) := by
  by_cases hr : r' = r
  · subst hr
    obtain ⟨done, cs, v, v', β, start, body, k'', hthread, rfl, hserial, hB, hruns, hv⟩ :=
      (serialized_held howner).mp h
    rw [ht] at hthread
    cases hthread
    obtain ⟨v'', hsem, hv'⟩ := G.sees_sec r' v' c _ hinv hc hv
    have howner' : ({ s.put t (.inside r' β (k (step c s.shared).1) k') with
        shared := (step c s.shared).2 } : Pool C R Λ T σ).owner r' = some t := howner
    refine (serialized_held howner').mpr ⟨done, cs ++ [c], v, v'', β, start, _, k',
      Function.update_self _ _ _, ?_, hserial, hB, hruns.snoc rfl hsem, hv'⟩
    rw [if_pos rfl, List.map_append, List.append_assoc]
    rfl
  · rw [if_neg hr, List.append_nil]
    exact h.of_eq (fun v => G.sees_other r r' v c _ hinv hr hc) rfl
      fun t' howner' => put_ne (h.ne_of_inside ht hr howner')

theorem Serialized.acquire {r' : Λ} {β : Type} {body : Prog C R β}
    {k : Option β → Script C R Λ Unit} (h : G.Serialized B r v₀ s l)
    (ht : s.thread t = .outside (.locked r' β body k)) (hfree : s.owner r' = none)
    (hB : B r' body) :
    G.Serialized B r v₀ { s.put t (.inside r' β body k) with
      owner := Function.update s.owner r' (some t) }
      (l ++ if r' = r then [.enter t β body] else []) := by
  by_cases hr : r' = r
  · subst hr
    obtain ⟨v, hv, hserial⟩ := (serialized_free hfree).mp h
    rw [if_pos rfl]
    exact (serialized_held (Function.update_self _ _ _)).mpr ⟨l, [], v, v, β, body, body, k,
      Function.update_self _ _ _, rfl, hserial, hB, .refl _ _, hv⟩
  · rw [if_neg hr, List.append_nil]
    refine h.of_eq (fun _ => id) (Function.update_of_ne (Ne.symm hr) _ _)
      fun t' howner => put_ne ?_
    rintro rfl
    obtain ⟨β', body', k', hinside⟩ := h.inside howner
    rw [ht] at hinside
    cases hinside

theorem Serialized.release {r' : Λ} {β : Type} {b : β} {k : Option β → Script C R Λ Unit}
    (h : G.Serialized B r v₀ s l) (ht : s.thread t = .inside r' β (.ret b) k)
    (howner : s.owner r' = some t) :
    G.Serialized B r v₀ { s.put t (.outside (k (some b))) with
      owner := Function.update s.owner r' none } (l ++ if r' = r then [.leave β b] else []) := by
  by_cases hr : r' = r
  · subst hr
    obtain ⟨done, cs, v, v', β, start, body, k', hthread, rfl, hserial, hB, hruns, hv⟩ :=
      (serialized_held howner).mp h
    rw [ht] at hthread
    cases hthread
    refine (serialized_free (Function.update_self _ _ _)).mpr ⟨v', hv, ?_⟩
    rw [if_pos rfl, List.append_assoc]
    exact hserial.snoc t hB hruns
  · rw [if_neg hr, List.append_nil]
    exact h.of_eq (fun _ => id) (Function.update_of_ne (Ne.symm hr) _ _)
      fun t' howner' => put_ne (h.ne_of_inside ht hr howner')

variable {script : J → Script C R Λ Unit} {a : Action T J}

theorem Serialized.next (h : G.Serialized B r v₀ s l)
    (hentered : G.Entered (fun _ _ => True) s) (hrest : ∀ t, (s.thread t).Rest G.Out B)
    (hstep : poolStep step script a s = some s') :
    G.Serialized B r v₀ s' (l ++ events r a s) := by
  cases a with
  | start t job =>
      simp only [poolStep] at hstep
      split at hstep
      · rename_i ht
        obtain rfl := Option.some.inj hstep
        rw [events_start, List.append_nil]
        exact h.put ht
      · cases hstep
  | command t =>
      have hout := hrest t
      simp only [poolStep] at hstep
      split at hstep
      · rename_i c k ht
        obtain rfl := Option.some.inj hstep
        rw [ht] at hout
        rw [events, ht, List.append_nil]
        exact h.command_outside hentered.inv ht hout.1
      · rename_i r' β c k k' ht
        obtain rfl := Option.some.inj hstep
        rw [events, ht]
        exact h.command_inside hentered.inv ht (hentered.held t r' β _ k' ht)
          (hentered.inside t r' β _ k' ht).1
      · cases hstep
  | acquire t =>
      have hout := hrest t
      simp only [poolStep] at hstep
      split at hstep
      · rename_i r' β body k ht
        split at hstep
        · rename_i hfree
          obtain rfl := Option.some.inj hstep
          rw [ht] at hout
          rw [events, ht]
          exact h.acquire ht hfree hout.1
        · cases hstep
      · cases hstep
  | giveUp t =>
      simp only [poolStep] at hstep
      split at hstep
      · rename_i r' β body k ht
        obtain rfl := Option.some.inj hstep
        rw [events_giveUp, List.append_nil]
        exact h.put ht
      · cases hstep
  | release t =>
      simp only [poolStep] at hstep
      split at hstep
      · rename_i r' β b k ht
        obtain rfl := Option.some.inj hstep
        rw [events, ht]
        exact h.release ht (hentered.held t r' β _ k ht)
      · cases hstep

end Steps

/-! ## Every run -/

section Run

variable [DecidableEq T] [DecidableEq Λ] {script : J → Script C R Λ Unit} {init : σ → Prop}

/-- From a state in which a lock is free to another one, what has happened in its sections is
what happens when they are run one after the other, in the order in which they were
entered. -/
theorem serial_of_free (hscript : ∀ job, (script job).All G.Out B)
    (hB : ∀ {β : Type} (r : Λ) (body : Prog C R β), B r body → body.Each (G.Sec r))
    (hinit : ∀ s, init s → G.Inv s ∧ ∀ r, ∃ v, G.Sees r v s)
    {as : List (Action T J)} (hs : (machine step script init).Reachable s)
    (hstart : s.owner r = none) (hv₀ : G.Sees r v₀ s.shared)
    (hrun : (machine step script init).run as s = some s') (hfree : s'.owner r = none) :
    ∃ v, G.Sees r v s'.shared ∧
      Serial G.sem (fun _ => B r) v₀ ((machine step script init).outputs (events r) as s) v := by
  let M := machine (T := T) step script init
  have henters : ∀ (a : Action T J) s, M.Reachable s → True → G.Enters (fun _ _ => True) a s := by
    intro a s hs _
    cases a with
    | command t =>
        intro c k ht
        have hrest := rest_of_reaches hscript hs t
        rw [ht] at hrest
        exact hrest.1
    | acquire t =>
        intro r β body k ht
        have hrest := rest_of_reaches hscript hs t
        rw [ht] at hrest
        exact ⟨hB r body hrest.1, fun v _ _ => Prog.wlp_true body v⟩
    | _ => trivial
  have hviews : ∀ s, init s → G.Inv s ∧ ∀ r, ∃ v, G.Sees r v s ∧ True := by
    intro s hs
    obtain ⟨hinv, hsees⟩ := hinit s hs
    exact ⟨hinv, fun r => (hsees r).imp fun _ hv => ⟨hv, trivial⟩⟩
  have hserialized : G.Serialized B r v₀ s [] := (serialized_free hstart).mpr ⟨v₀, hv₀, .nil⟩
  obtain ⟨-, hend⟩ := Machine.run_outputs (M := M)
    (I := fun s l => M.Reachable s ∧ G.Serialized B r v₀ s l)
    (fun a s s' l h hstep => ⟨h.1.step trivial hstep, h.2.next
      (entered_of_reaches henters hviews h.1) (rest_of_reaches hscript h.1) hstep⟩)
    ⟨hs, hserialized⟩ hrun
  exact (serialized_free hfree).mp hend

end Run

end Guard

end Locked
