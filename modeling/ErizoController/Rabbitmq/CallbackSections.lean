import ErizoController.Rabbitmq.Callbacks

/-!
# Sections that do not overlap

If no thread tests a slot while another is inside its section on that slot, every callback
is invoked at most once and in time. The invariant says what a pending slot holds: the
callback of the last call that took it, not invoked yet, whose run of `allocErizo` still
waits for it. Without the condition the temporary locks exclude nothing.
-/

namespace AMQPRPC.Callbacks

open Json

variable {ι : Type} [DecidableEq ι] {timeout : ℕ}

/-- The slot whose mutex the caller holds. -/
def CallerPc.locks : CallerPc → Option ℕ
  | .test _ k | .storeTs _ k | .storeFunc _ k | .reject _ k | .unlock _ k => some k
  | _ => none

/-- The call of the caller. -/
def CallerPc.call? : CallerPc → Option ℕ
  | .lock n _ | .test n _ | .storeTs n _ | .storeFunc n _ | .reject n _ | .unlock n _
  | .send n _ | .wait n _ => some n
  | _ => none

/-- The call, before its time stamp is stored. -/
def CallerPc.unstored : CallerPc → Option ℕ
  | .lock n _ | .test n _ | .storeTs n _ | .reject n _ => some n
  | _ => none

/-- The call and the slot, once `rpc` is done with the slot. -/
def CallerPc.stored : CallerPc → Option (ℕ × ℕ)
  | .unlock n k | .send n k | .wait n k => some (n, k)
  | _ => none

/-- Slot `k` holds the callback of its last call, which waits for it. -/
def Armed (s : State ι) (k : ℕ) : Prop :=
  ∃ cb, s.func k = some cb ∧ cb.slot = k ∧ cb.call ∉ (s.taken k).tail ∧
    (∀ e ∈ s.invoked, e.callback.call ≠ cb.call) ∧ (s.caller cb.caller).run = cb.run ∧
    (s.caller cb.caller).pc.stored = some (cb.call, k) ∧
    (s.caller cb.caller).callback_done = false

structure Inv (s : State ι) : Prop where
  invokers : ∀ w w' k, (s.invoker w).inside = some k → (s.invoker w').inside = some k → w = w'
  apart : ∀ w i k, (s.invoker w).inside = some k → (s.caller i).pc.inside ≠ some k
  mux : ∀ i k, (s.caller i).pc.locks = some k → s.mux k = some i
  calling : ∀ w k cause, s.invoker w = .call k cause → 0 < s.ts k
  armed : ∀ k, 0 < s.ts k → (∀ w, s.invoker w ≠ .clear k) →
    (∀ i n, (s.caller i).pc ≠ .storeFunc n k) → Armed s k
  unstored : ∀ i n, (s.caller i).pc.unstored = some n →
    (s.caller i).callback_done = false ∧ (∀ e ∈ s.invoked, e.callback.call ≠ n) ∧
      ∀ k, n ∉ s.taken k
  storing : ∀ i n k, (s.caller i).pc = .storeFunc n k →
    (s.caller i).callback_done = false ∧ (∀ e ∈ s.invoked, e.callback.call ≠ n) ∧
      n ∉ (s.taken k).tail
  below : ∀ i n, (s.caller i).pc.call? = some n → n < s.calls
  below_invoked : ∀ e ∈ s.invoked, e.callback.call < s.calls
  below_taken : ∀ k, ∀ n ∈ s.taken k, n < s.calls
  distinct : ∀ i j n, (s.caller i).pc.call? = some n → (s.caller j).pc.call? = some n → i = j
  timely : Timely s

omit [DecidableEq ι] in
theorem Armed.of_eq {s s' : State ι} {k : ℕ} (h : Armed s k) (hfunc : s'.func k = s.func k)
    (htaken : s'.taken k = s.taken k) (hinvoked : s'.invoked = s.invoked)
    (hcaller : ∀ i n, (s.caller i).pc.stored = some (n, k) → (s.caller i).callback_done = false →
      (s'.caller i).run = (s.caller i).run ∧ (s'.caller i).pc.stored = some (n, k) ∧
        (s'.caller i).callback_done = false) : Armed s' k := by
  obtain ⟨cb, hcb, hslot, htail, hnew, hrun, hstored, hdone⟩ := h
  obtain ⟨hrun', hstored', hdone'⟩ := hcaller _ _ hstored hdone
  exact ⟨cb, hfunc.trans hcb, hslot, htaken ▸ htail, hinvoked ▸ hnew, hrun'.trans hrun, hstored',
    hdone'⟩

omit [DecidableEq ι] in
theorem inside_setInvoker {s : State ι} {w w' : Invoker} {pc : InvokerPc} {k : ℕ}
    (h : ((s.setInvoker w pc).invoker w').inside = some k) :
    w' = w ∧ pc.inside = some k ∨ (s.invoker w').inside = some k := by
  by_cases hw : w' = w
  · subst hw
    rw [State.setInvoker_self] at h
    exact .inl ⟨rfl, h⟩
  · rw [s.setInvoker_ne _ hw] at h
    exact .inr h

omit [DecidableEq ι] in
/-- A thread that invokes callbacks goes on, with no slot changed. It may only come to be
inside a section on which nobody else is. -/
theorem Inv.setInvoker {s : State ι} (h : Inv s) {w : Invoker} {pc : InvokerPc}
    (hold : ∀ k, s.invoker w ≠ .clear k)
    (hinside : ∀ k, pc.inside = some k →
      (∀ w', (s.invoker w').inside ≠ some k) ∧ ∀ i, (s.caller i).pc.inside ≠ some k)
    (hts : ∀ k cause, pc = .call k cause → 0 < s.ts k) : Inv (s.setInvoker w pc) where
  invokers := by
    intro w₁ w₂ k h₁ h₂
    obtain ⟨hw₁, hpc₁⟩ | h₁ := inside_setInvoker h₁ <;>
      obtain ⟨hw₂, hpc₂⟩ | h₂ := inside_setInvoker h₂
    · exact hw₁.trans hw₂.symm
    · exact absurd h₂ ((hinside k hpc₁).1 w₂)
    · exact absurd h₁ ((hinside k hpc₂).1 w₁)
    · exact h.invokers w₁ w₂ k h₁ h₂
  apart := by
    intro w' i k h'
    obtain ⟨-, hpc⟩ | h' := inside_setInvoker h'
    · exact (hinside k hpc).2 i
    · exact h.apart w' i k h'
  mux := h.mux
  calling := by
    intro w' k cause hcall
    by_cases hw : w' = w
    · subst hw
      exact hts k cause (by simpa using hcall)
    · exact h.calling w' k cause (by rwa [s.setInvoker_ne _ hw] at hcall)
  armed := by
    intro k hpos hclear hstore
    refine h.armed k hpos (fun w' => ?_) hstore
    by_cases hw : w' = w
    · rw [hw]
      exact hold k
    · rw [← s.setInvoker_ne pc hw]
      exact hclear w'
  unstored := h.unstored
  storing := h.storing
  below := h.below
  below_invoked := h.below_invoked
  below_taken := h.below_taken
  distinct := h.distinct
  timely := ⟨h.timely.once, h.timely.in_time⟩

omit [DecidableEq ι] in
/-- The end of a section: the slot is idle again. -/
theorem Inv.clear {s : State ι} (h : Inv s) {w : Invoker} {k : ℕ} (hold : s.invoker w = .clear k) :
    Inv { s.setInvoker w .idle with ts := Function.update s.ts k 0 } where
  invokers := by
    intro w₁ w₂ k' h₁ h₂
    obtain ⟨-, h₁⟩ | h₁ := inside_setInvoker h₁
    · cases h₁
    obtain ⟨-, h₂⟩ | h₂ := inside_setInvoker h₂
    · cases h₂
    exact h.invokers w₁ w₂ k' h₁ h₂
  apart := by
    intro w' i k' h'
    obtain ⟨-, h'⟩ | h' := inside_setInvoker h'
    · cases h'
    exact h.apart w' i k' h'
  mux := h.mux
  calling := by
    intro w' k' cause hcall
    by_cases hw : w' = w
    · subst hw
      simp [State.setInvoker] at hcall
    · have hcall' : s.invoker w' = .call k' cause := by simpa [State.setInvoker, hw] using hcall
      have hk : k' ≠ k := by
        rintro rfl
        exact hw (h.invokers w' w k' (by rw [hcall']; rfl) (by rw [hold]; rfl))
      simpa [hk] using h.calling w' k' cause hcall'
  armed := by
    intro k' hts hclear hstore
    have hk : k' ≠ k := by
      rintro rfl
      simp at hts
    refine (h.armed k' (by simpa [hk] using hts) (fun w' => ?_) hstore).of_eq rfl rfl rfl
      fun _ _ hstored hdone => ⟨rfl, hstored, hdone⟩
    by_cases hw : w' = w
    · rw [hw, hold]
      exact fun heq => hk (InvokerPc.clear.inj heq).symm
    · simpa [State.setInvoker, hw] using hclear w'
  unstored := h.unstored
  storing := h.storing
  below := h.below
  below_invoked := h.below_invoked
  below_taken := h.below_taken
  distinct := h.distinct
  timely := ⟨h.timely.once, h.timely.in_time⟩

theorem CallerPc.call?_of_stored {pc : CallerPc} {n k : ℕ} (h : pc.stored = some (n, k)) :
    pc.call? = some n := by
  cases pc <;> simp_all [CallerPc.stored, CallerPc.call?]

theorem CallerPc.call?_of_unstored {pc : CallerPc} {n : ℕ} (h : pc.unstored = some n) :
    pc.call? = some n := by
  cases pc <;> simp_all [CallerPc.unstored, CallerPc.call?]

theorem CallerPc.unstored_of_stored {pc : CallerPc} {n k : ℕ} (h : pc.stored = some (n, k)) :
    pc.unstored = none := by
  cases pc <;> simp_all [CallerPc.stored, CallerPc.unstored]

/-- One more invocation, of a callback that is neither used up nor overtaken. -/
theorem Timely.invoke {s : State ι} (h : Timely s) {cb : Callback ι} {data : Value}
    (hrunning : s.Running cb) (hnew : ∀ e ∈ s.invoked, e.callback.call ≠ cb.call)
    (htail : cb.call ∉ (s.taken cb.slot).tail) : Timely (s.invoke cb data) := by
  constructor
  · change (cb.call :: s.invoked.map fun e => e.callback.call).Nodup
    rw [List.nodup_cons, List.mem_map]
    exact ⟨fun ⟨e, he, heq⟩ => hnew e he heq, h.once⟩
  · intro e he
    rcases List.mem_cons.mp he with rfl | he
    · simp [htail, hrunning]
    · exact h.in_time e he

/-- What another caller waits for stays when a callback is invoked. -/
theorem Armed.invoke {s : State ι} {k : ℕ} (h : Armed s k) {cb : Callback ι} {data : Value}
    (hne : ∀ n, (s.caller cb.caller).pc.stored ≠ some (n, k))
    (hcalls : ∀ i n, (s.caller i).pc.call? = some n → n = cb.call → i = cb.caller) :
    Armed (s.invoke cb data) k := by
  obtain ⟨cb', hfunc, hslot, htail, hnew, hrun, hstored, hdone⟩ := h
  have hcaller : cb'.caller ≠ cb.caller := by
    intro heq
    exact hne _ (heq ▸ hstored)
  refine ⟨cb', hfunc, hslot, htail, fun e he heq => ?_, ?_, ?_, ?_⟩
  · rcases State.mem_invoke he with hcb | he
    · exact hcaller (hcalls _ _ (CallerPc.call?_of_stored hstored) (by rw [← heq, hcb]))
    · exact hnew e he heq
  · rwa [State.invoke_run]
  · rwa [State.invoke_pc]
  · rwa [s.invoke_caller_ne cb data hcaller]

/-- An invocation of the callback of caller `i` keeps what other callers know about their
calls. -/
theorem Inv.not_invoked {s : State ι} (h : Inv s) {cb : Callback ι} (data : Value)
    (hcall : (s.caller cb.caller).pc.call? = some cb.call) {i : ι} {n : ℕ} (hi : i ≠ cb.caller)
    (hn : (s.caller i).pc.call? = some n) (hnew : ∀ e ∈ s.invoked, e.callback.call ≠ n) :
    ∀ e ∈ (s.invoke cb data).invoked, e.callback.call ≠ n := by
  intro e he heq
  rcases State.mem_invoke he with hcb | he
  · rw [hcb] at heq
    exact hi (h.distinct _ _ _ hn (heq ▸ hcall))
  · exact hnew e he heq

theorem Inv.below_invoke {s : State ι} (h : Inv s) {cb : Callback ι} (data : Value)
    (hcall : (s.caller cb.caller).pc.call? = some cb.call) :
    ∀ e ∈ (s.invoke cb data).invoked, e.callback.call < s.calls := by
  intro e he
  rcases State.mem_invoke he with hcb | he
  · rw [hcb]
    exact h.below _ _ hcall
  · exact h.below_invoked e he

/-- The callback that a thread invokes on a slot is the one the slot is armed with. -/
theorem Inv.callFunc {s : State ι} (h : Inv s) {w : Invoker} {k : ℕ} {cause : Cause} {data : Value}
    (hold : s.invoker w = .call k cause) :
    Inv ((s.callFunc k data).setInvoker w (.clear k)) := by
  have hin : (s.invoker w).inside = some k := by rw [hold]; rfl
  have hclear : ∀ w', s.invoker w' = .clear k → False := by
    intro w' hw'
    obtain rfl := h.invokers w' w k (by rw [hw']; rfl) hin
    rw [hold] at hw'
    cases hw'
  obtain ⟨cb, hfunc, rfl, htail, hnew, hrun, hstored, hdone⟩ : Armed s k :=
    h.armed k (h.calling w k cause hold) hclear fun i n hi => h.apart w i k hin (by rw [hi]; rfl)
  have hcall : (s.caller cb.caller).pc.call? = some cb.call := CallerPc.call?_of_stored hstored
  have hcalls : ∀ i n, (s.caller i).pc.call? = some n → n = cb.call → i = cb.caller :=
    fun i n hi hn => h.distinct i _ n hi (hn ▸ hcall)
  have hrunning : s.Running cb := ⟨hrun, fun hidle => by rw [hidle] at hstored; cases hstored⟩
  have htimely : Timely (s.invoke cb data) := h.timely.invoke hrunning hnew htail
  have hcallFunc : s.callFunc cb.slot data = s.invoke cb data := by rw [State.callFunc, hfunc]
  rw [hcallFunc]
  have hpc : ∀ i, (((s.invoke cb data).setInvoker w (.clear cb.slot)).caller i).pc =
      (s.caller i).pc := fun i => State.invoke_pc s cb data i
  constructor
  · intro w₁ w₂ k h₁ h₂
    refine h.invokers w₁ w₂ k ?_ ?_
    · obtain ⟨hw₁, hpc₁⟩ | h₁ := inside_setInvoker h₁
      · rwa [hw₁, hin]
      · exact h₁
    · obtain ⟨hw₂, hpc₂⟩ | h₂ := inside_setInvoker h₂
      · rwa [hw₂, hin]
      · exact h₂
  · intro w' i k h'
    rw [hpc]
    obtain ⟨hw, hpc'⟩ | h' := inside_setInvoker h'
    · exact h.apart w i k (hin.trans hpc')
    · exact h.apart w' i k h'
  · intro i k hi
    rw [hpc] at hi
    exact h.mux i k hi
  · intro w' k' cause' hcall'
    by_cases hw : w' = w
    · subst hw
      simp at hcall'
    · rw [State.setInvoker_ne _ _ hw] at hcall'
      exact h.calling w' k' cause' hcall'
  · intro k' hts hclear' hstore
    have hk : k' ≠ cb.slot := by
      rintro rfl
      exact hclear' w (State.setInvoker_self _ _ _)
    have harmed : Armed s k' := by
      refine h.armed k' hts (fun w' hw' => ?_) fun i n => hpc i ▸ hstore i n
      by_cases hw : w' = w
      · rw [hw, hold] at hw'
        cases hw'
      · exact hclear' w' (by rwa [State.setInvoker_ne _ _ hw])
    refine (harmed.invoke (fun n hn => ?_) hcalls).of_eq rfl rfl rfl
      fun _ _ hstored hdone => ⟨rfl, hstored, hdone⟩
    rw [hstored, Option.some.injEq, Prod.mk.injEq] at hn
    exact hk hn.2.symm
  · intro i n hi
    rw [hpc] at hi
    have hne : i ≠ cb.caller := by
      rintro rfl
      rw [CallerPc.unstored_of_stored hstored] at hi
      cases hi
    obtain ⟨hdone', hnew', htaken'⟩ := h.unstored i n hi
    refine ⟨?_, h.not_invoked data hcall hne (CallerPc.call?_of_unstored hi) hnew', htaken'⟩
    exact (congrArg Caller.callback_done (s.invoke_caller_ne cb data hne)).trans hdone'
  · intro i n k' hi
    rw [hpc] at hi
    have hne : i ≠ cb.caller := by
      rintro rfl
      rw [hi] at hstored
      cases hstored
    obtain ⟨hdone', hnew', htaken'⟩ := h.storing i n k' hi
    refine ⟨?_, h.not_invoked data hcall hne (by rw [hi]; rfl) hnew', htaken'⟩
    exact (congrArg Caller.callback_done (s.invoke_caller_ne cb data hne)).trans hdone'
  · intro i n hi
    rw [hpc] at hi
    exact h.below i n hi
  · exact h.below_invoke data hcall
  · exact h.below_taken
  · intro i j n hi hj
    rw [hpc] at hi hj
    exact h.distinct i j n hi hj
  · exact ⟨htimely.once, htimely.in_time⟩

/-- A caller that goes on has no call that it had not before. -/
theorem call?_of_setCaller {s : State ι} {i : ι} {c : Caller}
    (hcall : ∀ n, c.pc.call? = some n → (s.caller i).pc.call? = some n) (j : ι) (n : ℕ)
    (hj : ((s.setCaller i c).caller j).pc.call? = some n) : (s.caller j).pc.call? = some n := by
  by_cases hji : j = i
  · subst hji
    rw [State.setCaller_self] at hj
    exact hcall n hj
  · rwa [s.setCaller_ne c hji] at hj

/-- The mutexes are held by the same callers when a caller keeps the one it has. -/
theorem Inv.mux_setCaller {s : State ι} (h : Inv s) {i : ι} {c : Caller}
    (hlocks : ∀ k, c.pc.locks = some k → (s.caller i).pc.locks = some k) :
    ∀ j k, ((s.setCaller i c).caller j).pc.locks = some k → s.mux k = some j := by
  intro j k hj
  by_cases hji : j = i
  · subst hji
    rw [State.setCaller_self] at hj
    exact h.mux j k (hlocks k hj)
  · rw [s.setCaller_ne c hji] at hj
    exact h.mux j k hj

theorem Inv.apart_setCaller {s : State ι} (h : Inv s) {i : ι} {c : Caller}
    (hinside : ∀ k, c.pc.inside = some k → ∀ w, (s.invoker w).inside ≠ some k) (w : Invoker) (j : ι)
    (k : ℕ) (hw : (s.invoker w).inside = some k) :
    ((s.setCaller i c).caller j).pc.inside ≠ some k := by
  intro hj
  by_cases hji : j = i
  · subst hji
    rw [State.setCaller_self] at hj
    exact hinside k hj w hw
  · rw [s.setCaller_ne c hji] at hj
    exact h.apart w j k hw hj

theorem Inv.storing_setCaller {s : State ι} (h : Inv s) {i : ι} {c : Caller}
    (hnew : ∀ n k, c.pc ≠ .storeFunc n k) (j : ι) (n k : ℕ)
    (hj : ((s.setCaller i c).caller j).pc = .storeFunc n k) :
    ((s.setCaller i c).caller j).callback_done = false ∧
      (∀ e ∈ s.invoked, e.callback.call ≠ n) ∧ n ∉ (s.taken k).tail := by
  by_cases hji : j = i
  · subst hji
    rw [State.setCaller_self] at hj
    exact absurd hj (hnew n k)
  · rw [s.setCaller_ne c hji] at hj ⊢
    exact h.storing j n k hj

/-- Where nobody stores a function after a step of a caller, nobody did before. -/
theorem not_storing_of_setCaller {s : State ι} {i : ι} {c : Caller} {k : ℕ}
    (hold : ∀ n, (s.caller i).pc ≠ .storeFunc n k)
    (hstore : ∀ j n, ((s.setCaller i c).caller j).pc ≠ .storeFunc n k) (j : ι) (n : ℕ) :
    (s.caller j).pc ≠ .storeFunc n k := by
  by_cases hji : j = i
  · rw [hji]
    exact hold n
  · rw [← s.setCaller_ne c hji]
    exact hstore j n

/-- A caller goes on with no slot changed. -/
theorem Inv.setCaller {s : State ι} (h : Inv s) {i : ι} {c : Caller} {mux : ℕ → Option ι}
    {sent : List ℕ}
    (hinside : ∀ k, c.pc.inside = some k → ∀ w, (s.invoker w).inside ≠ some k)
    (hmux : ∀ j k, ((s.setCaller i c).caller j).pc.locks = some k → mux k = some j)
    (hnew : ∀ n k, c.pc ≠ .storeFunc n k) (hold : ∀ n k, (s.caller i).pc ≠ .storeFunc n k)
    (hstored : ∀ n k, (s.caller i).pc.stored = some (n, k) → (s.caller i).callback_done = false →
      c.run = (s.caller i).run ∧ c.pc.stored = some (n, k) ∧ c.callback_done = false)
    (hunstored : ∀ n, c.pc.unstored = some n →
      (s.caller i).pc.unstored = some n ∧ c.callback_done = (s.caller i).callback_done)
    (hcall : ∀ n, c.pc.call? = some n → (s.caller i).pc.call? = some n) :
    Inv { s.setCaller i c with mux, sent } where
  invokers := h.invokers
  apart := h.apart_setCaller hinside
  mux := hmux
  calling := h.calling
  armed := by
    intro k hts hclear hstore
    have hstore' := not_storing_of_setCaller (fun n => hold n k) hstore
    refine (h.armed k hts hclear hstore').of_eq rfl rfl rfl fun j n hj hdone => ?_
    · by_cases hji : j = i
      · subst hji
        simpa using hstored n k hj hdone
      · simpa [s.setCaller_ne c hji] using ⟨hj, hdone⟩
  unstored := by
    intro j n hj
    by_cases hji : j = i
    · subst hji
      simp only [State.setCaller_self] at hj ⊢
      obtain ⟨hj, hdone⟩ := hunstored n hj
      rw [hdone]
      exact h.unstored j n hj
    · simp only [s.setCaller_ne c hji] at hj ⊢
      exact h.unstored j n hj
  storing := h.storing_setCaller hnew
  below := fun j n hj => h.below j n (call?_of_setCaller hcall j n hj)
  below_invoked := h.below_invoked
  below_taken := h.below_taken
  distinct := by
    have hcalls := call?_of_setCaller hcall
    intro j j' n hj hj'
    exact h.distinct j j' n (hcalls j n hj) (hcalls j' n hj')
  timely := ⟨h.timely.once, h.timely.in_time⟩

/-- A new call of `rpc` takes the next number. -/
theorem Inv.index {s : State ι} (h : Inv s) {i : ι} {c : Caller} {k index : ℕ}
    (hpc : (s.caller i).pc = .index) (hc : c.pc = .lock s.calls k)
    (hdone : c.callback_done = false) :
    Inv { s.setCaller i c with index_ := index, calls := s.calls + 1 } where
  invokers := h.invokers
  apart := h.apart_setCaller fun k hk => by rw [hc] at hk; cases hk
  mux := h.mux_setCaller fun k hk => by rw [hc] at hk; cases hk
  calling := h.calling
  armed := by
    intro k' hts hclear hstore
    have hstore' :=
      not_storing_of_setCaller (fun n => by rw [hpc]; exact CallerPc.noConfusion) hstore
    refine (h.armed k' hts hclear hstore').of_eq rfl rfl rfl fun j n hj hdone => ?_
    have hji : j ≠ i := by
      rintro rfl
      rw [hpc] at hj
      cases hj
    simpa [s.setCaller_ne c hji] using ⟨hj, hdone⟩
  unstored := by
    intro j n hj
    by_cases hji : j = i
    · subst hji
      simp only [State.setCaller_self] at hj ⊢
      rw [hc] at hj
      obtain rfl := Option.some.inj hj
      exact ⟨hdone, fun e he => (h.below_invoked e he).ne,
        fun k hk => (h.below_taken k _ hk).false⟩
    · simp only [s.setCaller_ne c hji] at hj ⊢
      exact h.unstored j n hj
  storing := h.storing_setCaller fun n k' => by rw [hc]; exact CallerPc.noConfusion
  below := by
    intro j n hj
    by_cases hji : j = i
    · subst hji
      simp only [State.setCaller_self] at hj
      rw [hc] at hj
      obtain rfl := Option.some.inj hj
      exact Nat.lt_succ_self _
    · simp only [s.setCaller_ne c hji] at hj
      exact Nat.lt_succ_of_lt (h.below j n hj)
  below_invoked e he := Nat.lt_succ_of_lt (h.below_invoked e he)
  below_taken k' n hn := Nat.lt_succ_of_lt (h.below_taken k' n hn)
  distinct := by
    intro j j' n hj hj'
    by_cases hji : j = i <;> by_cases hji' : j' = i
    · exact hji.trans hji'.symm
    · subst hji
      simp only [State.setCaller_self, s.setCaller_ne c hji'] at hj hj'
      rw [hc] at hj
      obtain rfl := Option.some.inj hj
      exact absurd (h.below j' _ hj') (Nat.lt_irrefl _)
    · subst hji'
      simp only [State.setCaller_self, s.setCaller_ne c hji] at hj hj'
      rw [hc] at hj'
      obtain rfl := Option.some.inj hj'
      exact absurd (h.below j _ hj) (Nat.lt_irrefl _)
    · simp only [s.setCaller_ne c hji, s.setCaller_ne c hji'] at hj hj'
      exact h.distinct j j' n hj hj'
  timely := ⟨h.timely.once, h.timely.in_time⟩

/-- `cb.ts = now` in a slot on which the caller alone is inside. -/
theorem Inv.storeTs {s : State ι} (h : Inv s) {i : ι} {n k now : ℕ}
    (hpc : (s.caller i).pc = .storeTs n k) :
    Inv { s.setCaller i { s.caller i with pc := .storeFunc n k } with
      ts := Function.update s.ts k now
      taken := Function.update s.taken k (n :: s.taken k) } := by
  have hin : (s.caller i).pc.inside = some k := by rw [hpc]; rfl
  obtain ⟨hdone, hnew, htaken⟩ := h.unstored i n (by rw [hpc]; rfl)
  have hcall : (s.caller i).pc.call? = some n := by rw [hpc]; rfl
  have hcalls : ∀ j m, ((s.setCaller i { s.caller i with pc := .storeFunc n k }).caller j).pc.call?
      = some m → (s.caller j).pc.call? = some m :=
    call?_of_setCaller fun m hm => by rw [hpc]; exact hm
  -- nobody else has the mutex of the slot
  have hslot : ∀ j, (s.caller j).pc.locks = some k → j = i := by
    intro j hj
    have hmux := h.mux i k (by rw [hpc]; rfl)
    exact Option.some.inj ((h.mux j k hj).symm.trans hmux)
  constructor
  · exact h.invokers
  · exact h.apart_setCaller fun k' hk' w hw => h.apart w i k' hw (by rw [hpc]; exact hk')
  · exact h.mux_setCaller fun k' hk' => by rw [hpc]; exact hk'
  · intro w k' cause hcall'
    change s.invoker w = _ at hcall'
    have hk : k' ≠ k := by
      rintro rfl
      exact h.apart w i k' (by rw [hcall']; rfl) hin
    simpa [hk] using h.calling w k' cause hcall'
  · intro k' hts hclear hstore
    have hk : k' ≠ k := by
      rintro rfl
      exact hstore i n (by simp)
    have hstore' :=
      not_storing_of_setCaller (fun m => by rw [hpc]; exact CallerPc.noConfusion) hstore
    refine (h.armed k' (by simpa [hk] using hts) hclear hstore').of_eq rfl ?_ rfl
      fun j m hj hdone => ?_
    · simp [hk]
    · have hji : j ≠ i := by
        rintro rfl
        rw [hpc] at hj
        cases hj
      simpa [s.setCaller_ne _ hji] using ⟨hj, hdone⟩
  · intro j m hj
    have hji : j ≠ i := by
      rintro rfl
      simp only [State.setCaller_self] at hj
      cases hj
    simp only [s.setCaller_ne _ hji] at hj ⊢
    obtain ⟨hdone', hnew', htaken'⟩ := h.unstored j m hj
    refine ⟨hdone', hnew', fun k' hm => ?_⟩
    by_cases hk : k' = k
    · subst hk
      rw [Function.update_self] at hm
      rcases List.mem_cons.mp hm with rfl | hm
      · exact hji (h.distinct j i m (CallerPc.call?_of_unstored hj) hcall)
      · exact htaken' k' hm
    · rw [Function.update_of_ne hk] at hm
      exact htaken' k' hm
  · intro j m k' hj
    by_cases hji : j = i
    · subst hji
      simp only [State.setCaller_self] at hj ⊢
      obtain ⟨rfl, rfl⟩ := CallerPc.storeFunc.inj hj
      refine ⟨hdone, hnew, ?_⟩
      rw [Function.update_self]
      exact htaken k
    · simp only [s.setCaller_ne _ hji] at hj ⊢
      obtain ⟨hdone', hnew', htaken'⟩ := h.storing j m k' hj
      have hk : k' ≠ k := by
        rintro rfl
        exact hji (hslot j (by rw [hj]; rfl))
      exact ⟨hdone', hnew', by rwa [Function.update_of_ne hk]⟩
  · exact fun j m hj => h.below j m (hcalls j m hj)
  · exact h.below_invoked
  · intro k' m hm
    change m ∈ Function.update s.taken k (n :: s.taken k) k' at hm
    by_cases hk : k' = k
    · subst hk
      rw [Function.update_self] at hm
      rcases List.mem_cons.mp hm with rfl | hm
      · exact h.below i m hcall
      · exact h.below_taken k' m hm
    · rw [Function.update_of_ne hk] at hm
      exact h.below_taken k' m hm
  · exact fun j j' m hj hj' => h.distinct j j' m (hcalls j m hj) (hcalls j' m hj')
  · refine ⟨h.timely.once, h.timely.in_time⟩

/-- `cb.func = func` arms the slot. -/
theorem Inv.storeFunc {s : State ι} (h : Inv s) {i : ι} {n k : ℕ}
    (hpc : (s.caller i).pc = .storeFunc n k) :
    Inv { s.setCaller i { s.caller i with pc := .unlock n k } with
      func := Function.update s.func k (some ⟨n, k, i, (s.caller i).run⟩) } := by
  obtain ⟨hdone, hnew, htail⟩ := h.storing i n k hpc
  have hcalls : ∀ j m, ((s.setCaller i { s.caller i with pc := .unlock n k }).caller j).pc.call?
      = some m → (s.caller j).pc.call? = some m :=
    call?_of_setCaller fun m hm => by rw [hpc]; exact hm
  constructor
  · exact h.invokers
  · exact h.apart_setCaller fun k' hk' => by cases hk'
  · exact h.mux_setCaller fun k' hk' => by rw [hpc]; exact hk'
  · exact h.calling
  · intro k' hts hclear hstore
    by_cases hk : k' = k
    · subst hk
      exact ⟨⟨n, k', i, (s.caller i).run⟩, by simp, rfl, htail,
        hnew, by simp, by simp [CallerPc.stored],
        by simpa using hdone⟩
    · have hother : ∀ m, (s.caller i).pc ≠ .storeFunc m k' := by
        intro m heq
        rw [hpc] at heq
        exact hk (CallerPc.storeFunc.inj heq).2.symm
      have hstore' := not_storing_of_setCaller hother hstore
      refine (h.armed k' hts hclear hstore').of_eq (by simp [hk]) rfl rfl fun j m hj hdone => ?_
      have hji : j ≠ i := by
        rintro rfl
        rw [hpc] at hj
        cases hj
      simpa [s.setCaller_ne _ hji] using ⟨hj, hdone⟩
  · intro j m hj
    have hji : j ≠ i := by
      rintro rfl
      simp only [State.setCaller_self] at hj
      cases hj
    simp only [s.setCaller_ne _ hji] at hj ⊢
    exact h.unstored j m hj
  · exact h.storing_setCaller fun m k' => CallerPc.noConfusion
  · exact fun j m hj => h.below j m (hcalls j m hj)
  · exact h.below_invoked
  · exact h.below_taken
  · exact fun j j' m hj hj' => h.distinct j j' m (hcalls j m hj) (hcalls j' m hj')
  · exact ⟨h.timely.once, h.timely.in_time⟩

/-- A caller that finds its slot occupied fails its own callback. -/
theorem Inv.reject {s : State ι} (h : Inv s) {i : ι} {n k : ℕ}
    (hpc : (s.caller i).pc = .reject n k) :
    Inv ((s.invoke ⟨n, k, i, (s.caller i).run⟩ .nullValue).setCaller i
      { (s.invoke ⟨n, k, i, (s.caller i).run⟩ .nullValue).caller i with pc := .unlock n k }) := by
  obtain ⟨hdone, hnew, htaken⟩ := h.unstored i n (by rw [hpc]; rfl)
  have hcall : (s.caller i).pc.call? = some n := by rw [hpc]; rfl
  generalize hcb : Callback.mk n k i (s.caller i).run = cb
  obtain ⟨rfl, rfl, rfl⟩ : cb.call = n ∧ cb.slot = k ∧ cb.caller = i := by
    rw [← hcb]
    exact ⟨rfl, rfl, rfl⟩
  have hrunning : s.Running cb := ⟨by rw [← hcb], by rw [hpc]; exact CallerPc.noConfusion⟩
  have htimely : Timely (s.invoke cb .nullValue) :=
    h.timely.invoke hrunning hnew fun hmem => htaken _ (List.mem_of_mem_tail hmem)
  have hinvoked := h.below_invoke .nullValue hcall
  have harmed : ∀ k', Armed s k' → Armed (s.invoke cb .nullValue) k' := fun k' hk' =>
    hk'.invoke (fun m hm => by rw [hpc] at hm; cases hm)
      fun j m hj hm => h.distinct j _ m hj (hm ▸ hcall)
  have hnot : ∀ j m, j ≠ cb.caller → (s.caller j).pc.call? = some m →
      (∀ e ∈ s.invoked, e.callback.call ≠ m) →
      ∀ e ∈ (s.invoke cb .nullValue).invoked, e.callback.call ≠ m :=
    fun j m hj hm => h.not_invoked .nullValue hcall hj hm
  generalize hs : s.invoke cb .nullValue = t at *
  have hpcs : ∀ j, (t.caller j).pc = (s.caller j).pc := fun j => by rw [← hs, State.invoke_pc]
  have hcaller : ∀ j, j ≠ cb.caller → t.caller j = s.caller j := fun j hj => by
    rw [← hs, State.invoke_caller_ne _ _ _ hj]
  have hts : t.ts = s.ts := by rw [← hs, State.invoke_ts]
  have hinvoker : t.invoker = s.invoker := by rw [← hs, State.invoke_invoker]
  have htakens : t.taken = s.taken := by rw [← hs, State.invoke_taken]
  have hmux : t.mux = s.mux := by rw [← hs, State.invoke_mux]
  have hcallsEq : t.calls = s.calls := by rw [← hs, State.invoke_calls]
  have hcalls : ∀ j m, ((t.setCaller cb.caller
      { t.caller cb.caller with pc := .unlock cb.call cb.slot }).caller j).pc.call? = some m →
      (s.caller j).pc.call? = some m := by
    intro j m hj
    rw [← hpcs]
    refine call?_of_setCaller (fun m hm => ?_) j m hj
    rw [hpcs, hcall]
    exact hm
  constructor
  · rw [State.setCaller, hinvoker]
    exact h.invokers
  · intro w j k' hw hj
    change (t.invoker w).inside = _ at hw
    rw [hinvoker] at hw
    by_cases hji : j = cb.caller
    · rw [hji, State.setCaller_self] at hj
      cases hj
    · rw [t.setCaller_ne _ hji, hcaller j hji] at hj
      exact h.apart w j k' hw hj
  · intro j k' hj
    change t.mux k' = _
    rw [hmux]
    by_cases hji : j = cb.caller
    · rw [hji, State.setCaller_self] at hj
      rw [hji]
      exact h.mux _ k' (by rw [hpc]; exact hj)
    · rw [t.setCaller_ne _ hji, hcaller j hji] at hj
      exact h.mux j k' hj
  · rw [State.setCaller, hinvoker, hts]
    exact h.calling
  · intro k' hk' hclear hstore
    rw [State.setCaller, hts] at hk'
    rw [State.setCaller, hinvoker] at hclear
    have harmed' : Armed s k' := by
      refine h.armed k' hk' hclear fun j m => ?_
      by_cases hji : j = cb.caller
      · rw [hji, hpc]
        exact CallerPc.noConfusion
      · have := hstore j m
        rwa [t.setCaller_ne _ hji, hcaller j hji] at this
    refine (harmed k' harmed').of_eq rfl rfl rfl fun j m hj hdone => ?_
    have hji : j ≠ cb.caller := by
      rintro rfl
      rw [hpcs, hpc] at hj
      cases hj
    rw [t.setCaller_ne _ hji]
    exact ⟨rfl, hj, hdone⟩
  · intro j m hj
    have hji : j ≠ cb.caller := by
      rintro rfl
      rw [State.setCaller_self] at hj
      cases hj
    rw [t.setCaller_ne _ hji, hcaller j hji] at hj ⊢
    obtain ⟨hdone', hnew', htaken'⟩ := h.unstored j m hj
    exact ⟨hdone', hnot j m hji (CallerPc.call?_of_unstored hj) hnew', htakens ▸ htaken'⟩
  · intro j m k' hj
    have hji : j ≠ cb.caller := by
      rintro rfl
      rw [State.setCaller_self] at hj
      cases hj
    rw [t.setCaller_ne _ hji, hcaller j hji] at hj ⊢
    obtain ⟨hdone', hnew', htail'⟩ := h.storing j m k' hj
    exact ⟨hdone', hnot j m hji (by rw [hj]; rfl) hnew', htakens ▸ htail'⟩
  · rw [State.setCaller, hcallsEq] at *
    exact fun j m hj => h.below j m (hcalls j m hj)
  · rw [State.setCaller, hcallsEq]
    exact hinvoked
  · rw [State.setCaller, hcallsEq, htakens]
    exact h.below_taken
  · exact fun j j' m hj hj' => h.distinct j j' m (hcalls j m hj) (hcalls j' m hj')
  · exact ⟨htimely.once, htimely.in_time⟩

theorem Inv.init {s : State ι} (h : (machine ι timeout).init s) : Inv s := by
  obtain ⟨client, rfl⟩ := h
  refine ⟨?_, ?_, ?_, ?_, ?_, ?_, ?_, ?_, ?_, ?_, ?_, ⟨List.nodup_nil, ?_⟩⟩
  · exact fun w w' k hw => by cases hw
  · exact fun w i k hw => by cases hw
  · exact fun i k hi => by cases hi
  · exact fun w k cause hw => by cases hw
  · exact fun k hts => absurd hts (Nat.lt_irrefl 0)
  · exact fun i n hi => by cases hi
  · exact fun i n k hi => by cases hi
  · exact fun i n hi => by cases hi
  · exact fun e he => by cases he
  · exact fun k n hn => by cases hn
  · exact fun i j n hi => by cases hi
  · exact fun e he => by cases he

theorem Inv.invokerStep {s s' : State ι} (h : Inv s) {w : Invoker}
    (hex : Exclusive (.invoker w) s) (hstep : invokerStep timeout w s = some s') : Inv s' := by
  unfold Callbacks.invokerStep at hstep
  split at hstep
  · cases hstep
  · rename_i k cause hpc
    split at hstep
    · obtain rfl := Option.some.inj hstep
      refine h.setInvoker (fun k' hk' => ?_) (fun k' hk' => by cases hk')
        fun k' c hk' => by cases hk'
      rw [hpc] at hk'
      cases hk'
    · cases hstep
  · rename_i k cause hpc
    obtain rfl := Option.some.inj hstep
    have hold : ∀ k', s.invoker w ≠ .clear k' := fun k' hk' => by rw [hpc] at hk'; cases hk'
    split
    · rename_i hfires
      have hts : 0 < s.ts k := by
        cases cause with
        | reply data => exact of_decide_eq_true hfires
        | timeout now => exact (of_decide_eq_true hfires).1
      refine h.setInvoker hold (fun k' hk' => ?_) fun k' c hk' => ?_
      · obtain rfl : k = k' := Option.some.inj hk'
        exact hex k (by rw [hpc]; rfl)
      · obtain ⟨rfl, -⟩ := InvokerPc.call.inj hk'
        exact hts
    · exact h.setInvoker hold (fun k' hk' => by cases hk') fun k' c hk' => by cases hk'
  · rename_i k cause hpc
    obtain rfl := Option.some.inj hstep
    exact h.callFunc hpc
  · rename_i k hpc
    obtain rfl := Option.some.inj hstep
    exact h.clear hpc

theorem Inv.callerStep {s s' : State ι} (h : Inv s) {i : ι} {now : ℕ}
    (hex : Exclusive (.caller i now) s) (hstep : callerStep i now s = some s') : Inv s' := by
  unfold Callbacks.callerStep at hstep
  dsimp only at hstep
  split at hstep
  · cases hstep
  · rename_i hpc
    obtain rfl := Option.some.inj hstep
    exact h.index hpc rfl rfl
  · rename_i n k hpc
    split at hstep
    · rename_i hfree
      obtain rfl := Option.some.inj hstep
      refine h.setCaller (fun k' hk' => by cases hk') (fun j k' hj => ?_) (fun _ _ => by simp)
        (fun _ _ => by simp [hpc]) (fun _ _ hk' => by rw [hpc] at hk'; cases hk')
        (fun m hm => ⟨by rw [hpc]; exact hm, rfl⟩) fun m hm => by rw [hpc]; exact hm
      by_cases hji : j = i
      · subst hji
        rw [State.setCaller_self] at hj
        obtain rfl : k = k' := Option.some.inj hj
        exact Function.update_self _ _ _
      · rw [s.setCaller_ne _ hji] at hj
        have hk : k' ≠ k := by
          rintro rfl
          rw [h.mux j k' hj] at hfree
          cases hfree
        rw [Function.update_of_ne hk]
        exact h.mux j k' hj
    · cases hstep
  · rename_i n k hpc
    obtain rfl := Option.some.inj hstep
    have hmux : ∀ pc : CallerPc, pc.locks = some k → ∀ j k',
        ((s.setCaller i { s.caller i with pc := pc }).caller j).pc.locks = some k' →
        s.mux k' = some j := fun pc hlocks => h.mux_setCaller fun k' hk' => by
      obtain rfl := Option.some.inj (hlocks.symm.trans hk')
      rw [hpc]
      rfl
    split
    · refine h.setCaller (fun k' hk' => ?_) (hmux _ rfl) (fun _ _ => by simp)
        (fun _ _ => by simp [hpc]) (fun _ _ hk' => by rw [hpc] at hk'; cases hk')
        (fun m hm => ⟨by rw [hpc]; exact hm, rfl⟩) fun m hm => by rw [hpc]; exact hm
      obtain rfl : k = k' := Option.some.inj hk'
      exact hex k (by rw [hpc]; rfl)
    · refine h.setCaller (fun k' hk' => ?_) (hmux _ rfl) (fun _ _ => by simp)
        (fun _ _ => by simp [hpc]) (fun _ _ hk' => by rw [hpc] at hk'; cases hk')
        (fun m hm => ⟨by rw [hpc]; exact hm, rfl⟩) fun m hm => by rw [hpc]; exact hm
      obtain rfl : k = k' := Option.some.inj hk'
      exact hex k (by rw [hpc]; rfl)
  · rename_i n k hpc
    obtain rfl := Option.some.inj hstep
    exact h.storeTs hpc
  · rename_i n k hpc
    obtain rfl := Option.some.inj hstep
    exact h.storeFunc hpc
  · rename_i n k hpc
    obtain rfl := Option.some.inj hstep
    exact h.reject hpc
  · rename_i n k hpc
    obtain rfl := Option.some.inj hstep
    refine h.setCaller (fun k' hk' => by cases hk') (fun j k' hj => ?_) (fun _ _ => by simp)
      (fun _ _ => by simp [hpc]) (fun m k' hk' hdone => ⟨rfl, by rw [hpc] at hk'; exact hk', hdone⟩)
      (fun m hm => by cases hm) fun m hm => by rw [hpc]; exact hm
    by_cases hji : j = i
    · subst hji
      rw [State.setCaller_self] at hj
      cases hj
    · rw [s.setCaller_ne _ hji] at hj
      have hk : k' ≠ k := by
        rintro rfl
        have hown := h.mux i k' (by rw [hpc]; rfl)
        exact hji (Option.some.inj ((h.mux j k' hj).symm.trans hown))
      rw [Function.update_of_ne hk]
      exact h.mux j k' hj
  · rename_i n k hpc
    obtain rfl := Option.some.inj hstep
    exact h.setCaller (fun k' hk' => by cases hk') (h.mux_setCaller fun k' hk' => by cases hk')
      (fun _ _ => by simp) (fun _ _ => by simp [hpc])
      (fun m k' hk' hdone => ⟨rfl, by rw [hpc] at hk'; exact hk', hdone⟩)
      (fun m hm => by cases hm) fun m hm => by rw [hpc]; exact hm
  · rename_i n k hpc
    split at hstep
    · rename_i hdone
      obtain rfl := Option.some.inj hstep
      have hstored : ∀ c : Caller, ∀ m k', (s.caller i).pc.stored = some (m, k') →
          (s.caller i).callback_done = false →
          c.run = (s.caller i).run ∧ c.pc.stored = some (m, k') ∧ c.callback_done = false :=
        fun _ _ _ _ hfalse => by rw [hdone] at hfalse; cases hfalse
      split
      · exact h.setCaller (fun k' hk' => by cases hk') (h.mux_setCaller fun k' hk' => by cases hk')
          (fun _ _ => by simp) (fun _ _ => by simp [hpc]) (hstored _) (fun m hm => by cases hm)
          fun m hm => by cases hm
      · exact h.setCaller (fun k' hk' => by cases hk') (h.mux_setCaller fun k' hk' => by cases hk')
          (fun _ _ => by simp) (fun _ _ => by simp [hpc]) (hstored _) (fun m hm => by cases hm)
          fun m hm => by cases hm
    · cases hstep

theorem Inv.step {a : Action ι} {s s' : State ι} (h : Inv s) (hex : Exclusive a s)
    (hstep : step timeout a s = some s') : Inv s' := by
  cases a with
  | handleCallback k data =>
      simp only [Callbacks.step, Option.ite_none_right_eq_some, Option.some.injEq] at hstep
      obtain ⟨⟨hidle, -⟩, rfl⟩ := hstep
      refine h.setInvoker (fun k' hk' => ?_) (fun k' hk' => by cases hk')
        fun k' c hk' => by cases hk'
      rw [hk'] at hidle
      cases hidle
  | check k now =>
      simp only [Callbacks.step, Option.ite_none_right_eq_some, Option.some.injEq] at hstep
      obtain ⟨⟨hidle, -⟩, rfl⟩ := hstep
      refine h.setInvoker (fun k' hk' => ?_) (fun k' hk' => by cases hk')
        fun k' c hk' => by cases hk'
      rw [hk'] at hidle
      cases hidle
  | invoker w => exact h.invokerStep hex hstep
  | allocErizo i =>
      simp only [Callbacks.step, Option.ite_none_right_eq_some, Option.some.injEq] at hstep
      obtain ⟨hpc, rfl⟩ := hstep
      exact h.setCaller (fun k' hk' => by cases hk') (h.mux_setCaller fun k' hk' => by cases hk')
        (fun _ _ => by simp) (fun _ _ => by simp [hpc])
        (fun m k' hk' => by rw [hpc] at hk'; cases hk') (fun m hm => by cases hm)
        fun m hm => by cases hm
  | caller i now =>
      simp only [Callbacks.step, Option.ite_none_right_eq_some] at hstep
      exact h.callerStep hex hstep.2

/-- In every run in which no thread tests a slot while another is inside its section on
that slot, as if the mutex were held over the sections, each callback is invoked at most
once, before a later call takes its slot and before its `allocErizo` returns. -/
theorem callbacks_timely {s : State ι} (h : (machine ι timeout).Reaches Exclusive s) : Timely s :=
  (h.invariant (fun _ hinit => Inv.init hinit) fun _ _ _ hs hex hstep => hs.step hex hstep).timely

section Runs

/-- One caller, idle. -/
def oneCaller : State Unit := { caller := fun _ => { client := { id := "c" } } }

/-- A run of `allocErizo` up to the wait for its callback. -/
def request : List (Action Unit) :=
  [.allocErizo (), .caller () 0, .caller () 0, .caller () 0, .caller () 1000, .caller () 0,
    .caller () 0, .caller () 0]

/-- The reply arrives when the check thread has just seen that the request is too old: both
have passed the temporary lock, and both call the callback. -/
def lateReply : List (Action Unit) :=
  request ++ [.check 0 2500, .handleCallback 0 (.objectValue []),
    .invoker .check_thread, .invoker .recv_thread, .invoker .check_thread,
    .invoker .recv_thread, .invoker .check_thread, .invoker .recv_thread]

theorem callback_invoked_twice :
    ¬ ∀ s : State Unit, (machine Unit 1000).Reachable s → Timely s := by
  intro hclaim
  obtain ⟨s, hs, hq⟩ := Machine.exists_reaches_of_runChecked
    (M := machine Unit 1000) (P := fun _ _ => True) (p := fun _ _ => true)
    (q := fun s => s.invoked.map (fun e => e.callback.call) == [0, 0])
    (l := lateReply) (fun _ _ _ => trivial) (s := oneCaller) ⟨_, rfl⟩ (by decide)
  have honce := (hclaim s hs).once
  rw [beq_iff_eq.mp hq] at honce
  exact absurd honce (by decide)

/-- The reply arrives in time and the run returns; a check of the slot then finds nothing. -/
theorem callbacks_timely_reply :
    ∃ s : State Unit, s.invoked.map (fun e => e.callback.call) = [0] ∧
      (s.caller ()).pc = .idle ∧ Timely s := by
  obtain ⟨s, hs, hq⟩ := Machine.exists_reaches_of_runChecked
    (M := machine Unit 1000) (P := Exclusive) (p := fun a s => decide (Exclusive a s))
    (q := fun s => s.invoked.map (fun e => e.callback.call) == [0] &&
      decide ((s.caller ()).pc = .idle))
    (l := request ++ [.handleCallback 0 (.objectValue [("erizoID", .stringValue "e"),
        ("bridgeIP", .stringValue "10.0.0.1"), ("bridgePort", .intValue 5000)]),
      .check 0 2500, .invoker .recv_thread, .invoker .recv_thread, .invoker .recv_thread,
      .invoker .check_thread, .invoker .recv_thread, .invoker .check_thread, .caller () 0])
    (fun _ _ h => of_decide_eq_true h) (s := oneCaller) ⟨_, rfl⟩ (by decide)
  simp only [Bool.and_eq_true, beq_iff_eq, decide_eq_true_eq] at hq
  exact ⟨s, hq.1, hq.2, callbacks_timely hs⟩

end Runs

end AMQPRPC.Callbacks
