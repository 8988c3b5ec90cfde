import Mathlib.Data.Fintype.Basic
import ErizoController.Library.Machine
import ErizoController.Core.Handlers
import ErizoController.Rabbitmq.Rpc

/-!
# The callbacks of AMQPRPC, step by step

The receiving thread, the check thread and any number of callers of `allocErizo` work on
the slots of `cb_queue_` one access at a time. `std::unique_lock<std::mutex>(cb.mux);` in
the first two is a temporary: it waits until the mutex is free and releases it at once.
Only `rpc` holds the mutex from its test of `cb.ts` to its last store.

A callback is named by its call and knows its slot and the run of `allocErizo` whose
variables it captures. The ghost fields record which calls stored a callback in a slot,
and for each invocation whether the slot had been taken over since or the run was over.
-/

namespace AMQPRPC.Callbacks

open Json

structure Callback (ι : Type) where
  call : ℕ
  slot : ℕ
  caller : ι
  run : ℕ

/-- What a slot is looked at for: the data of a reply, or its age at a clock reading. -/
inductive Cause where
  | reply (data : Value)
  | timeout (now : ℕ)

/-- The two threads that invoke callbacks. -/
inductive Invoker where
  | recv_thread
  | check_thread
  deriving DecidableEq

instance : Fintype Invoker := ⟨{.recv_thread, .check_thread}, fun w => by cases w <;> decide⟩

/-- The next step of such a thread on slot `k`. -/
inductive InvokerPc where
  | idle
  | lock (k : ℕ) (cause : Cause)
  | test (k : ℕ) (cause : Cause)
  | call (k : ℕ) (cause : Cause)
  | clear (k : ℕ)

/-- The next step of a run of `allocErizo`; `n` is its call of `rpc` and `k` the slot. -/
inductive CallerPc where
  | idle
  | index
  | lock (n k : ℕ)
  | test (n k : ℕ)
  | storeTs (n k : ℕ)
  | storeFunc (n k : ℕ)
  | reject (n k : ℕ)
  | unlock (n k : ℕ)
  | send (n k : ℕ)
  | wait (n k : ℕ)
  deriving DecidableEq

/-- A thread in `allocErizo`, with the variables its callbacks capture. -/
structure Caller where
  pc : CallerPc := .idle
  run : ℕ := 0
  try_time : ℕ := 0
  callback_done : Bool := false
  ret : ℤ := 0
  client : Client

structure Invocation (ι : Type) where
  callback : Callback ι
  overtaken : Bool
  late : Bool

structure State (ι : Type) where
  ts : ℕ → ℕ := fun _ => 0
  func : ℕ → Option (Callback ι) := fun _ => none
  mux : ℕ → Option ι := fun _ => none
  index_ : ℕ := 0
  invoker : Invoker → InvokerPc := fun _ => .idle
  caller : ι → Caller
  /-- The correlation ids of the messages sent. -/
  sent : List ℕ := []
  calls : ℕ := 0
  /-- The calls that stored their callback in a slot, the last one first. -/
  taken : ℕ → List ℕ := fun _ => []
  invoked : List (Invocation ι) := []

inductive Action (ι : Type) where
  /-- `handleCallback` on a reply with the correlation id of a message sent. -/
  | handleCallback (k : ℕ) (data : Value)
  /-- The check thread comes to a slot and reads the clock. -/
  | check (k now : ℕ)
  | invoker (w : Invoker)
  | allocErizo (i : ι)
  /-- The next step of a caller; `now` is what it reads where it reads the clock. -/
  | caller (i : ι) (now : ℕ)

/-- The test before the call: `cb.ts > 0`, and for the check thread the age as an unsigned
64-bit difference. -/
def Cause.fires (timeout ts : ℕ) : Cause → Bool
  | .reply _ => 0 < ts
  | .timeout now => 0 < ts ∧ timeout < (now + 2 ^ 64 - ts) % 2 ^ 64

/-- What the callback is called with. -/
def Cause.data : Cause → Value
  | .reply data => data
  | .timeout _ => .nullValue

variable {ι : Type} [DecidableEq ι]

/-- The run whose variables the callback captures has not returned. -/
def State.Running (s : State ι) (cb : Callback ι) : Prop :=
  (s.caller cb.caller).run = cb.run ∧ (s.caller cb.caller).pc ≠ .idle

instance (s : State ι) (cb : Callback ι) : Decidable (s.Running cb) :=
  inferInstanceAs (Decidable (_ ∧ _))

def State.setInvoker (s : State ι) (w : Invoker) (pc : InvokerPc) : State ι :=
  { s with invoker := Function.update s.invoker w pc }

def State.setCaller (s : State ι) (i : ι) (c : Caller) : State ι :=
  { s with caller := Function.update s.caller i c }

omit [DecidableEq ι] in
@[simp] theorem State.setInvoker_self (s : State ι) (w : Invoker) (pc : InvokerPc) :
    (s.setInvoker w pc).invoker w = pc := by
  simp [State.setInvoker]

omit [DecidableEq ι] in
theorem State.setInvoker_ne (s : State ι) {w w' : Invoker} (pc : InvokerPc) (h : w' ≠ w) :
    (s.setInvoker w pc).invoker w' = s.invoker w' := by
  simp [State.setInvoker, h]

@[simp] theorem State.setCaller_self (s : State ι) (i : ι) (c : Caller) :
    (s.setCaller i c).caller i = c := by
  simp [State.setCaller]

theorem State.setCaller_ne (s : State ι) {i j : ι} (c : Caller) (h : j ≠ i) :
    (s.setCaller i c).caller j = s.caller j := by
  simp [State.setCaller, h]

/-- The callback runs: it writes to the variables of its run, if that is still there. -/
def State.invoke (s : State ι) (cb : Callback ι) (data : Value) : State ι :=
  let c := s.caller cb.caller
  let (ret, client) := ErizoController.onErizo c.client data
  { s with
    caller :=
      if s.Running cb then
        Function.update s.caller cb.caller { c with callback_done := true, ret, client }
      else s.caller
    invoked := {
      callback := cb
      overtaken := cb.call ∈ (s.taken cb.slot).tail
      late := ¬ s.Running cb } :: s.invoked }

section Invoke

variable (s : State ι) (cb : Callback ι) (data : Value)

@[simp] theorem State.invoke_ts : (s.invoke cb data).ts = s.ts := rfl

@[simp] theorem State.invoke_func : (s.invoke cb data).func = s.func := rfl

@[simp] theorem State.invoke_mux : (s.invoke cb data).mux = s.mux := rfl

@[simp] theorem State.invoke_invoker : (s.invoke cb data).invoker = s.invoker := rfl

@[simp] theorem State.invoke_calls : (s.invoke cb data).calls = s.calls := rfl

@[simp] theorem State.invoke_taken : (s.invoke cb data).taken = s.taken := rfl

theorem State.invoke_caller_ne {i : ι} (h : i ≠ cb.caller) :
    (s.invoke cb data).caller i = s.caller i := by
  simp only [State.invoke]
  split
  · exact Function.update_of_ne h _ _
  · rfl

@[simp] theorem State.invoke_pc (i : ι) :
    ((s.invoke cb data).caller i).pc = (s.caller i).pc := by
  by_cases h : i = cb.caller
  · subst h
    simp only [State.invoke]
    split
    · rw [Function.update_self]
    · rfl
  · rw [s.invoke_caller_ne cb data h]

@[simp] theorem State.invoke_run (i : ι) :
    ((s.invoke cb data).caller i).run = (s.caller i).run := by
  by_cases h : i = cb.caller
  · subst h
    simp only [State.invoke]
    split
    · rw [Function.update_self]
    · rfl
  · rw [s.invoke_caller_ne cb data h]

variable {s cb data}

theorem State.mem_invoke {e : Invocation ι} (h : e ∈ (s.invoke cb data).invoked) :
    e.callback = cb ∨ e ∈ s.invoked := by
  rcases List.mem_cons.mp h with rfl | h
  · exact .inl rfl
  · exact .inr h

end Invoke

/-- `cb.func(data)`; the constructor's function does nothing. -/
def State.callFunc (s : State ι) (k : ℕ) (data : Value) : State ι :=
  match s.func k with
  | none => s
  | some cb => s.invoke cb data

/-- `handleCallback` and the check of a slot from the lock on. -/
def invokerStep (timeout : ℕ) (w : Invoker) (s : State ι) : Option (State ι) :=
  match s.invoker w with
  | .idle => none
  | .lock k cause => if s.mux k = none then some (s.setInvoker w (.test k cause)) else none
  | .test k cause =>
      some (s.setInvoker w (if cause.fires timeout (s.ts k) then .call k cause else .idle))
  | .call k cause => some ((s.callFunc k cause.data).setInvoker w (.clear k))
  | .clear k => some { s.setInvoker w .idle with ts := Function.update s.ts k 0 }

/-- `allocErizo` and the `rpc` it calls. -/
def callerStep (i : ι) (now : ℕ) (s : State ι) : Option (State ι) :=
  let c := s.caller i
  match c.pc with
  | .idle => none
  | .index =>
      some { s.setCaller i { c with
          pc := .lock s.calls (s.index_ % kQueueSize)
          try_time := c.try_time - 1
          callback_done := false } with
        index_ := (s.index_ + 1) % 2 ^ 32
        calls := s.calls + 1 }
  | .lock n k =>
      if s.mux k = none then
        some { s.setCaller i { c with pc := .test n k } with
          mux := Function.update s.mux k (some i) }
      else none
  | .test n k =>
      some (s.setCaller i { c with pc := if s.ts k = 0 then .storeTs n k else .reject n k })
  | .storeTs n k =>
      some { s.setCaller i { c with pc := .storeFunc n k } with
        ts := Function.update s.ts k now
        taken := Function.update s.taken k (n :: s.taken k) }
  | .storeFunc n k =>
      some { s.setCaller i { c with pc := .unlock n k } with
        func := Function.update s.func k (some ⟨n, k, i, c.run⟩) }
  | .reject n k =>
      let s := s.invoke ⟨n, k, i, c.run⟩ .nullValue
      some (s.setCaller i { s.caller i with pc := .unlock n k })
  | .unlock n k =>
      some { s.setCaller i { c with pc := .send n k } with mux := Function.update s.mux k none }
  | .send n k => some { s.setCaller i { c with pc := .wait n k } with sent := k :: s.sent }
  | .wait _ _ =>
      if c.callback_done then
        some (s.setCaller i (if c.ret ≠ 0 ∧ c.try_time ≠ 0 then { c with pc := .index }
          else { c with pc := .idle, run := c.run + 1 }))
      else none

def step (timeout : ℕ) : Action ι → State ι → Option (State ι)
  | .handleCallback k data, s =>
      if s.invoker .recv_thread matches .idle ∧ k ∈ s.sent then
        some (s.setInvoker .recv_thread (.lock k (.reply data)))
      else none
  | .check k now, s =>
      if s.invoker .check_thread matches .idle ∧ k < kQueueSize ∧ now < 2 ^ 64 then
        some (s.setInvoker .check_thread (.lock k (.timeout now)))
      else none
  | .invoker w, s => invokerStep timeout w s
  | .allocErizo i, s =>
      if (s.caller i).pc = .idle then
        some (s.setCaller i { s.caller i with pc := .index, try_time := 3 })
      else none
  | .caller i now, s => if now < 2 ^ 64 then callerStep i now s else none

/-- Everybody is idle, and the queue is as `init` leaves it. -/
def machine (ι : Type) [DecidableEq ι] (timeout : ℕ) : Machine (Action ι) (State ι) where
  init s := ∃ client : ι → Client, s = { caller := fun i => { client := client i } }
  step := step timeout

/-! ## Once, in time, and one section at a time -/

/-- No callback was invoked twice, after a later call took its slot over, or after its
run of `allocErizo` returned. -/
structure Timely (s : State ι) : Prop where
  once : (s.invoked.map fun e => e.callback.call).Nodup
  in_time : ∀ e ∈ s.invoked, e.overtaken = false ∧ e.late = false

/-- The slot on which the thread is between its test and the end of its section. -/
def InvokerPc.inside : InvokerPc → Option ℕ
  | .call k _ | .clear k => some k
  | _ => none

def CallerPc.inside : CallerPc → Option ℕ
  | .storeTs _ k | .storeFunc _ k | .reject _ k => some k
  | _ => none

/-- The slot that the next step tests. -/
def InvokerPc.tests : InvokerPc → Option ℕ
  | .test k _ => some k
  | _ => none

def CallerPc.tests : CallerPc → Option ℕ
  | .test _ k => some k
  | _ => none

/-- The condition on one step: a thread tests a slot only while no other is inside its
section on that slot. -/
def Exclusive : Action ι → State ι → Prop
  | .invoker w, s => ∀ k ∈ (s.invoker w).tests,
      (∀ w', (s.invoker w').inside ≠ some k) ∧ ∀ i, (s.caller i).pc.inside ≠ some k
  | .caller i _, s => ∀ k ∈ (s.caller i).pc.tests, ∀ w, (s.invoker w).inside ≠ some k
  | _, _ => True

instance [Fintype ι] : (a : Action ι) → (s : State ι) → Decidable (Exclusive a s)
  | .invoker w, s => inferInstanceAs (Decidable (∀ k ∈ (s.invoker w).tests,
      (∀ w', (s.invoker w').inside ≠ some k) ∧ ∀ i, (s.caller i).pc.inside ≠ some k))
  | .caller i _, s => inferInstanceAs (Decidable
      (∀ k ∈ (s.caller i).pc.tests, ∀ w, (s.invoker w).inside ≠ some k))
  | .handleCallback _ _, _ | .check _ _, _ | .allocErizo _, _ => inferInstanceAs (Decidable True)

end AMQPRPC.Callbacks
