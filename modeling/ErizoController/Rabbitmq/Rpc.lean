import Mathlib.Data.List.Basic
import Mathlib.Logic.Function.Basic
import ErizoController.Library.Machine
import ErizoController.Model.Json

/-!
# AMQPRPC

The requests of one `AMQPRPC` and their replies. `rpc`, `handleCallback` and the check
of one slot are one step each. The correlation id of a request is the number of a slot
of `cb_queue_`, and the slot counter wraps at 32 bits, so the slots are used in turn.

Calls of `rpc` are numbered in the order in which they take the counter, and the
callback passed to call `n` is named `n`. The ghost fields record what the callbacks
saw: which call a callback belongs to, the data it was given, and for a reply the call
whose message it answers.
-/

namespace AMQPRPC

open Json

def kQueueSize : ℕ := 256

structure AMQPCallback where
  ts : ℕ := 0
  func : ℕ := 0
  dump : Value := .nullValue

/-- A message of `send_queue_`, with the call that pushed it. -/
structure Request where
  call : ℕ
  corrID : ℕ
  data : Value

/-- One invocation of a callback; `answers` is the call the data is the reply to. -/
structure Invocation where
  callback : ℕ
  data : Value
  answers : Option ℕ

structure State where
  index_ : ℕ := 0
  cb_queue_ : ℕ → AMQPCallback := fun _ => {}
  calls : ℕ := 0
  sent : List Request := []
  invoked : List Invocation := []
  /-- The calls whose callback was failed because their slot was occupied. -/
  rejected : List ℕ := []

inductive Event where
  /-- A call of `rpc` at the steady clock reading `now`. -/
  | rpc (now : ℕ) (data : Value)
  /-- The broker delivers the reply `data` to the message of a call. -/
  | reply (call : ℕ) (data : Value)
  /-- The check thread looks at one slot. -/
  | check (slot : ℕ) (now : ℕ)

def State.setSlot (s : State) (k : ℕ) (cb : AMQPCallback) : State :=
  { s with cb_queue_ := Function.update s.cb_queue_ k cb }

@[simp] theorem State.setSlot_self (s : State) (k : ℕ) (cb : AMQPCallback) :
    (s.setSlot k cb).cb_queue_ k = cb := by
  simp [State.setSlot]

theorem State.setSlot_ne (s : State) {k j : ℕ} (cb : AMQPCallback) (h : j ≠ k) :
    (s.setSlot k cb).cb_queue_ j = s.cb_queue_ j := by
  simp [State.setSlot, h]

/-- `cb.func(data); cb.ts = 0`. -/
def State.invoke (s : State) (k : ℕ) (data : Value) (answers : Option ℕ) : State :=
  { s.setSlot k { s.cb_queue_ k with ts := 0 } with
    invoked := ⟨(s.cb_queue_ k).func, data, answers⟩ :: s.invoked }

def rpc (now : ℕ) (data : Value) (s : State) : State :=
  let corrid := s.index_ % kQueueSize
  let s₁ : State :=
    if (s.cb_queue_ corrid).ts = 0 then
      s.setSlot corrid { ts := now, func := s.calls, dump := data }
    else
      { s with
        invoked := ⟨s.calls, .nullValue, none⟩ :: s.invoked
        rejected := s.calls :: s.rejected }
  -- the branch that fails the callback falls through to the send
  { s₁ with
    index_ := (s.index_ + 1) % 2 ^ 32
    calls := s.calls + 1
    sent := ⟨s.calls, corrid, data⟩ :: s.sent }

/-- `handleCallback` on a parsed message; `answers` is the call it is the reply to. -/
def handleCallback (answers : ℕ) (root : Value) (s : State) : State :=
  match root.int? "corrID", root.object? "data" with
  | some corrid, some data =>
      if corrid < 0 ∨ (kQueueSize : ℤ) < corrid then s
      else if 0 < (s.cb_queue_ corrid.toNat).ts then s.invoke corrid.toNat data (some answers)
      else s
  | _, _ => s

/-- The check of one slot: the age is an unsigned 64-bit difference. -/
def checkSlot (timeout : ℕ) (k now : ℕ) (s : State) : State :=
  if 0 < (s.cb_queue_ k).ts ∧ timeout < (now + 2 ^ 64 - (s.cb_queue_ k).ts) % 2 ^ 64 then
    s.invoke k .nullValue none
  else s

/-- The reply an agent sends: the correlation id of the request and its data. -/
def replyTo (corrID : ℕ) (data : Value) : Value :=
  .objectValue [("corrID", .intValue corrID), ("data", data)]

def step (timeout : ℕ) : Event → State → Option State
  | .rpc now data, s => if now < 2 ^ 64 then some (rpc now data s) else none
  | .reply call data, s =>
      (s.sent.find? fun r => r.call == call).map fun r =>
        handleCallback call (replyTo r.corrID data) s
  | .check slot now, s =>
      if slot < kQueueSize ∧ now < 2 ^ 64 then some (checkSlot timeout slot now s) else none

def machine (timeout : ℕ) : Machine Event State where
  init s := s = {}
  step := step timeout

/-! ## Replies and the requests they answer -/

/-- Data other than null is only ever passed to the callback of the call whose message
it is the reply to, and a call that was failed because of an occupied slot has sent no
message. -/
structure RepliesMatch (s : State) : Prop where
  answers : ∀ e ∈ s.invoked, e.data.isNull = false → e.answers = some e.callback
  silent : ∀ n ∈ s.rejected, ∀ r ∈ s.sent, r.call ≠ n

/-- The condition on one step: `rpc` finds its slot free, and a well-formed reply finds
its slot idle or not used again since the call it answers. -/
def PromptReply : Event → State → Prop
  | .rpc _ _, s => (s.cb_queue_ (s.index_ % kQueueSize)).ts = 0
  | .reply call data, s =>
      data.isObject = true → (s.cb_queue_ (call % kQueueSize)).ts = 0 ∨ s.calls ≤ call + kQueueSize
  | .check _ _, _ => True

instance : (e : Event) → (s : State) → Decidable (PromptReply e s)
  | .rpc _ _, s => inferInstanceAs (Decidable ((s.cb_queue_ (s.index_ % kQueueSize)).ts = 0))
  | .reply call data, s =>
      inferInstanceAs (Decidable (data.isObject = true →
        (s.cb_queue_ (call % kQueueSize)).ts = 0 ∨ s.calls ≤ call + kQueueSize))
  | .check _ _, _ => inferInstanceAs (Decidable True)

/-- The slots follow the calls: a pending slot belongs to the last call that used it,
and the messages carry the slots of their calls. -/
structure Slots (s : State) : Prop where
  index : s.index_ = s.calls % 2 ^ 32
  pending : ∀ k < kQueueSize, 0 < (s.cb_queue_ k).ts →
    (s.cb_queue_ k).func % kQueueSize = k ∧ (s.cb_queue_ k).func < s.calls ∧
      s.calls ≤ (s.cb_queue_ k).func + kQueueSize
  sent : ∀ r ∈ s.sent, r.call < s.calls ∧ r.corrID = r.call % kQueueSize
  rejected : ∀ n ∈ s.rejected, n < s.calls

theorem slots_init : Slots {} := by
  constructor <;> simp

theorem repliesMatch_init : RepliesMatch {} := by
  constructor <;> simp

/-- The slot of the next call is its number modulo the queue size: `2 ^ 32` is a
multiple of it, so the wrap of the counter does not show. -/
theorem Slots.corrid {s : State} (h : Slots s) : s.index_ % kQueueSize = s.calls % kQueueSize := by
  rw [h.index, kQueueSize]
  omega

/-- The last call on a slot is determined by the slot. -/
theorem eq_of_same_slot {m n calls : ℕ} (hslot : m % kQueueSize = n % kQueueSize)
    (hm : m < calls) (hm' : calls ≤ m + kQueueSize) (hn : n < calls)
    (hn' : calls ≤ n + kQueueSize) : m = n := by
  rw [kQueueSize] at *
  omega

@[simp] theorem replyTo_int (corrID : ℕ) (data : Value) :
    (replyTo corrID data).int? "corrID" = some (corrID : ℤ) := rfl

theorem replyTo_object (corrID : ℕ) (data : Value) :
    (replyTo corrID data).object? "data" = if data.isObject then some data else none := by
  simp [replyTo, Value.object?, Value.member?, Option.filter]

/-- A reply to the message of a call reaches the slot of that call, when it is pending
and the reply is well formed. -/
theorem handleCallback_replyTo {call corrID : ℕ} {data : Value} {s : State}
    (hcorr : corrID < kQueueSize) :
    handleCallback call (replyTo corrID data) s =
      if data.isObject ∧ 0 < (s.cb_queue_ corrID).ts then s.invoke corrID data (some call)
      else s := by
  have hrange : ¬ ((corrID : ℤ) < 0 ∨ (kQueueSize : ℤ) < corrID) := by omega
  rw [handleCallback, replyTo_int, replyTo_object]
  cases data.isObject with
  | false => rfl
  | true => simp only [if_true, if_neg hrange, Int.toNat_natCast, true_and]

/-- What one step can do. -/
theorem step_cases {timeout : ℕ} {e : Event} {s s' : State} (h : step timeout e s = some s') :
    (∃ now data, e = .rpc now data ∧ s' = rpc now data s) ∨
    (∃ call data r, e = .reply call data ∧ r ∈ s.sent ∧ r.call = call ∧
      s' = handleCallback call (replyTo r.corrID data) s) ∨
    (∃ slot now, e = .check slot now ∧ slot < kQueueSize ∧ s' = checkSlot timeout slot now s) := by
  cases e with
  | rpc now data =>
      rw [step, Option.ite_none_right_eq_some] at h
      exact .inl ⟨now, data, rfl, (Option.some.inj h.2).symm⟩
  | reply call data =>
      obtain ⟨r, hr, hs⟩ := Option.map_eq_some_iff.mp h
      have hcall : r.call = call := by simpa using List.find?_some hr
      exact .inr (.inl ⟨call, data, r, rfl, List.mem_of_find?_eq_some hr, hcall, hs.symm⟩)
  | check slot now =>
      rw [step, Option.ite_none_right_eq_some] at h
      exact .inr (.inr ⟨slot, now, rfl, h.1.1, (Option.some.inj h.2).symm⟩)

/-! ### Invoking a callback -/

section Invoke

variable {s : State} {k : ℕ} {data : Value} {answers : Option ℕ}

/-- An invoked slot becomes idle and no other slot changes. -/
theorem pending_of_invoke {j : ℕ} (h : 0 < ((s.invoke k data answers).cb_queue_ j).ts) :
    (s.invoke k data answers).cb_queue_ j = s.cb_queue_ j := by
  by_cases hj : j = k
  · subst hj
    simp [State.invoke] at h
  · exact s.setSlot_ne _ hj

theorem Slots.invoke (h : Slots s) : Slots (s.invoke k data answers) where
  index := h.index
  pending := by
    intro j hj hts
    have hslot := pending_of_invoke hts
    rw [hslot] at hts ⊢
    exact h.pending j hj hts
  sent := h.sent
  rejected := h.rejected

theorem repliesMatch_invoke_iff :
    RepliesMatch (s.invoke k data answers) ↔
      RepliesMatch s ∧ (data.isNull = false → answers = some (s.cb_queue_ k).func) := by
  constructor
  · intro h
    refine ⟨⟨fun e he => h.answers e (List.mem_cons_of_mem _ he), h.silent⟩, ?_⟩
    exact h.answers ⟨_, data, answers⟩ List.mem_cons_self
  · rintro ⟨h, hnew⟩
    refine ⟨fun e he => ?_, h.silent⟩
    rcases List.mem_cons.mp he with rfl | he
    · exact hnew
    · exact h.answers e he

end Invoke

theorem isNull_of_isObject {data : Value} (h : data.isObject = true) : data.isNull = false := by
  cases data <;> simp_all [Value.isObject, Value.isNull]

/-! ### Each step keeps the slots, and the replies match under its condition -/

section Steps

variable {s : State} {now : ℕ} {data : Value}

/-- A call that finds its slot free occupies it. -/
theorem Slots.rpc (h : Slots s) (hfree : (s.cb_queue_ (s.index_ % kQueueSize)).ts = 0) :
    Slots (rpc now data s) := by
  have hcorr := h.corrid
  simp only [AMQPRPC.rpc, if_pos hfree]
  refine ⟨?_, ?_, ?_, fun n hn => Nat.lt_succ_of_lt (h.rejected n hn)⟩
  · simp only [h.index]
    omega
  · intro k hk hts
    by_cases hkc : k = s.index_ % kQueueSize
    · subst hkc
      simp only [State.setSlot_self]
      rw [kQueueSize] at *
      omega
    · simp only [s.setSlot_ne _ hkc] at hts ⊢
      obtain ⟨hslot, hlt, hlast⟩ := h.pending k hk hts
      -- the slot of the new call is another one, so `k` was used within the last round
      have hne : s.calls ≠ (s.cb_queue_ k).func + kQueueSize := by
        intro heq
        rw [hcorr, heq, Nat.add_mod_right] at hkc
        exact hkc hslot.symm
      omega
  · intro r hr
    rcases List.mem_cons.mp hr with rfl | hr
    · exact ⟨Nat.lt_succ_self _, hcorr⟩
    · exact ⟨Nat.lt_succ_of_lt (h.sent r hr).1, (h.sent r hr).2⟩

/-- A call keeps the replies matched exactly when it finds its slot free: the branch
that fails the callback goes on to send the message. -/
theorem repliesMatch_rpc_iff (h : Slots s) :
    RepliesMatch (rpc now data s) ↔
      RepliesMatch s ∧ (s.cb_queue_ (s.index_ % kQueueSize)).ts = 0 := by
  by_cases hfree : (s.cb_queue_ (s.index_ % kQueueSize)).ts = 0
  · rw [and_iff_left hfree]
    simp only [AMQPRPC.rpc, if_pos hfree]
    refine ⟨fun hm => ⟨hm.answers, fun n hn r hr => ?_⟩,
      fun hm => ⟨hm.answers, fun n hn r hr => ?_⟩⟩
    · exact hm.silent n hn r (List.mem_cons_of_mem _ hr)
    · rcases List.mem_cons.mp hr with rfl | hr
      · exact Nat.ne_of_gt (h.rejected n hn)
      · exact hm.silent n hn r hr
  · simp only [hfree, and_false, iff_false]
    intro hm
    simp only [AMQPRPC.rpc, if_neg hfree] at hm
    exact hm.silent s.calls List.mem_cons_self ⟨s.calls, _, data⟩ List.mem_cons_self rfl

/-- A reply keeps the replies matched exactly when it is dropped or its slot was not used
again since the call it answers. -/
theorem repliesMatch_reply_iff {r : Request} (h : Slots s) (hr : r ∈ s.sent) :
    RepliesMatch (handleCallback r.call (replyTo r.corrID data) s) ↔
      RepliesMatch s ∧ PromptReply (.reply r.call data) s := by
  obtain ⟨hlt, hcorr⟩ := h.sent r hr
  have hrange : r.corrID < kQueueSize := hcorr ▸ Nat.mod_lt _ (by decide)
  rw [handleCallback_replyTo hrange, PromptReply, ← hcorr]
  by_cases hreach : data.isObject = true ∧ 0 < (s.cb_queue_ r.corrID).ts
  · obtain ⟨hobj, hts⟩ := hreach
    obtain ⟨hslot, hflt, hlast⟩ := h.pending _ hrange hts
    rw [if_pos ⟨hobj, hts⟩, repliesMatch_invoke_iff, and_congr_right_iff]
    intro _
    have hown : r.call = (s.cb_queue_ r.corrID).func ↔ s.calls ≤ r.call + kQueueSize := by
      constructor
      · intro heq
        rwa [heq]
      · intro hle
        exact eq_of_same_slot (hslot.trans hcorr).symm hlt hle hflt hlast
    simp only [isNull_of_isObject hobj, hobj, forall_const, Option.some.injEq, hown,
      Nat.ne_of_gt hts, false_or]
  · rw [if_neg hreach, iff_self_and]
    intro _ hobj
    exact .inl (Nat.eq_zero_of_not_pos fun hts => hreach ⟨hobj, hts⟩)

theorem Slots.checkSlot {timeout slot : ℕ} (h : Slots s) : Slots
    (checkSlot timeout slot now s) := by
  rw [AMQPRPC.checkSlot]
  split
  · exact h.invoke
  · exact h

theorem repliesMatch_checkSlot_iff {timeout slot : ℕ} :
    RepliesMatch (checkSlot timeout slot now s) ↔ RepliesMatch s := by
  rw [checkSlot]
  split
  · simp [repliesMatch_invoke_iff, Value.isNull]
  · rfl

theorem Slots.handleCallback {call corrID : ℕ} (h : Slots s) (hcorr : corrID < kQueueSize) :
    Slots (handleCallback call (replyTo corrID data) s) := by
  rw [handleCallback_replyTo hcorr]
  split
  · exact h.invoke
  · exact h

end Steps

/-- Under the condition a step keeps the slots. -/
theorem Slots.step {timeout : ℕ} {e : Event} {s s' : State} (h : Slots s) (hP : PromptReply e s)
    (hstep : step timeout e s = some s') : Slots s' := by
  rcases step_cases hstep with ⟨now, data, rfl, rfl⟩ | ⟨call, data, r, rfl, hr, rfl, rfl⟩ |
    ⟨slot, now, rfl, -, rfl⟩
  · exact h.rpc hP
  · exact h.handleCallback ((h.sent r hr).2 ▸ Nat.mod_lt _ (by decide))
  · exact h.checkSlot

/-- A step keeps the replies matched exactly when it meets the condition. -/
theorem repliesMatch_step_iff {timeout : ℕ} {e : Event} {s s' : State} (h : Slots s)
    (hstep : step timeout e s = some s') :
    RepliesMatch s' ↔ RepliesMatch s ∧ PromptReply e s := by
  rcases step_cases hstep with ⟨now, data, rfl, rfl⟩ | ⟨call, data, r, rfl, hr, rfl, rfl⟩ |
    ⟨slot, now, rfl, -, rfl⟩
  · exact repliesMatch_rpc_iff h
  · exact repliesMatch_reply_iff h hr
  · rw [repliesMatch_checkSlot_iff, PromptReply, and_true]

/-- The logs only grow. -/
theorem step_logs {timeout : ℕ} {e : Event} {s s' : State} (h : step timeout e s = some s') :
    s.invoked ⊆ s'.invoked ∧ s.rejected ⊆ s'.rejected ∧ s.sent ⊆ s'.sent := by
  rcases step_cases h with ⟨now, data, rfl, rfl⟩ | ⟨call, data, r, rfl, hr, rfl, rfl⟩ |
    ⟨slot, now, rfl, -, rfl⟩
  · rw [rpc]
    split <;> simp [State.setSlot]
  · simp only [handleCallback, replyTo_int]
    repeat' split
    all_goals simp [State.invoke, State.setSlot]
  · rw [checkSlot]
    split <;> simp [State.invoke, State.setSlot]

theorem RepliesMatch.of_step {timeout : ℕ} {e : Event} {s s' : State}
    (hstep : step timeout e s = some s') (h : RepliesMatch s') : RepliesMatch s := by
  obtain ⟨hinvoked, hrejected, hsent⟩ := step_logs hstep
  exact ⟨fun e he => h.answers e (hinvoked he),
    fun n hn r hr => h.silent n (hrejected hn) r (hsent hr)⟩

/-- Replies go to the requests they answer, and a call failed because of an occupied slot
stays silent, exactly in the runs in which every call finds its slot free and every reply
finds its slot idle or not used again. -/
theorem replies_match_iff {timeout : ℕ} {es : List Event} {s s' : State}
    (hinit : (machine timeout).init s) (hrun : (machine timeout).run es s = some s') :
    RepliesMatch s' ↔ (machine timeout).Along PromptReply es s := by
  obtain rfl : s = {} := hinit
  refine Machine.run_iff_along (I := Slots) (P := PromptReply) ?_ ?_ ?_ slots_init
    repliesMatch_init hrun
  · intro e s s' hI hG hP hstep
    exact ⟨hI.step hP hstep, (repliesMatch_step_iff hI hstep).mpr ⟨hG, hP⟩⟩
  · intro e s s' hI _ hP hstep hG
    exact hP ((repliesMatch_step_iff hI hstep).mp hG).2
  · intro e s s' hstep hG
    exact hG.of_step hstep

/-- Two calls answered in the other order, and a third that times out. -/
def crossedReplies : List Event :=
  [.rpc 1 .nullValue, .rpc 2 .nullValue, .reply 1 (.objectValue []), .reply 0 (.objectValue []),
    .rpc 3 .nullValue, .check 2 2000]

theorem replies_match_crossed :
    ∃ s, (machine 1000).run crossedReplies {} = some s ∧
      s.invoked.map Invocation.callback = [2, 0, 1] ∧ RepliesMatch s := by
  have hrun : ((machine 1000).runChecked (fun e s => decide (PromptReply e s))
      crossedReplies {}).map (fun s => s.invoked.map Invocation.callback) = some [2, 0, 1] := by
    decide
  obtain ⟨s, hs, hcallbacks⟩ := Option.map_eq_some_iff.mp hrun
  obtain ⟨hrun, halong⟩ := Machine.run_of_runChecked (fun _ _ => of_decide_eq_true) hs
  have hinit : (machine 1000).init {} := rfl
  exact ⟨s, hrun, hcallbacks, (replies_match_iff hinit hrun).mpr halong⟩

/-- Call 0 times out, its slot is used again by call 256, and the late reply to call 0
is handed to the callback of call 256. -/
def lateReply : List Event :=
  (List.range 256).map (fun n => .rpc (n + 1) .nullValue) ++
    [.check 0 5000, .rpc 5001 .nullValue, .reply 0 (.objectValue [("erizoID", .stringValue "e")])]

theorem replies_match_fails_after_timeout :
    ∃ s, (machine 1000).run lateReply {} = some s ∧ ¬ RepliesMatch s := by
  have hrun : (((machine 1000).run lateReply {}).map fun s =>
      s.invoked.any fun e => !e.data.isNull && e.callback == 256 && e.answers == some 0) =
        some true := by decide +kernel
  obtain ⟨s, hs, hmixed⟩ := Option.map_eq_some_iff.mp hrun
  refine ⟨s, hs, fun h => ?_⟩
  obtain ⟨e, he, hmixed⟩ := List.any_eq_true.mp hmixed
  simp only [Bool.and_eq_true, Bool.not_eq_true', beq_iff_eq] at hmixed
  obtain ⟨⟨hnull, hcallback⟩, hanswers⟩ := hmixed
  have hown := h.answers e he hnull
  rw [hcallback, hanswers] at hown
  exact absurd hown (by decide)

end AMQPRPC
