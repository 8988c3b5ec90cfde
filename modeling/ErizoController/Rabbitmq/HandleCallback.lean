import ErizoController.Rabbitmq.Rpc

/-!
# Messages on the reply queue

`handleCallback` on any message, with the slots in a vector of `kQueueSize` elements. A
message can end the process in four ways: its root is an array, which has no members; its
correlation id is no `int`; the id is `kQueueSize` itself, which the range test lets pass; or
the callback of the slot throws, which runs here and reads the port of an erizo as an `int`.
-/

namespace AMQPRPC

open Json

/-- How a call of `handleCallback` ends: with an exception of jsoncpp, with an access
behind the slots, or with the slots and the callback it has invoked. -/
inductive Outcome where
  | throws
  | outOfBounds (corrid : ℕ)
  | returns (cb_queue_ : Vector AMQPCallback kQueueSize) (invoked : Option (ℕ × Value))

/-- The callback that `allocErizo` gives to `rpc`, the only one there is; `none` where it
throws. -/
def func (data : Value) : Option Unit :=
  match data.string? "erizoID", data.string? "bridgeIP", data.int? "bridgePort" with
  | some _, some _, some bridgePort => (Value.asInt bridgePort).map fun _ => ()
  | _, _, _ => some ()

/-- `handleCallback` on the outcome of the reader. -/
def receive (parsed : Option Value) (cb_queue_ : Vector AMQPCallback kQueueSize) : Outcome :=
  match parsed with
  | none => .returns cb_queue_ none
  | some root =>
      if ¬ (root.isNull ∨ root.isObject) then .throws
      else
        match root.int? "corrID", root.object? "data" with
        | some corrID, some data =>
            match Value.asInt corrID with
            | none => .throws
            | some corrid =>
                if corrid < 0 ∨ (kQueueSize : ℤ) < corrid then .returns cb_queue_ none
                else
                  match cb_queue_[corrid.toNat]? with
                  | none => .outOfBounds corrid.toNat
                  | some cb =>
                      if 0 < cb.ts then
                        match func data with
                        | none => .throws
                        | some () =>
                            .returns (cb_queue_.setIfInBounds corrid.toNat { cb with ts := 0 })
                              (some (corrid.toNat, data))
                      else .returns cb_queue_ none
        | _, _ => .returns cb_queue_ none

/-- The slot that a message names, where it is pending. -/
def Names (parsed : Option Value) (cb_queue_ : Vector AMQPCallback kQueueSize) (k : ℕ)
    (data : Value) : Prop :=
  ∃ root, parsed = some root ∧ root.int? "corrID" = some (k : ℤ) ∧ root.object? "data" = some data ∧
    ∃ cb, cb_queue_[k]? = some cb ∧ 0 < cb.ts

/-- The call ends; it invokes the callback of the pending slot that is named, which becomes
idle, and without such a slot it changes nothing. -/
def Safe (parsed : Option Value) (cb_queue_ : Vector AMQPCallback kQueueSize) : Prop :=
  ∃ after invoked, receive parsed cb_queue_ = .returns after invoked ∧
    (∀ k data, invoked = some (k, data) → Names parsed cb_queue_ k data ∧
      ∀ j, j ≠ k → after[j]? = cb_queue_[j]?) ∧
    ((∀ k data, ¬ Names parsed cb_queue_ k data) → after = cb_queue_ ∧ invoked = none)

/-- The port that the callback reads, if it reads one, is an `int`. -/
def PortFits (data : Value) : Prop :=
  ∀ erizoID bridgeIP bridgePort, data.string? "erizoID" = some erizoID →
    data.string? "bridgeIP" = some bridgeIP → data.int? "bridgePort" = some bridgePort →
      -2 ^ 31 ≤ bridgePort ∧ bridgePort < 2 ^ 31

theorem func_eq_some_iff {data : Value} : func data = some () ↔ PortFits data := by
  rw [func, PortFits]
  cases data.string? "erizoID" with
  | none => simp
  | some erizoID =>
      cases data.string? "bridgeIP" with
      | none => simp
      | some bridgeIP =>
          cases data.int? "bridgePort" with
          | none => simp
          | some bridgePort => simp [Value.asInt]

/-- A message that is handled: its root is no array, its correlation id, if the message is
well formed, is an `int` other than `kQueueSize`, and if it names a pending slot, the port of
its erizo is an `int`. -/
def Acceptable (parsed : Option Value) (cb_queue_ : Vector AMQPCallback kQueueSize) : Prop :=
  (∀ root, parsed = some root → (root.isNull = true ∨ root.isObject = true) ∧
    ∀ corrID data, root.int? "corrID" = some corrID → root.object? "data" = some data →
      (-2 ^ 31 ≤ corrID ∧ corrID < 2 ^ 31) ∧ corrID ≠ kQueueSize) ∧
  ∀ k data, Names parsed cb_queue_ k data → PortFits data

theorem getElem?_of_range (cb_queue_ : Vector AMQPCallback kQueueSize) {corrid : ℤ}
    (h : ¬ (corrid < 0 ∨ (kQueueSize : ℤ) < corrid)) (hne : corrid ≠ kQueueSize) :
    ∃ cb, cb_queue_[corrid.toNat]? = some cb := by
  have hlt : corrid.toNat < kQueueSize := by omega
  exact ⟨_, Vector.getElem?_eq_getElem hlt⟩

/-- On a message that names a pending slot its callback is run. -/
theorem receive_of_names {parsed : Option Value} {cb_queue_ : Vector AMQPCallback kQueueSize}
    {k : ℕ} {data : Value} (h : Names parsed cb_queue_ k data) :
    receive parsed cb_queue_ =
      match func data, cb_queue_[k]? with
      | some (), some cb =>
          .returns (cb_queue_.setIfInBounds k { cb with ts := 0 }) (some (k, data))
      | _, _ => .throws := by
  obtain ⟨root, rfl, hcorrID, hdata, cb, hcb, hts⟩ := h
  have hlt : k < kQueueSize := (Vector.getElem?_eq_some_iff.mp hcb).1
  have hroot : root.isNull = true ∨ root.isObject = true := by
    cases root with
    | objectValue members => exact .inr rfl
    | nullValue => exact .inl rfl
    | _ => cases hcorrID
  have hsize : kQueueSize ≤ 2 ^ 31 := by decide
  obtain ⟨corrID, hcorr⟩ : ∃ corrID : ℤ, corrID = k := ⟨_, rfl⟩
  have hnat : corrID.toNat = k := by omega
  have hasInt : Value.asInt corrID = some corrID := by
    rw [Value.asInt, if_pos ⟨by omega, by omega⟩]
  have hrange : ¬ (corrID < 0 ∨ (kQueueSize : ℤ) < corrID) := by omega
  rw [← hcorr] at hcorrID
  rw [receive, if_neg (not_not.mpr hroot), hcorrID, hdata]
  simp only [hasInt]
  rw [if_neg hrange, hnat, hcb]
  dsimp only
  rw [if_pos hts]
  cases func data with
  | none => rfl
  | some u => rfl

/-- A message is handled safely exactly when it is acceptable. -/
theorem safe_iff (parsed : Option Value) (cb_queue_ : Vector AMQPCallback kQueueSize) :
    Safe parsed cb_queue_ ↔ Acceptable parsed cb_queue_ := by
  constructor
  · rintro ⟨after, invoked, hreceive, -⟩
    refine ⟨?_, ?_⟩
    · rintro root rfl
      rw [receive] at hreceive
      split at hreceive
      · cases hreceive
      · rename_i hroot
        refine ⟨not_not.mp hroot, fun corrID data hcorrID hdata => ?_⟩
        rw [hcorrID, hdata] at hreceive
        dsimp only at hreceive
        by_cases hint : -2 ^ 31 ≤ corrID ∧ corrID < 2 ^ 31
        · refine ⟨hint, ?_⟩
          rintro rfl
          rw [Value.asInt, if_pos hint] at hreceive
          dsimp only at hreceive
          rw [if_neg (by omega)] at hreceive
          have hnone : cb_queue_[(kQueueSize : ℤ).toNat]? = none :=
            Vector.getElem?_eq_none (Nat.le_refl _)
          rw [hnone] at hreceive
          cases hreceive
        · rw [Value.asInt, if_neg hint] at hreceive
          cases hreceive
    · rintro k data hnames
      rw [receive_of_names hnames] at hreceive
      cases hfunc : func data with
      | none =>
          rw [hfunc] at hreceive
          cases hreceive
      | some u => exact func_eq_some_iff.mp hfunc
  · rintro ⟨h, hport⟩
    have hnothing : ∀ {after invoked}, after = cb_queue_ → invoked = none →
        (∀ k data, invoked = some (k, data) → Names parsed cb_queue_ k data ∧
          ∀ j, j ≠ k → after[j]? = cb_queue_[j]?) ∧
        ((∀ k data, ¬ Names parsed cb_queue_ k data) → after = cb_queue_ ∧ invoked = none) := by
      intro after invoked hafter hinvoked
      refine ⟨fun k data hsome => ?_, fun _ => ⟨hafter, hinvoked⟩⟩
      rw [hinvoked] at hsome
      cases hsome
    by_cases hnames : ∃ k data, Names parsed cb_queue_ k data
    · obtain ⟨k, data, hnames⟩ := hnames
      obtain ⟨cb, hcb⟩ : ∃ cb, cb_queue_[k]? = some cb := by
        obtain ⟨-, -, -, -, cb, hcb, -⟩ := hnames
        exact ⟨cb, hcb⟩
      have hreceive := receive_of_names hnames
      rw [func_eq_some_iff.mpr (hport k data hnames), hcb] at hreceive
      refine ⟨_, _, hreceive, fun j data' hinvoked => ?_, fun hnone => absurd hnames (hnone _ _)⟩
      obtain ⟨rfl, rfl⟩ := Prod.mk.inj (Option.some.inj hinvoked)
      exact ⟨hnames, fun j hj => Vector.getElem?_setIfInBounds_ne (Ne.symm hj)⟩
    · refine ⟨cb_queue_, none, ?_, hnothing rfl rfl⟩
      cases parsed with
      | none => rfl
      | some root =>
          obtain ⟨hroot, hcorr⟩ := h root rfl
          rw [receive, if_neg (not_not.mpr hroot)]
          cases hcorrID : root.int? "corrID" with
          | none => rfl
          | some corrID =>
              cases hdata : root.object? "data" with
              | none => rfl
              | some data =>
                  obtain ⟨hint, hne⟩ := hcorr corrID data hcorrID hdata
                  have hasInt : Value.asInt corrID = some corrID := by rw [Value.asInt, if_pos hint]
                  simp only [hasInt]
                  by_cases hrange : corrID < 0 ∨ (kQueueSize : ℤ) < corrID
                  · rw [if_pos hrange]
                  · rw [if_neg hrange]
                    obtain ⟨cb, hcb⟩ := getElem?_of_range cb_queue_ hrange hne
                    rw [hcb]
                    dsimp only
                    by_cases hts : 0 < cb.ts
                    · have hnat : ((corrID.toNat : ℕ) : ℤ) = corrID := by omega
                      exact absurd ⟨corrID.toNat, data, root, rfl, by rw [hnat, hcorrID], hdata, cb,
                        hcb, hts⟩ hnames
                    · rw [if_neg hts]

/-- The slots before any call. -/
def idleSlots : Vector AMQPCallback kQueueSize := Vector.replicate kQueueSize {}

/-- An array, a correlation id that is no `int`, the correlation id `kQueueSize`, and a reply
to a pending request with a port that is no `int`. -/
theorem message_ends_process :
    receive (some (.arrayValue [])) idleSlots = .throws ∧
      receive (some (.objectValue [("corrID", .intValue (-2 ^ 31 - 1)), ("data", .objectValue [])]))
        idleSlots = .throws ∧
      receive (some (.objectValue [("corrID", .intValue 256), ("data", .objectValue [])]))
        idleSlots =
        .outOfBounds 256 ∧
      receive (some (.objectValue [("corrID", .intValue 0), ("data", .objectValue
        [("erizoID", .stringValue "e"), ("bridgeIP", .stringValue "10.0.0.1"),
          ("bridgePort", .intValue (-2 ^ 31 - 1))])]))
        (idleSlots.setIfInBounds 0 { ts := 1 }) = .throws := by
  refine ⟨rfl, rfl, ?_, ?_⟩
  rotate_left
  · rw [receive_of_names (k := 0) ⟨_, rfl, rfl, rfl, { ts := 1 }, ?_, Nat.one_pos⟩]
    · rfl
    · rw [Vector.getElem?_setIfInBounds_self_of_lt (by decide)]
  have hnone : idleSlots[(256 : ℤ).toNat]? = none := Vector.getElem?_eq_none (Nat.le_refl _)
  have hreceive :
    receive (some (.objectValue [("corrID", .intValue 256), ("data", .objectValue [])]))
      idleSlots = match idleSlots[(256 : ℤ).toNat]? with
        | none => .outOfBounds (256 : ℤ).toNat
        | some cb =>
            if 0 < cb.ts then
              .returns (idleSlots.setIfInBounds (256 : ℤ).toNat { cb with ts := 0 })
                (some ((256 : ℤ).toNat, .objectValue []))
            else .returns idleSlots none := rfl
  rw [hreceive, hnone]
  rfl

/-! ## The same in the runs of `rpc` -/

/-- The slots of a state. -/
def State.slots (s : State) : Vector AMQPCallback kQueueSize :=
  Vector.ofFn fun k => s.cb_queue_ k

theorem State.slots_getElem? (s : State) {k : ℕ} (h : k < kQueueSize) :
    s.slots[k]? = some (s.cb_queue_ k) := by
  rw [Vector.getElem?_eq_getElem h, State.slots, Vector.getElem_ofFn]

/-- Where a message is handled, the state of `rpc` changes as its slots do. -/
theorem handleCallback_slots {answers : ℕ} {root : Value} {s : State}
    {after : Vector AMQPCallback kQueueSize} {invoked : Option (ℕ × Value)}
    (h : receive (some root) s.slots = .returns after invoked) :
    (handleCallback answers root s).slots = after := by
  rw [receive] at h
  split at h
  · cases h
  · rw [handleCallback]
    cases hcorrID : root.int? "corrID" with
    | none =>
        rw [hcorrID] at h
        exact (Outcome.returns.inj h).1
    | some corrID =>
        cases hdata : root.object? "data" with
        | none =>
            rw [hcorrID, hdata] at h
            exact (Outcome.returns.inj h).1
        | some data =>
            rw [hcorrID, hdata] at h
            dsimp only at h ⊢
            rw [Value.asInt] at h
            split at h
            · cases h
            · rename_i corrid hint
              split at hint
              · obtain rfl := Option.some.inj hint
                by_cases hrange : corrID < 0 ∨ (kQueueSize : ℤ) < corrID
                · rw [if_pos hrange] at h ⊢
                  exact (Outcome.returns.inj h).1
                · rw [if_neg hrange] at h ⊢
                  by_cases hlt : corrID.toNat < kQueueSize
                  · rw [s.slots_getElem? hlt] at h
                    dsimp only at h
                    by_cases hts : 0 < (s.cb_queue_ corrID.toNat).ts
                    · rw [if_pos hts] at h ⊢
                      cases hfunc : func data with
                      | none =>
                          rw [hfunc] at h
                          cases h
                      | some u =>
                      rw [hfunc] at h
                      rw [← (Outcome.returns.inj h).1]
                      refine Vector.ext fun j hj => ?_
                      rw [State.slots, Vector.getElem_ofFn, Vector.getElem_setIfInBounds]
                      split
                      · rename_i heq
                        subst heq
                        exact State.setSlot_self _ _ _
                      · rename_i hne
                        rw [State.slots, Vector.getElem_ofFn]
                        exact State.setSlot_ne _ _ (Ne.symm hne)
                    · rw [if_neg hts] at h ⊢
                      exact (Outcome.returns.inj h).1
                  · rw [Vector.getElem?_eq_none (Nat.le_of_not_lt hlt)] at h
                    cases h
              · cases hint

end AMQPRPC
