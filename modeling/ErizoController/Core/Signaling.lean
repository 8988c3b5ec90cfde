import ErizoController.Core.Handlers

/-!
# Signaling messages of any shape

The task of `onSignalingMessage` on any parsed text. The checks of the seven types let three
shapes of message through that the accessors after them do not bear: a top-level array, SSRCs
that are no integers of 32 bits, and a `roomId` of a ready message that is no string.
-/

namespace ErizoController

open Json

/-- The type of a member that a message requires. -/
inductive MemberType where
  | string
  | uint32
  deriving DecidableEq

/-- The value has the type. -/
def MemberType.Holds : MemberType → Value → Prop
  | .string, .stringValue _ => True
  | .uint32, .intValue i => 0 ≤ i ∧ i < 2 ^ 32
  | .uint32, .uintValue n => n < 2 ^ 32
  | _, _ => False

/-- The members that a message of a type requires. -/
def requiredMembers (type : String) : List (String × MemberType) :=
  if type = "started" then [("agentId", .string), ("erizoId", .string), ("streamId", .string)]
  else if type = "publisher_answer" then
    [("streamId", .string), ("sdp", .string), ("roomId", .string), ("videoSSRC", .uint32),
      ("audioSSRC", .uint32)]
  else if type = "subscriber_answer" then
    [("streamId", .string), ("sdp", .string), ("erizoId", .string)]
  else if type = "ready" then [("streamId", .string), ("roomId", .string)]
  else if type = "new_publisher" then [("label", .string), ("streamId", .string)]
  else if type = "remove_subscriber" then [("streamId", .string)]
  else []

/-- The member is there and has the type. -/
def HasMember (data : Value) (m : String × MemberType) : Prop :=
  ∃ v, data.member? m.1 = some v ∧ m.2.Holds v

/-- The data of a message has all that its type requires. -/
def Complete (type : String) (data : Value) : Prop :=
  ∀ m ∈ requiredMembers type, HasMember data m

def WellFormed (root : Value) : Prop :=
  ∃ data type client_id, root.object? "data" = some data ∧ data.string? "type" = some type ∧
    data.string? "clientId" = some client_id ∧ Complete type data

theorem hasMember_string {data : Value} {key : String} :
    HasMember data (key, .string) ↔ ∃ s, data.string? key = some s := by
  constructor
  · rintro ⟨v, hv, htype⟩
    cases v with
    | stringValue s => exact ⟨s, by rw [Value.string?, hv]⟩
    | _ => exact htype.elim
  · rintro ⟨s, hs⟩
    rw [Value.string?] at hs
    split at hs
    · rename_i s' hv
      exact ⟨.stringValue s', hv, trivial⟩
    · cases hs

theorem MemberType.asUInt_of_holds {v : Value} (h : MemberType.uint32.Holds v) :
    ∃ n, v.asUInt = some n := by
  cases v with
  | intValue i => exact ⟨_, if_pos h⟩
  | uintValue n => exact ⟨_, if_pos h⟩
  | _ => exact h.elim

/-! ## Tasks that neither throw nor act on what is not complete -/

/-- The task returns, whatever it is replied, and does nothing unless `ok`. -/
def SafeTask (p : Session Bool) (ok : Prop) : Prop :=
  p.Returns (fun returned => returned = true) ∧ (¬ ok → p = pure true)

theorem safeTask_pure {ok : Prop} : SafeTask (pure true) ok := ⟨rfl, fun _ => rfl⟩

theorem not_safeTask_pure {ok : Prop} : ¬ SafeTask (pure false) ok := fun h => by cases h.1

/-- A handler that cannot throw is safe when it does nothing unless `ok`. -/
theorem safeTask_lift {p : Handler Unit} {ok : Prop} (h : ¬ ok → p = pure ()) :
    SafeTask (do p; return true) ok := by
  refine ⟨(Script.returns_true _).bind fun _ _ => rfl, fun hok => ?_⟩
  rw [h hok]
  rfl

theorem withLock_bind_ne_pure {α β : Type} (room_id : String) (body : Handler α)
    (f : Option α → Session β) (b : β) : (Script.withLock room_id body >>= f) ≠ pure b :=
  fun h => by cases h

theorem complete_strings {type : String} {data : Value} (keys : List String)
    (h : requiredMembers type = keys.map fun key => (key, .string)) :
    Complete type data ↔ ∀ key ∈ keys, ∃ s, data.string? key = some s := by
  rw [Complete, h, List.forall_mem_map]
  exact forall₂_congr fun key _ => hasMember_string

theorem started_of_not_complete {client_id : String} {data : Value}
    (h : ¬ Complete "started" data) : started client_id data = pure () := by
  rw [started]
  split
  · rename_i agent_id erizo_id stream_id hagent herizo hstream
    refine absurd ((complete_strings ["agentId", "erizoId", "streamId"] rfl).mpr ?_) h
    simp only [List.forall_mem_cons, hagent, herizo, hstream]
    simp
  · rfl

theorem subscriberAnswer_of_not_complete {client_id : String} {data : Value}
    (h : ¬ Complete "subscriber_answer" data) : subscriberAnswer client_id data = pure () := by
  rw [subscriberAnswer]
  split
  · rename_i stream_id sdp erizo_id hstream hsdp herizo
    refine absurd ((complete_strings ["streamId", "sdp", "erizoId"] rfl).mpr ?_) h
    simp only [List.forall_mem_cons, hstream, hsdp, herizo]
    simp
  · rfl

theorem newPublisherEvent_of_not_complete {client_id : String} {data : Value}
    (h : ¬ Complete "new_publisher" data) : newPublisherEvent client_id data = pure () := by
  rw [newPublisherEvent]
  split
  · rename_i label stream_id hlabel hstream
    refine absurd ((complete_strings ["label", "streamId"] rfl).mpr ?_) h
    simp only [List.forall_mem_cons, hlabel, hstream]
    simp
  · rfl

theorem removeSubscriberEvent_of_not_complete {client_id : String} {data : Value}
    (h : ¬ Complete "remove_subscriber" data) :
    removeSubscriberEvent client_id data = pure () := by
  rw [removeSubscriberEvent]
  split
  · rename_i stream_id hstream
    refine absurd ((complete_strings ["streamId"] rfl).mpr ?_) h
    simp only [List.forall_mem_cons, hstream]
    simp
  · rfl

/-! ## The two types whose checks let something through -/

/-- If the answer of a publisher passes the checks, its SSRCs are integers of 32 bits. -/
def AnswerTyped (data : Value) : Prop :=
  ∀ stream_id sdp room_id videoSSRC audioSSRC, data.string? "streamId" = some stream_id →
    data.string? "sdp" = some sdp → data.string? "roomId" = some room_id →
    data.member? "videoSSRC" = some videoSSRC → data.member? "audioSSRC" = some audioSSRC →
    MemberType.uint32.Holds videoSSRC ∧ MemberType.uint32.Holds audioSSRC

/-- If a ready message passes the checks, its `roomId` is a string or missing. -/
def ReadyTyped (data : Value) : Prop :=
  ∀ stream_id roomId, data.string? "streamId" = some stream_id →
    data.member? "roomId" = some roomId → MemberType.string.Holds roomId

theorem complete_publisher_answer {data : Value} (h : Complete "publisher_answer" data)
    {videoSSRC audioSSRC : Value} (hvideo : data.member? "videoSSRC" = some videoSSRC)
    (haudio : data.member? "audioSSRC" = some audioSSRC) :
    MemberType.uint32.Holds videoSSRC ∧ MemberType.uint32.Holds audioSSRC := by
  have hholds : ∀ {key v}, (key, MemberType.uint32) ∈ requiredMembers "publisher_answer" →
      data.member? key = some v → MemberType.uint32.Holds v := by
    intro key v hmem hv
    obtain ⟨v', hv', htype⟩ := h _ hmem
    rw [hv] at hv'
    exact Option.some.inj hv' ▸ htype
  exact ⟨hholds (by decide) hvideo, hholds (by decide) haudio⟩

theorem safeTask_publisherAnswer (client_id : String) (data : Value) :
    SafeTask (publisherAnswer client_id data) (Complete "publisher_answer" data) ↔
      AnswerTyped data := by
  constructor
  · intro hsafe stream_id sdp room_id videoSSRC audioSSRC hstream hsdp hroom hvideo haudio
    by_contra hholds
    have hpure := hsafe.2 fun h => hholds (complete_publisher_answer h hvideo haudio)
    rw [publisherAnswer, hstream, hsdp, hroom, hvideo, haudio] at hpure
    dsimp only at hpure
    split at hpure
    · exact withLock_bind_ne_pure _ _ _ _ hpure
    · cases hpure
  · intro htyped
    rw [publisherAnswer]
    split
    · rename_i stream_id sdp room_id videoSSRC audioSSRC hstream hsdp hroom hvideo haudio
      obtain ⟨hv, ha⟩ := htyped _ _ _ _ _ hstream hsdp hroom hvideo haudio
      obtain ⟨video_ssrc, hvideo'⟩ := MemberType.asUInt_of_holds hv
      obtain ⟨audio_ssrc, haudio'⟩ := MemberType.asUInt_of_holds ha
      have hcomplete : Complete "publisher_answer" data := by
        intro m hm
        rcases List.mem_cons.mp hm with rfl | hm
        · exact hasMember_string.mpr ⟨_, hstream⟩
        rcases List.mem_cons.mp hm with rfl | hm
        · exact hasMember_string.mpr ⟨_, hsdp⟩
        rcases List.mem_cons.mp hm with rfl | hm
        · exact hasMember_string.mpr ⟨_, hroom⟩
        rcases List.mem_cons.mp hm with rfl | hm
        · exact ⟨_, hvideo, hv⟩
        rcases List.mem_cons.mp hm with rfl | hm
        · exact ⟨_, haudio, ha⟩
        cases hm
      rw [hvideo', haudio']
      refine ⟨(Script.returns_true _).bind fun stored _ => ?_, fun h => absurd hcomplete h⟩
      split
      · exact (Script.returns_true _).bind fun _ _ => rfl
      · rfl
    · exact safeTask_pure

theorem safeTask_ready (self : ErizoController) (client_id : String) (data : Value) :
    SafeTask (self.ready client_id data) (Complete "ready" data) ↔ ReadyTyped data := by
  constructor
  · intro hsafe stream_id roomId hstream hroom
    by_contra hholds
    have hpure := hsafe.2 fun h => by
      obtain ⟨v, hv, htype⟩ := h ("roomId", .string) (by decide)
      rw [hroom] at hv
      exact hholds (Option.some.inj hv ▸ htype)
    rw [ready, hstream, hroom] at hpure
    dsimp only at hpure
    split at hpure
    · cases hpure
    · exact withLock_bind_ne_pure _ _ _ _ hpure
  · intro htyped
    rw [ready]
    split
    · exact safeTask_pure
    · rename_i stream_id hstream
      split
      · exact safeTask_pure
      · rename_i roomId hroom
        have htype := htyped _ _ hstream hroom
        cases roomId with
        | stringValue room_id =>
            have hcomplete : Complete "ready" data :=
              (complete_strings ["streamId", "roomId"] rfl).mpr (by
                have hroom' : data.string? "roomId" = some room_id := by
                  rw [Value.string?, hroom]
                simp only [List.forall_mem_cons, hstream, hroom']
                simp)
            exact ⟨(Script.returns_true _).bind fun _ _ => rfl, fun h => absurd hcomplete h⟩
        | _ => exact htype.elim

/-! ## All types -/

/-- The task of a signaling message, on the outcome of the reader. -/
def signalingTask (self : ErizoController) : Option Value → Session Bool
  | none => return true
  | some root => self.onSignalingMessage root

/-- The task of the message returns, and does nothing if the message is not well formed. -/
def SignalingSafe (self : ErizoController) (parsed : Option Value) : Prop :=
  SafeTask (self.signalingTask parsed) (∃ root, parsed = some root ∧ WellFormed root)

/-- A message whose top level is no array and for which the two types are as typed as they
need to be. -/
def Bearable (parsed : Option Value) : Prop :=
  ∀ root, parsed = some root → (root.isNull = true ∨ root.isObject = true) ∧
    ∀ data type client_id, root.object? "data" = some data → data.string? "type" = some type →
      data.string? "clientId" = some client_id →
      (type = "publisher_answer" → AnswerTyped data) ∧ (type = "ready" → ReadyTyped data)

/-- What a message of a type does, once the checks of the top level have passed. -/
theorem safeTask_type (self : ErizoController) {root data : Value} {type client_id : String}
    (hroot : root.isNull = true ∨ root.isObject = true) (hdata : root.object? "data" = some data)
    (htype : data.string? "type" = some type)
    (hclient : data.string? "clientId" = some client_id) :
    SafeTask (self.onSignalingMessage root) (Complete type data) ↔
      (type = "publisher_answer" → AnswerTyped data) ∧ (type = "ready" → ReadyTyped data) := by
  rw [onSignalingMessage, if_neg (not_not.mpr hroot), hdata]
  dsimp only
  rw [htype, hclient]
  dsimp only
  have hother : type ≠ "publisher_answer" → type ≠ "ready" →
      (type = "publisher_answer" → AnswerTyped data) ∧ (type = "ready" → ReadyTyped data) :=
    fun hanswer hready => ⟨fun h => absurd h hanswer, fun h => absurd h hready⟩
  split_ifs with hstarted hanswer hsubscriber hready hnew hremove hquit
  · subst hstarted
    exact iff_of_true (safeTask_lift started_of_not_complete) (hother (by decide) (by decide))
  · subst hanswer
    rw [safeTask_publisherAnswer]
    exact ⟨fun h => ⟨fun _ => h, fun h => absurd h (by decide)⟩, fun h => h.1 rfl⟩
  · subst hsubscriber
    exact iff_of_true (safeTask_lift subscriberAnswer_of_not_complete)
      (hother (by decide) (by decide))
  · subst hready
    rw [safeTask_ready]
    exact ⟨fun h => ⟨fun h => absurd h (by decide), fun _ => h⟩, fun h => h.2 rfl⟩
  · subst hnew
    exact iff_of_true (safeTask_lift newPublisherEvent_of_not_complete)
      (hother (by decide) (by decide))
  · subst hremove
    exact iff_of_true (safeTask_lift removeSubscriberEvent_of_not_complete)
      (hother (by decide) (by decide))
  · subst hquit
    have hcomplete : Complete "notifyErizoProcessQuit" data := fun m hm => by cases hm
    exact iff_of_true (safeTask_lift fun h => absurd hcomplete h)
      (hother (by decide) (by decide))
  · exact iff_of_true safeTask_pure (hother hanswer hready)

/-- A message without data, type or client id does nothing. -/
theorem onSignalingMessage_head (self : ErizoController) {root : Value}
    (hroot : root.isNull = true ∨ root.isObject = true) :
    (∃ data type client_id, root.object? "data" = some data ∧ data.string? "type" = some type ∧
      data.string? "clientId" = some client_id) ∨
    (self.onSignalingMessage root = pure true ∧ ∀ data type client_id,
      root.object? "data" = some data → data.string? "type" = some type →
      data.string? "clientId" ≠ some client_id) := by
  rw [onSignalingMessage, if_neg (not_not.mpr hroot)]
  cases hdata : root.object? "data" with
  | none => exact .inr ⟨rfl, fun data type client_id h => by cases h⟩
  | some data =>
      dsimp only
      split
      · rename_i type client_id htype hclient
        exact .inl ⟨data, type, client_id, rfl, htype, hclient⟩
      · rename_i hnone
        refine .inr ⟨rfl, fun data' type client_id h htype hclient => ?_⟩
        obtain rfl := Option.some.inj h
        exact hnone type client_id htype hclient

/-- The task of a message is safe exactly when the message is bearable. -/
theorem signaling_safe_iff (self : ErizoController) (parsed : Option Value) :
    self.SignalingSafe parsed ↔ Bearable parsed := by
  cases parsed with
  | none => exact iff_of_true safeTask_pure fun root h => by cases h
  | some root =>
      by_cases hroot : root.isNull = true ∨ root.isObject = true
      · rcases onSignalingMessage_head self hroot with
          ⟨data, type, client_id, hdata, htype, hclient⟩ | ⟨hpure, hnone⟩
        · have hwell : (∃ root', some root = some root' ∧ WellFormed root') ↔
            Complete type data := by
            constructor
            · rintro ⟨root', h, data', type', client_id', hdata', htype', -, hcomplete⟩
              obtain rfl := Option.some.inj h
              obtain rfl := Option.some.inj (hdata.symm.trans hdata')
              obtain rfl := Option.some.inj (htype.symm.trans htype')
              exact hcomplete
            · intro hcomplete
              exact ⟨root, rfl, data, type, client_id, hdata, htype, hclient, hcomplete⟩
          rw [SignalingSafe, hwell, signalingTask, safeTask_type self hroot hdata htype hclient]
          constructor
          · intro htyped root' h
            obtain rfl := Option.some.inj h
            refine ⟨hroot, fun data' type' client_id' hdata' htype' _ => ?_⟩
            obtain rfl := Option.some.inj (hdata.symm.trans hdata')
            obtain rfl := Option.some.inj (htype.symm.trans htype')
            exact htyped
          · intro h
            exact (h root rfl).2 data type client_id hdata htype hclient
        · refine iff_of_true ?_ fun root' h => ?_
          · rw [SignalingSafe, signalingTask, hpure]
            exact safeTask_pure
          · obtain rfl := Option.some.inj h
            exact ⟨hroot, fun data type client_id hdata htype hclient =>
              absurd hclient (hnone data type client_id hdata htype)⟩
      · refine iff_of_false ?_ fun h => hroot (h root rfl).1
        rw [SignalingSafe, signalingTask, onSignalingMessage, if_pos hroot]
        exact not_safeTask_pure

/-- The text of a message of client "c" with these members. -/
def sampleSignaling (type : String) (members : List (String × Value)) : Value :=
  .objectValue [("data", .objectValue
    ([("type", .stringValue type), ("clientId", .stringValue "c")] ++ members))]

/-- A publisher's answer on stream "x" with this video SSRC. -/
def sampleAnswerOf (videoSSRC : Value) : Value :=
  sampleSignaling "publisher_answer" [("streamId", .stringValue "x"), ("sdp", .stringValue ""),
    ("roomId", .stringValue "r"), ("videoSSRC", videoSSRC), ("audioSSRC", .intValue 1)]

/-- A top-level array, an SSRC that is a string and a room id that is an array throw; an SSRC
that is a boolean is written to the store. -/
theorem signaling_throws :
    (ErizoController.ofId "ec").signalingTask (some (.arrayValue [])) = pure false ∧
      (ErizoController.ofId "ec").signalingTask (some (sampleAnswerOf (.stringValue ""))) =
        pure false ∧
      (ErizoController.ofId "ec").signalingTask (some (sampleSignaling "ready"
        [("streamId", .stringValue "x"), ("roomId", .arrayValue [])])) = pure false ∧
      ¬ (ErizoController.ofId "ec").SignalingSafe (some (sampleAnswerOf (.booleanValue true))) := by
  refine ⟨rfl, rfl, rfl, fun h => ?_⟩
  have hill : ¬ ∃ root, some (sampleAnswerOf (.booleanValue true)) = some root ∧
    WellFormed root := by
    rintro ⟨root, hroot, data, type, client_id, hdata, htype, -, hcomplete⟩
    obtain rfl := Option.some.inj hroot
    obtain rfl := Option.some.inj hdata
    obtain rfl := Option.some.inj htype
    obtain ⟨v, hv, huint⟩ := hcomplete ("videoSSRC", .uint32) (by decide)
    obtain rfl := Option.some.inj hv
    exact huint
  exact withLock_bind_ne_pure _ _ _ _ (h.2 hill)

end ErizoController
