import ErizoController.Library.Decimal

/-!
# SocketIOClientHandler

The frames of a connection. An event frame is `42`, an id for the acknowledgement or none,
and the event. The id is read with `std::stoi`, which throws where there is no number or one
that is no `int`, and nothing catches it. The handler of the events is a parameter that
returns a text.
-/

namespace SocketIOClientHandler

open Decimal

abbrev Bytes := List UInt8

/-- A text of ASCII characters. -/
def text (s : String) : Bytes := s.toList.map fun c => UInt8.ofNat c.toNat

/-- `operator[]`: at the end of a string stands a zero. -/
def charAt (s : Bytes) (i : ℕ) : UInt8 := s.getD i 0

/-- `std::stoi`, `none` where it throws. -/
def stoi (s : Bytes) : Option ℤ :=
  (Decimal.read s).filter fun i => -2 ^ 31 ≤ i ∧ i < 2 ^ 31

/-- What `operator<<` writes of an `int`. -/
def writeInt : ℤ → Bytes
  | .ofNat n => dec n
  | .negSucc n => 45 :: dec (n + 1)

variable (on_message_hdl_ : Bytes → Bytes)

/-- The frames sent for a reply. -/
def sendReply (mid : Option ℤ) (res : Bytes) : List Bytes :=
  if res = text "disconnect" then [text "41"]
  else if res = text "keep" then []
  else [text "43" ++ (mid.elim [] writeInt ++ res)]

/-- The frames sent, `none` where an exception leaves the function. -/
def handleMessage (msg : Bytes) : Option (List Bytes) :=
  if charAt msg 1 ≠ 50 then some []
  else
    match msg.findIdx? (· == 91) with
    | none => some []
    | some pos =>
        if 2 < pos then
          (stoi ((msg.drop 2).take pos)).map fun mid =>
            sendReply (some mid) (on_message_hdl_ (msg.drop pos))
        else some (sendReply none (on_message_hdl_ (msg.drop pos)))

def onMessage (msg : Bytes) : Option (List Bytes) :=
  match charAt msg 0 with
  | 50 => some [text "3"]
  | 52 => handleMessage on_message_hdl_ msg
  | _ => some []

/-! ## Event frames -/

/-- An event frame: what stands for an id, and the event. -/
def eventFrame (id event : Bytes) : Bytes := 52 :: 50 :: (id ++ 91 :: event)

/-- The reply is sent back. -/
def Answers (res : Bytes) : Prop := res ≠ text "disconnect" ∧ res ≠ text "keep"

variable {on_message_hdl_}

theorem onMessage_eventFrame {id event : Bytes} (h : 91 ∉ id) :
    onMessage on_message_hdl_ (eventFrame id event) =
      if id = [] then some (sendReply none (on_message_hdl_ (91 :: event)))
      else (stoi id).map fun mid => sendReply (some mid) (on_message_hdl_ (91 :: event)) := by
  have hfind : (eventFrame id event).findIdx? (· == 91) = some (2 + id.length) := by
    have hid : id.findIdx? (· == 91) = none := by
      rw [List.findIdx?_eq_none_iff]
      intro b hb
      exact beq_false_of_ne fun heq => h (heq ▸ hb)
    have htail : (id ++ 91 :: event).findIdx? (· == 91) = some id.length := by
      rw [List.findIdx?_append, hid]
      simp [List.findIdx?_cons]
    rw [eventFrame, List.findIdx?_cons, List.findIdx?_cons, htail]
    exact congrArg some (Nat.add_comm id.length 2)
  have hdrop : (eventFrame id event).drop (2 + id.length) = 91 :: event := by
    rw [eventFrame, Nat.add_comm, List.drop_succ_cons, List.drop_succ_cons, List.drop_left]
  have hstoi : stoi (((eventFrame id event).drop 2).take (2 + id.length)) = stoi id := by
    have htake : ((eventFrame id event).drop 2).take (2 + id.length) =
        id ++ 91 :: event.take 1 := by
      rw [eventFrame, List.drop_succ_cons, List.drop_succ_cons, List.drop_zero, Nat.add_comm,
        List.take_length_add_append]
      rfl
    rw [htake, stoi, read_append (by decide) (by decide) (by decide) (by decide)]
    rfl
  have hframe : onMessage on_message_hdl_ (eventFrame id event) =
      handleMessage on_message_hdl_ (eventFrame id event) := rfl
  have htype : ¬ charAt (eventFrame id event) 1 ≠ 50 := not_not.mpr rfl
  rw [hframe, handleMessage, if_neg htype, hfind]
  dsimp only
  rw [hdrop, hstoi]
  by_cases hid : id = []
  · subst hid
    rfl
  · have hpos := List.length_pos_iff.mpr hid
    rw [if_pos (by omega), if_neg hid]

theorem cons_of_charAt {s : Bytes} {b : UInt8} (h : charAt s 0 = b) (hb : b ≠ 0) :
    ∃ t, s = b :: t := by
  cases s with
  | nil => exact absurd h.symm hb
  | cons a t => exact ⟨t, congrArg (· :: t) h⟩

/-- Any frame that is no event frame is handled. -/
theorem onMessage_other {msg : Bytes} (h : ∀ id event, 91 ∉ id → msg ≠ eventFrame id event) :
    ∃ frames, onMessage on_message_hdl_ msg = some frames := by
  rw [onMessage]
  split
  · exact ⟨_, rfl⟩
  · rename_i hframe
    rw [handleMessage]
    split
    · exact ⟨_, rfl⟩
    · rename_i htype
      obtain ⟨t, rfl⟩ := cons_of_charAt hframe (by decide)
      obtain ⟨t, rfl⟩ := cons_of_charAt (s := t) (not_not.mp htype) (by decide)
      by_cases hopen : 91 ∈ t
      · obtain ⟨id, event, rfl, hid⟩ := List.eq_append_cons_of_mem hopen
        exact absurd rfl (h id event hid)
      · have hnone : (52 :: 50 :: t).findIdx? (· == 91) = none := by
          rw [List.findIdx?_eq_none_iff]
          intro b hb
          simp only [List.mem_cons] at hb
          rcases hb with rfl | rfl | hb
          · rfl
          · rfl
          · exact beq_false_of_ne fun heq => hopen (heq ▸ hb)
        rw [hnone]
        exact ⟨_, rfl⟩
  · exact ⟨_, rfl⟩

/-! ## What a frame may rely on -/

/-- The handling of a frame ends without an exception, and the reply to an event frame
carries the id of the frame, if it has one. -/
structure Echoes (on_message_hdl_ : Bytes → Bytes) (msg : Bytes) : Prop where
  ends : ∃ frames, onMessage on_message_hdl_ msg = some frames
  id : ∀ n event, msg = eventFrame (dec n) event → Answers (on_message_hdl_ (91 :: event)) →
    onMessage on_message_hdl_ msg = some [text "43" ++ (dec n ++ on_message_hdl_ (91 :: event))]
  no_id : ∀ event, msg = eventFrame [] event → Answers (on_message_hdl_ (91 :: event)) →
    onMessage on_message_hdl_ msg = some [text "43" ++ on_message_hdl_ (91 :: event)]

/-- What stands for an id in an event frame begins with the numeral of an `int`. -/
def IntId (msg : Bytes) : Prop :=
  ∀ id event, msg = eventFrame id event → 91 ∉ id → id ≠ [] →
    ∃ i, Numeral id i ∧ -2 ^ 31 ≤ i ∧ i < 2 ^ 31

theorem stoi_eq_some_iff {s : Bytes} {i : ℤ} :
    stoi s = some i ↔ Numeral s i ∧ -2 ^ 31 ≤ i ∧ i < 2 ^ 31 := by
  rw [stoi, Option.filter_eq_some_iff, read_eq_some_iff, decide_eq_true_eq]

theorem open_not_mem_dec (n : ℕ) : 91 ∉ dec n := by
  intro hmem
  have hdigit := dec_digits n 91 hmem
  revert hdigit
  decide

/-- The reply that is sent. -/
theorem sendReply_of_answers {mid : Option ℤ} {res : Bytes} (h : Answers res) :
    sendReply mid res = [text "43" ++ (mid.elim [] writeInt ++ res)] := by
  rw [sendReply, if_neg h.1, if_neg h.2]

/-- A frame is handled as it should be exactly when what it has for an id begins with the
numeral of an `int`. -/
theorem echoes_iff (on_message_hdl_ : Bytes → Bytes) (msg : Bytes) :
    Echoes on_message_hdl_ msg ↔ IntId msg := by
  constructor
  · rintro ⟨⟨frames, hends⟩, -, -⟩ id event rfl hopen hid
    rw [onMessage_eventFrame hopen, if_neg hid] at hends
    obtain ⟨i, hi, -⟩ := Option.map_eq_some_iff.mp hends
    exact ⟨i, stoi_eq_some_iff.mp hi⟩
  · intro h
    refine ⟨?_, fun n event hmsg hanswers => ?_, fun event hmsg hanswers => ?_⟩
    · by_cases hevent : ∃ id event, 91 ∉ id ∧ msg = eventFrame id event
      · obtain ⟨id, event, hopen, rfl⟩ := hevent
        rw [onMessage_eventFrame hopen]
        by_cases hid : id = []
        · exact ⟨_, if_pos hid⟩
        · obtain ⟨i, hi⟩ := h id event rfl hopen hid
          rw [if_neg hid, stoi_eq_some_iff.mpr hi]
          exact ⟨_, rfl⟩
      · exact onMessage_other fun id event hopen heq => hevent ⟨id, event, hopen, heq⟩
    · obtain ⟨i, hnumeral, hrange⟩ := h _ event hmsg (open_not_mem_dec n) (dec_ne_nil n)
      obtain rfl : (n : ℤ) = i :=
        Option.some.inj ((read_dec n).symm.trans (read_of_numeral hnumeral))
      rw [hmsg, onMessage_eventFrame (open_not_mem_dec n), if_neg (dec_ne_nil n),
        stoi_eq_some_iff.mpr ⟨hnumeral, hrange⟩, Option.map_some, sendReply_of_answers hanswers]
      rfl
    · rw [hmsg, onMessage_eventFrame List.not_mem_nil, if_pos rfl, sendReply_of_answers hanswers]
      rfl

/-- A letter for an id, and an id of ten digits, end the process. -/
theorem id_throws :
    onMessage (fun _ => text "[]") (text "42a[]") = none ∧
      onMessage (fun _ => text "[]") (text "422147483648[]") = none ∧
      text "422147483648[]" = eventFrame (dec (2 ^ 31)) (text "]") := by
  decide

end SocketIOClientHandler
