import ErizoController.Model.JsonText

/-!
# What the readers accept

A record denotes the values under the names that its `toJSON` writes. A reader is exact on a
text when it reads the record that the text denotes, if there is one, and otherwise rejects the
text and leaves the record of its caller alone. The readers check types by hand and forget
some: each of them is exact on the texts that avoid what it forgets, and on no others.
-/

namespace Json

namespace Parsed

variable {α β : Type} {o : Option α}

theorem check_bind_ne_rejects {f : α → Parsed β} :
    (check o >>= f) ≠ rejects ↔ ∃ a, o = some a ∧ f a ≠ rejects := by
  cases o with
  | none => exact iff_of_false (fun h => h rfl) (by simp)
  | some a => simp

theorem convert_ne_rejects : convert o ≠ rejects := by
  cases o <;> simp [convert]

theorem convert_bind {f : α → Parsed β} {g : α → Option β} (h : ∀ a, f a = convert (g a)) :
    (convert o >>= f) = convert (o.bind g) := by
  cases o with
  | none => rfl
  | some a => rw [convert_some, reads_bind, h, Option.bind_some]

end Parsed

namespace Value

/-- A member that is present and a `uintValue`. -/
def uint? (root : Value) (key : String) : Option ℕ :=
  match root.member? key with
  | some (uintValue n) => some n
  | _ => none

/-- `root[key]`, which makes a null of a member that is absent. -/
def get (root : Value) (key : String) : Value := (root.member? key).getD nullValue

/-- `asInt` of any value, `none` where it throws. A real is cut off. -/
def asInt32 : Value → Option Int32
  | nullValue => some 0
  | intValue i => (asInt i).map Int32.ofInt
  | uintValue n => (asInt n).map Int32.ofInt
  | realValue x =>
      if -2 ^ 31 ≤ x ∧ x ≤ 2 ^ 31 - 1 then some (Int32.ofInt (x.num.tdiv x.den)) else none
  | booleanValue b => some (if b then 1 else 0)
  | _ => none

/-- `asUInt64` of a `uintValue`. -/
def asUInt64 (n : ℕ) : UInt64 := UInt64.ofNat n

/-! ## Numbers without their type -/

/-- A number without the type that the reader gave it. -/
def untyped : Value → Value
  | uintValue n => intValue n
  | v => v

def integer : Value → Option ℤ
  | intValue i => some i
  | uintValue n => some n
  | _ => none

/-- A member that is an integer of either type. -/
def integer? (root : Value) (key : String) : Option ℤ := (root.member? key).bind integer

/-- The members that a record would be written with are there, with the values it has. -/
def Denotes (root : Value) (members : List (String × Value)) : Prop :=
  root.isObject = true ∧ ∀ m ∈ members, (root.member? m.1).map untyped = some m.2.untyped

variable {root : Value} {key : String}

theorem untyped_string (s : String) : (stringValue s).untyped = stringValue s := rfl

theorem untyped_bool (b : Bool) : (booleanValue b).untyped = booleanValue b := rfl

theorem untyped_int (i : ℤ) : (intValue i).untyped = intValue i := rfl

theorem untyped_eq_string {v : Value} {s : String} : v.untyped = stringValue s ↔
    v = stringValue s := by
  cases v <;> simp [untyped]

theorem untyped_eq_bool {v : Value} {b : Bool} : v.untyped = booleanValue b ↔
    v = booleanValue b := by
  cases v <;> simp [untyped]

theorem untyped_eq_int {v : Value} {i : ℤ} : v.untyped = intValue i ↔ v.integer = some i := by
  cases v <;> simp [untyped, integer]

theorem string?_eq_some {s : String} :
    root.string? key = some s ↔ root.member? key = some (stringValue s) := by
  rw [string?]
  cases root.member? key with
  | none => simp
  | some v => cases v <;> simp

theorem bool?_eq_some {b : Bool} :
    root.bool? key = some b ↔ root.member? key = some (booleanValue b) := by
  rw [bool?]
  cases root.member? key with
  | none => simp
  | some v => cases v <;> simp

theorem int?_eq_some {i : ℤ} : root.int? key = some i ↔ root.member? key = some (intValue i) := by
  rw [int?]
  cases root.member? key with
  | none => simp
  | some v => cases v <;> simp

theorem uint?_eq_some {n : ℕ} : root.uint? key = some n ↔ root.member? key = some
    (uintValue n) := by
  rw [uint?]
  cases root.member? key with
  | none => simp
  | some v => cases v <;> simp

theorem map_untyped_string {s : String} :
    (root.member? key).map untyped = some (stringValue s).untyped ↔ root.string? key = some s := by
  rw [string?_eq_some, Option.map_eq_some_iff, untyped_string]
  simp only [untyped_eq_string, exists_eq_right]

theorem map_untyped_bool {b : Bool} :
    (root.member? key).map untyped = some (booleanValue b).untyped ↔ root.bool? key = some b := by
  rw [bool?_eq_some, Option.map_eq_some_iff, untyped_bool]
  simp only [untyped_eq_bool, exists_eq_right]

theorem map_untyped_int {i : ℤ} :
    (root.member? key).map untyped = some (intValue i).untyped ↔ root.integer? key = some i := by
  rw [integer?, Option.map_eq_some_iff, Option.bind_eq_some_iff, untyped_int]
  simp only [untyped_eq_int]

theorem map_untyped_uint {n : ℕ} :
    (root.member? key).map untyped = some (uintValue n).untyped ↔
      root.integer? key = some (n : ℤ) := map_untyped_int

theorem integer?_of_int? {i : ℤ} (h : root.int? key = some i) : root.integer? key = some i := by
  rw [integer?, int?_eq_some.mp h]
  rfl

theorem integer?_of_uint? {n : ℕ} (h : root.uint? key = some n) : root.integer? key = some
    (n : ℤ) := by
  rw [integer?, uint?_eq_some.mp h]
  rfl

/-! ## What the reader makes of numbers -/

/-- A number of the type that its size asks for. -/
def classed : Value → Bool
  | intValue i => i ≤ 2 ^ 31 - 1
  | uintValue n => 2 ^ 31 ≤ n ∧ n < 2 ^ 64
  | _ => true

/-- A document of the strict reader: an array, or an object with its numbers classed. -/
def document : Value → Bool
  | arrayValue _ => true
  | objectValue members => members.all fun m => m.2.classed
  | _ => false

theorem classed_of_member? (h : root.document = true) {v : Value} (hv : root.member? key = some v) :
    v.classed = true := by
  cases root with
  | objectValue members =>
      rw [member?, Option.map_eq_some_iff] at hv
      obtain ⟨m, hm, rfl⟩ := hv
      exact List.all_eq_true.mp h m (List.mem_of_find?_eq_some hm)
  | _ => cases hv

/-- A small integer is an `intValue`. -/
theorem int?_of_integer? (h : root.document = true) {i : ℤ} (hi : root.integer? key = some i)
    (hlt : i < 2 ^ 31) : root.int? key = some i := by
  rw [integer?, Option.bind_eq_some_iff] at hi
  obtain ⟨v, hv, hvi⟩ := hi
  have hclassed := classed_of_member? h hv
  cases v with
  | intValue j => exact int?_eq_some.mpr (hv.trans (congrArg _ (congrArg _ (Option.some.inj hvi))))
  | uintValue n =>
      have hn := of_decide_eq_true hclassed
      have hni := Option.some.inj hvi
      omega
  | _ => cases hvi

theorem int?_lt (h : root.document = true) {i : ℤ} (hi : root.int? key = some i) : i < 2 ^ 31 := by
  have hle := of_decide_eq_true (classed_of_member? h (int?_eq_some.mp hi))
  omega

theorem uint?_lt (h : root.document = true) {n : ℕ} (hn : root.uint? key = some n) :
    2 ^ 31 ≤ n ∧ n < 2 ^ 64 :=
  of_decide_eq_true (classed_of_member? h (uint?_eq_some.mp hn))

end Value

/-- The strict reader only makes documents. -/
def Jsoncpp.Strict (jsoncpp : Jsoncpp) : Prop :=
  ∀ text root, jsoncpp.parse text = some root → root.document = true

namespace Text

/-- The reader of records without the numbers that jsoncpp would read as reals. -/
def strictJsoncpp : Jsoncpp := ⟨write, fun text => (parse text).filter Value.document⟩

theorem strictJsoncpp_strict : strictJsoncpp.Strict :=
  fun _ _ h => (Option.filter_eq_some_iff.mp h).2

end Text

end Json

/-! ## The other three records -/

structure Room where
  id : String
  name : String
  deriving DecidableEq

open Json Value Parsed

def Room.toJSON (room : Room) : List (String × Value) :=
  [("id", .stringValue room.id), ("name", .stringValue room.name)]

def Room.fromJSON (parsed : Option Value) : Parsed Room := do
  let root ← check parsed
  root.hasMembers
  let id ← check (root.string? "id")
  let name ← check (root.string? "name")
  return { id, name }

def ErizoAgent.toJSON (agent : ErizoAgent) : List (String × Value) :=
  [("id", .stringValue agent.id),
    ("last_update", .uintValue agent.last_update.toNat),
    ("erizo_process_num", .intValue agent.erizo_process_num.toInt)]

/-- `erizo_process_num` is not checked, not even for being there. -/
def ErizoAgent.fromJSON (parsed : Option Value) : Parsed ErizoAgent := do
  let root ← check parsed
  root.hasMembers
  let id ← check (root.string? "id")
  let last_update ← check (root.uint? "last_update")
  let erizo_process_num ← convert (root.get "erizo_process_num").asInt32
  return { id, last_update := asUInt64 last_update, erizo_process_num }

def HEARTBEAT.toJSON (heartbeat : HEARTBEAT) : List (String × Value) :=
  [("id", .stringValue heartbeat.id), ("last_update", .uintValue heartbeat.last_update.toNat)]

def HEARTBEAT.fromJSON (parsed : Option Value) : Parsed HEARTBEAT := do
  let root ← check parsed
  root.hasMembers
  let id ← check (root.string? "id")
  let last_update ← check (root.uint? "last_update")
  return { id, last_update := asUInt64 last_update }

/-! ## Exactness -/

namespace Json

/-- The seven records with a JSON form. -/
inductive Format where
  | client | publisher | subscriber | bridge_stream | erizo_agent | room | heartbeat
  deriving DecidableEq

namespace Format

abbrev Rec : Format → Type
  | client => Client
  | publisher => Publisher
  | subscriber => Subscriber
  | bridge_stream => BridgeStream
  | erizo_agent => ErizoAgent
  | room => Room
  | heartbeat => HEARTBEAT

def toJSON : (f : Format) → f.Rec → List (String × Value)
  | client => Client.toJSON
  | publisher => Publisher.toJSON
  | subscriber => Subscriber.toJSON
  | bridge_stream => BridgeStream.toJSON
  | erizo_agent => ErizoAgent.toJSON
  | room => Room.toJSON
  | heartbeat => HEARTBEAT.toJSON

def fromJSON : (f : Format) → Option Value → Parsed f.Rec
  | client => Client.fromJSON
  | publisher => Publisher.fromJSON
  | subscriber => Subscriber.fromJSON
  | bridge_stream => BridgeStream.fromJSON
  | erizo_agent => ErizoAgent.fromJSON
  | room => Room.fromJSON
  | heartbeat => HEARTBEAT.fromJSON

/-- The record of the caller with the fields of the text: the `ip_info` of a client stays. -/
def assign : (f : Format) → f.Rec → f.Rec → f.Rec
  | client, out, a => { a with ip_info := out.ip_info }
  | publisher, _, a => a
  | subscriber, _, a => a
  | bridge_stream, _, a => a
  | erizo_agent, _, a => a
  | room, _, a => a
  | heartbeat, _, a => a

/-- `fromJSON` as it is called: the code it returns and the record of the caller, `none` when
it throws. -/
def call (f : Format) (parsed : Option Value) (out : f.Rec) : Option (ℤ × f.Rec) :=
  match f.fromJSON parsed with
  | .throws => none
  | .rejects => some (1, out)
  | .reads a => some (0, f.assign out a)

/-- The document is an object with every field of the record, each of its type and with its
value. -/
def Denotes (f : Format) (parsed : Option Value) (a : f.Rec) : Prop :=
  ∃ root, parsed = some root ∧ root.Denotes (f.toJSON a)

/-- The reader returns 0 with the record that is denoted, and 1 with the record of the caller
unchanged when none is. -/
def Exact (f : Format) (parsed : Option Value) (out : f.Rec) : Prop :=
  (∃ a, f.Denotes parsed a ∧ f.call parsed out = some (0, a)) ∨
    ((∀ a, ¬ f.Denotes parsed a) ∧ f.call parsed out = some (1, out))

theorem toJSON_assign (f : Format) (out a : f.Rec) : f.toJSON (f.assign out a) = f.toJSON a := by
  cases f <;> rfl

variable {f : Format} {parsed : Option Value} {out : f.Rec}

theorem denotes_assign {a : f.Rec} : f.Denotes parsed (f.assign out a) ↔ f.Denotes parsed a := by
  rw [Denotes, toJSON_assign, Denotes]

theorem denotes_some {root : Value} {a : f.Rec} :
    f.Denotes (some root) a ↔ root.Denotes (f.toJSON a) := by
  simp [Denotes]

/-- A text that is rejected must denote no record. -/
theorem exact_of_rejects (h : f.fromJSON parsed = rejects) :
    f.Exact parsed out ↔ ∀ a, ¬ f.Denotes parsed a := by
  simp only [Exact, call, h, Option.some.injEq, Prod.mk.injEq, and_true]
  simp

/-- A text whose members pass the checks must be converted to the record that it denotes. -/
theorem exact_of_convert {o : Option f.Rec} (h : f.fromJSON parsed = convert o) :
    f.Exact parsed out ↔ ∃ b, o = some b ∧ f.Denotes parsed b := by
  rw [Exact, call, h]
  cases o with
  | none => simp [convert]
  | some b =>
      simp only [convert_some, Option.some.injEq, Prod.mk.injEq, true_and, exists_eq_left',
        exists_eq_right', denotes_assign]
      simp

end Format

end Json

/-! ## Where the readers are exact -/

namespace Json

namespace Value

/-- The members are there and are strings. -/
def Strings (root : Value) (keys : List String) : Prop :=
  ∀ key ∈ keys, ∃ s, root.string? key = some s

def IsPort (i : ℤ) : Prop := 0 ≤ i ∧ i < 2 ^ 16

def IsInt32 (i : ℤ) : Prop := -2 ^ 31 ≤ i ∧ i < 2 ^ 31

/-- An integer that an SSRC can be. -/
def IsSsrc (v : Value) : Prop := ∃ i, v.integer = some i ∧ 0 ≤ i ∧ i < 2 ^ 32

end Value

/-- The document avoids what the reader forgets. The checks of a client, a publisher or a
bridge pass ports of any size, those of a publisher SSRCs of any type, and those of an agent
any `erizo_process_num` or none. An agent and a heartbeat ask for a `last_update` that is no
`intValue`. -/
def Format.Avoids (root : Value) : Format → Prop
  | client =>
      root.Strings ["id", "agent_id", "erizo_id", "bridge_ip", "room_id", "ip", "family",
        "reply_to"] →
      ∀ i j, root.int? "bridge_port" = some i → root.int? "port" = some j → IsPort i ∧ IsPort j
  | publisher =>
      root.Strings ["id", "erizo_id", "bridge_ip", "agent_id", "client_id", "label"] →
      ∀ i u v, root.int? "bridge_port" = some i → root.member? "video_ssrc" = some u →
        root.member? "audio_ssrc" = some v → IsPort i ∧ u.IsSsrc ∧ v.IsSsrc
  | subscriber => True
  | bridge_stream =>
      root.Strings ["id", "sender_erizo_id", "sender_ip", "recver_erizo_id", "recver_ip",
        "src_stream_id", "label"] →
      ∀ i j n, root.int? "sender_port" = some i → root.int? "recver_port" = some j →
        root.int? "subscribe_count" = some n → IsPort i ∧ IsPort j ∧ IsInt32 n
  | erizo_agent =>
      root.Strings ["id"] →
        (∀ n, root.uint? "last_update" = some n →
          ∃ m, root.integer? "erizo_process_num" = some m ∧ IsInt32 m) ∧
        ∀ i m, root.int? "last_update" = some i → root.integer? "erizo_process_num" = some m →
          IsInt32 m → i < 0
  | room => True
  | heartbeat => root.Strings ["id"] → ∀ i, root.int? "last_update" = some i → i < 0

variable {root : Value}

theorem hasMembers_of_isObject (h : root.isObject = true) : root.hasMembers = .reads () :=
  if_pos (.inr h)

theorem ofInt_toNat {i : ℤ} (h : IsPort i) : ((UInt16.ofInt i).toNat : ℤ) = i := by
  obtain ⟨h0, hlt⟩ := h
  have hmod : i % 2 ^ 16 = i := Int.emod_eq_of_lt h0 hlt
  rw [UInt16.ofInt, hmod, UInt16.toNat_ofNat']
  omega

theorem isPort_toNat (n : UInt16) : IsPort n.toNat := by
  have := n.toNat_lt
  exact ⟨by omega, by omega⟩

theorem asInt_eq_some {i : ℤ} (h : IsInt32 i) : asInt i = some i := if_pos h

theorem Value.IsPort.isInt32 {i : ℤ} (h : IsPort i) : IsInt32 i := by
  obtain ⟨h0, hlt⟩ := h
  exact ⟨by omega, by omega⟩

theorem Client.denotes_iff {client : Client} : root.Denotes client.toJSON ↔
    root.isObject = true ∧ root.string? "id" = some client.id ∧
      root.string? "agent_id" = some client.agent_id ∧
      root.string? "erizo_id" = some client.erizo_id ∧
      root.string? "bridge_ip" = some client.bridge_ip ∧
      root.integer? "bridge_port" = some (client.bridge_port.toNat : ℤ) ∧
      root.string? "room_id" = some client.room_id ∧ root.string? "ip" = some client.ip ∧
      root.integer? "port" = some (client.port.toNat : ℤ) ∧
      root.string? "family" = some client.family ∧
      root.string? "reply_to" = some client.reply_to := by
  simp only [Value.Denotes, Client.toJSON, List.forall_mem_cons, map_untyped_string,
    map_untyped_int,
    List.not_mem_nil, false_imp_iff, implies_true, and_true]

/-- A port that is read back as it was is one. -/
theorem isPort_of_read {key : String} {i : ℤ} {n : UInt16} (hi : root.int? key = some i)
    (hn : root.integer? key = some (n.toNat : ℤ)) : IsPort i := by
  have heq := (integer?_of_int? hi).symm.trans hn
  rw [Option.some.inj heq]
  exact isPort_toNat n

theorem integer?_port {key : String} {i : ℤ} (hi : root.int? key = some i) (hport : IsPort i) :
    root.integer? key = some ((UInt16.ofInt i).toNat : ℤ) := by
  rw [integer?_of_int? hi, ofInt_toNat hport]

/-- An SSRC that is read back as it was is one. -/
theorem isSsrc_of_read {key : String} {v : Value} {n : UInt32} (hv : root.member? key = some v)
    (hn : root.integer? key = some (n.toNat : ℤ)) : v.IsSsrc := by
  rw [integer?, hv, Option.bind_some] at hn
  have := n.toNat_lt
  exact ⟨_, hn, by omega, by omega⟩

theorem Value.IsSsrc.asUInt {v : Value} (h : v.IsSsrc) :
    ∃ n : UInt32, v.asUInt = some n ∧ v.integer = some (n.toNat : ℤ) := by
  obtain ⟨i, hi, h0, hlt⟩ := h
  cases v with
  | intValue j =>
      obtain rfl := Option.some.inj hi
      refine ⟨_, if_pos ⟨h0, hlt⟩, ?_⟩
      rw [integer, UInt32.toNat_ofNat', Nat.mod_eq_of_lt (by omega), Int.toNat_of_nonneg h0]
  | uintValue n =>
      obtain rfl := Option.some.inj hi
      refine ⟨_, if_pos (by omega), ?_⟩
      rw [integer, UInt32.toNat_ofNat', Nat.mod_eq_of_lt (by omega)]
  | _ => cases hi

theorem isInt32_toInt (n : Int32) : IsInt32 n.toInt := ⟨n.le_toInt, n.toInt_lt⟩

theorem isInt32_of_read {key : String} {i : ℤ} {n : Int32} (hi : root.integer? key = some i)
    (hn : root.integer? key = some n.toInt) : IsInt32 i := by
  rw [Option.some.inj (hi.symm.trans hn)]
  exact isInt32_toInt n

theorem Value.IsInt32.toInt_ofInt {i : ℤ} (h : IsInt32 i) : (Int32.ofInt i).toInt = i :=
  Int32.toInt_ofInt_of_le h.1 h.2

theorem int?_port (hdoc : root.document = true) {key : String} {n : UInt16}
    (hn : root.integer? key = some (n.toNat : ℤ)) : root.int? key = some (n.toNat : ℤ) :=
  int?_of_integer? hdoc hn (port_lt n)

section Client

variable {id agent_id erizo_id bridge_ip room_id ip family reply_to : String} {bridge_port port : ℤ}

/-- What the reader makes of members that pass its checks. -/
theorem Client.fromJSON_of_members (hobj : root.isObject = true) (hid : root.string? "id" = some id)
    (hagent_id : root.string? "agent_id" = some agent_id)
    (herizo_id : root.string? "erizo_id" = some erizo_id)
    (hbridge_ip : root.string? "bridge_ip" = some bridge_ip)
    (hbridge_port : root.int? "bridge_port" = some bridge_port)
    (hroom_id : root.string? "room_id" = some room_id) (hip : root.string? "ip" = some ip)
    (hport : root.int? "port" = some port) (hfamily : root.string? "family" = some family)
    (hreply_to : root.string? "reply_to" = some reply_to) :
    Client.fromJSON (some root) =
      convert ((asInt bridge_port).bind fun i => (asInt port).bind fun j =>
      some { id, agent_id, erizo_id, bridge_ip, bridge_port := UInt16.ofInt i, room_id, ip,
             port := UInt16.ofInt j, family, reply_to }) := by
  simp only [Client.fromJSON, check_some, reads_bind, hasMembers_of_isObject hobj, hid, hagent_id,
    herizo_id, hbridge_ip, hbridge_port, hroom_id, hip, hport, hfamily, hreply_to]
  exact convert_bind fun i => convert_bind fun j => rfl

theorem client_exact (hdoc : root.document = true) (hobj : root.isObject = true) {out : Client} :
    Format.client.Exact (some root) out ↔ Format.client.Avoids root := by
  by_cases hpass : Client.fromJSON (some root) = rejects
  · rw [@Format.exact_of_rejects .client _ out hpass]
    refine iff_of_true (fun a hdenotes => ?_) fun hstrings i j hi hj => ?_
    · obtain ⟨-, hid, hagent_id, herizo_id, hbridge_ip, hbridge_port, hroom_id, hip, hport, hfamily,
        hreply_to⟩ := Client.denotes_iff.mp (Format.denotes_some.mp hdenotes)
      rw [Client.fromJSON_of_members hobj hid hagent_id herizo_id hbridge_ip
        (int?_port hdoc hbridge_port) hroom_id hip
        (int?_port hdoc hport) hfamily hreply_to] at hpass
      exact convert_ne_rejects hpass
    · simp only [Strings, List.forall_mem_cons] at hstrings
      obtain ⟨⟨id, hid⟩, ⟨agent_id, hagent_id⟩, ⟨erizo_id, herizo_id⟩, ⟨bridge_ip, hbridge_ip⟩,
        ⟨room_id, hroom_id⟩, ⟨ip, hip⟩, ⟨family, hfamily⟩, ⟨reply_to, hreply_to⟩, -⟩ := hstrings
      rw [Client.fromJSON_of_members hobj hid hagent_id herizo_id hbridge_ip hi hroom_id hip hj
        hfamily hreply_to] at hpass
      exact (convert_ne_rejects hpass).elim
  · simp only [Client.fromJSON, check_some, reads_bind, hasMembers_of_isObject hobj, ← ne_eq,
      check_bind_ne_rejects] at hpass
    obtain ⟨id, hid, agent_id, hagent_id, erizo_id, herizo_id, bridge_ip, hbridge_ip, bridge_port,
      hbridge_port, room_id, hroom_id, ip, hip, port, hport, family, hfamily, reply_to, hreply_to,
      -⟩ := hpass
    have havoids : Format.client.Avoids root ↔ IsPort bridge_port ∧ IsPort port := by
      simp [Format.Avoids, Strings, hid, hagent_id, herizo_id, hbridge_ip, hbridge_port,
        hroom_id, hip,
        hport, hfamily, hreply_to]
    rw [havoids,
      @Format.exact_of_convert .client _ out _ (Client.fromJSON_of_members hobj hid hagent_id
      herizo_id hbridge_ip hbridge_port hroom_id hip hport hfamily hreply_to)]
    constructor
    · rintro ⟨b, -, hdenotes⟩
      obtain ⟨-, -, -, -, -, hbridge_port', -, -, hport', -, -⟩ :=
        Client.denotes_iff.mp (Format.denotes_some.mp hdenotes)
      exact ⟨isPort_of_read hbridge_port hbridge_port', isPort_of_read hport hport'⟩
    · rintro ⟨hi, hj⟩
      rw [asInt_eq_some hi.isInt32, asInt_eq_some hj.isInt32]
      exact ⟨_, rfl,
        Format.denotes_some.mpr (Client.denotes_iff.mpr ⟨hobj, hid, hagent_id, herizo_id,
        hbridge_ip, integer?_port hbridge_port hi, hroom_id, hip, integer?_port hport hj, hfamily,
        hreply_to⟩)⟩

end Client

section Publisher

variable {id erizo_id bridge_ip agent_id client_id label : String} {bridge_port : ℤ}
  {video_ssrc audio_ssrc : Value}

theorem Publisher.denotes_iff {publisher : Publisher} : root.Denotes publisher.toJSON ↔
    root.isObject = true ∧ root.string? "id" = some publisher.id ∧
      root.string? "erizo_id" = some publisher.erizo_id ∧
      root.string? "bridge_ip" = some publisher.bridge_ip ∧
      root.integer? "bridge_port" = some (publisher.bridge_port.toNat : ℤ) ∧
      root.string? "agent_id" = some publisher.agent_id ∧
      root.string? "client_id" = some publisher.client_id ∧
      root.string? "label" = some publisher.label ∧
      root.integer? "video_ssrc" = some (publisher.video_ssrc.toNat : ℤ) ∧
      root.integer? "audio_ssrc" = some (publisher.audio_ssrc.toNat : ℤ) := by
  simp only [Value.Denotes, Publisher.toJSON, List.forall_mem_cons, map_untyped_string,
    map_untyped_int,
    map_untyped_uint, List.not_mem_nil, false_imp_iff, implies_true, and_true]

/-- What the reader makes of members that pass its checks. -/
theorem Publisher.fromJSON_of_members (hobj : root.isObject = true)
    (hid : root.string? "id" = some id) (herizo_id : root.string? "erizo_id" = some erizo_id)
    (hbridge_ip : root.string? "bridge_ip" = some bridge_ip)
    (hbridge_port : root.int? "bridge_port" = some bridge_port)
    (hagent_id : root.string? "agent_id" = some agent_id)
    (hclient_id : root.string? "client_id" = some client_id)
    (hlabel : root.string? "label" = some label)
    (hvideo_ssrc : root.member? "video_ssrc" = some video_ssrc)
    (haudio_ssrc : root.member? "audio_ssrc" = some audio_ssrc) :
    Publisher.fromJSON (some root) = convert ((asInt bridge_port).bind fun i =>
      video_ssrc.asUInt.bind fun video_ssrc => audio_ssrc.asUInt.bind fun audio_ssrc =>
        some { id, client_id, erizo_id, bridge_ip, bridge_port := UInt16.ofInt i, agent_id, label,
               video_ssrc, audio_ssrc }) := by
  simp only [Publisher.fromJSON, check_some, reads_bind, hasMembers_of_isObject hobj, hid,
    herizo_id,
    hbridge_ip, hbridge_port, hagent_id, hclient_id, hlabel, hvideo_ssrc, haudio_ssrc]
  exact convert_bind fun i => convert_bind fun u => convert_bind fun v => rfl

theorem publisher_exact (hdoc : root.document = true) (hobj : root.isObject = true)
    {out : Publisher} : Format.publisher.Exact (some root) out ↔ Format.publisher.Avoids root := by
  by_cases hpass : Publisher.fromJSON (some root) = rejects
  · rw [@Format.exact_of_rejects .publisher _ out hpass]
    refine iff_of_true (fun a hdenotes => ?_) fun hstrings i u v hi hu hv => ?_
    · obtain ⟨-, hid, herizo_id, hbridge_ip, hbridge_port, hagent_id, hclient_id, hlabel,
        hvideo_ssrc,
        haudio_ssrc⟩ := Publisher.denotes_iff.mp (Format.denotes_some.mp hdenotes)
      obtain ⟨u, hu, -⟩ := Option.bind_eq_some_iff.mp hvideo_ssrc
      obtain ⟨v, hv, -⟩ := Option.bind_eq_some_iff.mp haudio_ssrc
      rw [Publisher.fromJSON_of_members hobj hid herizo_id hbridge_ip (int?_port hdoc hbridge_port)
        hagent_id hclient_id hlabel hu hv] at hpass
      exact convert_ne_rejects hpass
    · simp only [Strings, List.forall_mem_cons] at hstrings
      obtain ⟨⟨id, hid⟩, ⟨erizo_id, herizo_id⟩, ⟨bridge_ip, hbridge_ip⟩, ⟨agent_id, hagent_id⟩,
        ⟨client_id, hclient_id⟩, ⟨label, hlabel⟩, -⟩ := hstrings
      rw [Publisher.fromJSON_of_members hobj hid herizo_id hbridge_ip hi hagent_id hclient_id hlabel
        hu hv] at hpass
      exact (convert_ne_rejects hpass).elim
  · simp only [Publisher.fromJSON, check_some, reads_bind, hasMembers_of_isObject hobj, ← ne_eq,
      check_bind_ne_rejects] at hpass
    obtain ⟨id, hid, erizo_id, herizo_id, bridge_ip, hbridge_ip, bridge_port,
      hbridge_port, agent_id,
      hagent_id, client_id, hclient_id, label, hlabel, video_ssrc, hvideo_ssrc, audio_ssrc,
      haudio_ssrc, -⟩ := hpass
    have havoids : Format.publisher.Avoids root ↔
        IsPort bridge_port ∧ video_ssrc.IsSsrc ∧ audio_ssrc.IsSsrc := by
      simp [Format.Avoids, Strings, hid, herizo_id, hbridge_ip, hbridge_port, hagent_id, hclient_id,
        hlabel, hvideo_ssrc, haudio_ssrc]
    rw [havoids, @Format.exact_of_convert .publisher _ out _ (Publisher.fromJSON_of_members hobj hid
      herizo_id hbridge_ip hbridge_port hagent_id hclient_id hlabel hvideo_ssrc haudio_ssrc)]
    constructor
    · rintro ⟨b, -, hdenotes⟩
      obtain ⟨-, -, -, -, hbridge_port', -, -, -, hvideo_ssrc', haudio_ssrc'⟩ :=
        Publisher.denotes_iff.mp (Format.denotes_some.mp hdenotes)
      exact ⟨isPort_of_read hbridge_port hbridge_port', isSsrc_of_read hvideo_ssrc hvideo_ssrc',
        isSsrc_of_read haudio_ssrc haudio_ssrc'⟩
    · rintro ⟨hi, hu, hv⟩
      obtain ⟨u, hu, hvideo⟩ := hu.asUInt
      obtain ⟨v, hv, haudio⟩ := hv.asUInt
      rw [asInt_eq_some hi.isInt32, hu, hv]
      refine ⟨_, rfl, Format.denotes_some.mpr (Publisher.denotes_iff.mpr ⟨hobj, hid, herizo_id,
        hbridge_ip, integer?_port hbridge_port hi, hagent_id, hclient_id, hlabel, ?_, ?_⟩)⟩
      · rw [integer?, hvideo_ssrc, Option.bind_some, hvideo]
      · rw [integer?, haudio_ssrc, Option.bind_some, haudio]

end Publisher

section BridgeStream

variable {id sender_erizo_id sender_ip recver_erizo_id recver_ip src_stream_id label : String}
  {sender_port recver_port subscribe_count : ℤ}

theorem BridgeStream.denotes_iff {bridge_stream : BridgeStream} :
    root.Denotes bridge_stream.toJSON ↔
    root.isObject = true ∧ root.string? "id" = some bridge_stream.id ∧
      root.string? "sender_erizo_id" = some bridge_stream.sender_erizo_id ∧
      root.string? "sender_ip" = some bridge_stream.sender_ip ∧
      root.integer? "sender_port" = some (bridge_stream.sender_port.toNat : ℤ) ∧
      root.string? "recver_erizo_id" = some bridge_stream.recver_erizo_id ∧
      root.string? "recver_ip" = some bridge_stream.recver_ip ∧
      root.integer? "recver_port" = some (bridge_stream.recver_port.toNat : ℤ) ∧
      root.string? "src_stream_id" = some bridge_stream.src_stream_id ∧
      root.string? "label" = some bridge_stream.label ∧
      root.integer? "subscribe_count" = some bridge_stream.subscribe_count.toInt := by
  simp only [Value.Denotes, BridgeStream.toJSON, List.forall_mem_cons, map_untyped_string,
    map_untyped_int, List.not_mem_nil, false_imp_iff, implies_true, and_true]

/-- What the reader makes of members that pass its checks. -/
theorem BridgeStream.fromJSON_of_members (hobj : root.isObject = true)
    (hid : root.string? "id" = some id)
    (hsender_erizo_id : root.string? "sender_erizo_id" = some sender_erizo_id)
    (hsender_ip : root.string? "sender_ip" = some sender_ip)
    (hsender_port : root.int? "sender_port" = some sender_port)
    (hrecver_erizo_id : root.string? "recver_erizo_id" = some recver_erizo_id)
    (hrecver_ip : root.string? "recver_ip" = some recver_ip)
    (hrecver_port : root.int? "recver_port" = some recver_port)
    (hsrc_stream_id : root.string? "src_stream_id" = some src_stream_id)
    (hlabel : root.string? "label" = some label)
    (hsubscribe_count : root.int? "subscribe_count" = some subscribe_count) :
    BridgeStream.fromJSON (some root) = convert ((asInt sender_port).bind fun i =>
      (asInt recver_port).bind fun j => (asInt subscribe_count).bind fun n =>
        some { id, sender_erizo_id, sender_ip, sender_port := UInt16.ofInt i, recver_erizo_id,
               recver_ip, recver_port := UInt16.ofInt j, src_stream_id, label,
               subscribe_count := Int32.ofInt n }) := by
  simp only [BridgeStream.fromJSON, check_some, reads_bind, hasMembers_of_isObject hobj, hid,
    hsender_erizo_id, hsender_ip, hsender_port, hrecver_erizo_id, hrecver_ip, hrecver_port,
    hsrc_stream_id, hlabel, hsubscribe_count]
  exact convert_bind fun i => convert_bind fun j => convert_bind fun n => rfl

theorem bridge_stream_exact (hdoc : root.document = true) (hobj : root.isObject = true)
    {out : BridgeStream} :
    Format.bridge_stream.Exact (some root) out ↔ Format.bridge_stream.Avoids root := by
  by_cases hpass : BridgeStream.fromJSON (some root) = rejects
  · rw [@Format.exact_of_rejects .bridge_stream _ out hpass]
    refine iff_of_true (fun a hdenotes => ?_) fun hstrings i j n hi hj hn => ?_
    · obtain ⟨-, hid, hsender_erizo_id, hsender_ip, hsender_port, hrecver_erizo_id, hrecver_ip,
        hrecver_port, hsrc_stream_id, hlabel, hsubscribe_count⟩ :=
        BridgeStream.denotes_iff.mp (Format.denotes_some.mp hdenotes)
      rw [BridgeStream.fromJSON_of_members hobj hid hsender_erizo_id hsender_ip
        (int?_port hdoc hsender_port) hrecver_erizo_id hrecver_ip (int?_port hdoc hrecver_port)
        hsrc_stream_id hlabel (int?_of_integer? hdoc hsubscribe_count (Int32.toInt_lt _))] at hpass
      exact convert_ne_rejects hpass
    · simp only [Strings, List.forall_mem_cons] at hstrings
      obtain ⟨⟨id, hid⟩, ⟨sender_erizo_id, hsender_erizo_id⟩, ⟨sender_ip, hsender_ip⟩,
        ⟨recver_erizo_id, hrecver_erizo_id⟩, ⟨recver_ip, hrecver_ip⟩,
        ⟨src_stream_id, hsrc_stream_id⟩,
        ⟨label, hlabel⟩, -⟩ := hstrings
      rw [BridgeStream.fromJSON_of_members hobj hid hsender_erizo_id hsender_ip hi hrecver_erizo_id
        hrecver_ip hj hsrc_stream_id hlabel hn] at hpass
      exact (convert_ne_rejects hpass).elim
  · simp only [BridgeStream.fromJSON, check_some, reads_bind, hasMembers_of_isObject hobj, ← ne_eq,
      check_bind_ne_rejects] at hpass
    obtain ⟨id, hid, sender_erizo_id, hsender_erizo_id, sender_ip, hsender_ip, sender_port,
      hsender_port, recver_erizo_id, hrecver_erizo_id, recver_ip, hrecver_ip, recver_port,
      hrecver_port, src_stream_id, hsrc_stream_id, label, hlabel, subscribe_count, hsubscribe_count,
      -⟩ := hpass
    have havoids : Format.bridge_stream.Avoids root ↔
        IsPort sender_port ∧ IsPort recver_port ∧ IsInt32 subscribe_count := by
      simp [Format.Avoids, Strings, hid, hsender_erizo_id, hsender_ip, hsender_port,
        hrecver_erizo_id,
        hrecver_ip, hrecver_port, hsrc_stream_id, hlabel, hsubscribe_count]
    rw [havoids,
      @Format.exact_of_convert .bridge_stream _ out _ (BridgeStream.fromJSON_of_members hobj
      hid hsender_erizo_id hsender_ip hsender_port hrecver_erizo_id hrecver_ip hrecver_port
      hsrc_stream_id hlabel hsubscribe_count)]
    constructor
    · rintro ⟨b, -, hdenotes⟩
      obtain ⟨-, -, -, -, hsender_port', -, -, hrecver_port', -, -, hsubscribe_count'⟩ :=
        BridgeStream.denotes_iff.mp (Format.denotes_some.mp hdenotes)
      exact ⟨isPort_of_read hsender_port hsender_port', isPort_of_read hrecver_port hrecver_port',
        isInt32_of_read (integer?_of_int? hsubscribe_count) hsubscribe_count'⟩
    · rintro ⟨hi, hj, hn⟩
      rw [asInt_eq_some hi.isInt32, asInt_eq_some hj.isInt32, asInt_eq_some hn]
      refine ⟨_, rfl, Format.denotes_some.mpr (BridgeStream.denotes_iff.mpr ⟨hobj, hid,
        hsender_erizo_id, hsender_ip, integer?_port hsender_port hi, hrecver_erizo_id, hrecver_ip,
        integer?_port hrecver_port hj, hsrc_stream_id, hlabel, ?_⟩)⟩
      rw [integer?_of_int? hsubscribe_count, hn.toInt_ofInt]

end BridgeStream

section Subscriber

theorem Subscriber.denotes_iff {subscriber : Subscriber} : root.Denotes subscriber.toJSON ↔
    root.isObject = true ∧ root.string? "id" = some subscriber.id ∧
      root.string? "agent_id" = some subscriber.agent_id ∧
      root.string? "erizo_id" = some subscriber.erizo_id ∧
      root.string? "client_id" = some subscriber.client_id ∧
      root.string? "subscribe_to" = some subscriber.subscribe_to ∧
      root.string? "reply_to" = some subscriber.reply_to ∧
      root.bool? "is_bridge" = some subscriber.is_bridge := by
  simp only [Value.Denotes, Subscriber.toJSON, List.forall_mem_cons, map_untyped_string,
    map_untyped_bool, List.not_mem_nil, false_imp_iff, implies_true, and_true]

theorem subscriber_exact (hobj : root.isObject = true) {out : Subscriber} :
    Format.subscriber.Exact (some root) out := by
  by_cases hpass : Subscriber.fromJSON (some root) = rejects
  · rw [@Format.exact_of_rejects .subscriber _ out hpass]
    intro a hdenotes
    obtain ⟨-, hid, hagent_id, herizo_id, hclient_id, hsubscribe_to, hreply_to, his_bridge⟩ :=
      Subscriber.denotes_iff.mp (Format.denotes_some.mp hdenotes)
    simp [Subscriber.fromJSON, hasMembers_of_isObject hobj, hid, hagent_id, herizo_id, hclient_id,
      hsubscribe_to, hreply_to, his_bridge] at hpass
  · simp only [Subscriber.fromJSON, check_some, reads_bind, hasMembers_of_isObject hobj, ← ne_eq,
      check_bind_ne_rejects] at hpass
    obtain ⟨id, hid, client_id, hclient_id, erizo_id, herizo_id, agent_id, hagent_id, subscribe_to,
      hsubscribe_to, reply_to, hreply_to, is_bridge, his_bridge, -⟩ := hpass
    have hread : Subscriber.fromJSON (some root) = convert (some
        { id, client_id, erizo_id, agent_id, subscribe_to, reply_to, is_bridge }) := by
      simp only [Subscriber.fromJSON, check_some, reads_bind, hasMembers_of_isObject hobj, hid,
        hclient_id, herizo_id, hagent_id, hsubscribe_to, hreply_to, his_bridge, pure_eq,
        convert_some]
    rw [@Format.exact_of_convert .subscriber _ out _ hread]
    exact ⟨_, rfl, Format.denotes_some.mpr (Subscriber.denotes_iff.mpr ⟨hobj, hid, hagent_id,
      herizo_id, hclient_id, hsubscribe_to, hreply_to, his_bridge⟩)⟩

end Subscriber

section Room

theorem Room.denotes_iff {room : Room} : root.Denotes room.toJSON ↔
    root.isObject = true ∧ root.string? "id" = some room.id ∧
      root.string? "name" = some room.name := by
  simp only [Value.Denotes, Room.toJSON, List.forall_mem_cons, map_untyped_string, List.not_mem_nil,
    false_imp_iff, implies_true, and_true]

theorem room_exact (hobj : root.isObject = true) {out : Room} :
    Format.room.Exact (some root) out := by
  by_cases hpass : Room.fromJSON (some root) = rejects
  · rw [@Format.exact_of_rejects .room _ out hpass]
    intro a hdenotes
    obtain ⟨-, hid, hname⟩ := Room.denotes_iff.mp (Format.denotes_some.mp hdenotes)
    simp [Room.fromJSON, hasMembers_of_isObject hobj, hid, hname] at hpass
  · simp only [Room.fromJSON, check_some, reads_bind, hasMembers_of_isObject hobj, ← ne_eq,
      check_bind_ne_rejects] at hpass
    obtain ⟨id, hid, name, hname, -⟩ := hpass
    have hread : Room.fromJSON (some root) = convert (some { id, name }) := by
      simp only [Room.fromJSON, check_some, reads_bind, hasMembers_of_isObject hobj, hid, hname,
        pure_eq, convert_some]
    rw [@Format.exact_of_convert .room _ out _ hread]
    exact ⟨_, rfl, Format.denotes_some.mpr (Room.denotes_iff.mpr ⟨hobj, hid, hname⟩)⟩

end Room

section Timestamp

/-- A timestamp is an integer of either type. -/
theorem int?_or_uint?_of_integer? {key : String} {i : ℤ} (hi : root.integer? key = some i) :
    root.int? key = some i ∨ ∃ n : ℕ, root.uint? key = some n ∧ i = n := by
  rw [integer?, Option.bind_eq_some_iff] at hi
  obtain ⟨v, hv, hvi⟩ := hi
  cases v with
  | intValue j =>
      obtain rfl := Option.some.inj hvi
      exact .inl (int?_eq_some.mpr hv)
  | uintValue n =>
      obtain rfl := Option.some.inj hvi
      exact .inr ⟨n, uint?_eq_some.mpr hv, rfl⟩
  | _ => cases hvi

theorem integer?_timestamp (hdoc : root.document = true) {key : String} {n : ℕ}
    (hn : root.uint? key = some n) : root.integer? key = some ((asUInt64 n).toNat : ℤ) := by
  rw [integer?_of_uint? hn, asUInt64, UInt64.toNat_ofNat', Nat.mod_eq_of_lt (uint?_lt hdoc hn).2]

/-- A timestamp that fits an `int` is one that no check passes. -/
theorem integer?_small {key : String} (hdoc : root.document = true) {i : ℤ}
    (hi : root.int? key = some i) (h0 : 0 ≤ i) :
    root.integer? key = some ((UInt64.ofNat i.toNat).toNat : ℤ) := by
  have hlt := int?_lt hdoc hi
  rw [integer?_of_int? hi, UInt64.toNat_ofNat', Nat.mod_eq_of_lt (by omega), Int.toNat_of_nonneg h0]

theorem HEARTBEAT.denotes_iff {heartbeat : HEARTBEAT} : root.Denotes heartbeat.toJSON ↔
    root.isObject = true ∧ root.string? "id" = some heartbeat.id ∧
      root.integer? "last_update" = some (heartbeat.last_update.toNat : ℤ) := by
  simp only [Value.Denotes, HEARTBEAT.toJSON, List.forall_mem_cons, map_untyped_string,
    map_untyped_uint, List.not_mem_nil, false_imp_iff, implies_true, and_true]

theorem heartbeat_exact (hdoc : root.document = true) (hobj : root.isObject = true)
    {out : HEARTBEAT} : Format.heartbeat.Exact (some root) out ↔ Format.heartbeat.Avoids root := by
  have hread : ∀ {id n}, root.string? "id" = some id → root.uint? "last_update" = some n →
      HEARTBEAT.fromJSON (some root) = convert (some { id, last_update := asUInt64 n }) := by
    intro id n hid hn
    simp only [HEARTBEAT.fromJSON, check_some, reads_bind, hasMembers_of_isObject hobj, hid, hn,
      pure_eq, convert_some]
  by_cases hpass : HEARTBEAT.fromJSON (some root) = rejects
  · rw [@Format.exact_of_rejects .heartbeat _ out hpass]
    constructor
    · intro hnone hid i hi
      by_contra h0
      obtain ⟨id, hid⟩ := hid "id" List.mem_cons_self
      exact hnone { id, last_update := UInt64.ofNat i.toNat } (Format.denotes_some.mpr
        (HEARTBEAT.denotes_iff.mpr ⟨hobj, hid, integer?_small hdoc hi (by omega)⟩))
    · intro havoids a hdenotes
      obtain ⟨-, hid, hlast_update⟩ := HEARTBEAT.denotes_iff.mp (Format.denotes_some.mp hdenotes)
      rcases int?_or_uint?_of_integer? hlast_update with hi | ⟨n, hn, -⟩
      · have hneg := havoids (by simp [Strings, hid]) _ hi
        omega
      · rw [hread hid hn] at hpass
        exact convert_ne_rejects hpass
  · simp only [HEARTBEAT.fromJSON, check_some, reads_bind, hasMembers_of_isObject hobj, ← ne_eq,
      check_bind_ne_rejects] at hpass
    obtain ⟨id, hid, n, hn, -⟩ := hpass
    rw [@Format.exact_of_convert .heartbeat _ out _ (hread hid hn)]
    refine iff_of_true ⟨_, rfl, Format.denotes_some.mpr (HEARTBEAT.denotes_iff.mpr
      ⟨hobj, hid, integer?_timestamp hdoc hn⟩)⟩ fun _ i hi => ?_
    rw [int?_eq_some, uint?_eq_some.mp hn] at hi
    cases hi

theorem ErizoAgent.denotes_iff {agent : ErizoAgent} : root.Denotes agent.toJSON ↔
    root.isObject = true ∧ root.string? "id" = some agent.id ∧
      root.integer? "last_update" = some (agent.last_update.toNat : ℤ) ∧
      root.integer? "erizo_process_num" = some agent.erizo_process_num.toInt := by
  simp only [Value.Denotes, ErizoAgent.toJSON, List.forall_mem_cons, map_untyped_string,
    map_untyped_uint, map_untyped_int, List.not_mem_nil, false_imp_iff, implies_true, and_true]

theorem asInt32_of_integer? {key : String} {m : ℤ} (hm : root.integer? key = some m)
    (hint : IsInt32 m) : (root.get key).asInt32 = some (Int32.ofInt m) := by
  rw [integer?, Option.bind_eq_some_iff] at hm
  obtain ⟨v, hv, hvm⟩ := hm
  rw [Value.get, hv, Option.getD_some]
  cases v with
  | intValue j =>
      obtain rfl := Option.some.inj hvm
      rw [asInt32, asInt_eq_some hint, Option.map_some]
  | uintValue n =>
      obtain rfl := Option.some.inj hvm
      rw [asInt32, asInt_eq_some hint, Option.map_some]
  | _ => cases hvm

theorem erizo_agent_exact (hdoc : root.document = true) (hobj : root.isObject = true)
    {out : ErizoAgent} :
    Format.erizo_agent.Exact (some root) out ↔ Format.erizo_agent.Avoids root := by
  have hread : ∀ {id n}, root.string? "id" = some id → root.uint? "last_update" = some n →
      ErizoAgent.fromJSON (some root) =
        convert ((root.get "erizo_process_num").asInt32.bind fun m =>
        some { id, last_update := asUInt64 n, erizo_process_num := m }) := by
    intro id n hid hn
    simp only [ErizoAgent.fromJSON, check_some, reads_bind, hasMembers_of_isObject hobj, hid, hn]
    exact convert_bind fun m => rfl
  by_cases hpass : ErizoAgent.fromJSON (some root) = rejects
  · rw [@Format.exact_of_rejects .erizo_agent _ out hpass]
    constructor
    · intro hnone hid
      obtain ⟨id, hid⟩ := hid "id" List.mem_cons_self
      refine ⟨fun n hn => ?_, fun i m hi hm hint => ?_⟩
      · rw [hread hid hn] at hpass
        exact (convert_ne_rejects hpass).elim
      · by_contra h0
        refine hnone { id, last_update := UInt64.ofNat i.toNat, erizo_process_num := Int32.ofInt m }
          (Format.denotes_some.mpr (ErizoAgent.denotes_iff.mpr
            ⟨hobj, hid, integer?_small hdoc hi (by omega), ?_⟩))
        rw [hm, hint.toInt_ofInt]
    · intro havoids a hdenotes
      obtain ⟨-, hid, hlast_update, hnum⟩ :=
        ErizoAgent.denotes_iff.mp (Format.denotes_some.mp hdenotes)
      rcases int?_or_uint?_of_integer? hlast_update with hi | ⟨n, hn, -⟩
      · have hneg := (havoids (by simp [Strings, hid])).2 _ _ hi hnum (isInt32_toInt _)
        omega
      · rw [hread hid hn] at hpass
        exact convert_ne_rejects hpass
  · simp only [ErizoAgent.fromJSON, check_some, reads_bind, hasMembers_of_isObject hobj, ← ne_eq,
      check_bind_ne_rejects] at hpass
    obtain ⟨id, hid, n, hn, -⟩ := hpass
    rw [@Format.exact_of_convert .erizo_agent _ out _ (hread hid hn)]
    constructor
    · rintro ⟨b, -, hdenotes⟩ -
      obtain ⟨-, -, -, hnum⟩ := ErizoAgent.denotes_iff.mp (Format.denotes_some.mp hdenotes)
      refine ⟨fun _ _ => ⟨_, hnum, isInt32_toInt _⟩, fun i m hi _ _ => ?_⟩
      rw [int?_eq_some, uint?_eq_some.mp hn] at hi
      cases hi
    · intro havoids
      obtain ⟨m, hm, hint⟩ := (havoids (by simp [Strings, hid])).1 n hn
      rw [asInt32_of_integer? hm hint]
      refine ⟨_, rfl, Format.denotes_some.mpr (ErizoAgent.denotes_iff.mpr
        ⟨hobj, hid, integer?_timestamp hdoc hn, ?_⟩)⟩
      rw [hm, hint.toInt_ofInt]

end Timestamp

theorem Format.exact_object {f : Format} (hdoc : root.document = true) (hobj : root.isObject = true)
    {out : f.Rec} : f.Exact (some root) out ↔ f.Avoids root := by
  cases f with
  | client => exact client_exact hdoc hobj
  | publisher => exact publisher_exact hdoc hobj
  | subscriber => exact iff_of_true (subscriber_exact hobj) trivial
  | bridge_stream => exact bridge_stream_exact hdoc hobj
  | erizo_agent => exact erizo_agent_exact hdoc hobj
  | room => exact iff_of_true (room_exact hobj) trivial
  | heartbeat => exact heartbeat_exact hdoc hobj

/-- `isMember` throws on an array. -/
theorem Format.not_exact_array {f : Format} {xs : List Value} {out : f.Rec} :
    ¬ f.Exact (some (arrayValue xs)) out := by
  have hthrows : f.fromJSON (some (arrayValue xs)) = throws := by
    cases f <;> rfl
  simp [Format.Exact, Format.call, hthrows]

theorem Format.exact_none {f : Format} {out : f.Rec} : f.Exact none out := by
  have hrejects : f.fromJSON none = rejects := by
    cases f <;> rfl
  rw [Format.exact_of_rejects hrejects]
  rintro a ⟨root, hroot, -⟩
  cases hroot

/-- A reader is exact on a text if and only if the text is no array and, when it is an object,
avoids what the reader forgets. -/
theorem readers_exact_iff (jsoncpp : Jsoncpp) (hstrict : jsoncpp.Strict) (f : Format)
    (text : String)
    (out : f.Rec) :
    f.Exact (jsoncpp.parse text) out ↔
      ∀ root, jsoncpp.parse text = some root → root.isObject = true ∧ f.Avoids root := by
  cases hparse : jsoncpp.parse text with
  | none => exact iff_of_true Format.exact_none (by simp)
  | some root =>
      have hdoc := hstrict text root hparse
      simp only [Option.some.injEq, forall_eq']
      cases root with
      | objectValue members => exact (Format.exact_object hdoc rfl).trans (and_iff_right rfl).symm
      | arrayValue xs => exact iff_of_false Format.not_exact_array fun h => Bool.noConfusion h.1
      | _ => cases hdoc

theorem readers_exact_iff_heartbeat :
    Text.strictJsoncpp.Strict ∧
      (Format.heartbeat.Exact
          (Text.strictJsoncpp.parse (Text.write (.objectValue (HEARTBEAT.toJSON ⟨"ec", 5⟩)))) {} ↔
        ∀ root, Text.strictJsoncpp.parse (Text.write (.objectValue (HEARTBEAT.toJSON ⟨"ec", 5⟩))) =
          some root → root.isObject = true ∧ Format.heartbeat.Avoids root) :=
  ⟨Text.strictJsoncpp_strict, readers_exact_iff _ Text.strictJsoncpp_strict _ _ _⟩

/-- A heartbeat with an early timestamp is not read back, and an agent is read that has no
`erizo_process_num`. -/
theorem readers_not_exact :
    ¬ Format.heartbeat.Exact
        (Text.jsoncpp.parse (Text.jsoncpp.write (.objectValue (HEARTBEAT.toJSON ⟨"ec", 5⟩)))) {} ∧
      ¬ Format.erizo_agent.Exact
        (Text.jsoncpp.parse (Text.jsoncpp.write (.objectValue
          [("id", .stringValue "agent"), ("last_update", .uintValue 2147483648)]))) ⟨"", 0, 7⟩ := by
  constructor
  · have hrecord : IsRecord (HEARTBEAT.toJSON ⟨"ec", 5⟩) :=
      isRecord_of_noNul (by simp [HEARTBEAT.toJSON]) (by simp [HEARTBEAT.toJSON])
        (by simp [HEARTBEAT.toJSON, Value.IsField]) (by decide)
    obtain ⟨root, hparse, hread⟩ := Text.jsoncpp_lawful.parse_write _ hrecord
    have hid : root.string? "id" = some "ec" := by
      rw [string?_eq_some, hread.2]
      simp [HEARTBEAT.toJSON, member?, reread]
    have hlast_update : root.int? "last_update" = some 5 := by
      rw [int?_eq_some, hread.2]
      simp [HEARTBEAT.toJSON, member?, reread, ofLiteral]
    have hrejects : HEARTBEAT.fromJSON (some root) = rejects := by
      simp only [HEARTBEAT.fromJSON, check_some, reads_bind, hread.hasMembers, hid, uint?,
        int?_eq_some.mp hlast_update]
      rfl
    rw [hparse, @Format.exact_of_rejects .heartbeat _ _ hrejects]
    exact fun hnone => hnone ⟨"ec", 5⟩ (Format.denotes_some.mpr
      (HEARTBEAT.denotes_iff.mpr ⟨hread.1, hid, integer?_of_int? hlast_update⟩))
  · have hrecord :
      IsRecord [("id", .stringValue "agent"), ("last_update", .uintValue 2147483648)] :=
      isRecord_of_noNul (by simp) (by simp) (by simp [Value.IsField]) (by decide)
    obtain ⟨root, hparse, hread⟩ := Text.jsoncpp_lawful.parse_write _ hrecord
    have hid : root.string? "id" = some "agent" := by
      rw [string?_eq_some, hread.2]
      simp [member?, reread]
    have hlast_update : root.uint? "last_update" = some 2147483648 := by
      rw [uint?_eq_some, hread.2]
      simp [member?, reread, ofLiteral]
    have hnum : root.member? "erizo_process_num" = none := by
      rw [hread.2]
      simp [member?]
    have hreads : ErizoAgent.fromJSON (some root) =
        convert (some ⟨"agent", asUInt64 2147483648, 0⟩) := by
      simp only [ErizoAgent.fromJSON, check_some, reads_bind, hread.hasMembers, hid, hlast_update,
        Value.get, hnum, Option.getD_none, asInt32, convert_some, pure_eq]
    rw [hparse, @Format.exact_of_convert .erizo_agent _ _ _ hreads]
    rintro ⟨b, -, hdenotes⟩
    obtain ⟨-, -, -, hdenoted⟩ := ErizoAgent.denotes_iff.mp (Format.denotes_some.mp hdenotes)
    rw [integer?, hnum] at hdenoted
    cases hdenoted

end Json
