import ErizoController.Model.Json
import ErizoController.Model.Records

/-!
# The records as JSON

`toJSON` and `fromJSON` of the records of a room. A reader checks the members and their
types first, and only then converts them, so that a record with a number of the wrong kind
is dropped before jsoncpp can throw. A number is written as what it is in the record and
read as what it is in the text: a small one is an `intValue` also where the record has an
unsigned number.

jsoncpp itself is outside the repository. What the records rely on is `Jsoncpp.Lawful`.
-/

namespace Json

/-- What a reader makes of a text: jsoncpp throws, a check fails, or a record is read. -/
inductive Parsed (α : Type) where
  | throws
  | rejects
  | reads (a : α)
  deriving DecidableEq

namespace Parsed

variable {α β : Type}

protected def bind : Parsed α → (α → Parsed β) → Parsed β
  | throws, _ => throws
  | rejects, _ => rejects
  | reads a, f => f a

instance : Monad Parsed where
  pure := reads
  bind := Parsed.bind

/-- A check that fails on `none`. -/
def check : Option α → Parsed α
  | none => rejects
  | some a => reads a

/-- A conversion that throws on `none`. -/
def convert : Option α → Parsed α
  | none => throws
  | some a => reads a

-- Not a definitional rule for `simp`: the kernel would compute with the bounds of `asInt`.
@[simp] theorem reads_bind (a : α) (f : α → Parsed β) : (reads a >>= f) = f a := (rfl)

@[simp] theorem check_some (a : α) : check (some a) = reads a := rfl

@[simp] theorem convert_some (a : α) : convert (some a) = reads a := rfl

@[simp] theorem pure_eq (a : α) : (pure a : Parsed α) = reads a := rfl

variable {f : α → Parsed β} {b : β}

theorem reads_of_bind {p : Parsed α} (h : (p >>= f) = reads b) :
    ∃ a, p = reads a ∧ f a = reads b := by
  cases p with
  | throws => cases h
  | rejects => cases h
  | reads a => exact ⟨a, rfl, h⟩

theorem check_bind_eq_reads {o : Option α} :
    (check o >>= f) = reads b ↔ ∃ a, o = some a ∧ f a = reads b := by
  cases o with
  | none => simp [check, Bind.bind, Parsed.bind]
  | some a => simp

end Parsed

namespace Value

/-- `isMember` throws on a root that is neither an object nor null. -/
def hasMembers (root : Value) : Parsed Unit :=
  if root.isNull ∨ root.isObject then .reads () else .throws

/-- A member that is present and a boolean. -/
def bool? (root : Value) (key : String) : Option Bool :=
  match root.member? key with
  | some (booleanValue b) => some b
  | _ => none

/-! ## What is read back -/

/-- A number as the reader makes it of its literal. -/
def ofLiteral (i : ℤ) : Value := if i ≤ 2 ^ 31 - 1 then intValue i else uintValue i.toNat

/-- The value read where one was written. -/
def reread : Value → Value
  | intValue i => ofLiteral i
  | uintValue n => ofLiteral n
  | v => v

/-- An object with the members that were written. -/
def Reread (written root : Value) : Prop :=
  root.isObject = true ∧ ∀ key, root.member? key = (written.member? key).map reread

theorem Reread.hasMembers {written root : Value} (h : Reread written root) :
    root.hasMembers = .reads () := if_pos (.inr h.1)

theorem ofLiteral_int32 {i : ℤ} (h : i < 2 ^ 31) : ofLiteral i = intValue i :=
  if_pos (by omega)

theorem asUInt_ofLiteral (n : UInt32) : (ofLiteral n.toNat).asUInt = some n := by
  have hlt : (n.toNat : ℤ) < 2 ^ 32 := by
    have := n.toNat_lt
    omega
  rw [ofLiteral]
  split
  · rw [asUInt, if_pos ⟨Int.natCast_nonneg _, hlt⟩, Int.toNat_natCast, UInt32.ofNat_toNat]
  · rw [asUInt, Int.toNat_natCast, if_pos n.toNat_lt, UInt32.ofNat_toNat]

end Value

/-! ## jsoncpp -/

/-- `FastWriter::write` and `Reader::parse` in strict mode. -/
structure Jsoncpp where
  write : Value → String
  parse : String → Option Value

/-- A member of a record: no object or array, no NUL in a string, and a number of the
integer types of jsoncpp. -/
def Value.IsField : Value → Prop
  | .stringValue s => '\x00' ∉ s.toList
  | .intValue i => -2 ^ 63 ≤ i ∧ i < 2 ^ 63
  | .uintValue n => n < 2 ^ 64
  | .booleanValue _ => True
  | _ => False

/-- No string among the members has a NUL. -/
def Value.NoNul (members : List (String × Value)) : Prop :=
  ∀ key s, (key, .stringValue s) ∈ members → '\x00' ∉ s.toList

/-- A value that is no string with a NUL. -/
def Value.plain : Value → Bool
  | .stringValue s => '\x00' ∉ s.toList
  | _ => true

theorem Value.noNul_iff {members : List (String × Value)} :
    NoNul members ↔ ∀ m ∈ members, m.2.plain = true := by
  constructor
  · rintro h ⟨key, v⟩ hm
    cases v with
    | stringValue s => exact decide_eq_true (h key s hm)
    | _ => rfl
  · exact fun h key s hm => of_decide_eq_true (h _ hm)

instance (members : List (String × Value)) : Decidable (Value.NoNul members) :=
  decidable_of_iff _ Value.noNul_iff.symm

/-- An object whose members are fields with names of their own. -/
structure Value.IsRecord (members : List (String × Value)) : Prop where
  nodup : (members.map Prod.fst).Nodup
  name : ∀ m ∈ members, '\x00' ∉ m.1.toList
  field : ∀ m ∈ members, m.2.IsField

/-- The reader undoes the writer on the members of a record, up to the type of a number,
which is that of its literal. The empty text is no document. -/
structure Jsoncpp.Lawful (jsoncpp : Jsoncpp) : Prop where
  parse_write : ∀ members, Value.IsRecord members →
    ∃ root, jsoncpp.parse (jsoncpp.write (.objectValue members)) = some root ∧
      Value.Reread (.objectValue members) root
  write_no_nul : ∀ members, Value.IsRecord members →
    '\x00' ∉ (jsoncpp.write (.objectValue members)).toList
  parse_empty : jsoncpp.parse "" = none

end Json

/-! ## The four records -/

open Json Value Parsed

def Client.toJSON (client : Client) : List (String × Value) :=
  [("id", .stringValue client.id),
    ("agent_id", .stringValue client.agent_id),
    ("erizo_id", .stringValue client.erizo_id),
    ("bridge_ip", .stringValue client.bridge_ip),
    ("bridge_port", .intValue client.bridge_port.toNat),
    ("room_id", .stringValue client.room_id),
    ("ip", .stringValue client.ip),
    ("port", .intValue client.port.toNat),
    ("family", .stringValue client.family),
    ("reply_to", .stringValue client.reply_to)]

/-- `fromJSON` on the outcome of the reader, as the readers below. -/
def Client.fromJSON (parsed : Option Value) : Parsed Client := do
  let root ← check parsed
  root.hasMembers
  let id ← check (root.string? "id")
  let agent_id ← check (root.string? "agent_id")
  let erizo_id ← check (root.string? "erizo_id")
  let bridge_ip ← check (root.string? "bridge_ip")
  let bridge_port ← check (root.int? "bridge_port")
  let room_id ← check (root.string? "room_id")
  let ip ← check (root.string? "ip")
  let port ← check (root.int? "port")
  let family ← check (root.string? "family")
  let reply_to ← check (root.string? "reply_to")
  let bridge_port ← convert (asInt bridge_port)
  let port ← convert (asInt port)
  return { id, agent_id, erizo_id, bridge_ip, bridge_port := UInt16.ofInt bridge_port, room_id, ip,
           port := UInt16.ofInt port, family, reply_to }

def Publisher.toJSON (publisher : Publisher) : List (String × Value) :=
  [("id", .stringValue publisher.id),
    ("erizo_id", .stringValue publisher.erizo_id),
    ("bridge_ip", .stringValue publisher.bridge_ip),
    ("bridge_port", .intValue publisher.bridge_port.toNat),
    ("agent_id", .stringValue publisher.agent_id),
    ("client_id", .stringValue publisher.client_id),
    ("label", .stringValue publisher.label),
    ("video_ssrc", .uintValue publisher.video_ssrc.toNat),
    ("audio_ssrc", .uintValue publisher.audio_ssrc.toNat)]

/-- The types of the two SSRCs are not checked. -/
def Publisher.fromJSON (parsed : Option Value) : Parsed Publisher := do
  let root ← check parsed
  root.hasMembers
  let id ← check (root.string? "id")
  let erizo_id ← check (root.string? "erizo_id")
  let bridge_ip ← check (root.string? "bridge_ip")
  let bridge_port ← check (root.int? "bridge_port")
  let agent_id ← check (root.string? "agent_id")
  let client_id ← check (root.string? "client_id")
  let label ← check (root.string? "label")
  let video_ssrc ← check (root.member? "video_ssrc")
  let audio_ssrc ← check (root.member? "audio_ssrc")
  let bridge_port ← convert (asInt bridge_port)
  let video_ssrc ← convert video_ssrc.asUInt
  let audio_ssrc ← convert audio_ssrc.asUInt
  return { id, client_id, erizo_id, bridge_ip, bridge_port := UInt16.ofInt bridge_port, agent_id,
           label, video_ssrc, audio_ssrc }

def Subscriber.toJSON (subscriber : Subscriber) : List (String × Value) :=
  [("id", .stringValue subscriber.id),
    ("agent_id", .stringValue subscriber.agent_id),
    ("erizo_id", .stringValue subscriber.erizo_id),
    ("client_id", .stringValue subscriber.client_id),
    ("subscribe_to", .stringValue subscriber.subscribe_to),
    ("reply_to", .stringValue subscriber.reply_to),
    ("is_bridge", .booleanValue subscriber.is_bridge)]

def Subscriber.fromJSON (parsed : Option Value) : Parsed Subscriber := do
  let root ← check parsed
  root.hasMembers
  let id ← check (root.string? "id")
  let client_id ← check (root.string? "client_id")
  let erizo_id ← check (root.string? "erizo_id")
  let agent_id ← check (root.string? "agent_id")
  let subscribe_to ← check (root.string? "subscribe_to")
  let reply_to ← check (root.string? "reply_to")
  let is_bridge ← check (root.bool? "is_bridge")
  return { id, client_id, erizo_id, agent_id, subscribe_to, reply_to, is_bridge }

def BridgeStream.toJSON (bridge_stream : BridgeStream) : List (String × Value) :=
  [("id", .stringValue bridge_stream.id),
    ("sender_erizo_id", .stringValue bridge_stream.sender_erizo_id),
    ("sender_ip", .stringValue bridge_stream.sender_ip),
    ("sender_port", .intValue bridge_stream.sender_port.toNat),
    ("recver_erizo_id", .stringValue bridge_stream.recver_erizo_id),
    ("recver_ip", .stringValue bridge_stream.recver_ip),
    ("recver_port", .intValue bridge_stream.recver_port.toNat),
    ("src_stream_id", .stringValue bridge_stream.src_stream_id),
    ("label", .stringValue bridge_stream.label),
    ("subscribe_count", .intValue bridge_stream.subscribe_count.toInt)]

def BridgeStream.fromJSON (parsed : Option Value) : Parsed BridgeStream := do
  let root ← check parsed
  root.hasMembers
  let id ← check (root.string? "id")
  let sender_erizo_id ← check (root.string? "sender_erizo_id")
  let sender_ip ← check (root.string? "sender_ip")
  let sender_port ← check (root.int? "sender_port")
  let recver_erizo_id ← check (root.string? "recver_erizo_id")
  let recver_ip ← check (root.string? "recver_ip")
  let recver_port ← check (root.int? "recver_port")
  let src_stream_id ← check (root.string? "src_stream_id")
  let label ← check (root.string? "label")
  let subscribe_count ← check (root.int? "subscribe_count")
  let sender_port ← convert (asInt sender_port)
  let recver_port ← convert (asInt recver_port)
  let subscribe_count ← convert (asInt subscribe_count)
  return { id, sender_erizo_id, sender_ip, sender_port := UInt16.ofInt sender_port, recver_erizo_id,
           recver_ip, recver_port := UInt16.ofInt recver_port, src_stream_id, label,
           subscribe_count := Int32.ofInt subscribe_count }

/-! ## What is written is a record -/

namespace Json.Value

theorem isField_port (n : UInt16) : (intValue n.toNat).IsField := by
  have := n.toNat_lt
  exact ⟨by omega, by omega⟩

theorem isField_ssrc (n : UInt32) : (uintValue n.toNat).IsField := by
  have := n.toNat_lt
  exact lt_trans this (by decide)

theorem isField_int32 (n : Int32) : (intValue n.toInt).IsField :=
  ⟨le_trans (by decide) n.le_toInt, lt_trans n.toInt_lt (by decide)⟩

theorem isRecord_of_noNul {members : List (String × Value)} (hnodup : (members.map Prod.fst).Nodup)
    (hname : ∀ m ∈ members, '\x00' ∉ m.1.toList)
    (hfield : ∀ m ∈ members, (∃ s, m.2 = stringValue s) ∨ m.2.IsField) (h : NoNul members) :
    IsRecord members where
  nodup := hnodup
  name := hname
  field := by
    rintro ⟨key, v⟩ hm
    rcases hfield _ hm with ⟨s, rfl⟩ | hv
    · exact h key s hm
    · exact hv

end Json.Value

theorem Client.isRecord {client : Client} (h : NoNul client.toJSON) : IsRecord client.toJSON :=
  isRecord_of_noNul (by simp [Client.toJSON]) (by simp [Client.toJSON])
    (by simp [Client.toJSON, isField_port]) h

theorem Publisher.isRecord {publisher : Publisher} (h : NoNul publisher.toJSON) :
    IsRecord publisher.toJSON :=
  isRecord_of_noNul (by simp [Publisher.toJSON]) (by simp [Publisher.toJSON])
    (by simp [Publisher.toJSON, isField_port, isField_ssrc]) h

theorem Subscriber.isRecord {subscriber : Subscriber} (h : NoNul subscriber.toJSON) :
    IsRecord subscriber.toJSON :=
  isRecord_of_noNul (by simp [Subscriber.toJSON]) (by simp [Subscriber.toJSON])
    (by simp [Subscriber.toJSON, Value.IsField]) h

theorem BridgeStream.isRecord {bridge_stream : BridgeStream} (h : NoNul bridge_stream.toJSON) :
    IsRecord bridge_stream.toJSON :=
  isRecord_of_noNul (by simp [BridgeStream.toJSON]) (by simp [BridgeStream.toJSON])
    (by simp [BridgeStream.toJSON, isField_port, isField_int32]) h

/-! ## A record that was written is read -/

namespace Json.Value

theorem member?_of_mem {members : List (String × Value)} (hnodup : (members.map Prod.fst).Nodup)
    {m : String × Value} (hm : m ∈ members) : (objectValue members).member? m.1 = some m.2 := by
  rw [member?, Option.map_eq_some_iff]
  refine ⟨m, ?_, rfl⟩
  induction members with
  | nil => exact absurd hm List.not_mem_nil
  | cons m' members ih =>
      obtain ⟨hnot, hnodup⟩ := List.nodup_cons.mp hnodup
      rcases List.mem_cons.mp hm with rfl | hm
      · exact List.find?_cons_of_pos (by simp)
      · have hne : m'.1 ≠ m.1 := fun heq => hnot (heq ▸ List.mem_map_of_mem hm)
        rw [List.find?_cons_of_neg (by simpa using hne)]
        exact ih hnodup hm

theorem member?_eq_some_iff {members : List (String × Value)}
    (hnodup : (members.map Prod.fst).Nodup)
    {key : String} {v : Value} :
    (objectValue members).member? key = some v ↔ (key, v) ∈ members := by
  refine ⟨fun h => ?_, member?_of_mem hnodup⟩
  rw [member?, Option.map_eq_some_iff] at h
  obtain ⟨⟨key', v⟩, hfind, rfl⟩ := h
  obtain rfl : key' = key := by simpa using List.find?_some hfind
  exact List.mem_of_find?_eq_some hfind

/-- The members of a record are read back. -/
theorem Reread.members {members : List (String × Value)} {root : Value} (hrecord : IsRecord members)
    (h : Reread (.objectValue members) root) :
    ∀ m ∈ members, root.member? m.1 = some m.2.reread := by
  intro m hm
  rw [h.2, member?_of_mem hrecord.nodup hm, Option.map_some]

theorem port_lt (n : UInt16) : (n.toNat : ℤ) < 2 ^ 31 := by
  have := n.toNat_lt
  omega

theorem reread_port (n : UInt16) : reread (.intValue n.toNat) = .intValue n.toNat :=
  ofLiteral_int32 (port_lt n)

theorem reread_int32 (n : Int32) : reread (.intValue n.toInt) = .intValue n.toInt :=
  ofLiteral_int32 n.toInt_lt

theorem reread_string (s : String) : reread (.stringValue s) = .stringValue s := rfl

theorem reread_bool (b : Bool) : reread (.booleanValue b) = .booleanValue b := rfl

theorem asUInt_reread (n : UInt32) : (reread (.uintValue n.toNat)).asUInt = some n :=
  asUInt_ofLiteral n

theorem asInt_int32 (n : Int32) : asInt n.toInt = some n.toInt :=
  if_pos ⟨n.le_toInt, n.toInt_lt⟩

theorem asInt_port (n : UInt16) : asInt n.toNat = some (n.toNat : ℤ) :=
  if_pos ⟨by omega, port_lt n⟩

theorem ofInt_port (n : UInt16) : UInt16.ofInt n.toNat = n := by
  have hmod : ((n.toNat : ℤ) % 2 ^ 16).toNat = n.toNat := by
    have := n.toNat_lt
    omega
  rw [UInt16.ofInt, hmod, UInt16.ofNat_toNat]

end Json.Value

section RoundTrip

variable {root : Value}

theorem Client.fromJSON_toJSON {client : Client} (hrecord : IsRecord client.toJSON)
    (h : Reread (.objectValue client.toJSON) root) :
    Client.fromJSON (some root) = .reads client.stored := by
  have hmembers := h.members hrecord
  simp only [Client.toJSON, List.forall_mem_cons] at hmembers
  obtain ⟨hid, hagent_id, herizo_id, hbridge_ip, hbridge_port, hroom_id, hip, hport, hfamily,
    hreply_to, -⟩ := hmembers
  simp only [Client.fromJSON, check_some, reads_bind, convert_some, pure_eq, h.hasMembers, string?,
    int?, hid, hagent_id, herizo_id, hbridge_ip, hbridge_port, hroom_id, hip, hport, hfamily,
    hreply_to, reread_string, reread_port, asInt_port, ofInt_port, Client.stored]

theorem Publisher.fromJSON_toJSON {publisher : Publisher} (hrecord : IsRecord publisher.toJSON)
    (h : Reread (.objectValue publisher.toJSON) root) :
    Publisher.fromJSON (some root) = .reads publisher := by
  have hmembers := h.members hrecord
  simp only [Publisher.toJSON, List.forall_mem_cons] at hmembers
  obtain ⟨hid, herizo_id, hbridge_ip, hbridge_port, hagent_id, hclient_id, hlabel, hvideo_ssrc,
    haudio_ssrc, -⟩ := hmembers
  simp only [Publisher.fromJSON, check_some, reads_bind, convert_some, pure_eq, h.hasMembers,
    string?, int?, hid, herizo_id, hbridge_ip, hbridge_port, hagent_id, hclient_id, hlabel,
    hvideo_ssrc, haudio_ssrc, reread_string, reread_port, asInt_port, ofInt_port, asUInt_reread]

theorem Subscriber.fromJSON_toJSON {subscriber : Subscriber} (hrecord : IsRecord subscriber.toJSON)
    (h : Reread (.objectValue subscriber.toJSON) root) :
    Subscriber.fromJSON (some root) = .reads subscriber := by
  have hmembers := h.members hrecord
  simp only [Subscriber.toJSON, List.forall_mem_cons] at hmembers
  obtain ⟨hid, hagent_id, herizo_id, hclient_id, hsubscribe_to, hreply_to, his_bridge, -⟩ :=
    hmembers
  simp only [Subscriber.fromJSON, check_some, reads_bind, pure_eq, h.hasMembers, string?, bool?,
    hid, hagent_id, herizo_id, hclient_id, hsubscribe_to, hreply_to, his_bridge, reread_string,
    reread_bool]

theorem BridgeStream.fromJSON_toJSON {bridge_stream : BridgeStream}
    (hrecord : IsRecord bridge_stream.toJSON)
    (h : Reread (.objectValue bridge_stream.toJSON) root) :
    BridgeStream.fromJSON (some root) = .reads bridge_stream := by
  have hmembers := h.members hrecord
  simp only [BridgeStream.toJSON, List.forall_mem_cons] at hmembers
  obtain ⟨hid, hsender_erizo_id, hsender_ip, hsender_port, hrecver_erizo_id, hrecver_ip,
    hrecver_port, hsrc_stream_id, hlabel, hsubscribe_count, -⟩ := hmembers
  simp only [BridgeStream.fromJSON, check_some, reads_bind, convert_some, pure_eq, h.hasMembers,
    string?, int?, hid, hsender_erizo_id, hsender_ip, hsender_port, hrecver_erizo_id, hrecver_ip,
    hrecver_port, hsrc_stream_id, hlabel, hsubscribe_count, reread_string, reread_port,
    reread_int32, asInt_port, asInt_int32, ofInt_port, Int32.ofInt_toInt]

end RoundTrip
