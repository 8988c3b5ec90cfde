import Mathlib.Data.List.Induction
import ErizoController.Model.JsonText
import ErizoController.Redis.Helper
import ErizoController.Redis.Keyspace

/-!
# The records in Redis

`RedisHelper` on the texts that Redis really keeps: a record is filed as its JSON text in a
hash, and read back by `fromJSON`, which may drop it. The tables of records that the
handlers work on are shown to be what these texts hold: after any additions and removals
each operation reads the same from both, and a row is there if it was added and neither
replaced nor removed since.
-/

namespace TextStore

open Json Redis Keyed
open ACLRedis (c_str c_str_of_plain)

/-! ## ACLRedis -/

/-- The fields of a hash are filed under their names. -/
instance : Keyed (String × String) String := ⟨Prod.fst⟩

@[simp] theorem key_entry (e : String × String) : key e = e.1 := rfl

/-- The fields of a key, none where it is no hash. -/
def fields : Option RedisValue → List (String × String)
  | some (.hash fields) => fields
  | _ => []

def hset (key field value : String) (db : Keyspace) : Keyspace :=
  (RedisCommand.hset (c_str key) (c_str field) (c_str value)).exec db

def hdel (key : String) (ids : List String) (db : Keyspace) : Keyspace :=
  (RedisCommand.hdel (c_str key) (ids.map c_str)).exec db

/-- The text of a field; the text stays empty where there is none. -/
def hget (key field : String) (db : Keyspace) : String :=
  match (fields (db (c_str key))).find? fun e => e.1 == c_str field with
  | none => ""
  | some e => c_str e.2

/-- The reply is put into a `std::map`, which sorts it. -/
def hgetall (key : String) (db : Keyspace) : Table (String × String) :=
  (fields (db (c_str key))).foldl Table.set ∅

def hvals (key : String) (db : Keyspace) : List String :=
  (hgetall key db).rows.map fun e => c_str e.2

/-! ## The hashes of records -/

/-- The hashes that the records of the rooms are filed in. -/
inductive Hash where
  | client | publisher | subscriber | bridge_stream | ec
  deriving DecidableEq

namespace Hash

@[reducible] def kind : Hash → Kind
  | client => .client
  | publisher => .publisher
  | subscriber => .subscriber
  | bridge_stream => .bridge_stream
  | ec => .ec

abbrev Rec (h : Hash) : Type := h.kind.Rec

/-- The key of the hash, for a room or a controller. -/
def use : Hash → String → KeyUse
  | client, room_id => .room .client room_id
  | publisher, room_id => .room .publisher room_id
  | subscriber, room_id => .room .subscriber room_id
  | bridge_stream, room_id => .room .bridge_stream room_id
  | ec, erizo_controller_id => .ec erizo_controller_id

def key (h : Hash) (name : String) : String := (h.use name).text

def toJSON : (h : Hash) → h.Rec → List (String × Value)
  | client => Client.toJSON
  | publisher => Publisher.toJSON
  | subscriber => Subscriber.toJSON
  | bridge_stream => BridgeStream.toJSON
  | ec => Client.toJSON

def fromJSON : (h : Hash) → Option Value → Parsed h.Rec
  | client => Client.fromJSON
  | publisher => Publisher.fromJSON
  | subscriber => Subscriber.fromJSON
  | bridge_stream => BridgeStream.fromJSON
  | ec => Client.fromJSON

/-- What the JSON form carries of a record: all but the `ip_info` of a client. -/
def stored : (h : Hash) → h.Rec → h.Rec
  | client => Client.stored
  | publisher => id
  | subscriber => id
  | bridge_stream => id
  | ec => Client.stored

/-- A room or a controller: no NUL, and the id of a controller is made by `init`. -/
def Names (h : Hash) (name : String) : Prop :=
  '\x00' ∉ name.toList ∧ (h = ec → ∃ uuid, name = "ec_" ++ uuid)

end Hash

/-! ## RedisHelper -/

section Helper

variable (jsoncpp : Jsoncpp)

def write (members : List (String × Value)) : String := jsoncpp.write (.objectValue members)

def add (h : Hash) (name : String) (row : h.Rec) (db : Keyspace) : Keyspace :=
  hset (h.key name) (key row) (write jsoncpp (h.toJSON row)) db

def remove (h : Hash) (name : String) (ids : List String) (db : Keyspace) : Keyspace :=
  hdel (h.key name) ids db

/-- A record read from its text. -/
def read (h : Hash) (text : String) : Parsed h.Rec := h.fromJSON (jsoncpp.parse text)

def get (h : Hash) (name id : String) (db : Keyspace) : Parsed h.Rec :=
  read jsoncpp h (hget (h.key name) id db)

/-- The records that `fromJSON` accepts, in order. -/
def readAll (h : Hash) : List String → Parsed (List h.Rec)
  | [] => .reads []
  | text :: texts =>
      match read jsoncpp h text with
      | .throws => .throws
      | .rejects => readAll h texts
      | .reads row => do return row :: (← readAll h texts)

def getAll (h : Hash) (name : String) (db : Keyspace) : Parsed (List h.Rec) :=
  readAll jsoncpp h (hvals (h.key name) db)

def getAllClient (room_id : String) (db : Keyspace) : Parsed (List Client) :=
  getAll jsoncpp .client room_id db

def getPublisher (room_id publisher_id : String) (db : Keyspace) : Parsed Publisher :=
  get jsoncpp .publisher room_id publisher_id db

def getAllPublisher (room_id : String) (db : Keyspace) : Parsed (List Publisher) :=
  getAll jsoncpp .publisher room_id db

def getAllSubscriber (room_id : String) (db : Keyspace) : Parsed (List Subscriber) :=
  getAll jsoncpp .subscriber room_id db

def getBridgeStream (room_id bridge_stream_id : String) (db : Keyspace) : Parsed BridgeStream :=
  get jsoncpp .bridge_stream room_id bridge_stream_id db

def getAllBridgeStream (room_id : String) (db : Keyspace) : Parsed (List BridgeStream) :=
  getAll jsoncpp .bridge_stream room_id db

def getAllClientFromEC (erizo_controller_id : String) (db : Keyspace) : Parsed (List Client) :=
  getAll jsoncpp .ec erizo_controller_id db

end Helper

/-- An addition or a removal. -/
inductive Operation where
  | add (h : Hash) (name : String) (row : h.Rec)
  | remove (h : Hash) (name : String) (ids : List String)

namespace Operation

def addClient (room_id : String) (client : Client) : Operation := .add .client room_id client

def removeClient (room_id client_id : String) : Operation := .remove .client room_id [client_id]

def addPublisher (room_id : String) (publisher : Publisher) : Operation :=
  .add .publisher room_id publisher

def removePublishers (room_id : String) (publisher_ids : List String) : Operation :=
  .remove .publisher room_id publisher_ids

def addSubscriber (room_id : String) (subscriber : Subscriber) : Operation :=
  .add .subscriber room_id subscriber

def removeSubscribers (room_id : String) (subscriber_ids : List String) : Operation :=
  .remove .subscriber room_id subscriber_ids

def addBridgeStream (room_id : String) (bridge_stream : BridgeStream) : Operation :=
  .add .bridge_stream room_id bridge_stream

def removeBridgeStream (room_id bridge_stream_id : String) : Operation :=
  .remove .bridge_stream room_id [bridge_stream_id]

def addClientToEC (erizo_controller_id : String) (client : Client) : Operation :=
  .add .ec erizo_controller_id client

def removeClientFromEC (erizo_controller_id client_id : String) : Operation :=
  .remove .ec erizo_controller_id [client_id]

/-- The operation on the texts. -/
def text (jsoncpp : Jsoncpp) : Operation → Keyspace → Keyspace
  | .add h name row, db => TextStore.add jsoncpp h name row db
  | .remove h name ids, db => TextStore.remove h name ids db

/-- The operation on the tables of records. -/
def typed : Operation → Redis → Redis
  | .add h name row, r => r.update h.kind name ((r h.kind name).set (h.stored row))
  | .remove h name ids, r => r.update h.kind name ((r h.kind name).erase ids)

/-- The operation of `RedisHelper` on the tables. -/
def helper : Operation → Handler ℤ
  | .add h name row => RedisHelper.add h.kind name (h.stored row)
  | .remove h name ids => RedisHelper.remove h.kind name ids

/-- The strings of the operation have no NUL. -/
def Plain : Operation → Prop
  | .add h name row => h.Names name ∧ Value.NoNul (h.toJSON row)
  | .remove h name ids => h.Names name ∧ ∀ id ∈ ids, '\x00' ∉ id.toList

/-- The operation files or removes the row under an id. -/
def Touches (h : Hash) (name id : String) : Operation → Prop
  | .add h' name' row => h' = h ∧ name' = name ∧ key row = id
  | .remove h' name' ids => h' = h ∧ name' = name ∧ id ∈ ids

end Operation

/-- The texts after the operations. -/
def run (jsoncpp : Jsoncpp) (ops : List Operation) : Keyspace :=
  ops.foldl (fun db op => op.text jsoncpp db) fun _ => none

/-- The tables after the operations. -/
def typedRun (ops : List Operation) : Redis := ops.foldl (fun r op => op.typed r) Redis.empty

/-! ## The hashes are apart and their records are read back -/

namespace Hash

variable (h : Hash)

theorem kind_injective {h h' : Hash} (heq : h.kind = h'.kind) : h = h' := by
  cases h <;> cases h' <;> first | rfl | cases heq

@[simp] theorem key_stored (row : h.Rec) : Keyed.key (h.stored row) = Keyed.key row := by
  cases h <;> rfl

@[simp] theorem toJSON_stored (row : h.Rec) : h.toJSON (h.stored row) = h.toJSON row := by
  cases h <;> rfl

@[simp] theorem stored_stored (row : h.Rec) : h.stored (h.stored row) = h.stored row := by
  cases h <;> rfl

variable {h}

theorem isRecord {row : h.Rec} (hrow : Value.NoNul (h.toJSON row)) : Value.IsRecord
    (h.toJSON row) := by
  cases h with
  | client => exact Client.isRecord hrow
  | publisher => exact Publisher.isRecord hrow
  | subscriber => exact Subscriber.isRecord hrow
  | bridge_stream => exact BridgeStream.isRecord hrow
  | ec => exact Client.isRecord hrow

theorem fromJSON_toJSON {row : h.Rec} {root : Value} (hrow : Value.IsRecord (h.toJSON row))
    (hroot : Value.Reread (.objectValue (h.toJSON row)) root) :
    h.fromJSON (some root) = .reads (h.stored row) := by
  cases h with
  | client => exact Client.fromJSON_toJSON hrow hroot
  | publisher => exact Publisher.fromJSON_toJSON hrow hroot
  | subscriber => exact Subscriber.fromJSON_toJSON hrow hroot
  | bridge_stream => exact BridgeStream.fromJSON_toJSON hrow hroot
  | ec => exact Client.fromJSON_toJSON hrow hroot

theorem fromJSON_none : h.fromJSON none = .rejects := by
  cases h <;> rfl

theorem id_no_nul {row : h.Rec} (hrow : Value.NoNul (h.toJSON row)) :
    '\x00' ∉ (Keyed.key row).toList := by
  cases h <;> exact hrow "id" _ List.mem_cons_self

theorem names_room {name : String} (hname : '\x00' ∉ name.toList) (hne : h ≠ ec) : h.Names name :=
  ⟨hname, fun heq => absurd heq hne⟩

theorem names_ec {uuid : String} (huuid : '\x00' ∉ uuid.toList) : ec.Names ("ec_" ++ uuid) := by
  refine ⟨?_, fun _ => ⟨uuid, rfl⟩⟩
  rw [String.toList_append, List.mem_append, not_or]
  exact ⟨by decide, huuid⟩

theorem key_no_nul {name : String} (hname : h.Names name) : '\x00' ∉ (h.key name).toList := by
  have happend : ∀ text : String, '\x00' ∉ text.toList → '\x00' ∉ (text ++ name).toList := by
    intro text htext
    rw [String.toList_append, List.mem_append, not_or]
    exact ⟨htext, hname.1⟩
  cases h with
  | ec => exact hname.1
  | _ => exact happend _ (by decide)

/-- The rooms and controllers with all possible ids that have no NUL. -/
def deployment : Deployment where
  rooms := {room_id | ACLRedis.Plain room_id}
  controllers := {erizo_controller_id | (∃ uuid, erizo_controller_id = "ec_" ++ uuid) ∧
    ACLRedis.Plain erizo_controller_id}
  areas := ∅
  controller_id _ h := h.1
  controller_plain _ h := h.2

theorem uses {name : String} (hname : h.Names name) : deployment.Uses (h.use name) := by
  cases h with
  | ec => exact ⟨hname.2 rfl, hname.1⟩
  | _ => exact hname.1

theorem use_ne_lock (name : String) : ∀ key, h.use name ≠ .lock key := by
  cases h <;> exact fun key heq => KeyUse.noConfusion heq

theorem key_injective {h h' : Hash} {name name' : String} (hname : h.Names name)
    (hname' : h'.Names name') (heq : h.key name = h'.key name') : h = h' ∧ name = name' := by
  have hrooms : ∀ room_id ∈ deployment.rooms, ∀ room_id' ∈ deployment.rooms,
      c_str room_id = c_str room_id' → room_id = room_id' := by
    intro room_id hroom room_id' hroom' hcut
    rwa [c_str_of_plain hroom, c_str_of_plain hroom'] at hcut
  have huse : h.use name = h'.use name' :=
    Deployment.hash_injective (uses hname) (uses hname') hrooms (fun area harea => harea.elim)
      (use_ne_lock name) (use_ne_lock name') (congrArg c_str heq)
  cases h <;> cases h' <;> simp_all [use]

end Hash

/-! ## A table and its texts -/

section Refinement

variable {jsoncpp : Jsoncpp} {h : Hash}

/-- The field of a row with its text. -/
def entry (jsoncpp : Jsoncpp) (h : Hash) (row : h.Rec) : String × String :=
  (key row, write jsoncpp (h.toJSON row))

theorem key_entry_row (row : h.Rec) : key (entry jsoncpp h row) = key row := rfl

/-- The value of a key is the hash of the rows. -/
structure Holds (jsoncpp : Jsoncpp) (h : Hash) (value : Option RedisValue) (t : Table h.Rec) :
    Prop where
  hash : ∀ text, value ≠ some (.string text)
  mem_fields : ∀ e, e ∈ fields value ↔ ∃ row ∈ t, entry jsoncpp h row = e
  stored : ∀ row ∈ t, h.stored row = row
  noNul : ∀ row ∈ t, Value.NoNul (h.toJSON row)

theorem fields_hset {key field text : String} {value : Option RedisValue}
    (hhash : ∀ text, value ≠ some (.string text)) :
    fields ((RedisCommand.hset key field text).value value) =
      (field, text) :: (fields value).filter fun e => e.1 ≠ field := by
  match value, hhash with
  | none, _ => rfl
  | some (.hash fields), _ => rfl
  | some (.string text), hhash => exact absurd rfl (hhash text)

theorem fields_hdel {key : String} {ids : List String} {value : Option RedisValue} :
    fields ((RedisCommand.hdel key ids).value value) =
      (fields value).filter fun e => e.1 ∉ ids := by
  match value with
  | none => rfl
  | some (.string text) => rfl
  | some (.hash fields) =>
      rw [RedisCommand.value]
      split
      · rename_i hnil
        exact hnil.symm
      · rfl

theorem Holds.set {value : Option RedisValue} {t : Table h.Rec} (hv : Holds jsoncpp h value t)
    {row : h.Rec} (hrow : Value.NoNul (h.toJSON row)) (key' : String) :
    Holds jsoncpp h
      ((RedisCommand.hset key' (key row) (write jsoncpp (h.toJSON row))).value value)
      (t.set (h.stored row)) where
  hash text := by
    match value, hv.hash with
    | none, _ => exact fun heq => by cases heq
    | some (.hash fields), _ => exact fun heq => by cases heq
    | some (.string text), hhash => exact absurd rfl (hhash text)
  mem_fields e := by
    rw [fields_hset hv.hash, List.mem_cons, List.mem_filter, hv.mem_fields]
    constructor
    · rintro (rfl | ⟨⟨row', hrow', rfl⟩, hne⟩)
      · exact ⟨h.stored row, Table.mem_set_self _ _, by simp [entry]⟩
      · refine ⟨row', Table.mem_set.mpr (.inr ⟨hrow', ?_⟩), rfl⟩
        rw [h.key_stored]
        exact of_decide_eq_true hne
    · rintro ⟨row', hrow', rfl⟩
      rcases Table.mem_set.mp hrow' with rfl | ⟨hrow', hne⟩
      · exact .inl (by simp [entry])
      · rw [h.key_stored] at hne
        exact .inr ⟨⟨row', hrow', rfl⟩, decide_eq_true hne⟩
  stored row' hrow' := by
    rcases Table.mem_set.mp hrow' with rfl | ⟨hrow', -⟩
    · exact h.stored_stored row
    · exact hv.stored row' hrow'
  noNul row' hrow' := by
    rcases Table.mem_set.mp hrow' with rfl | ⟨hrow', -⟩
    · rwa [h.toJSON_stored]
    · exact hv.noNul row' hrow'

theorem Holds.erase {value : Option RedisValue} {t : Table h.Rec} (hv : Holds jsoncpp h value t)
    (key' : String) (ids : List String) :
    Holds jsoncpp h ((RedisCommand.hdel key' ids).value value) (t.erase ids) where
  hash text := by
    match value, hv.hash with
    | none, _ => exact fun heq => by cases heq
    | some (.hash fields), _ =>
        rw [RedisCommand.value]
        split <;> exact fun heq => by cases heq
    | some (.string text), hhash => exact absurd rfl (hhash text)
  mem_fields e := by
    rw [fields_hdel, List.mem_filter, hv.mem_fields]
    constructor
    · rintro ⟨⟨row, hrow, rfl⟩, hne⟩
      exact ⟨row, Table.mem_erase.mpr ⟨hrow, of_decide_eq_true hne⟩, rfl⟩
    · rintro ⟨row, hrow, rfl⟩
      obtain ⟨hrow, hne⟩ := Table.mem_erase.mp hrow
      exact ⟨⟨row, hrow, rfl⟩, decide_eq_true hne⟩
  stored row hrow := hv.stored row (Table.mem_erase.mp hrow).1
  noNul row hrow := hv.noNul row (Table.mem_erase.mp hrow).1

/-! ### Reading -/

variable {value : Option RedisValue} {t : Table h.Rec}

theorem read_write (hlaw : jsoncpp.Lawful) {row : h.Rec} (hrow : Value.NoNul (h.toJSON row)) :
    read jsoncpp h (c_str (write jsoncpp (h.toJSON row))) = .reads (h.stored row) := by
  have hrecord := Hash.isRecord hrow
  obtain ⟨root, hparse, hroot⟩ := hlaw.parse_write _ hrecord
  rw [write, c_str_of_plain (hlaw.write_no_nul _ hrecord), read, hparse]
  exact Hash.fromJSON_toJSON hrecord hroot

theorem Holds.read (hlaw : jsoncpp.Lawful) (hv : Holds jsoncpp h value t) {row : h.Rec}
    (hrow : row ∈ t) :
    read jsoncpp h (c_str (entry jsoncpp h row).2) = .reads row := by
  rw [entry, read_write hlaw (hv.noNul row hrow), hv.stored row hrow]

/-- The reply is the rows with their texts, in order. -/
theorem Holds.foldl_set (hv : Holds jsoncpp h value t) :
    (fields value).foldl Table.set ∅ = t.map (entry jsoncpp h) key_entry_row := by
  ext e
  rw [Table.mem_map, Table.mem_foldl_set, hv.mem_fields]
  · exact or_iff_left (Table.not_mem_empty e)
  · rintro e (he | he) e' he' hkey
    · obtain ⟨row, hrow, rfl⟩ := (hv.mem_fields e).mp he
      obtain ⟨row', hrow', rfl⟩ := (hv.mem_fields e').mp he'
      rw [Table.eq_of_key_eq hrow hrow' hkey]
    · exact absurd he (Table.not_mem_empty e)

theorem readAll_texts (hlaw : jsoncpp.Lawful) (hv : Holds jsoncpp h value t) {rows : List h.Rec}
    (hrows : ∀ row ∈ rows, row ∈ t) :
    readAll jsoncpp h (rows.map fun row => c_str (entry jsoncpp h row).2) = .reads rows := by
  induction rows with
  | nil => rfl
  | cons row rows ih =>
      rw [List.map_cons, readAll, hv.read hlaw (hrows row List.mem_cons_self),
        ih fun row' hrow' => hrows row' (List.mem_cons_of_mem _ hrow')]
      rfl

theorem Holds.find? (hv : Holds jsoncpp h value t) (id : String) :
    ((fields value).find? fun e => e.1 == id) = (t.get? id).map (entry jsoncpp h) := by
  cases hget : t.get? id with
  | none =>
      refine List.find?_eq_none.mpr fun e he => ?_
      obtain ⟨row, hrow, rfl⟩ := (hv.mem_fields e).mp he
      simpa [entry] using Table.get?_eq_none_iff.mp hget row hrow
  | some row =>
      obtain ⟨hrow, hid⟩ := Table.get?_eq_some_iff.mp hget
      cases hfind : (fields value).find? fun e => e.1 == id with
      | none =>
          have hne := List.find?_eq_none.mp hfind _ ((hv.mem_fields _).mpr ⟨row, hrow, rfl⟩)
          exact absurd (beq_iff_eq.mpr hid) hne
      | some e =>
          obtain ⟨row', hrow', rfl⟩ := (hv.mem_fields e).mp (List.mem_of_find?_eq_some hfind)
          have hid' : key row' = id := by simpa [entry] using List.find?_some hfind
          rw [Table.eq_of_key_eq hrow hrow' (hid.trans hid'.symm)]
          rfl

end Refinement

/-! ## Runs -/

/-- The texts hold the tables. -/
def Refines (jsoncpp : Jsoncpp) (db : Keyspace) (r : Redis) : Prop :=
  ∀ (h : Hash) (name : String), h.Names name → Holds jsoncpp h (db (h.key name)) (r h.kind name)

section Run

variable {jsoncpp : Jsoncpp}

theorem refines_empty : Refines jsoncpp (fun _ => none) Redis.empty := fun h name _ =>
  { hash := fun _ heq => by cases heq
    mem_fields := fun e => ⟨fun he => absurd he List.not_mem_nil,
      fun ⟨row, hrow, _⟩ => absurd hrow (Table.not_mem_empty row)⟩
    stored := fun row hrow => absurd hrow (Table.not_mem_empty row)
    noNul := fun row hrow => absurd hrow (Table.not_mem_empty row) }

theorem update_of_ne {r : Redis} {h h' : Hash} {name name' : String}
    (hne : ¬ (h' = h ∧ name' = name)) (t : Table h.Rec) :
    r.update h.kind name t h'.kind name' = r h'.kind name' := by
  by_cases hhash : h' = h
  · subst hhash
    exact Redis.update_name _ _ _ fun heq => hne ⟨rfl, heq⟩
  · exact Redis.update_kind _ _ _ _ fun heq => hhash (Hash.kind_injective heq)

/-- A command on one hash, and the table that it makes. -/
theorem Refines.exec {db : Keyspace} {r : Redis} (hr : Refines jsoncpp db r) {h : Hash}
    {name : String} (hname : h.Names name) {command : RedisCommand}
    (hkey : command.key = h.key name)
    {t : Table h.Rec} (ht : Holds jsoncpp h (command.value (db (h.key name))) t) :
    Refines jsoncpp (command.exec db) (r.update h.kind name t) := by
  intro h' name' hname'
  by_cases hsame : h' = h ∧ name' = name
  · obtain ⟨rfl, rfl⟩ := hsame
    rw [Redis.update_self, RedisCommand.exec, hkey, Function.update_self]
    exact ht
  · have hne : h'.key name' ≠ command.key :=
      fun heq => hsame (Hash.key_injective hname' hname (heq.trans hkey))
    rw [RedisCommand.exec_of_ne hne, update_of_ne hsame]
    exact hr h' name' hname'

theorem Refines.step {db : Keyspace} {r : Redis} (hr : Refines jsoncpp db r)
    (hlaw : jsoncpp.Lawful) {op : Operation} (hop : op.Plain) :
    Refines jsoncpp (op.text jsoncpp db) (op.typed r) := by
  cases op with
  | add h name row =>
      obtain ⟨hname, hrow⟩ := hop
      rw [Operation.text, add, hset, c_str_of_plain (Hash.key_no_nul hname),
        c_str_of_plain (Hash.id_no_nul hrow), write,
        c_str_of_plain (hlaw.write_no_nul _ (Hash.isRecord hrow))]
      exact hr.exec hname rfl ((hr h name hname).set hrow _)
  | remove h name ids =>
      obtain ⟨hname, hids⟩ := hop
      have hmap : ids.map c_str = ids :=
        (List.map_congr_left fun id hid => c_str_of_plain (hids id hid)).trans ids.map_id
      rw [Operation.text, remove, hdel, c_str_of_plain (Hash.key_no_nul hname), hmap]
      exact hr.exec hname rfl ((hr h name hname).erase _ ids)

theorem refines_run (hlaw : jsoncpp.Lawful) {ops : List Operation} (hops : ∀ op ∈ ops, op.Plain) :
    Refines jsoncpp (run jsoncpp ops) (typedRun ops) := by
  induction ops using List.reverseRecOn with
  | nil => exact refines_empty
  | append_singleton ops op ih =>
      rw [run, typedRun, List.foldl_concat, List.foldl_concat]
      exact (ih fun op' hop' => hops op' (List.mem_append_left _ hop')).step hlaw
        (hops op (List.mem_append_right _ List.mem_cons_self))

theorem Refines.getAll {db : Keyspace} {r : Redis} (hr : Refines jsoncpp db r)
    (hlaw : jsoncpp.Lawful) {h : Hash} {name : String} (hname : h.Names name) :
    getAll jsoncpp h name db = .reads (r h.kind name).rows := by
  have hv := hr h name hname
  rw [TextStore.getAll, hvals, hgetall, c_str_of_plain (Hash.key_no_nul hname), hv.foldl_set,
    Table.map, List.map_map]
  exact readAll_texts hlaw hv fun row hrow => hrow

theorem Refines.get {db : Keyspace} {r : Redis} (hr : Refines jsoncpp db r)
    (hlaw : jsoncpp.Lawful) {h : Hash} {name id : String} (hname : h.Names name)
    (hid : '\x00' ∉ id.toList) :
    get jsoncpp h name id db = .check ((r h.kind name).get? id) := by
  have hv := hr h name hname
  rw [TextStore.get, hget, c_str_of_plain (Hash.key_no_nul hname), c_str_of_plain hid, hv.find?]
  cases hget : (r h.kind name).get? id with
  | none =>
      rw [Option.map_none, read, hlaw.parse_empty, Hash.fromJSON_none]
      rfl
  | some row => exact hv.read hlaw (Table.get?_eq_some_iff.mp hget).1

end Run

/-! ## The tables -/

/-- The row was added, and nothing was done to its id since. -/
def LastAdded (ops : List Operation) (h : Hash) (name : String) (row : h.Rec) : Prop :=
  ∃ before row' after, ops = before ++ .add h name row' :: after ∧ h.stored row' = row ∧
    ∀ op ∈ after, ¬ op.Touches h name (key row)

theorem mem_typed {op : Operation} {r : Redis} {h : Hash} {name : String} {row : h.Rec} :
    row ∈ op.typed r h.kind name ↔
      (∃ row', op = .add h name row' ∧ h.stored row' = row) ∨
        (row ∈ r h.kind name ∧ ¬ op.Touches h name (key row)) := by
  cases op with
  | add h' name' row' =>
      by_cases hsame : h = h' ∧ name = name'
      · obtain ⟨rfl, rfl⟩ := hsame
        rw [Operation.typed, Redis.update_self, Table.mem_set, Hash.key_stored]
        simp [Operation.Touches, eq_comm]
      · rw [Operation.typed, update_of_ne hsame]
        have hadd : ¬ ∃ row'', Operation.add h' name' row' = .add h name row'' ∧
          h.stored row'' = row := by
          rintro ⟨row'', heq, -⟩
          cases heq
          exact hsame ⟨rfl, rfl⟩
        have hnot : ¬ (Operation.add h' name' row').Touches h name (key row) :=
          fun ⟨hh, hname, _⟩ => hsame ⟨hh.symm, hname.symm⟩
        rw [or_iff_right hadd, and_iff_left hnot]
  | remove h' name' ids =>
      have hadd : ¬ ∃ row', Operation.remove h' name' ids = .add h name row' ∧
        h.stored row' = row :=
        fun ⟨_, heq, _⟩ => by cases heq
      rw [or_iff_right hadd, Operation.typed]
      by_cases hsame : h = h' ∧ name = name'
      · obtain ⟨rfl, rfl⟩ := hsame
        rw [Redis.update_self, Table.mem_erase]
        simp [Operation.Touches]
      · have hnot : ¬ (Operation.remove h' name' ids).Touches h name (key row) :=
          fun ⟨hh, hname, _⟩ => hsame ⟨hh.symm, hname.symm⟩
        rw [update_of_ne hsame, and_iff_left hnot]

theorem mem_typedRun {ops : List Operation} {h : Hash} {name : String} {row : h.Rec} :
    row ∈ typedRun ops h.kind name ↔ LastAdded ops h name row := by
  induction ops using List.reverseRecOn with
  | nil =>
      refine iff_of_false (Table.not_mem_empty row) ?_
      rintro ⟨before, row', after, hops, -⟩
      simp at hops
  | append_singleton ops op ih =>
      rw [typedRun, List.foldl_concat, mem_typed]
      constructor
      · rintro (⟨row', rfl, hrow⟩ | ⟨hrow, hnot⟩)
        · exact ⟨ops, row', [], rfl, hrow, by simp⟩
        · obtain ⟨before, row', after, rfl, hrow', hafter⟩ := ih.mp hrow
          refine ⟨before, row', after ++ [op], by simp, hrow', fun op' hop' => ?_⟩
          rcases List.mem_append.mp hop' with hop' | hop'
          · exact hafter op' hop'
          · rwa [List.mem_singleton.mp hop']
      · rintro ⟨before, row', after, hops, hrow, hafter⟩
        rcases List.eq_nil_or_concat after with rfl | ⟨after', op', rfl⟩
        · obtain ⟨-, hop⟩ := List.append_inj' hops rfl
          exact .inl ⟨row', (List.cons.inj hop).1, hrow⟩
        · rw [List.concat_eq_append, ← List.cons_append, ← List.append_assoc] at hops
          obtain ⟨hbefore, hop⟩ := List.append_inj' hops rfl
          obtain rfl := (List.cons.inj hop).1
          exact .inr ⟨ih.mpr ⟨before, row', after', hbefore, hrow,
            fun op'' hop'' => hafter op'' (by simp [hop''])⟩, hafter op (by simp)⟩

/-- The tables are those that `RedisHelper` works on, when Redis does not fail. -/
theorem exec_helper {w : World} (hw : w.WritesSucceed) (op : Operation) :
    exec op.helper w = (0, w.effect (op.typed w.redis) []) := by
  cases op with
  | add h name row => exact RedisHelper.exec_add_ok hw (h.stored row)
  | remove h name ids => exact RedisHelper.exec_remove_ok hw ids

/-- What is read from the texts is in the tables. -/
structure ReadsAs (jsoncpp : Jsoncpp) (db : Keyspace) (r : Redis) : Prop where
  getAllClient : ∀ room_id, '\x00' ∉ room_id.toList →
    TextStore.getAllClient jsoncpp room_id db = .reads (r .client room_id).rows
  getPublisher : ∀ room_id publisher_id, '\x00' ∉ room_id.toList → '\x00' ∉ publisher_id.toList →
    TextStore.getPublisher jsoncpp room_id publisher_id db =
      .check ((r .publisher room_id).get? publisher_id)
  getAllPublisher : ∀ room_id, '\x00' ∉ room_id.toList →
    TextStore.getAllPublisher jsoncpp room_id db = .reads (r .publisher room_id).rows
  getAllSubscriber : ∀ room_id, '\x00' ∉ room_id.toList →
    TextStore.getAllSubscriber jsoncpp room_id db = .reads (r .subscriber room_id).rows
  getBridgeStream : ∀ room_id bridge_stream_id, '\x00' ∉ room_id.toList →
    '\x00' ∉ bridge_stream_id.toList →
    TextStore.getBridgeStream jsoncpp room_id bridge_stream_id db =
      .check ((r .bridge_stream room_id).get? bridge_stream_id)
  getAllBridgeStream : ∀ room_id, '\x00' ∉ room_id.toList →
    TextStore.getAllBridgeStream jsoncpp room_id db = .reads (r .bridge_stream room_id).rows
  getAllClientFromEC : ∀ uuid, '\x00' ∉ uuid.toList →
    TextStore.getAllClientFromEC jsoncpp ("ec_" ++ uuid) db = .reads (r .ec ("ec_" ++ uuid)).rows

theorem Refines.readsAs {jsoncpp : Jsoncpp} {db : Keyspace} {r : Redis}
    (hr : Refines jsoncpp db r) (hlaw : jsoncpp.Lawful) : ReadsAs jsoncpp db r where
  getAllClient _ hroom := hr.getAll (h := .client) hlaw (Hash.names_room hroom (by decide))
  getPublisher _ _ hroom hid :=
    hr.get (h := .publisher) hlaw (Hash.names_room hroom (by decide)) hid
  getAllPublisher _ hroom := hr.getAll (h := .publisher) hlaw (Hash.names_room hroom (by decide))
  getAllSubscriber _ hroom := hr.getAll (h := .subscriber) hlaw (Hash.names_room hroom (by decide))
  getBridgeStream _ _ hroom hid :=
    hr.get (h := .bridge_stream) hlaw (Hash.names_room hroom (by decide)) hid
  getAllBridgeStream _ hroom :=
    hr.getAll (h := .bridge_stream) hlaw (Hash.names_room hroom (by decide))
  getAllClientFromEC uuid huuid := hr.getAll (h := .ec) hlaw (Hash.names_ec huuid)

/-- After any additions and removals each operation reads the rows that were added and not
replaced or removed since; and no record that was written is dropped. -/
theorem store_refines (jsoncpp : Jsoncpp) (hlaw : jsoncpp.Lawful) (ops : List Operation)
    (hops : ∀ op ∈ ops, op.Plain) :
    ReadsAs jsoncpp (run jsoncpp ops) (typedRun ops) ∧
      (∀ (h : Hash) (name : String) (row : h.Rec),
        row ∈ typedRun ops h.kind name ↔ LastAdded ops h name row) ∧
      ∀ (h : Hash) (row : h.Rec), Value.NoNul (h.toJSON row) →
        read jsoncpp h (c_str (write jsoncpp (h.toJSON row))) = .reads (h.stored row) :=
  ⟨(refines_run hlaw hops).readsAs hlaw, fun _ _ _ => mem_typedRun,
    fun _ _ hrow => read_write hlaw hrow⟩

/-- A room with a stream of a small and a large SSRC, a bridge and a client that leaves. -/
def sample : List Operation :=
  [.addClient "r" { id := "c", room_id := "r", port := 65535 },
    .addClientToEC "ec_0" { id := "c", room_id := "r", port := 65535 },
    .addPublisher "r"
      { id := "p", client_id := "c", erizo_id := "e", bridge_ip := "10.0.0.1", bridge_port := 6000,
        agent_id := "a", label := "", video_ssrc := 4000000000, audio_ssrc := 5 },
    .addSubscriber "r"
      { id := "s", client_id := "c", erizo_id := "e", agent_id := "a", subscribe_to := "p",
        reply_to := "ec_0", is_bridge := false },
    .addBridgeStream "r"
      { id := "b", sender_erizo_id := "e", sender_ip := "10.0.0.1", sender_port := 6000,
        recver_erizo_id := "f", recver_ip := "10.0.0.2", recver_port := 6001, src_stream_id := "p",
        subscribe_count := 1 },
    .removeClient "r" "c",
    .removePublishers "r" []]

theorem sample_plain : ∀ op ∈ sample, op.Plain := by
  have hroom : ∀ {h : Hash}, h ≠ .ec → h.Names "r" := fun hne => Hash.names_room (by decide) hne
  have hec : Hash.ec.Names "ec_0" := ⟨by decide, fun _ => ⟨"0", by decide⟩⟩
  simp only [sample, List.forall_mem_cons]
  exact ⟨⟨hroom (by decide), by decide⟩, ⟨hec, by decide⟩, ⟨hroom (by decide), by decide⟩,
    ⟨hroom (by decide), by decide⟩, ⟨hroom (by decide), by decide⟩, ⟨hroom (by decide), by decide⟩,
    ⟨hroom (by decide), by decide⟩, by simp⟩

theorem store_refines_sample :
    ReadsAs Text.jsoncpp (run Text.jsoncpp sample) (typedRun sample) ∧
      (∀ (h : Hash) (name : String) (row : h.Rec),
        row ∈ typedRun sample h.kind name ↔ LastAdded sample h name row) ∧
      ∀ (h : Hash) (row : h.Rec), Value.NoNul (h.toJSON row) →
        read Text.jsoncpp h (c_str (write Text.jsoncpp (h.toJSON row))) = .reads (h.stored row) :=
  store_refines Text.jsoncpp Text.jsoncpp_lawful sample sample_plain

end TextStore
