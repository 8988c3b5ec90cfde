import Mathlib.Data.String.Basic
import ErizoController.Library.RefCount

/-!
# The records of the store

The records kept in Redis, one hash for each room, controller or area. A record is filed
under its own `id`, which is the field of every `hset` of the program. The JSON text
between a record and its hash is left out: a record is read back as it was written, up
to what its JSON form does not carry (`Client.ip_info`, and numbers that the reader
rejects).
-/

/-- `edu::iptable::ISPType`. -/
inductive ISPType where
  | AUTO_DETECT | CTL | CNC | MUTIL | CNII | EDU | WBN | MOB | BGP | ASIA | SA_ISP | EU | NA
  | TEST | OA | AF | INTRANET | MAX_ISP
  deriving DecidableEq

/-- `Utils::isp2String`. -/
def isp2String : ISPType → String
  | .AUTO_DETECT => "AUTO_DETECT"
  | .MAX_ISP => "MAX_ISP"
  | .CTL => "CTL"
  | .CNC => "CNC"
  | .MUTIL => "MUTIL"
  | .CNII => "CNII"
  | .EDU => "EDU"
  | .WBN => "WBN"
  | .MOB => "MOB"
  | .BGP => "BGP"
  | .ASIA => "ASIA"
  | .SA_ISP => "SA_ISP"
  | .EU => "EU"
  | .NA => "NA"
  | .TEST => "TEST"
  | .OA => "OA"
  | .AF => "AF"
  | .INTRANET => "INTRANET"

/-- `IP_TABLE_VALUE`; the area is its number. -/
structure IpTableValue where
  isp : ISPType := .AUTO_DETECT
  area : ℤ := 0
  deriving DecidableEq

structure Client where
  id : String
  agent_id : String := ""
  erizo_id : String := ""
  bridge_ip : String := ""
  bridge_port : UInt16 := 0
  room_id : String := ""
  ip : String := ""
  port : UInt16 := 0
  family : String := ""
  reply_to : String := ""
  ip_info : IpTableValue := {}
  deriving DecidableEq

/-- The record read back: `toJSON` leaves out `ip_info`. -/
def Client.stored (c : Client) : Client := { c with ip_info := {} }

structure Publisher where
  id : String
  client_id : String
  erizo_id : String
  bridge_ip : String
  bridge_port : UInt16
  agent_id : String
  label : String
  video_ssrc : UInt32
  audio_ssrc : UInt32
  deriving DecidableEq

structure Subscriber where
  id : String
  client_id : String
  erizo_id : String
  agent_id : String
  subscribe_to : String
  reply_to : String
  is_bridge : Bool
  deriving DecidableEq

structure BridgeStream where
  id : String
  sender_erizo_id : String
  sender_ip : String
  sender_port : UInt16
  recver_erizo_id : String
  recver_ip : String
  recver_port : UInt16
  src_stream_id : String
  label : String := ""
  subscribe_count : Int32
  deriving DecidableEq

structure ErizoAgent where
  id : String
  last_update : UInt64
  erizo_process_num : Int32
  deriving DecidableEq

structure HEARTBEAT where
  id : String := ""
  last_update : UInt64 := 0
  deriving DecidableEq

/-- `fromJSON` asks for a `uintValue`, which the reader only makes of a number above
`2 ^ 31 - 1`. -/
def readsAsUint (n : UInt64) : Bool := 2 ^ 31 ≤ n.toNat

instance : Keyed Client String := ⟨Client.id⟩
instance : Keyed Publisher String := ⟨Publisher.id⟩
instance : Keyed Subscriber String := ⟨Subscriber.id⟩
instance : Keyed BridgeStream String := ⟨BridgeStream.id⟩
instance : Keyed ErizoAgent String := ⟨ErizoAgent.id⟩
instance : Keyed HEARTBEAT String := ⟨HEARTBEAT.id⟩

/-- The resource a bridge counts the uses of: a stream on the erizo that receives it. -/
instance : Counted BridgeStream (String × String) where
  pair b := (b.src_stream_id, b.recver_erizo_id)
  count b := b.subscribe_count.toInt
  setCount b n := { b with subscribe_count := Int32.ofInt n }
  limit := 2 ^ 31 - 1
  key_setCount _ _ := rfl
  pair_setCount _ _ := rfl
  count_setCount b n h0 hn := Int32.toInt_ofInt_of_le (by omega) (by omega)
  count_le b := Int.le_sub_one_of_lt b.subscribe_count.toInt_lt
  setCount_setCount _ _ _ := rfl
  setCount_count b := by simp

/-- The families of hashes: `client_<room>`, `publisher_<room>`, `subscriber_<room>`,
`bridge_stream_<room>`, the client hash of a controller, `erizo_agent_<area>_heartbeat`
and `erizo_controller_heartbeat`. -/
inductive Kind where
  | client | publisher | subscriber | bridge_stream | ec | erizo_agent | heartbeat
  deriving DecidableEq

@[reducible] def Kind.Rec : Kind → Type
  | .client => Client
  | .publisher => Publisher
  | .subscriber => Subscriber
  | .bridge_stream => BridgeStream
  | .ec => Client
  | .erizo_agent => ErizoAgent
  | .heartbeat => HEARTBEAT

instance (k : Kind) : Keyed k.Rec String :=
  match k with
  | .client => inferInstanceAs (Keyed Client String)
  | .publisher => inferInstanceAs (Keyed Publisher String)
  | .subscriber => inferInstanceAs (Keyed Subscriber String)
  | .bridge_stream => inferInstanceAs (Keyed BridgeStream String)
  | .ec => inferInstanceAs (Keyed Client String)
  | .erizo_agent => inferInstanceAs (Keyed ErizoAgent String)
  | .heartbeat => inferInstanceAs (Keyed HEARTBEAT String)

@[simp] theorem key_client (c : Client) : Keyed.key c = c.id := rfl
@[simp] theorem key_publisher (p : Publisher) : Keyed.key p = p.id := rfl
@[simp] theorem key_subscriber (s : Subscriber) : Keyed.key s = s.id := rfl
@[simp] theorem key_bridgeStream (b : BridgeStream) : Keyed.key b = b.id := rfl
@[simp] theorem key_heartbeat (h : HEARTBEAT) : Keyed.key h = h.id := rfl

/-- The hashes of Redis by family and by room, controller or area. -/
abbrev Redis := (k : Kind) → String → Table k.Rec

namespace Redis

def empty : Redis := fun _ _ => ∅

def update (r : Redis) (k : Kind) (name : String) (t : Table k.Rec) : Redis :=
  Function.update r k (Function.update (r k) name t)

@[simp] theorem update_self (r : Redis) (k : Kind) (name : String) (t : Table k.Rec) :
    r.update k name t k name = t := by
  simp [update]

theorem update_name (r : Redis) (k : Kind) {name name' : String} (t : Table k.Rec)
    (h : name' ≠ name) : r.update k name t k name' = r k name' := by
  simp [update, h]

@[simp] theorem update_kind (r : Redis) {k k' : Kind} (name name' : String) (t : Table k.Rec)
    (h : k' ≠ k) : r.update k name t k' name' = r k' name' := by
  simp [update, Function.update_of_ne h]

@[simp] theorem update_eq_self (r : Redis) (k : Kind) (name : String) :
    r.update k name (r k name) = r := by
  simp [update]

@[simp] theorem update_update (r : Redis) (k : Kind) (name : String) (t t' : Table k.Rec) :
    (r.update k name t).update k name t' = r.update k name t' := by
  simp [update]

end Redis
