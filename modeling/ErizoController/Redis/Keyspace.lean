import Mathlib.Data.Set.Basic
import Mathlib.Logic.Function.Basic
import ErizoController.Model.World

/-!
# The keys of Redis

Redis has one space of keys for all its strings and hashes. Most keys of the program are
an id behind a prefix, but a room is locked under its bare id, and the clients of a
controller are in a hash that is named by its bare id. A room id can be any text, so it
can be the name of a hash. The client library is given the key by its `c_str()`, so what
follows a NUL in a room id does not count.
-/

namespace Redis

open ACLRedis (c_str Plain c_str_of_plain c_str_append)

/-! ## Commands on one space of keys -/

inductive RedisValue where
  | string (text : String)
  | hash (fields : List (String × String))
  deriving DecidableEq

abbrev Keyspace := String → Option RedisValue

inductive RedisCommand where
  | setnx (key value : String)
  | get (key : String)
  | getset (key value : String)
  | del (key : String)
  | hset (key field value : String)
  | hget (key field : String)
  | hvals (key : String)
  | hdel (key : String) (fields : List String)

namespace RedisCommand

def key : RedisCommand → String
  | setnx key _ => key
  | get key => key
  | getset key _ => key
  | del key => key
  | hset key _ _ => key
  | hget key _ => key
  | hvals key => key
  | hdel key _ => key

/-- The value of the key after the command. A command for the other type of value fails, and
a hash without fields is gone. -/
def value : RedisCommand → Option RedisValue → Option RedisValue
  | setnx _ text, none => some (.string text)
  | getset _ text, none => some (.string text)
  | getset _ text, some (.string _) => some (.string text)
  | del _, _ => none
  | hset _ field text, none => some (.hash [(field, text)])
  | hset _ field text, some (.hash fields) =>
      some (.hash ((field, text) :: fields.filter fun f => f.1 ≠ field))
  | hdel _ ids, some (.hash fields) =>
      match fields.filter fun f => f.1 ∉ ids with
      | [] => none
      | left => some (.hash left)
  | _, old => old

def exec (command : RedisCommand) (db : Keyspace) : Keyspace :=
  Function.update db command.key (command.value (db command.key))

/-- A command leaves the other keys alone. -/
theorem exec_of_ne {command : RedisCommand} {key : String} (h : key ≠ command.key) (db : Keyspace) :
    command.exec db key = db key := Function.update_of_ne h _ _

end RedisCommand

/-! ## The keys of the program -/

/-- The hashes of a room. -/
inductive RoomHash where
  | client | publisher | subscriber | bridge_stream
  deriving DecidableEq

/-- The text before the room id. -/
def RoomHash.text : RoomHash → String
  | client => "client_"
  | publisher => "publisher_"
  | subscriber => "subscriber_"
  | bridge_stream => "bridge_stream_"

/-- The uses of keys, each with its id. -/
inductive KeyUse where
  | lock (key : String)
  | room (hash : RoomHash) (room_id : String)
  | ec (erizo_controller_id : String)
  | erizo_agent (area : String)
  | heartbeat
  deriving DecidableEq

namespace KeyUse

/-- The text that the program makes. -/
def text : KeyUse → String
  | lock key => key
  | room hash room_id => hash.text ++ room_id
  | ec erizo_controller_id => erizo_controller_id
  | erizo_agent area => "erizo_agent_" ++ area ++ "_heartbeat"
  | heartbeat => "erizo_controller_heartbeat"

/-- The key in Redis. -/
def name (k : KeyUse) : String := c_str k.text

theorem name_lock (key : String) : (lock key).name = c_str key := rfl

theorem name_room (hash : RoomHash) (room_id : String) :
    (room hash room_id).name = hash.text ++ c_str room_id :=
  c_str_append (by cases hash <;> decide) room_id

theorem name_erizo_agent (area : String) :
    (erizo_agent area).name = "erizo_agent_" ++ c_str (area ++ "_heartbeat") := by
  rw [name, text, String.append_assoc]
  exact c_str_append (by decide) _

theorem name_heartbeat : heartbeat.name = "erizo_controller_heartbeat" :=
  c_str_of_plain (s := "erizo_controller_heartbeat") (by decide)

/-- The key is used for the room. -/
def OfRoom (room_id : String) : KeyUse → Prop
  | lock key => key = room_id
  | room _ room_id' => room_id' = room_id
  | _ => False

end KeyUse

/-- What is done for a room: the commands of `RedisLocker`, and those of `RedisHelper` on the
hashes of the room. -/
inductive RoomOperation where
  | setnx (value : String)
  | get
  | getset (value : String)
  | unlock
  | add (hash : RoomHash) (id json : String)
  | getOne (hash : RoomHash) (id : String)
  | getAll (hash : RoomHash)
  | remove (hash : RoomHash) (ids : List String)

def RoomOperation.command (room_id : String) : RoomOperation → RedisCommand
  | setnx value => .setnx (c_str room_id) (c_str value)
  | get => .get (c_str room_id)
  | getset value => .getset (c_str room_id) (c_str value)
  | unlock => .del (c_str room_id)
  | add hash id json => .hset (c_str (hash.text ++ room_id)) (c_str id) (c_str json)
  | getOne hash id => .hget (c_str (hash.text ++ room_id)) (c_str id)
  | getAll hash => .hvals (c_str (hash.text ++ room_id))
  | remove hash ids => .hdel (c_str (hash.text ++ room_id)) (ids.map c_str)

/-- An operation works on a key of its room. -/
theorem RoomOperation.key_of_room (operation : RoomOperation) (room_id : String) :
    (operation.command room_id).key = (KeyUse.lock room_id).name ∨
      ∃ hash, (operation.command room_id).key = (KeyUse.room hash room_id).name := by
  cases operation with
  | add hash id json => exact .inr ⟨hash, rfl⟩
  | getOne hash id => exact .inr ⟨hash, rfl⟩
  | getAll hash => exact .inr ⟨hash, rfl⟩
  | remove hash ids => exact .inr ⟨hash, rfl⟩
  | _ => exact .inl rfl

/-! ## Texts that differ at the front -/

theorem append_injective {p a b : String} (h : p ++ a = p ++ b) : a = b := by
  have hlist := congrArg String.toList h
  rw [String.toList_append, String.toList_append] at hlist
  exact String.toList_inj.mp (List.append_cancel_left hlist)

/-- Neither text starts with the other. -/
def Diverge (p q : String) : Prop := ¬ p.toList <+: q.toList ∧ ¬ q.toList <+: p.toList

instance (p q : String) : Decidable (Diverge p q) :=
  inferInstanceAs (Decidable (¬ p.toList <+: q.toList ∧ ¬ q.toList <+: p.toList))

theorem Diverge.append_ne {p q : String} (h : Diverge p q) (a b : String) : p ++ a ≠ q ++ b := by
  intro heq
  have hlist := congrArg String.toList heq
  rw [String.toList_append, String.toList_append] at hlist
  have hp : p.toList <+: q.toList ++ b.toList := ⟨a.toList, hlist⟩
  rcases List.prefix_or_prefix_of_prefix hp (List.prefix_append _ _) with hpq | hqp
  · exact h.1 hpq
  · exact h.2 hqp

theorem RoomHash.diverge {hash hash' : RoomHash}
    (h : hash ≠ hash') : Diverge hash.text hash'.text := by
  cases hash <;> cases hash' <;> first | exact absurd rfl h | decide

/-- A hash of a room tells its kind and, up to a NUL, its room. -/
theorem room_injective {hash hash' : RoomHash} {room_id room_id' : String}
    (h : (KeyUse.room hash room_id).name = (KeyUse.room hash' room_id').name) :
    hash = hash' ∧ c_str room_id = c_str room_id' := by
  rw [KeyUse.name_room, KeyUse.name_room] at h
  by_cases heq : hash = hash'
  · subst heq
    exact ⟨rfl, append_injective h⟩
  · exact absurd h ((RoomHash.diverge heq).append_ne _ _)

/-! ## The keys in use -/

/-- The rooms, controllers and areas that there are. The id of a controller is made by
`init`, from hexadecimal digits. -/
structure Deployment where
  rooms : Set String
  controllers : Set String
  areas : Set String
  controller_id : ∀ id_ ∈ controllers, ∃ uuid, id_ = "ec_" ++ uuid
  controller_plain : ∀ id_ ∈ controllers, Plain id_

namespace Deployment

variable (d : Deployment)

/-- The keys that are used; the heartbeats have a lock of their own. -/
def Uses : KeyUse → Prop
  | .lock key => key ∈ d.rooms ∨ key = "erizo_controller_heartbeat_locker"
  | .room _ room_id => room_id ∈ d.rooms
  | .ec erizo_controller_id => erizo_controller_id ∈ d.controllers
  | .erizo_agent area => area ∈ d.areas
  | .heartbeat => True

/-- Different uses have different keys, and what is done for a room changes no key that is
not the room's. -/
structure Isolated : Prop where
  injective : ∀ k k', d.Uses k → d.Uses k' → k.name = k'.name → k = k'
  frame : ∀ room_id ∈ d.rooms, ∀ (operation : RoomOperation) (db : Keyspace) k, d.Uses k →
    ¬ k.OfRoom room_id → (operation.command room_id).exec db k.name = db k.name

/-- Up to their NULs no two rooms or areas that are used are the same, and no room has the name
of a hash that is used. -/
structure Separate : Prop where
  rooms : ∀ room_id ∈ d.rooms, ∀ room_id' ∈ d.rooms, c_str room_id = c_str room_id' →
    room_id = room_id'
  areas : ∀ area ∈ d.areas, ∀ area' ∈ d.areas,
    c_str (area ++ "_heartbeat") = c_str (area' ++ "_heartbeat") → area = area'
  room_ne_hash : ∀ room_id ∈ d.rooms, ∀ hash : RoomHash, ∀ room_id' ∈ d.rooms,
    c_str room_id ≠ hash.text ++ c_str room_id'
  room_ne_controller : ∀ room_id ∈ d.rooms, c_str room_id ∉ d.controllers
  room_ne_area : ∀ room_id ∈ d.rooms, ∀ area ∈ d.areas,
    c_str room_id ≠ "erizo_agent_" ++ c_str (area ++ "_heartbeat")
  room_ne_heartbeat : ∀ room_id ∈ d.rooms, c_str room_id ≠ "erizo_controller_heartbeat"
  room_ne_locker : ∀ room_id ∈ d.rooms, c_str room_id = "erizo_controller_heartbeat_locker" →
    room_id = "erizo_controller_heartbeat_locker"

variable {d}

theorem name_ec {id_ : String} (h : d.Uses (.ec id_)) : (KeyUse.ec id_).name = id_ :=
  c_str_of_plain (d.controller_plain id_ h)

theorem exists_name_ec {id_ : String} (h : d.Uses (.ec id_)) :
    ∃ uuid, (KeyUse.ec id_).name = "ec_" ++ uuid := by
  obtain ⟨uuid, huuid⟩ := d.controller_id id_ h
  exact ⟨uuid, (name_ec h).trans huuid⟩

/-- The keys other than the locks never meet. -/
theorem hash_injective {k k' : KeyUse} (hk : d.Uses k) (hk' : d.Uses k')
    (hrooms : ∀ room_id ∈ d.rooms, ∀ room_id' ∈ d.rooms, c_str room_id = c_str room_id' →
      room_id = room_id')
    (hareas : ∀ area ∈ d.areas, ∀ area' ∈ d.areas,
      c_str (area ++ "_heartbeat") = c_str (area' ++ "_heartbeat") → area = area')
    (hlock : ∀ key, k ≠ .lock key) (hlock' : ∀ key, k' ≠ .lock key) (h : k.name = k'.name) :
    k = k' := by
  have hheartbeat : KeyUse.heartbeat.name = "erizo_controller_heartbeat" ++ "" := by decide
  have hroom : ∀ {p : String} {hash : RoomHash}, p = "ec_" ∨ p = "erizo_agent_" ∨
      p = "erizo_controller_heartbeat" → Diverge hash.text p := by
    intro p hash hp
    rcases hp with rfl | rfl | rfl <;> cases hash <;> decide
  cases k with
  | lock key => exact absurd rfl (hlock key)
  | room hash room_id =>
      cases k' with
      | lock key => exact absurd rfl (hlock' key)
      | room hash' room_id' =>
          obtain ⟨rfl, hcut⟩ := room_injective h
          exact congrArg (KeyUse.room hash) (hrooms room_id hk room_id' hk' hcut)
      | ec id_ =>
          obtain ⟨uuid, huuid⟩ := exists_name_ec hk'
          rw [KeyUse.name_room, huuid] at h
          exact absurd h ((hroom (.inl rfl)).append_ne _ _)
      | erizo_agent area =>
          rw [KeyUse.name_room, KeyUse.name_erizo_agent] at h
          exact absurd h ((hroom (.inr (.inl rfl))).append_ne _ _)
      | heartbeat =>
          rw [KeyUse.name_room, hheartbeat] at h
          exact absurd h ((hroom (.inr (.inr rfl))).append_ne _ _)
  | ec id_ =>
      obtain ⟨uuid, huuid⟩ := exists_name_ec hk
      cases k' with
      | lock key => exact absurd rfl (hlock' key)
      | room hash room_id =>
          rw [huuid, KeyUse.name_room] at h
          exact absurd h.symm ((hroom (.inl rfl)).append_ne _ _)
      | ec id_' =>
          rw [name_ec hk, name_ec hk'] at h
          exact congrArg KeyUse.ec h
      | erizo_agent area =>
          rw [huuid, KeyUse.name_erizo_agent] at h
          exact absurd h (Diverge.append_ne (by decide) _ _)
      | heartbeat =>
          rw [huuid, hheartbeat] at h
          exact absurd h (Diverge.append_ne (by decide) _ _)
  | erizo_agent area =>
      rw [KeyUse.name_erizo_agent] at h
      cases k' with
      | lock key => exact absurd rfl (hlock' key)
      | room hash room_id =>
          rw [KeyUse.name_room] at h
          exact absurd h.symm ((hroom (.inr (.inl rfl))).append_ne _ _)
      | ec id_ =>
          obtain ⟨uuid, huuid⟩ := exists_name_ec hk'
          rw [huuid] at h
          exact absurd h (Diverge.append_ne (by decide) _ _)
      | erizo_agent area' =>
          rw [KeyUse.name_erizo_agent] at h
          exact congrArg KeyUse.erizo_agent (hareas area hk area' hk' (append_injective h))
      | heartbeat =>
          rw [hheartbeat] at h
          exact absurd h (Diverge.append_ne (by decide) _ _)
  | heartbeat =>
      rw [hheartbeat] at h
      cases k' with
      | lock key => exact absurd rfl (hlock' key)
      | room hash room_id =>
          rw [KeyUse.name_room] at h
          exact absurd h.symm ((hroom (.inr (.inr rfl))).append_ne _ _)
      | ec id_ =>
          obtain ⟨uuid, huuid⟩ := exists_name_ec hk'
          rw [huuid] at h
          exact absurd h (Diverge.append_ne (by decide) _ _)
      | erizo_agent area =>
          rw [KeyUse.name_erizo_agent] at h
          exact absurd h (Diverge.append_ne (by decide) _ _)
      | heartbeat => rfl

/-- The lock of the heartbeats is no hash. -/
theorem heartbeat_locker_ne {k : KeyUse} (hk : d.Uses k) (hlock : ∀ key, k ≠ .lock key) :
    k.name ≠ "erizo_controller_heartbeat_locker" := by
  intro h
  have hlocker : "erizo_controller_heartbeat_locker" =
      "erizo_controller_heartbeat_locker" ++ "" := by decide
  rw [hlocker] at h
  cases k with
  | lock key => exact absurd rfl (hlock key)
  | room hash room_id =>
      rw [KeyUse.name_room] at h
      exact Diverge.append_ne (by cases hash <;> decide) _ _ h
  | ec id_ =>
      obtain ⟨uuid, huuid⟩ := exists_name_ec hk
      rw [huuid] at h
      exact Diverge.append_ne (by decide) _ _ h
  | erizo_agent area =>
      rw [KeyUse.name_erizo_agent] at h
      exact Diverge.append_ne (by decide) _ _ h
  | heartbeat => exact absurd h (by decide)

theorem Separate.lock_ne (h : d.Separate) {room_id : String} (hroom : room_id ∈ d.rooms)
    {k : KeyUse} (hk : d.Uses k) (hlock : ∀ key, k ≠ .lock key) : k.name ≠ c_str room_id := by
  intro heq
  cases k with
  | lock key => exact hlock key rfl
  | room hash room_id' =>
      rw [KeyUse.name_room] at heq
      exact h.room_ne_hash room_id hroom hash room_id' hk heq.symm
  | ec id_ =>
      rw [name_ec hk] at heq
      exact h.room_ne_controller room_id hroom (heq ▸ hk)
  | erizo_agent area =>
      rw [KeyUse.name_erizo_agent] at heq
      exact h.room_ne_area room_id hroom area hk heq.symm
  | heartbeat =>
      rw [KeyUse.name_heartbeat] at heq
      exact h.room_ne_heartbeat room_id hroom heq.symm

theorem c_str_locker :
    c_str "erizo_controller_heartbeat_locker" = "erizo_controller_heartbeat_locker" :=
  c_str_of_plain (by decide)

theorem Separate.lock_injective (h : d.Separate) {key key' : String} (hk : d.Uses (.lock key))
    (hk' : d.Uses (.lock key')) (heq : c_str key = c_str key') : key = key' := by
  rcases hk with hroom | rfl
  · rcases hk' with hroom' | rfl
    · exact h.rooms key hroom key' hroom' heq
    · exact h.room_ne_locker key hroom (heq.trans c_str_locker)
  · rcases hk' with hroom' | rfl
    · exact (h.room_ne_locker key' hroom' (heq.symm.trans c_str_locker)).symm
    · rfl

theorem Separate.injective (h : d.Separate) {k k' : KeyUse} (hk : d.Uses k) (hk' : d.Uses k')
    (heq : k.name = k'.name) : k = k' := by
  have hside : ∀ {key : String} {k' : KeyUse}, d.Uses (.lock key) → d.Uses k' →
      (∀ key', k' ≠ .lock key') → k'.name ≠ (KeyUse.lock key).name := by
    intro key k' hk hk' hlock'
    rcases hk with hroom | rfl
    · exact h.lock_ne hroom hk' hlock'
    · rw [KeyUse.name_lock, c_str_locker]
      exact heartbeat_locker_ne hk' hlock'
  by_cases hlock : ∃ key, k = .lock key
  · obtain ⟨key, rfl⟩ := hlock
    by_cases hlock' : ∃ key', k' = .lock key'
    · obtain ⟨key', rfl⟩ := hlock'
      exact congrArg KeyUse.lock (h.lock_injective hk hk' heq)
    · exact absurd heq.symm (hside hk hk' fun key' hkey' => hlock' ⟨key', hkey'⟩)
  · by_cases hlock' : ∃ key', k' = .lock key'
    · obtain ⟨key', rfl⟩ := hlock'
      exact absurd heq (hside hk' hk fun key hkey => hlock ⟨key, hkey⟩)
    · exact hash_injective hk hk' h.rooms h.areas (fun key hkey => hlock ⟨key, hkey⟩)
        (fun key' hkey' => hlock' ⟨key', hkey'⟩) heq

theorem Isolated.separate (h : d.Isolated) : d.Separate := by
  have hne : ∀ room_id ∈ d.rooms, ∀ k, d.Uses k → (∀ key, k ≠ .lock key) →
      c_str room_id ≠ k.name :=
    fun room_id hroom k hk hlock heq =>
      hlock room_id (h.injective (.lock room_id) k (.inl hroom) hk heq).symm
  refine ⟨fun room_id hroom room_id' hroom' hcut => ?_, fun area harea area' harea' hcut => ?_,
    fun room_id hroom hash room_id' hroom' => ?_, fun room_id hroom hec => ?_,
    fun room_id hroom area harea => ?_, fun room_id hroom => ?_, fun room_id hroom hcut => ?_⟩
  · exact KeyUse.lock.inj
      (h.injective (.lock room_id) (.lock room_id') (.inl hroom) (.inl hroom') hcut)
  · refine KeyUse.erizo_agent.inj (h.injective (.erizo_agent area) (.erizo_agent area') harea
      harea' ?_)
    rw [KeyUse.name_erizo_agent, KeyUse.name_erizo_agent, hcut]
  · rw [← KeyUse.name_room]
    exact hne room_id hroom (.room hash room_id') hroom' (by simp)
  · exact hne room_id hroom (.ec (c_str room_id)) hec (by simp) (name_ec hec).symm
  · rw [← KeyUse.name_erizo_agent]
    exact hne room_id hroom (.erizo_agent area) harea (by simp)
  · rw [← KeyUse.name_heartbeat]
    exact hne room_id hroom .heartbeat trivial (by simp)
  · refine KeyUse.lock.inj (h.injective (.lock room_id) (.lock _) (.inl hroom) (.inr rfl) ?_)
    rw [KeyUse.name_lock, KeyUse.name_lock, hcut, c_str_locker]

/-- The rooms are isolated exactly when up to a NUL they differ from each other and from the
names of the hashes that are used. -/
theorem isolated_iff (d : Deployment) : d.Isolated ↔ d.Separate := by
  refine ⟨Isolated.separate, fun h => ⟨fun k k' hk hk' => h.injective hk hk', ?_⟩⟩
  intro room_id hroom operation db k hk hother
  refine RedisCommand.exec_of_ne (fun heq => ?_) db
  rcases operation.key_of_room room_id with hkey | ⟨hash, hkey⟩
  · have hlock : d.Uses (.lock room_id) := Or.inl hroom
    obtain rfl := h.injective hk hlock (heq.trans hkey)
    exact hother rfl
  · have hhash : d.Uses (.room hash room_id) := hroom
    obtain rfl := h.injective hk hhash (heq.trans hkey)
    exact hother rfl

end Deployment

/-- The lock of the room `client_r` is the hash of the clients of the room `r`: to take it
makes that hash a string, and to release it removes the clients. A room `r` with more after a
NUL has the lock and the hashes of `r`. -/
theorem lock_is_hash :
    (KeyUse.lock "client_r").name = (KeyUse.room .client "r").name ∧
      ((RoomOperation.setnx "0").command "client_r").exec (fun _ => none) "client_r" =
        some (.string "0") ∧
      ((RoomOperation.add .client "c" "").command "r").exec
        (((RoomOperation.setnx "0").command "client_r").exec fun _ => none) "client_r" =
        some (.string "0") ∧
      (RoomOperation.unlock.command "client_r").exec
        (fun _ => some (.hash [("c", "")])) "client_r" = none ∧
      (KeyUse.lock "r\x00x").name = (KeyUse.lock "r").name ∧
      (KeyUse.room .publisher "r\x00x").name = (KeyUse.room .publisher "r").name := by
  decide

end Redis
