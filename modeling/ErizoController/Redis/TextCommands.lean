import ErizoController.Library.Levels
import ErizoController.Redis.TextStore

/-!
# The commands on texts

The commands of the handlers with the records of rooms and controllers in Redis as JSON
texts: a command files the text of a record, or reads texts and runs `fromJSON` on them, which
may drop a record or throw. The hashes of the agents and of the heartbeats are tables here too.
As long as its strings have no NUL, a command on the texts stands for the same command on the
tables.
-/

open Json
open ACLRedis (c_str Plain c_str_of_plain)

namespace TextStore

/-! ## The commands on texts -/

/-- A world whose records are texts. Of the tables of `world` only those of the agents and of
the heartbeats are in use; `thrown` says that a `fromJSON` has thrown. -/
structure TextWorld where
  db : Redis.Keyspace
  world : World
  thrown : Bool

section Commands

variable (jsoncpp : Jsoncpp)

def hsetRecord (h : Hash) (name : String) (row : h.Rec) (t : TextWorld) : ℤ × TextWorld :=
  if t.world.oracle.writeFault.head then (-1, { t with world := t.world.drawWrite })
  else (0, { t with db := add jsoncpp h name row t.db, world := t.world.drawWrite })

def hdelRecords (h : Hash) (name : String) (ids : List String) (t : TextWorld) : ℤ × TextWorld :=
  if t.world.oracle.writeFault.head then (-1, { t with world := t.world.drawWrite })
  else (0, { t with db := remove h name ids t.db, world := t.world.drawWrite })

def hgetRecord (h : Hash) (name id : String) (t : TextWorld) : (ℤ × Option h.Rec) × TextWorld :=
  if t.world.oracle.readFault.head then ((0, none), { t with world := t.world.drawRead })
  else
    match get jsoncpp h name id t.db with
    | .reads row => ((1, some row), { t with world := t.world.drawRead })
    | .rejects => ((1, none), { t with world := t.world.drawRead })
    | .throws => ((1, none), { t with world := t.world.drawRead, thrown := true })

def hvalsRecords (h : Hash) (name : String) (t : TextWorld) : (ℤ × List h.Rec) × TextWorld :=
  if t.world.oracle.readFault.head then ((0, []), { t with world := t.world.drawRead })
  else
    match getAll jsoncpp h name t.db with
    | .reads rows => ((1, rows), { t with world := t.world.drawRead })
    | .rejects => ((1, []), { t with world := t.world.drawRead })
    | .throws => ((1, []), { t with world := t.world.drawRead, thrown := true })

/-- `perform` with the records of rooms and controllers as texts. -/
def performText : (c : Command) → TextWorld → c.Reply × TextWorld
  | .hset .client name row, t => hsetRecord jsoncpp .client name row t
  | .hset .publisher name row, t => hsetRecord jsoncpp .publisher name row t
  | .hset .subscriber name row, t => hsetRecord jsoncpp .subscriber name row t
  | .hset .bridge_stream name row, t => hsetRecord jsoncpp .bridge_stream name row t
  | .hset .ec name row, t => hsetRecord jsoncpp .ec name row t
  | .hdel .client name ids, t => hdelRecords .client name ids t
  | .hdel .publisher name ids, t => hdelRecords .publisher name ids t
  | .hdel .subscriber name ids, t => hdelRecords .subscriber name ids t
  | .hdel .bridge_stream name ids, t => hdelRecords .bridge_stream name ids t
  | .hdel .ec name ids, t => hdelRecords .ec name ids t
  | .hget .client name id, t => hgetRecord jsoncpp .client name id t
  | .hget .publisher name id, t => hgetRecord jsoncpp .publisher name id t
  | .hget .subscriber name id, t => hgetRecord jsoncpp .subscriber name id t
  | .hget .bridge_stream name id, t => hgetRecord jsoncpp .bridge_stream name id t
  | .hget .ec name id, t => hgetRecord jsoncpp .ec name id t
  | .hvals .client name, t => hvalsRecords jsoncpp .client name t
  | .hvals .publisher name, t => hvalsRecords jsoncpp .publisher name t
  | .hvals .subscriber name, t => hvalsRecords jsoncpp .subscriber name t
  | .hvals .bridge_stream name, t => hvalsRecords jsoncpp .bridge_stream name t
  | .hvals .ec name, t => hvalsRecords jsoncpp .ec name t
  | c, t => ((perform c t.world).1, { t with world := (perform c t.world).2 })

end Commands

/-! ## Strings without a NUL -/

/-- The id of a controller, as `init` makes it. -/
def ControllerId (id_ : String) : Prop := Plain id_ ∧ ∃ uuid, id_ = "ec_" ++ uuid

/-- A client whose strings have no NUL; before its token it has no controller. -/
structure PlainClient (client : Client) : Prop where
  noNul : Value.NoNul client.toJSON
  reply_to : client.reply_to = "" ∨ ControllerId client.reply_to

def PlainRow : (k : Kind) → k.Rec → Prop
  | .client, client => PlainClient client
  | .publisher, publisher => Value.NoNul publisher.toJSON
  | .subscriber, subscriber => Value.NoNul subscriber.toJSON
  | .bridge_stream, bridge_stream => Value.NoNul bridge_stream.toJSON
  | .ec, client => PlainClient client
  | .erizo_agent, agent => Plain agent.id
  | .heartbeat, _ => True

/-- The name of a hash in use. -/
def PlainName : Kind → String → Prop
  | .ec, name => ControllerId name
  | .erizo_agent, _ => True
  | .heartbeat, _ => True
  | _, name => Plain name

/-- A record that is filed is one that is read back, and rows may be removed from the hash of
no controller. -/
def Proper : Command → Prop
  | .hset k name row => PlainName k name ∧ PlainRow k row ∧
      match k, row with
      | .client, row => Client.stored row = row
      | .ec, row => Client.stored row = row
      | _, _ => True
  | .hdel k name ids => (PlainName k name ∨ k = .ec ∧ name = "") ∧ ∀ id ∈ ids, Plain id
  | .hget k name id => PlainName k name ∧ Plain id
  | .hvals k name => PlainName k name
  | _ => True

/-- The members of a value that are strings have no NUL. -/
def PlainMembers (data : Value) : Prop := ∀ key s, data.string? key = some s → Plain s

def SoundReply : (c : Command) → c.Reply → Prop
  | .getStreamID, id => Plain id
  | .hget k _ _, reply => ∀ row, reply.2 = some row → PlainRow k row
  | .hvals k _, reply => ∀ row ∈ reply.2, PlainRow k row
  | .rpc _ _, root => PlainMembers root
  | _, _ => True

/-! ## Tables and texts -/

/-- The texts hold the tables, and all strings are plain. -/
structure Stands (jsoncpp : Jsoncpp) (w : World) (t : TextWorld) : Prop where
  refines : Refines jsoncpp t.db w.redis
  unused : t.db "" = none
  others : ∀ (h : Hash) (name : String), ¬ PlainName h.kind name → w.redis h.kind name = ∅
  agents : w.redis .erizo_agent = t.world.redis .erizo_agent
  heartbeats : w.redis .heartbeat = t.world.redis .heartbeat
  world : w = { t.world with redis := w.redis }
  kept : t.thrown = false
  plain : ∀ k name, ∀ row ∈ w.redis k name, PlainRow k row
  ids : ∀ n, Plain (w.oracle.streamId.get n)
  replies : ∀ n, PlainMembers (w.oracle.rpcReply.get n)

namespace Hash

variable {h : Hash} {name : String}

theorem plainName_iff : PlainName h.kind name ↔ h.Names name := by
  cases h with
  | ec => exact and_congr_right fun _ => ⟨fun hid _ => hid, fun hid => hid rfl⟩
  | _ => exact (and_iff_left fun heq => by cases heq).symm

theorem key_ne_empty (hname : PlainName h.kind name) : h.key name ≠ "" := by
  have happend : ∀ text : String, text ≠ "" → text ++ name ≠ "" := by
    intro text htext heq
    exact htext (String.append_eq_empty_iff.mp heq).1
  cases h with
  | ec =>
      obtain ⟨-, uuid, rfl⟩ := hname
      intro heq
      exact absurd (String.append_eq_empty_iff.mp heq).1 (by decide)
  | _ => exact happend _ (by decide)

theorem noNul {row : h.Rec} (hrow : PlainRow h.kind row) : Value.NoNul (h.toJSON row) := by
  cases h with
  | client => exact hrow.noNul
  | ec => exact hrow.noNul
  | publisher => exact hrow
  | subscriber => exact hrow
  | bridge_stream => exact hrow

/-- A family of hashes is one of texts, or it is that of the agents or that of the heartbeats. -/
theorem exists_or (k : Kind) : (∃ h : Hash, h.kind = k) ∨ k = .erizo_agent ∨ k = .heartbeat := by
  cases k with
  | client => exact .inl ⟨.client, rfl⟩
  | publisher => exact .inl ⟨.publisher, rfl⟩
  | subscriber => exact .inl ⟨.subscriber, rfl⟩
  | bridge_stream => exact .inl ⟨.bridge_stream, rfl⟩
  | ec => exact .inl ⟨.ec, rfl⟩
  | erizo_agent => exact .inr (.inl rfl)
  | heartbeat => exact .inr (.inr rfl)

end Hash

section Represents

variable {jsoncpp : Jsoncpp} {w : World} {t : TextWorld}

/-! ### The commands on a hash of texts -/

theorem performText_hset (h : Hash) (name : String) (row : h.Rec) (t : TextWorld) :
    performText jsoncpp (.hset h.kind name row) t = hsetRecord jsoncpp h name row t := by
  cases h <;> rfl

theorem performText_hdel (h : Hash) (name : String) (ids : List String) (t : TextWorld) :
    performText jsoncpp (.hdel h.kind name ids) t = hdelRecords h name ids t := by
  cases h <;> rfl

theorem performText_hget (h : Hash) (name id : String) (t : TextWorld) :
    performText jsoncpp (.hget h.kind name id) t = hgetRecord jsoncpp h name id t := by
  cases h <;> rfl

theorem performText_hvals (h : Hash) (name : String) (t : TextWorld) :
    performText jsoncpp (.hvals h.kind name) t = hvalsRecords jsoncpp h name t := by
  cases h <;> rfl

theorem Stands.drawRead (hs : Stands jsoncpp w t) :
    Stands jsoncpp w.drawRead { t with world := t.world.drawRead } where
  refines := hs.refines
  unused := hs.unused
  others := hs.others
  agents := hs.agents
  heartbeats := hs.heartbeats
  world := congrArg World.drawRead hs.world
  kept := hs.kept
  plain := hs.plain
  ids := hs.ids
  replies := hs.replies

theorem Stands.drawWrite (hs : Stands jsoncpp w t) :
    Stands jsoncpp w.drawWrite { t with world := t.world.drawWrite } where
  refines := hs.refines
  unused := hs.unused
  others := hs.others
  agents := hs.agents
  heartbeats := hs.heartbeats
  world := congrArg World.drawWrite hs.world
  kept := hs.kept
  plain := hs.plain
  ids := hs.ids
  replies := hs.replies

theorem Stands.oracle (hs : Stands jsoncpp w t) : w.oracle = t.world.oracle := by
  rw [hs.world]

/-- A table replaced by another with plain rows. -/
theorem plain_update {r : Redis} (hr : ∀ k name, ∀ row ∈ r k name, PlainRow k row) {k : Kind}
    {name : String} {table : Table k.Rec} (htable : ∀ row ∈ table, PlainRow k row) :
    ∀ k' name', ∀ row ∈ r.update k name table k' name', PlainRow k' row := by
  intro k' name' row hrow
  by_cases hk : k' = k
  · subst hk
    by_cases hname : name' = name
    · subst hname
      rw [Redis.update_self] at hrow
      exact htable row hrow
    · rw [Redis.update_name _ _ _ hname] at hrow
      exact hr _ name' row hrow
  · rw [Redis.update_kind _ _ _ _ hk] at hrow
    exact hr k' name' row hrow

/-- A table and its texts replaced. -/
theorem Stands.update (hs : Stands jsoncpp w t) {h : Hash} {name : String}
    (hname : PlainName h.kind name) {table : Table h.Rec} {db : Redis.Keyspace}
    (hrefines : Refines jsoncpp db (w.redis.update h.kind name table)) (hunused : db "" = none)
    (hrows : ∀ row ∈ table, PlainRow h.kind row) :
    Stands jsoncpp (w.store h.kind name table) { t with db := db } where
  refines := hrefines
  unused := hunused
  others h' name' hname' := by
    have hne : ¬ (h' = h ∧ name' = name) := by
      rintro ⟨rfl, rfl⟩
      exact hname' hname
    exact (update_of_ne hne table).trans (hs.others h' name' hname')
  agents := by
    have hne : Kind.erizo_agent ≠ h.kind := by cases h <;> decide
    rw [← hs.agents]
    exact funext fun area => Redis.update_kind _ _ _ _ hne
  heartbeats := by
    have hne : Kind.heartbeat ≠ h.kind := by cases h <;> decide
    rw [← hs.heartbeats]
    exact funext fun area => Redis.update_kind _ _ _ _ hne
  world := congrArg (fun v => World.store v h.kind name table) hs.world
  kept := hs.kept
  plain := plain_update hs.plain hrows
  ids := hs.ids
  replies := hs.replies

/-- A hash that no controller has the name of stays out of use. -/
theorem exec_unused {command : Redis.RedisCommand} {db : Redis.Keyspace} (hkey : command.key ≠ "")
    (hdb : db "" = none) : command.exec db "" = none := by
  rw [Redis.RedisCommand.exec_of_ne hkey.symm, hdb]

theorem Stands.hset (hs : Stands jsoncpp w t) (hlaw : jsoncpp.Lawful) {h : Hash} {name : String}
    {row : h.Rec} (hname : PlainName h.kind name) (hrow : PlainRow h.kind row)
    (hstored : h.stored row = row) :
    (perform (.hset h.kind name row) w).1 = (hsetRecord jsoncpp h name row t).1 ∧
      Stands jsoncpp (perform (.hset h.kind name row) w).2 (hsetRecord jsoncpp h name row t).2 := by
  rw [perform, hsetRecord, hs.oracle]
  split
  · exact ⟨rfl, hs.drawWrite⟩
  · refine ⟨rfl, hs.drawWrite.update hname ?_ ?_ ?_⟩
    · have hop : (Operation.add h name row).Plain :=
        ⟨Hash.plainName_iff.mp hname, Hash.noNul hrow⟩
      have hstep := hs.refines.step hlaw hop
      rwa [Operation.typed, hstored] at hstep
    · refine exec_unused ?_ hs.unused
      change c_str (h.key name) ≠ ""
      rw [c_str_of_plain (Hash.key_no_nul (Hash.plainName_iff.mp hname))]
      exact Hash.key_ne_empty hname
    · intro row' hrow'
      rcases Table.mem_set.mp hrow' with rfl | ⟨hrow', -⟩
      · exact hrow
      · exact hs.plain h.kind name row' hrow'

theorem Stands.hdel (hs : Stands jsoncpp w t) (hlaw : jsoncpp.Lawful) {h : Hash} {name : String}
    {ids : List String} (hname : PlainName h.kind name) (hids : ∀ id ∈ ids, Plain id) :
    (perform (.hdel h.kind name ids) w).1 = (hdelRecords h name ids t).1 ∧
      Stands jsoncpp (perform (.hdel h.kind name ids) w).2 (hdelRecords h name ids t).2 := by
  rw [perform, hdelRecords, hs.oracle]
  split
  · exact ⟨rfl, hs.drawWrite⟩
  · refine ⟨rfl, hs.drawWrite.update hname ?_ ?_ ?_⟩
    · have hop : (Operation.remove h name ids).Plain := ⟨Hash.plainName_iff.mp hname, hids⟩
      exact hs.refines.step hlaw hop
    · refine exec_unused ?_ hs.unused
      change c_str (h.key name) ≠ ""
      rw [c_str_of_plain (Hash.key_no_nul (Hash.plainName_iff.mp hname))]
      exact Hash.key_ne_empty hname
    · exact fun row hrow => hs.plain h.kind name row (Table.mem_erase.mp hrow).1

theorem erase_empty {h : Hash} (ids : List String) : (∅ : Table h.Rec).erase ids = ∅ := by
  ext row
  rw [Table.mem_erase]
  exact ⟨fun hrow => hrow.1, fun hrow => absurd hrow (Table.not_mem_empty row)⟩

/-- Rows removed from the hash of no controller: there is no such key, and no such row. -/
theorem Stands.hdel_unused (hs : Stands jsoncpp w t) {ids : List String} :
    (perform (.hdel .ec "" ids) w).1 = (hdelRecords .ec "" ids t).1 ∧
      Stands jsoncpp (perform (.hdel .ec "" ids) w).2 (hdelRecords .ec "" ids t).2 := by
  rw [perform, hdelRecords, hs.oracle]
  split
  · exact ⟨rfl, hs.drawWrite⟩
  · have hname : ¬ PlainName Hash.ec.kind "" := by
      rintro ⟨-, uuid, huuid⟩
      exact absurd (String.append_eq_empty_iff.mp huuid.symm).1 (by decide)
    have htable : (w.redis .ec "").erase ids = w.redis .ec "" := by
      rw [hs.others .ec "" hname]
      exact erase_empty ids
    have hdb : TextStore.remove .ec "" ids t.db = t.db := by
      have hkey : c_str (Hash.ec.key "") = "" := by decide
      rw [TextStore.remove, TextStore.hdel, hkey, Redis.RedisCommand.exec]
      change Function.update t.db "" ((Redis.RedisCommand.hdel "" _).value (t.db "")) = t.db
      rw [hs.unused]
      exact Function.update_eq_self_iff.mpr hs.unused.symm
    have hstore : w.drawWrite.store .ec "" (w.redis .ec "") = w.drawWrite :=
      congrArg (fun r => { w.drawWrite with redis := r }) (Redis.update_eq_self w.redis .ec "")
    rw [htable, hdb, hstore]
    exact ⟨rfl, hs.drawWrite⟩

theorem Stands.hget (hs : Stands jsoncpp w t) (hlaw : jsoncpp.Lawful) {h : Hash} {name id : String}
    (hname : PlainName h.kind name) (hid : Plain id) :
    (perform (.hget h.kind name id) w).1 = (hgetRecord jsoncpp h name id t).1 ∧
      Stands jsoncpp (perform (.hget h.kind name id) w).2 (hgetRecord jsoncpp h name id t).2 := by
  rw [perform, hgetRecord, hs.oracle]
  split
  · exact ⟨rfl, hs.drawRead⟩
  · rw [hs.refines.get hlaw (Hash.plainName_iff.mp hname) hid]
    cases (w.redis h.kind name).get? id with
    | none => exact ⟨rfl, hs.drawRead⟩
    | some row => exact ⟨rfl, hs.drawRead⟩

theorem Stands.hvals (hs : Stands jsoncpp w t) (hlaw : jsoncpp.Lawful) {h : Hash} {name : String}
    (hname : PlainName h.kind name) :
    (perform (.hvals h.kind name) w).1 = (hvalsRecords jsoncpp h name t).1 ∧
      Stands jsoncpp (perform (.hvals h.kind name) w).2 (hvalsRecords jsoncpp h name t).2 := by
  rw [perform, hvalsRecords, hs.oracle]
  split
  · exact ⟨rfl, hs.drawRead⟩
  · rw [hs.refines.getAll hlaw (Hash.plainName_iff.mp hname)]
    exact ⟨rfl, hs.drawRead⟩

/-! ### The other commands -/

/-- The commands that are the same on both levels. -/
def Common : Command → Prop
  | .hset k _ _ => k = .erizo_agent ∨ k = .heartbeat
  | .hdel k _ _ => k = .erizo_agent ∨ k = .heartbeat
  | .hget k _ _ => k = .erizo_agent ∨ k = .heartbeat
  | .hvals k _ => k = .erizo_agent ∨ k = .heartbeat
  | _ => True

theorem performText_common {c : Command} (hc : Common c) (t : TextWorld) :
    performText jsoncpp c t =
      ((perform c t.world).1, { t with world := (perform c t.world).2 }) := by
  cases c with
  | hset k name row => rcases hc with rfl | rfl <;> rfl
  | hdel k name ids => rcases hc with rfl | rfl <;> rfl
  | hget k name id => rcases hc with rfl | rfl <;> rfl
  | hvals k name => rcases hc with rfl | rfl <;> rfl
  | _ => rfl

theorem update_congr {r r' : Redis} {k k' : Kind} (hk : r k = r' k) (hk' : r k' = r' k')
    (name : String) (table : Table k.Rec) :
    r.update k name table k' = r'.update k name table k' := by
  by_cases heq : k' = k
  · subst heq
    rw [Redis.update, Redis.update, Function.update_self, Function.update_self, hk]
  · rw [Redis.update, Redis.update, Function.update_of_ne heq, Function.update_of_ne heq, hk']

/-- A table of the agents or of the heartbeats replaced. -/
theorem Stands.store (hs : Stands jsoncpp w t) {k : Kind} (hk : k = .erizo_agent ∨ k = .heartbeat)
    (name : String) {table : Table k.Rec} (hrows : ∀ row ∈ table, PlainRow k row) :
    Stands jsoncpp (w.store k name table) { t with world := t.world.store k name table } := by
  have hsame : w.redis k = t.world.redis k := by
    rcases hk with rfl | rfl
    · exact hs.agents
    · exact hs.heartbeats
  have hrecords : ∀ h : Hash, h.kind ≠ k := by
    rcases hk with rfl | rfl <;> intro h <;> cases h <;> decide
  have hother : ∀ (h : Hash) name',
      (w.store k name table).redis h.kind name' = w.redis h.kind name' := fun h name' =>
    Redis.update_kind _ _ _ _ (hrecords h)
  exact
    { refines := fun h name' hname => by
        rw [hother]
        exact hs.refines h name' hname
      unused := hs.unused
      others := fun h name' hname => (hother h name').trans (hs.others h name' hname)
      agents := update_congr hsame hs.agents name table
      heartbeats := update_congr hsame hs.heartbeats name table
      world := congrArg (fun v => World.store v k name table) hs.world
      kept := hs.kept
      plain := plain_update hs.plain hrows
      ids := hs.ids
      replies := hs.replies }

/-- A command that leaves Redis alone. -/
theorem Stands.step (hs : Stands jsoncpp w t) {c : Command}
    (hc : ∀ v r, (perform c { v with redis := r }).2 = { (perform c v).2 with redis := r })
    (hids : ∀ n, Plain ((perform c w).2.oracle.streamId.get n))
    (hreplies : ∀ n, PlainMembers ((perform c w).2.oracle.rpcReply.get n)) :
    Stands jsoncpp (perform c w).2 { t with world := (perform c t.world).2 } := by
  have hredis : ∀ v : World, (perform c v).2.redis = v.redis := by
    intro v
    have hv := congrArg World.redis (hc v v.redis)
    exact hv
  exact
    { refines := (hredis w).symm ▸ hs.refines
      unused := hs.unused
      others := (hredis w).symm ▸ hs.others
      agents := by
        rw [hredis, hredis]
        exact hs.agents
      heartbeats := by
        rw [hredis, hredis]
        exact hs.heartbeats
      world := by rw [hredis, ← hc, ← hs.world]
      kept := hs.kept
      plain := (hredis w).symm ▸ hs.plain
      ids := hids
      replies := hreplies }

theorem Stands.common (hs : Stands jsoncpp w t) {c : Command} (hc : Common c) (hproper : Proper c) :
    (perform c w).1 = (perform c t.world).1 ∧
      Stands jsoncpp (perform c w).2 { t with world := (perform c t.world).2 } := by
  have hsame : ∀ {k : Kind}, k = .erizo_agent ∨ k = .heartbeat → w.redis k = t.world.redis k := by
    rintro k (rfl | rfl)
    · exact hs.agents
    · exact hs.heartbeats
  cases c with
  | hset k name row =>
      rw [perform, perform, hs.oracle]
      split
      · exact ⟨rfl, hs.drawWrite⟩
      · refine ⟨rfl, ?_⟩
        rw [hsame hc]
        refine hs.drawWrite.store hc name fun row' hrow' => ?_
        rcases Table.mem_set.mp hrow' with rfl | ⟨hrow', -⟩
        · exact hproper.2.1
        · exact hs.plain k name row' (by rwa [hsame hc])
  | hdel k name ids =>
      rw [perform, perform, hs.oracle]
      split
      · exact ⟨rfl, hs.drawWrite⟩
      · refine ⟨rfl, ?_⟩
        rw [hsame hc]
        refine hs.drawWrite.store hc name fun row hrow => ?_
        exact hs.plain k name row (by rw [hsame hc]; exact (Table.mem_erase.mp hrow).1)
  | hget k name id =>
      rw [perform, perform, hs.oracle, hsame hc]
      split
      · exact ⟨rfl, hs.drawRead⟩
      · exact ⟨rfl, hs.drawRead⟩
  | hvals k name =>
      rw [perform, perform, hs.oracle, hsame hc]
      split
      · exact ⟨rfl, hs.drawRead⟩
      · exact ⟨rfl, hs.drawRead⟩
  | getStreamID =>
      have hreply := congrArg (fun o => o.streamId.head) hs.oracle
      exact ⟨hreply, hs.step (fun _ _ => rfl) (fun n => hs.ids (n + 1)) hs.replies⟩
  | getSystemMs =>
      have hreply := congrArg (fun o => o.systemMs.head) hs.oracle
      exact ⟨hreply, hs.step (fun _ _ => rfl) hs.ids hs.replies⟩
  | uninitialized =>
      have hreply := congrArg (fun o => o.uninitialized.head) hs.oracle
      exact ⟨hreply, hs.step (fun _ _ => rfl) hs.ids hs.replies⟩
  | rpc queuename data =>
      have hreply := congrArg (fun o => o.rpcReply.head) hs.oracle
      exact ⟨hreply, hs.step (fun _ _ => rfl) hs.ids fun n => hs.replies (n + 1)⟩
  | rpcNotReply queuename data => exact ⟨rfl, hs.step (fun _ _ => rfl) hs.ids hs.replies⟩
  | asyncTask task => exact ⟨rfl, hs.step (fun _ _ => rfl) hs.ids hs.replies⟩
  | sendEvent client_id event => exact ⟨rfl, hs.step (fun _ _ => rfl) hs.ids hs.replies⟩
  | closeConnection client_id => exact ⟨rfl, hs.step (fun _ _ => rfl) hs.ids hs.replies⟩

/-! ### Every command -/

theorem perform_sound (hs : Stands jsoncpp w t) (c : Command) : SoundReply c (perform c w).1 := by
  cases c with
  | getStreamID => exact hs.ids 0
  | rpc queuename data => exact hs.replies 0
  | hget k name id =>
      intro row hrow
      rw [perform] at hrow
      split at hrow
      · cases hrow
      · exact hs.plain k name row (Table.get?_eq_some_iff.mp hrow).1
  | hvals k name =>
      intro row hrow
      rw [perform] at hrow
      split at hrow
      · exact absurd hrow List.not_mem_nil
      · exact hs.plain k name row hrow
  | _ => trivial

theorem perform_stands (hlaw : jsoncpp.Lawful) {c : Command} (hproper : Proper c)
    (hs : Stands jsoncpp w t) :
    (perform c w).1 = (performText jsoncpp c t).1 ∧
      Stands jsoncpp (perform c w).2 (performText jsoncpp c t).2 := by
  have hcommon : Common c → (perform c w).1 = (performText jsoncpp c t).1 ∧
      Stands jsoncpp (perform c w).2 (performText jsoncpp c t).2 := by
    intro hc
    rw [performText_common hc]
    exact hs.common hc hproper
  cases c with
  | hset k name row =>
      obtain ⟨h, rfl⟩ | hk := Hash.exists_or k
      · rw [performText_hset]
        exact hs.hset hlaw hproper.1 hproper.2.1 (by cases h <;> first | rfl | exact hproper.2.2)
      · exact hcommon hk
  | hdel k name ids =>
      obtain ⟨h, rfl⟩ | hk := Hash.exists_or k
      · rw [performText_hdel]
        obtain ⟨hname | ⟨hk, rfl⟩, hids⟩ := hproper
        · exact hs.hdel hlaw hname hids
        · obtain rfl : h = .ec := Hash.kind_injective hk
          exact hs.hdel_unused
      · exact hcommon hk
  | hget k name id =>
      obtain ⟨h, rfl⟩ | hk := Hash.exists_or k
      · rw [performText_hget]
        exact hs.hget hlaw hproper.1 hproper.2
      · exact hcommon hk
  | hvals k name =>
      obtain ⟨h, rfl⟩ | hk := Hash.exists_or k
      · rw [performText_hvals]
        exact hs.hvals hlaw hproper
      · exact hcommon hk
  | _ => exact hcommon trivial

/-- The commands on texts stand for the commands on tables. -/
theorem represents (hlaw : jsoncpp.Lawful) :
    Represents SoundReply Proper perform (performText jsoncpp) (Stands jsoncpp) where
  reply _ _ _ hproper hs := (perform_stands hlaw hproper hs).1
  sound c _ _ _ hs := perform_sound hs c
  next _ _ _ hproper hs := (perform_stands hlaw hproper hs).2

end Represents

end TextStore
