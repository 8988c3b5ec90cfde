import ErizoController.Core.Allocation
import ErizoController.Model.Readers
import ErizoController.Redis.LockCall
import ErizoController.Thread.ThreadPool

/-!
# Config

The configuration and those who use its numbers. `init` checks the type of every member and
stores the numbers only after all checks, but no number is checked itself: a port is cut to
16 bits, and what counts down, is a modulus or is cast to an unsigned number elsewhere may be
zero or negative.
-/

open Json Value Parsed

structure Config where
  port : UInt16
  ssl : Bool
  ssl_key : String
  ssl_cert : String
  ssl_passwd : String
  ssl_port : UInt16
  redis_ip : String
  redis_port : UInt16
  redis_passwd : String
  redis_conn_timeout : Int32
  redis_rw_timeout : Int32
  redis_max_conns : Int32
  redis_lock_timeout : Int32
  redis_lock_try_time : Int32
  rabbitmq_username : String
  rabbitmq_passwd : String
  rabbitmq_hostname : String
  rabbitmq_port : UInt16
  rabbitmq_timeout : Int32
  uniquecast_exchange : String
  boardcast_exchange : String
  socket_io_thread_num : Int32
  erizo_controller_worker_num : Int32
  erizo_agent_timeout : Int32
  erizo_controller_update_interval : Int32
  erizo_controller_timeout : Int32
  server_mapping : List (ℤ × String)
  deriving DecidableEq

namespace Config

/-- The constructor; `ssl`, which it leaves open, is a parameter. -/
def new (ssl : Bool) : Config where
  port := 8080
  ssl := ssl
  ssl_key := "cert/key.pem"
  ssl_cert := "cert/cert.pem"
  ssl_passwd := ""
  ssl_port := 443
  redis_ip := "127.0.0.1"
  redis_port := 6379
  redis_passwd := "cathy978"
  redis_conn_timeout := 10
  redis_rw_timeout := 10
  redis_max_conns := 100
  redis_lock_timeout := 2000
  redis_lock_try_time := 1000
  rabbitmq_username := "linmin"
  rabbitmq_passwd := "linmin"
  rabbitmq_hostname := "127.0.0.1"
  rabbitmq_port := 5672
  rabbitmq_timeout := 1000
  uniquecast_exchange := "erizo_uniquecast_exchange"
  boardcast_exchange := "erizo_boardcast_exchange"
  socket_io_thread_num := 20
  erizo_controller_worker_num := 5
  erizo_agent_timeout := 10000
  erizo_controller_update_interval := 1000
  erizo_controller_timeout := 3000
  server_mapping := []

/-! ## The checks -/

structure Websocket where
  port : ℤ
  ssl : Bool
  ssl_key : String
  ssl_cert : String
  ssl_passwd : String
  ssl_port : ℤ

structure Redis where
  ip : String
  port : ℤ
  password : String
  conn_timeout : ℤ
  rw_timeout : ℤ
  max_conns : ℤ
  lock_timeout : ℤ
  lock_try_time : ℤ

structure Rabbitmq where
  host : String
  port : ℤ
  username : String
  password : String
  timeout : ℤ
  boardcast_exchange : String
  uniquecast_exchange : String

structure Other where
  erizo_controller_worker_num : ℤ
  socket_io_thread_num : ℤ
  server : List Value
  erizo_agent_timeout : ℤ
  erizo_controller_update_interval : ℤ
  erizo_controller_timeout : ℤ

/-- The members of a document that passes the checks. -/
structure Document where
  websocket : Websocket
  redis : Redis
  rabbitmq : Rabbitmq
  other : Other

/-- A member that is present and an array. -/
def array? (root : Value) (key : String) : Option (List Value) :=
  match root.member? key with
  | some (.arrayValue xs) => some xs
  | _ => none

def checkWebsocket (websocket : Value) : Parsed Websocket := do
  let port ← check (websocket.int? "port")
  let ssl ← check (websocket.bool? "ssl")
  let ssl_key ← check (websocket.string? "ssl_key")
  let ssl_cert ← check (websocket.string? "ssl_cert")
  let ssl_passwd ← check (websocket.string? "ssl_passwd")
  let ssl_port ← check (websocket.int? "ssl_port")
  return { port, ssl, ssl_key, ssl_cert, ssl_passwd, ssl_port }

def checkRedis (redis : Value) : Parsed Redis := do
  let ip ← check (redis.string? "ip")
  let port ← check (redis.int? "port")
  let password ← check (redis.string? "password")
  let conn_timeout ← check (redis.int? "conn_timeout")
  let rw_timeout ← check (redis.int? "rw_timeout")
  let max_conns ← check (redis.int? "max_conns")
  let lock_timeout ← check (redis.int? "lock_timeout")
  let lock_try_time ← check (redis.int? "lock_try_time")
  return { ip, port, password, conn_timeout, rw_timeout, max_conns, lock_timeout, lock_try_time }

def checkRabbitmq (rabbitmq : Value) : Parsed Rabbitmq := do
  let host ← check (rabbitmq.string? "host")
  let port ← check (rabbitmq.int? "port")
  let username ← check (rabbitmq.string? "username")
  let password ← check (rabbitmq.string? "password")
  let timeout ← check (rabbitmq.int? "timeout")
  let boardcast_exchange ← check (rabbitmq.string? "boardcast_exchange")
  let uniquecast_exchange ← check (rabbitmq.string? "uniquecast_exchange")
  return { host, port, username, password, timeout, boardcast_exchange, uniquecast_exchange }

def checkOther (other : Value) : Parsed Other := do
  let erizo_controller_worker_num ← check (other.int? "erizo_controller_worker_num")
  let socket_io_thread_num ← check (other.int? "socket_io_thread_num")
  let server ← check (array? other "server")
  let erizo_agent_timeout ← check (other.int? "erizo_agent_timeout")
  let erizo_controller_update_interval ← check (other.int? "erizo_controller_update_interval")
  let erizo_controller_timeout ← check (other.int? "erizo_controller_timeout")
  return { erizo_controller_worker_num, socket_io_thread_num, server, erizo_agent_timeout,
           erizo_controller_update_interval, erizo_controller_timeout }

/-- The four conditions in which `init` returns 1. `root["websocket"]` throws on an array. -/
def checks (root : Value) : Parsed Document := do
  root.hasMembers
  let websocket ← check (root.object? "websocket")
  let websocket ← checkWebsocket websocket
  let redis ← check (root.object? "redis")
  let redis ← checkRedis redis
  let rabbitmq ← check (root.object? "rabbitmq")
  let rabbitmq ← checkRabbitmq rabbitmq
  let other ← check (root.object? "other")
  let other ← checkOther other
  return { websocket, redis, rabbitmq, other }

/-! ## The assignments -/

/-- An `int` of the document, `none` where `asInt` throws. -/
def toInt32 (i : ℤ) : Option Int32 := (asInt i).map Int32.ofInt

/-- An `int` of the document, cut to an `unsigned short`. -/
def toUInt16 (i : ℤ) : Option UInt16 := (asInt i).map UInt16.ofInt

/-- One item of `server`: those that are not well-formed are skipped. -/
def addServer (server_mapping : List (ℤ × String)) (item : Value) : Option (List (ℤ × String)) :=
  match item.int? "id", item.string? "name" with
  | some id, some name =>
      (asInt id).map fun id => (server_mapping.filter fun it => it.1 ≠ id) ++ [(id, name)]
  | _, _ => some server_mapping

/-- What `init` stores of a document, `none` where it throws on the way. -/
def assign (d : Document) (this : Config) : Option Config := do
  let port ← toUInt16 d.websocket.port
  let ssl_port ← toUInt16 d.websocket.ssl_port
  let redis_port ← toUInt16 d.redis.port
  let redis_conn_timeout ← toInt32 d.redis.conn_timeout
  let redis_rw_timeout ← toInt32 d.redis.rw_timeout
  let redis_max_conns ← toInt32 d.redis.max_conns
  let redis_lock_timeout ← toInt32 d.redis.lock_timeout
  let redis_lock_try_time ← toInt32 d.redis.lock_try_time
  let rabbitmq_port ← toUInt16 d.rabbitmq.port
  let rabbitmq_timeout ← toInt32 d.rabbitmq.timeout
  let erizo_controller_worker_num ← toInt32 d.other.erizo_controller_worker_num
  let socket_io_thread_num ← toInt32 d.other.socket_io_thread_num
  let erizo_agent_timeout ← toInt32 d.other.erizo_agent_timeout
  let erizo_controller_timeout ← toInt32 d.other.erizo_controller_timeout
  let erizo_controller_update_interval ← toInt32 d.other.erizo_controller_update_interval
  let server_mapping ← d.other.server.foldlM addServer this.server_mapping
  return {
    port, ssl := d.websocket.ssl, ssl_key := d.websocket.ssl_key, ssl_cert := d.websocket.ssl_cert
    ssl_passwd := d.websocket.ssl_passwd, ssl_port
    redis_ip := d.redis.ip, redis_port, redis_passwd := d.redis.password, redis_conn_timeout
    redis_rw_timeout, redis_max_conns, redis_lock_timeout, redis_lock_try_time
    rabbitmq_username := d.rabbitmq.username, rabbitmq_passwd := d.rabbitmq.password
    rabbitmq_hostname := d.rabbitmq.host, rabbitmq_port, rabbitmq_timeout
    uniquecast_exchange := d.rabbitmq.uniquecast_exchange
    boardcast_exchange := d.rabbitmq.boardcast_exchange
    socket_io_thread_num, erizo_controller_worker_num, erizo_agent_timeout
    erizo_controller_update_interval, erizo_controller_timeout, server_mapping }

/-- `init` on what the file is read as, `none` for a file that cannot be opened or parsed:
the code it returns and the configuration, `none` where it throws. -/
def init (parsed : Option Value) (this : Config) : Option (ℤ × Config) :=
  match parsed with
  | none => some (1, this)
  | some root =>
      match checks root with
      | .throws => none
      | .rejects => some (1, this)
      | .reads d => (assign d this).map fun c => (0, c)

/-! ## Who uses the numbers -/

/-- The loop of `RedisLocker::lock` with its tries counted, `none` where the counter overflows.
The call has not returned when the answers run out. -/
def lockTries (redis_lock_timeout : ℤ) (key : String) :
    List RedisLocker.Attempt → (try_time : ℤ) → RedisLocker.Object → Option ℕ
  | [], _, _ => some 0
  | a :: as, try_time, l =>
      let (ret, l) := RedisLocker.try_lock redis_lock_timeout key a l
      if ret ∨ try_time = 0 then some 1
      else if try_time = -2 ^ 31 then none
      else (lockTries redis_lock_timeout key as (try_time - 1) l).map (· + 1)

/-- Whatever Redis answers, a call makes at most one try more than the number given, and the
counter does not overflow. -/
def LockBounded (try_time : ℤ) : Prop :=
  ∀ redis_lock_timeout key as l,
    ∃ tries : ℕ, lockTries redis_lock_timeout key as try_time l = some tries ∧ tries ≤ try_time + 1

/-- The index that `getSequenceWorker` computes, `none` for a remainder by zero. -/
def sequenceWorker (workers_size : ℕ) (index_ : UInt32) : Option ℤ :=
  if workers_size = 0 then none else some (Int32.ofNat (index_.toNat % workers_size)).toInt

/-- Every call of `getSequenceWorker` gives one of the workers that the constructor made for
this `num_workers`. -/
def WorkersExist (num_workers : UInt32) : Prop :=
  ∀ index_, ∃ index, sequenceWorker num_workers.toNat index_ = some index ∧
    0 ≤ index ∧ index < num_workers.toNat

theorem lockTries_le {redis_lock_timeout : ℤ} {key : String} {as : List RedisLocker.Attempt}
    {try_time : ℤ} {l : RedisLocker.Object} (h0 : 0 ≤ try_time) :
    ∃ tries : ℕ, lockTries redis_lock_timeout key as try_time l = some tries ∧
      tries ≤ try_time + 1 := by
  induction as generalizing try_time l with
  | nil => exact ⟨0, rfl, by omega⟩
  | cons a as ih =>
      rw [lockTries]
      dsimp only
      split
      · exact ⟨1, rfl, by omega⟩
      · rename_i hgoes
        have hne : try_time ≠ 0 := fun h => hgoes (.inr h)
        rw [if_neg (by omega)]
        obtain ⟨tries, htries, hle⟩ := ih (by omega : 0 ≤ try_time - 1)
        exact ⟨tries + 1, by rw [htries, Option.map_some], by omega⟩

/-- A counter below zero counts on. -/
theorem lockBounded_iff {try_time : ℤ} : LockBounded try_time ↔ 0 ≤ try_time := by
  constructor
  · intro h
    -- A try whose `GETSET` finds another value fails.
    obtain ⟨tries, htries, hle⟩ := h 0 "" [{ getset := some (some 0) }] {}
    by_contra hneg
    rw [lockTries] at htries
    have htry : RedisLocker.try_lock 0 "" { getset := some (some 0) } {} = (false, {}) := rfl
    rw [htry] at htries
    have hgoes : ¬ (false = true ∨ try_time = 0) := by
      rintro (hret | hzero)
      · cases hret
      · omega
    dsimp only at htries
    rw [if_neg hgoes] at htries
    split at htries
    · cases htries
    · have hone : 1 = tries := Option.some.inj htries
      omega
  · exact fun h0 _ _ _ _ => lockTries_le h0

theorem workersExist_iff {num_workers : UInt32} :
    WorkersExist num_workers ↔ 0 < num_workers.toNat ∧ num_workers.toNat ≤ 2 ^ 31 := by
  constructor
  · intro h
    have hpos : num_workers.toNat ≠ 0 := by
      intro hzero
      obtain ⟨index, hindex, -⟩ := h 0
      rw [sequenceWorker, if_pos hzero] at hindex
      cases hindex
    refine ⟨Nat.pos_of_ne_zero hpos, ?_⟩
    by_contra hlarge
    -- The index `2 ^ 31` is no `int`.
    obtain ⟨index, hindex, hnonneg, -⟩ := h 2147483648
    have hmod : (2147483648 : UInt32).toNat % num_workers.toNat = 2147483648 :=
      Nat.mod_eq_of_lt (by
        change 2147483648 < num_workers.toNat
        omega)
    rw [sequenceWorker, if_neg hpos, hmod] at hindex
    have hint : (Int32.ofNat 2147483648).toInt = -2147483648 := by decide
    rw [hint] at hindex
    cases hindex
    omega
  · rintro ⟨hpos, hle⟩ index_
    have hlt := Nat.mod_lt index_.toNat hpos
    refine ⟨_, if_neg hpos.ne', ?_⟩
    rw [Int32.toInt_ofNat_of_lt (by omega)]
    omega

/-! ## What is safe -/

/-- A number in a section of the document, whatever its type. -/
def number (root : Value) (section_ key : String) : Option ℤ :=
  (root.object? section_).bind fun members => members.integer? key

/-- The configuration is safe to run with: the ports and the timeouts are the numbers of the
document, a lock is tried as often as it says, and there are workers. -/
structure Safe (root : Value) (c : Config) : Prop where
  port : number root "websocket" "port" = some (c.port.toNat : ℤ)
  ssl_port : number root "websocket" "ssl_port" = some (c.ssl_port.toNat : ℤ)
  redis_port : number root "redis" "port" = some (c.redis_port.toNat : ℤ)
  rabbitmq_port : number root "rabbitmq" "port" = some (c.rabbitmq_port.toNat : ℤ)
  lock : LockBounded c.redis_lock_try_time.toInt
  workers : WorkersExist c.erizo_controller_worker_num.toUInt32
  rabbitmq_timeout :
    number root "rabbitmq" "timeout" = some ((toUInt64 c.rabbitmq_timeout).toNat : ℤ)
  erizo_agent_timeout :
    number root "other" "erizo_agent_timeout" = some ((toUInt64 c.erizo_agent_timeout).toNat : ℤ)
  erizo_controller_timeout : number root "other" "erizo_controller_timeout" =
    some ((toUInt64 c.erizo_controller_timeout).toNat : ℤ)
  erizo_controller_update_interval : number root "other" "erizo_controller_update_interval" =
    some ((toUInt64 c.erizo_controller_update_interval).toNat : ℤ)

/-- The numbers of a document are in the ranges of those who use them. -/
structure Document.Sound (d : Document) : Prop where
  port : IsPort d.websocket.port
  ssl_port : IsPort d.websocket.ssl_port
  redis_port : IsPort d.redis.port
  rabbitmq_port : IsPort d.rabbitmq.port
  lock_try_time : 0 ≤ d.redis.lock_try_time
  worker_num : 0 < d.other.erizo_controller_worker_num ∨
    d.other.erizo_controller_worker_num = -2 ^ 31
  rabbitmq_timeout : 0 ≤ d.rabbitmq.timeout
  erizo_agent_timeout : 0 ≤ d.other.erizo_agent_timeout
  erizo_controller_timeout : 0 ≤ d.other.erizo_controller_timeout
  erizo_controller_update_interval : 0 ≤ d.other.erizo_controller_update_interval

/-- Every number of the document that `init` stores is an `int`. -/
def Document.Fits (d : Document) : Prop :=
  (∀ i ∈ [d.websocket.port, d.websocket.ssl_port, d.redis.port, d.redis.conn_timeout,
    d.redis.rw_timeout, d.redis.max_conns, d.redis.lock_timeout, d.redis.lock_try_time,
    d.rabbitmq.port, d.rabbitmq.timeout, d.other.erizo_controller_worker_num,
    d.other.socket_io_thread_num, d.other.erizo_agent_timeout, d.other.erizo_controller_timeout,
    d.other.erizo_controller_update_interval], IsInt32 i) ∧
  ∀ item ∈ d.other.server, ∀ id, item.int? "id" = some id → (item.string? "name").isSome →
    IsInt32 id

variable {root : Value} {d : Document} {this c : Config}

/-! ### What the checks have read -/

theorem checkWebsocket_numbers {websocket : Value} {w : Websocket}
    (h : checkWebsocket websocket = reads w) :
    websocket.integer? "port" = some w.port ∧ websocket.integer? "ssl_port" = some w.ssl_port := by
  simp only [checkWebsocket, check_bind_eq_reads] at h
  obtain ⟨port, hport, _, _, _, _, _, _, _, _, ssl_port, hssl_port, ⟨⟩⟩ := h
  exact ⟨integer?_of_int? hport, integer?_of_int? hssl_port⟩

theorem checkRedis_numbers {redis : Value} {r : Redis} (h : checkRedis redis = reads r) :
    redis.integer? "port" = some r.port := by
  simp only [checkRedis, check_bind_eq_reads] at h
  obtain ⟨_, _, port, hport, _, _, _, _, _, _, _, _, _, _, _, _, ⟨⟩⟩ := h
  exact integer?_of_int? hport

theorem checkRabbitmq_numbers {rabbitmq : Value} {r : Rabbitmq}
    (h : checkRabbitmq rabbitmq = reads r) :
    rabbitmq.integer? "port" = some r.port ∧ rabbitmq.integer? "timeout" = some r.timeout := by
  simp only [checkRabbitmq, check_bind_eq_reads] at h
  obtain ⟨_, _, port, hport, _, _, _, _, timeout, htimeout, _, _, _, _, ⟨⟩⟩ := h
  exact ⟨integer?_of_int? hport, integer?_of_int? htimeout⟩

theorem checkOther_numbers {other : Value} {o : Other} (h : checkOther other = reads o) :
    other.integer? "erizo_agent_timeout" = some o.erizo_agent_timeout ∧
    other.integer? "erizo_controller_timeout" = some o.erizo_controller_timeout ∧
    other.integer? "erizo_controller_update_interval" =
      some o.erizo_controller_update_interval := by
  simp only [checkOther, check_bind_eq_reads] at h
  obtain ⟨_, _, _, _, _, _, agent, hagent, interval, hinterval, timeout, htimeout, ⟨⟩⟩ := h
  exact ⟨integer?_of_int? hagent, integer?_of_int? htimeout, integer?_of_int? hinterval⟩

/-- The numbers checked are those of the document. -/
theorem checks_numbers (h : checks root = reads d) :
    number root "websocket" "port" = some d.websocket.port ∧
    number root "websocket" "ssl_port" = some d.websocket.ssl_port ∧
    number root "redis" "port" = some d.redis.port ∧
    number root "rabbitmq" "port" = some d.rabbitmq.port ∧
    number root "rabbitmq" "timeout" = some d.rabbitmq.timeout ∧
    number root "other" "erizo_agent_timeout" = some d.other.erizo_agent_timeout ∧
    number root "other" "erizo_controller_timeout" = some d.other.erizo_controller_timeout ∧
    number root "other" "erizo_controller_update_interval" =
      some d.other.erizo_controller_update_interval := by
  rw [checks] at h
  obtain ⟨-, -, h⟩ := reads_of_bind h
  obtain ⟨websocket, hwebsocket, h⟩ := check_bind_eq_reads.mp h
  obtain ⟨w, hw, h⟩ := reads_of_bind h
  obtain ⟨redis, hredis, h⟩ := check_bind_eq_reads.mp h
  obtain ⟨r, hr, h⟩ := reads_of_bind h
  obtain ⟨rabbitmq, hrabbitmq, h⟩ := check_bind_eq_reads.mp h
  obtain ⟨q, hq, h⟩ := reads_of_bind h
  obtain ⟨other, hother, h⟩ := check_bind_eq_reads.mp h
  obtain ⟨o, ho, ⟨⟩⟩ := reads_of_bind h
  simp only [number, hwebsocket, hredis, hrabbitmq, hother, Option.bind_some]
  exact ⟨(checkWebsocket_numbers hw).1, (checkWebsocket_numbers hw).2, checkRedis_numbers hr,
    (checkRabbitmq_numbers hq).1, (checkRabbitmq_numbers hq).2, checkOther_numbers ho⟩

/-! ### What is stored -/

theorem toInt32_eq_some {i : ℤ} {n : Int32} :
    toInt32 i = some n ↔ IsInt32 i ∧ n = Int32.ofInt i := by
  rw [toInt32, Option.map_eq_some_iff]
  constructor
  · rintro ⟨j, hj, rfl⟩
    rw [asInt, Option.ite_none_right_eq_some, Option.some.injEq] at hj
    exact ⟨hj.1, by rw [hj.2]⟩
  · rintro ⟨hi, rfl⟩
    exact ⟨i, asInt_eq_some hi, rfl⟩

theorem toUInt16_eq_some {i : ℤ} {n : UInt16} :
    toUInt16 i = some n ↔ IsInt32 i ∧ n = UInt16.ofInt i := by
  rw [toUInt16, Option.map_eq_some_iff]
  constructor
  · rintro ⟨j, hj, rfl⟩
    rw [asInt, Option.ite_none_right_eq_some, Option.some.injEq] at hj
    exact ⟨hj.1, by rw [hj.2]⟩
  · rintro ⟨hi, rfl⟩
    exact ⟨i, asInt_eq_some hi, rfl⟩

theorem isSome_asInt {i : ℤ} : (asInt i).isSome ↔ IsInt32 i := by
  rw [asInt, Option.isSome_ite]
  rfl

theorem isSome_addServers {server : List Value} {server_mapping : List (ℤ × String)} :
    (server.foldlM addServer server_mapping).isSome ↔
      ∀ item ∈ server, ∀ id, item.int? "id" = some id → (item.string? "name").isSome →
        IsInt32 id := by
  induction server generalizing server_mapping with
  | nil => simp
  | cons item server ih =>
      rw [List.foldlM_cons, List.forall_mem_cons, Option.bind_eq_bind]
      have hitem : (addServer server_mapping item).isSome ↔
          ∀ id, item.int? "id" = some id → (item.string? "name").isSome → IsInt32 id := by
        rw [addServer]
        split
        · rename_i id name hid hname
          rw [hid, hname, Option.isSome_map, isSome_asInt]
          constructor
          · rintro h id' ⟨⟩ -
            exact h
          · exact fun h => h id rfl rfl
        · rename_i hskip
          refine iff_of_true rfl fun id hid hname => ?_
          obtain ⟨name, hname⟩ := Option.isSome_iff_exists.mp hname
          exact absurd hname (hskip id name hid)
      cases hadd : addServer server_mapping item with
      | none =>
          rw [hadd] at hitem
          exact iff_of_false (by simp) fun h => by simpa using hitem.mpr h.1
      | some m =>
          rw [hadd] at hitem
          rw [Option.bind_some, ih]
          exact (and_iff_right (hitem.mp rfl)).symm

/-- What is stored of a document: the remainders of its numbers. -/
theorem assign_eq_some (h : assign d this = some c) :
    d.Fits ∧ c.port = UInt16.ofInt d.websocket.port ∧
      c.ssl_port = UInt16.ofInt d.websocket.ssl_port ∧
      c.redis_port = UInt16.ofInt d.redis.port ∧ c.rabbitmq_port = UInt16.ofInt d.rabbitmq.port ∧
      c.redis_lock_try_time = Int32.ofInt d.redis.lock_try_time ∧
      c.erizo_controller_worker_num = Int32.ofInt d.other.erizo_controller_worker_num ∧
      c.rabbitmq_timeout = Int32.ofInt d.rabbitmq.timeout ∧
      c.erizo_agent_timeout = Int32.ofInt d.other.erizo_agent_timeout ∧
      c.erizo_controller_timeout = Int32.ofInt d.other.erizo_controller_timeout ∧
      c.erizo_controller_update_interval =
        Int32.ofInt d.other.erizo_controller_update_interval := by
  rw [assign] at h
  obtain ⟨port, h1, h⟩ := Option.bind_eq_some_iff.mp h
  obtain ⟨ssl_port, h2, h⟩ := Option.bind_eq_some_iff.mp h
  obtain ⟨redis_port, h3, h⟩ := Option.bind_eq_some_iff.mp h
  obtain ⟨conn_timeout, h4, h⟩ := Option.bind_eq_some_iff.mp h
  obtain ⟨rw_timeout, h5, h⟩ := Option.bind_eq_some_iff.mp h
  obtain ⟨max_conns, h6, h⟩ := Option.bind_eq_some_iff.mp h
  obtain ⟨lock_timeout, h7, h⟩ := Option.bind_eq_some_iff.mp h
  obtain ⟨lock_try_time, h8, h⟩ := Option.bind_eq_some_iff.mp h
  obtain ⟨rabbitmq_port, h9, h⟩ := Option.bind_eq_some_iff.mp h
  obtain ⟨timeout, h10, h⟩ := Option.bind_eq_some_iff.mp h
  obtain ⟨worker_num, h11, h⟩ := Option.bind_eq_some_iff.mp h
  obtain ⟨thread_num, h12, h⟩ := Option.bind_eq_some_iff.mp h
  obtain ⟨agent_timeout, h13, h⟩ := Option.bind_eq_some_iff.mp h
  obtain ⟨controller_timeout, h14, h⟩ := Option.bind_eq_some_iff.mp h
  obtain ⟨update_interval, h15, h⟩ := Option.bind_eq_some_iff.mp h
  obtain ⟨mapping, hmapping, ⟨⟩⟩ := Option.bind_eq_some_iff.mp h
  obtain ⟨i1, rfl⟩ := toUInt16_eq_some.mp h1
  obtain ⟨i2, rfl⟩ := toUInt16_eq_some.mp h2
  obtain ⟨i3, rfl⟩ := toUInt16_eq_some.mp h3
  obtain ⟨i4, rfl⟩ := toInt32_eq_some.mp h4
  obtain ⟨i5, rfl⟩ := toInt32_eq_some.mp h5
  obtain ⟨i6, rfl⟩ := toInt32_eq_some.mp h6
  obtain ⟨i7, rfl⟩ := toInt32_eq_some.mp h7
  obtain ⟨i8, rfl⟩ := toInt32_eq_some.mp h8
  obtain ⟨i9, rfl⟩ := toUInt16_eq_some.mp h9
  obtain ⟨i10, rfl⟩ := toInt32_eq_some.mp h10
  obtain ⟨i11, rfl⟩ := toInt32_eq_some.mp h11
  obtain ⟨i12, rfl⟩ := toInt32_eq_some.mp h12
  obtain ⟨i13, rfl⟩ := toInt32_eq_some.mp h13
  obtain ⟨i14, rfl⟩ := toInt32_eq_some.mp h14
  obtain ⟨i15, rfl⟩ := toInt32_eq_some.mp h15
  have hserver := isSome_addServers.mp (Option.isSome_iff_exists.mpr ⟨mapping, hmapping⟩)
  refine ⟨⟨?_, hserver⟩, rfl, rfl, rfl, rfl, rfl, rfl, rfl, rfl, rfl, rfl⟩
  simp only [List.forall_mem_cons, List.not_mem_nil, false_imp_iff, implies_true, and_true]
  exact ⟨i1, i2, i3, i4, i5, i6, i7, i8, i9, i10, i11, i12, i13, i14, i15⟩

/-- A document whose numbers are `int`s is stored. -/
theorem assign_of_fits (h : d.Fits) (this : Config) : ∃ c, assign d this = some c := by
  obtain ⟨hints, hserver⟩ := h
  simp only [List.forall_mem_cons, List.not_mem_nil, false_imp_iff, implies_true, and_true] at hints
  obtain ⟨h1, h2, h3, h4, h5, h6, h7, h8, h9, h10, h11, h12, h13, h14, h15⟩ := hints
  have hsome : (d.other.server.foldlM addServer this.server_mapping).isSome :=
    isSome_addServers.mpr hserver
  obtain ⟨mapping, hmapping⟩ := Option.isSome_iff_exists.mp hsome
  rw [assign, toUInt16_eq_some.mpr ⟨h1, rfl⟩, toUInt16_eq_some.mpr ⟨h2, rfl⟩,
    toUInt16_eq_some.mpr ⟨h3, rfl⟩, toInt32_eq_some.mpr ⟨h4, rfl⟩, toInt32_eq_some.mpr ⟨h5, rfl⟩,
    toInt32_eq_some.mpr ⟨h6, rfl⟩, toInt32_eq_some.mpr ⟨h7, rfl⟩, toInt32_eq_some.mpr ⟨h8, rfl⟩,
    toUInt16_eq_some.mpr ⟨h9, rfl⟩, toInt32_eq_some.mpr ⟨h10, rfl⟩, toInt32_eq_some.mpr ⟨h11, rfl⟩,
    toInt32_eq_some.mpr ⟨h12, rfl⟩, toInt32_eq_some.mpr ⟨h13, rfl⟩, toInt32_eq_some.mpr ⟨h14, rfl⟩,
    toInt32_eq_some.mpr ⟨h15, rfl⟩, hmapping]
  exact ⟨_, rfl⟩

/-! ### When it is safe -/

/-- A port is stored as it is if and only if it is one. -/
theorem port_iff {o : Option ℤ} {i : ℤ} {n : UInt16} (ho : o = some i) (hn : n = UInt16.ofInt i) :
    o = some (n.toNat : ℤ) ↔ IsPort i := by
  rw [ho, hn, Option.some.injEq]
  constructor
  · intro h
    rw [h]
    exact isPort_toNat _
  · exact fun h => (ofInt_toNat h).symm

theorem toInt_of_stored {i : ℤ} {n : Int32} (hi : IsInt32 i) (hn : n = Int32.ofInt i) :
    n.toInt = i := by
  rw [hn]
  exact Int32.toInt_ofInt_of_le hi.1 hi.2

/-- The cast of a timeout is the timeout if and only if this is not negative. -/
theorem timeout_iff {o : Option ℤ} {i : ℤ} {n : Int32} (hi : IsInt32 i) (ho : o = some i)
    (hn : n = Int32.ofInt i) : o = some ((toUInt64 n).toNat : ℤ) ↔ 0 ≤ i := by
  have htoInt := toInt_of_stored hi hn
  obtain ⟨hlow, hhigh⟩ := hi
  rw [ho, Option.some.injEq, ErizoController.toNat_toUInt64, htoInt]
  omega

theorem workers_iff {i : ℤ} {n : Int32} (hi : IsInt32 i) (hn : n = Int32.ofInt i) :
    WorkersExist n.toUInt32 ↔ 0 < i ∨ i = -2 ^ 31 := by
  obtain ⟨hlow, hhigh⟩ := hi
  have hnat : (n.toUInt32.toNat : ℤ) = i % 2 ^ 32 := by
    have hbits : (Int32.ofInt i).toUInt32.toNat = (BitVec.ofInt 32 i).toNat := rfl
    rw [hn, hbits, BitVec.toNat_ofInt]
    omega
  rw [workersExist_iff]
  omega

/-- What is stored of a document is safe if and only if its numbers are sound. -/
theorem safe_loaded_iff (hchecks : checks root = reads d) (hassign : assign d this = some c) :
    Safe root c ↔ d.Sound := by
  obtain ⟨hport, hssl, hredis, hrabbitmq, htimeout, hagent, hcontroller, hinterval⟩ :=
    checks_numbers hchecks
  obtain ⟨⟨hints, -⟩, cport, cssl, credis, crabbitmq, ctry, cworkers, ctimeout, cagent, ccontroller,
    cinterval⟩ := assign_eq_some hassign
  have htry := toInt_of_stored (hints d.redis.lock_try_time (by simp)) ctry
  have hworkers := workers_iff (hints d.other.erizo_controller_worker_num (by simp)) cworkers
  have htimeouts := timeout_iff (hints d.rabbitmq.timeout (by simp)) htimeout ctimeout
  have hagents := timeout_iff (hints d.other.erizo_agent_timeout (by simp)) hagent cagent
  have hcontrollers :=
    timeout_iff (hints d.other.erizo_controller_timeout (by simp)) hcontroller ccontroller
  have hintervals :=
    timeout_iff (hints d.other.erizo_controller_update_interval (by simp)) hinterval cinterval
  constructor
  · intro h
    exact {
      port := (port_iff hport cport).mp h.port
      ssl_port := (port_iff hssl cssl).mp h.ssl_port
      redis_port := (port_iff hredis credis).mp h.redis_port
      rabbitmq_port := (port_iff hrabbitmq crabbitmq).mp h.rabbitmq_port
      lock_try_time := htry ▸ lockBounded_iff.mp h.lock
      worker_num := hworkers.mp h.workers
      rabbitmq_timeout := htimeouts.mp h.rabbitmq_timeout
      erizo_agent_timeout := hagents.mp h.erizo_agent_timeout
      erizo_controller_timeout := hcontrollers.mp h.erizo_controller_timeout
      erizo_controller_update_interval := hintervals.mp h.erizo_controller_update_interval }
  · intro h
    exact {
      port := (port_iff hport cport).mpr h.port
      ssl_port := (port_iff hssl cssl).mpr h.ssl_port
      redis_port := (port_iff hredis credis).mpr h.redis_port
      rabbitmq_port := (port_iff hrabbitmq crabbitmq).mpr h.rabbitmq_port
      lock := lockBounded_iff.mpr (htry.symm ▸ h.lock_try_time)
      workers := hworkers.mpr h.worker_num
      rabbitmq_timeout := htimeouts.mpr h.rabbitmq_timeout
      erizo_agent_timeout := hagents.mpr h.erizo_agent_timeout
      erizo_controller_timeout := hcontrollers.mpr h.erizo_controller_timeout
      erizo_controller_update_interval := hintervals.mpr h.erizo_controller_update_interval }

/-- A configuration that is accepted is safe, and one that is not is left unchanged, if and
only if the document fails a check, or has a number that is no `int`, or has only numbers
that are sound. -/
theorem init_safe_iff (parsed : Option Value) (this : Config) :
    (∀ rc c, init parsed this = some (rc, c) →
      (rc = 0 → ∃ root, parsed = some root ∧ Safe root c) ∧ (rc = 1 → c = this)) ↔
    ∀ root d, parsed = some root → checks root = .reads d → d.Fits → d.Sound := by
  constructor
  · rintro h root d rfl hchecks hfits
    obtain ⟨c, hassign⟩ := assign_of_fits hfits this
    have hinit : init (some root) this = some (0, c) := by
      rw [init, hchecks]
      exact congrArg (Option.map fun c => (0, c)) hassign
    obtain ⟨root', ⟨⟩, hsafe⟩ := (h 0 c hinit).1 rfl
    exact (safe_loaded_iff hchecks hassign).mp hsafe
  · intro h rc c hinit
    cases parsed with
    | none =>
        obtain ⟨rfl, rfl⟩ := Prod.mk.inj (Option.some.inj hinit)
        exact ⟨fun hzero => absurd hzero (by decide), fun _ => rfl⟩
    | some root =>
        rw [init] at hinit
        cases hchecks : checks root with
        | throws =>
            rw [hchecks] at hinit
            cases hinit
        | rejects =>
            rw [hchecks] at hinit
            obtain ⟨rfl, rfl⟩ := Prod.mk.inj (Option.some.inj hinit)
            exact ⟨fun hzero => absurd hzero (by decide), fun _ => rfl⟩
        | reads d =>
            rw [hchecks] at hinit
            obtain ⟨c', hassign, heq⟩ := Option.map_eq_some_iff.mp hinit
            obtain ⟨rfl, rfl⟩ := Prod.mk.inj heq
            refine ⟨fun _ => ⟨root, rfl, ?_⟩, fun hone => absurd hone (by decide)⟩
            exact (safe_loaded_iff hchecks hassign).mpr
              (h root d rfl hchecks (assign_eq_some hassign).1)

/-- A document with a number of workers. -/
def documentOf (workers : ℤ) : Value :=
  .objectValue [
    ("websocket", .objectValue [("port", .intValue 8080), ("ssl", .booleanValue false),
      ("ssl_key", .stringValue ""), ("ssl_cert", .stringValue ""),
      ("ssl_passwd", .stringValue ""), ("ssl_port", .intValue 443)]),
    ("redis", .objectValue [("ip", .stringValue ""), ("port", .intValue 6379),
      ("password", .stringValue ""), ("conn_timeout", .intValue 10), ("rw_timeout", .intValue 10),
      ("max_conns", .intValue 100), ("lock_timeout", .intValue 10000),
      ("lock_try_time", .intValue 1000)]),
    ("rabbitmq", .objectValue [("host", .stringValue ""), ("port", .intValue 5672),
      ("username", .stringValue ""), ("password", .stringValue ""), ("timeout", .intValue 1000),
      ("boardcast_exchange", .stringValue ""), ("uniquecast_exchange", .stringValue "")]),
    ("other", .objectValue [("erizo_controller_worker_num", .intValue workers),
      ("socket_io_thread_num", .intValue 10), ("server", .arrayValue []),
      ("erizo_agent_timeout", .intValue 10000),
      ("erizo_controller_update_interval", .intValue 1000),
      ("erizo_controller_timeout", .intValue 3000)])]

/-- No worker at all is accepted. -/
theorem init_not_safe :
    ¬ ∀ parsed this rc c, init parsed this = some (rc, c) →
      (rc = 0 → ∃ root, parsed = some root ∧ Safe root c) ∧ (rc = 1 → c = this) := by
  intro h
  let d : Document := {
    websocket := ⟨8080, false, "", "", "", 443⟩
    redis := ⟨"", 6379, "", 10, 10, 100, 10000, 1000⟩
    rabbitmq := ⟨"", 5672, "", "", 1000, "", ""⟩
    other := ⟨0, 10, [], 10000, 1000, 3000⟩ }
  have hchecks : checks (documentOf 0) = .reads d := rfl
  have hfits : d.Fits := by
    refine ⟨?_, by simp [d]⟩
    simp only [d, List.forall_mem_cons, List.not_mem_nil, false_imp_iff, implies_true, and_true,
      IsInt32]
    omega
  obtain ⟨c, hassign⟩ := assign_of_fits hfits (new false)
  have hinit : init (some (documentOf 0)) (new false) = some (0, c) := by
    rw [init, hchecks]
    exact congrArg (Option.map fun c => (0, c)) hassign
  obtain ⟨root, ⟨⟩, hsafe⟩ := (h _ _ _ _ hinit).1 rfl
  have hsound := ((safe_loaded_iff hchecks hassign).mp hsafe).worker_num
  simp only [d] at hsound
  omega

end Config
