import Mathlib.Data.List.TakeWhile
import Mathlib.Data.Stream.Init
import ErizoController.Library.Program
import ErizoController.Model.Json
import ErizoController.Model.Records

/-!
# The world of a handler

The handlers are programs whose commands are the calls that leave the process: the Redis
commands, the random ids and the clock, messages to other processes, events to clients
and tasks for the worker threads. `perform` gives the effect of one command on a world.
What the outside decides, among it which Redis commands fail, is drawn from an oracle,
one stream for each kind of answer.

A failing `hset` or `hdel` returns -1 and changes nothing. `hget` and `hvals` go through
calls that return a bool, so on failure they return 0 with nothing read.

Every string is given to the client library by its `c_str()`. The field of `hget` comes from
messages and is cut there. The fields of `hset` and `hdel` are ids that the code has made
itself, from hexadecimal or decimal digits. A room id only names keys, those of the hashes
and that of the lock, which are all cut alike: it stands for what precedes its first NUL.
-/

open Json

/-- The data of a message, by its `method` or `type`. -/
inductive Message where
  | getErizo (roomID : String)
  | addPublisher (room_id client_id id label reply_to isp : String)
  | removePublisher (client_id id : String)
  | addSubscriber (client_id subscribe_to label reply_to isp : String)
  | removeSubscriber (client_id subscribe_to : String)
  | addVirtualPublisher (id src_stream_id sender_ip : String) (sender_port : UInt16)
      (video_ssrc audio_ssrc : UInt32)
  | removeVirtualPublisher (src_stream_id : String)
  | addVirtualSubscriber (id src_stream_id recver_ip : String) (recver_port : UInt16)
  | removeVirtualSubscriber (id src_stream_id : String)
  | processSignaling (client_id stream_id : String) (msg : Value)
  | new_publisher (streamId clientId label : String)
  | remove_subscriber (streamId clientId : String)

/-- The functions given to `asyncTask`. -/
inductive WorkerTask where
  | notifyToSubscribe (room_id client_id stream_id : String)
  | removeExpireErizoController (erizo_controller_id : String)
  deriving DecidableEq

inductive Command where
  | getStreamID
  | getSystemMs
  /-- The value of a field that its constructor does not set. -/
  | uninitialized
  | hset (k : Kind) (name : String) (row : k.Rec)
  | hget (k : Kind) (name field : String)
  | hvals (k : Kind) (name : String)
  | hdel (k : Kind) (name : String) (fields : List String)
  | rpcNotReply (queuename : String) (data : Message)
  | rpc (queuename : String) (data : Message)
  | asyncTask (task : WorkerTask)
  | sendEvent (client_id : String) (event : Value)
  | closeConnection (client_id : String)

@[reducible] def Command.Reply : Command → Type
  | getStreamID => String
  | getSystemMs => UInt64
  | uninitialized => UInt32
  | hset _ _ _ => ℤ
  | hget k _ _ => ℤ × Option k.Rec
  | hvals k _ => ℤ × List k.Rec
  | hdel _ _ _ => ℤ
  | rpcNotReply _ _ => Unit
  | rpc _ _ => Value
  | asyncTask _ => Unit
  | sendEvent _ _ => Unit
  | closeConnection _ => Unit

/-- The answers of the outside, in the order in which they are asked for. -/
structure Oracle where
  streamId : Stream' String
  systemMs : Stream' UInt64
  uninitialized : Stream' UInt32
  rpcReply : Stream' Value
  lockTaken : Stream' Bool
  readFault : Stream' Bool
  writeFault : Stream' Bool

/-- An outside in which nothing fails, and that answers every question the same way. -/
def Oracle.quiet : Oracle where
  streamId := .const ""
  systemMs := .const 0
  uninitialized := .const 0
  rpcReply := .const .nullValue
  lockTaken := .const true
  readFault := .const false
  writeFault := .const false

structure World where
  redis : Redis
  /-- The ids returned by `getStreamID`. -/
  used : List String
  /-- The messages given to the send queue, with their queues. -/
  outbox : List (String × Message)
  tasks : List WorkerTask
  events : List (String × Value)
  closing : List String
  oracle : Oracle

namespace World

/-- The world in which nothing has been sent yet. -/
def start (r : Redis) (o : Oracle) : World where
  redis := r
  used := []
  outbox := []
  tasks := []
  events := []
  closing := []
  oracle := o

/-- A store in which the `n`-th write fails. -/
def failing (r : Redis) (n : ℕ) : World :=
  start r { Oracle.quiet with writeFault := fun i => i == n }

variable (w : World)

def drawStreamId : World :=
  { w with
    used := w.oracle.streamId.head :: w.used
    oracle := { w.oracle with streamId := w.oracle.streamId.tail } }

def drawRead : World :=
  { w with oracle := { w.oracle with readFault := w.oracle.readFault.tail } }

def drawWrite : World :=
  { w with oracle := { w.oracle with writeFault := w.oracle.writeFault.tail } }

/-- A hash replaced by another. -/
def store (k : Kind) (name : String) (t : Table k.Rec) : World :=
  { w with redis := w.redis.update k name t }

def push (queuename : String) (data : Message) : World :=
  { w with outbox := w.outbox ++ [(queuename, data)] }

/-- The world with other answers to come. -/
def withOracle (o : Oracle) : World := { w with oracle := o }

/-- The world with other hashes and more messages. -/
def effect (r : Redis) (messages : List (String × Message)) : World :=
  { w with redis := r, outbox := w.outbox ++ messages }

@[simp] theorem effect_redis (r : Redis) (messages : List (String × Message)) :
    (w.effect r messages).redis = r := rfl

@[simp] theorem effect_outbox (r : Redis) (messages : List (String × Message)) :
    (w.effect r messages).outbox = w.outbox ++ messages := rfl

@[simp] theorem effect_oracle (r : Redis) (messages : List (String × Message)) :
    (w.effect r messages).oracle = w.oracle := rfl

@[simp] theorem effect_effect (r r' : Redis) (messages messages' : List (String × Message)) :
    (w.effect r messages).effect r' messages' = w.effect r' (messages ++ messages') := by
  simp [effect]

theorem effect_nil : w.effect w.redis [] = w := by simp [effect]

theorem store_eq_effect (k : Kind) (name : String) (t : Table k.Rec) :
    w.store k name t = w.effect (w.redis.update k name t) [] := by
  simp [store, effect]

@[simp] theorem drawRead_redis : w.drawRead.redis = w.redis := rfl

@[simp] theorem drawWrite_redis : w.drawWrite.redis = w.redis := rfl

/-- No Redis read fails. -/
def ReadsSucceed : Prop := w.oracle.readFault = Stream'.const false

/-- No Redis write fails. -/
def WritesSucceed : Prop := w.oracle.writeFault = Stream'.const false

variable {w}

theorem ReadsSucceed.head (h : w.ReadsSucceed) : w.oracle.readFault.head = false := by
  rw [h]
  rfl

theorem ReadsSucceed.drawRead (h : w.ReadsSucceed) : w.drawRead = w := by
  have htail : w.oracle.readFault.tail = w.oracle.readFault := by rw [h, Stream'.tail_const]
  rw [World.drawRead, htail]

theorem WritesSucceed.head (h : w.WritesSucceed) : w.oracle.writeFault.head = false := by
  rw [h]
  rfl

theorem WritesSucceed.drawWrite (h : w.WritesSucceed) : w.drawWrite = w := by
  have htail : w.oracle.writeFault.tail = w.oracle.writeFault := by rw [h, Stream'.tail_const]
  rw [World.drawWrite, htail]

end World

/-- The reply to a command and the world after it. -/
def perform : (c : Command) → World → c.Reply × World
  | .getStreamID, w => (w.oracle.streamId.head, w.drawStreamId)
  | .getSystemMs, w =>
      (w.oracle.systemMs.head,
        { w with oracle := { w.oracle with systemMs := w.oracle.systemMs.tail } })
  | .uninitialized, w =>
      (w.oracle.uninitialized.head,
        { w with oracle := { w.oracle with uninitialized := w.oracle.uninitialized.tail } })
  | .hset k name row, w =>
      if w.oracle.writeFault.head then (-1, w.drawWrite)
      else (0, w.drawWrite.store k name ((w.redis k name).set row))
  | .hget k name field, w =>
      if w.oracle.readFault.head then ((0, none), w.drawRead)
      else ((1, (w.redis k name).get? field), w.drawRead)
  | .hvals k name, w =>
      if w.oracle.readFault.head then ((0, []), w.drawRead)
      else ((1, (w.redis k name).rows), w.drawRead)
  | .hdel k name fields, w =>
      if w.oracle.writeFault.head then (-1, w.drawWrite)
      else (0, w.drawWrite.store k name ((w.redis k name).erase fields))
  | .rpcNotReply queuename data, w => ((), w.push queuename data)
  | .rpc queuename data, w =>
      (w.oracle.rpcReply.head,
        { w.push queuename data with
          oracle := { w.oracle with rpcReply := w.oracle.rpcReply.tail } })
  | .asyncTask task, w => ((), { w with tasks := w.tasks ++ [task] })
  | .sendEvent client_id event, w => ((), { w with events := w.events ++ [(client_id, event)] })
  | .closeConnection client_id, w => ((), { w with closing := w.closing ++ [client_id] })

/-- The outcome of one `RedisLocker::lock`. -/
def tryLock (_ : String) (w : World) : Bool × World :=
  (w.oracle.lockTaken.head,
    { w with oracle := { w.oracle with lockTaken := w.oracle.lockTaken.tail } })

/-- A stretch of the program outside of, or under, one lock. -/
abbrev Handler := Prog Command Command.Reply

/-- A handler, with its critical sections. -/
abbrev Session := Script Command Command.Reply String

/-! ## The calls, as programs -/

/-- The text up to its first NUL, which is all that the client library is given. -/
def ACLRedis.c_str (s : String) : String := String.ofList (s.toList.takeWhile fun c => c ≠ '\x00')

/-- A string without a NUL. -/
def ACLRedis.Plain (s : String) : Prop := '\x00' ∉ s.toList

instance (s : String) : Decidable (ACLRedis.Plain s) :=
  inferInstanceAs (Decidable (¬ '\x00' ∈ s.toList))

theorem ACLRedis.c_str_of_plain {s : String} (h : Plain s) : c_str s = s := by
  have htake : s.toList.takeWhile (fun c => decide (c ≠ '\x00')) = s.toList := by
    rw [List.takeWhile_eq_self_iff]
    intro c hc
    exact decide_eq_true fun heq => h (heq ▸ hc)
  rw [c_str, htake, String.ofList_toList]

theorem ACLRedis.c_str_append {s : String} (h : Plain s) (t : String) :
    c_str (s ++ t) = s ++ c_str t := by
  have htake : ∀ c ∈ s.toList, decide (c ≠ '\x00') = true :=
    fun c hc => decide_eq_true fun heq => h (heq ▸ hc)
  apply String.toList_inj.mp
  rw [c_str, c_str, String.toList_ofList, String.toList_append, String.toList_append,
    String.toList_ofList, List.takeWhile_append_of_pos htake]

theorem ACLRedis.plain_c_str (s : String) : Plain (c_str s) := by
  rw [Plain, c_str, String.toList_ofList]
  intro hmem
  simpa using List.mem_takeWhile_imp hmem

def ACLRedis.hset (k : Kind) (name : String) (row : k.Rec) : Handler ℤ :=
  Prog.issue (Command.hset k name row)

def ACLRedis.hget (k : Kind) (name field : String) : Handler (ℤ × Option k.Rec) :=
  Prog.issue (Command.hget k name (c_str field))

def ACLRedis.hvals (k : Kind) (name : String) : Handler (ℤ × List k.Rec) :=
  Prog.issue (Command.hvals k name)

def ACLRedis.hdel (k : Kind) (name : String) (fields : List String) : Handler ℤ :=
  Prog.issue (Command.hdel k name fields)

def Utils.getStreamID : Handler String := Prog.issue Command.getStreamID

def Utils.getSystemMs : Handler UInt64 := Prog.issue Command.getSystemMs

/-- What memory holds in a field that is not set. -/
def uninitialized : Handler UInt32 := Prog.issue Command.uninitialized

def AMQP.rpcNotReply (queuename : String) (data : Message) : Handler Unit :=
  Prog.issue (Command.rpcNotReply queuename data)

def AMQP.rpc (queuename : String) (data : Message) : Handler Value :=
  Prog.issue (Command.rpc queuename data)

def asyncTask (func : WorkerTask) : Handler Unit := Prog.issue (Command.asyncTask func)

def SocketIO.sendEvent (client_id : String) (event : Value) : Handler Unit :=
  Prog.issue (Command.sendEvent client_id event)

def SocketIO.closeConnection (client_id : String) : Handler Unit :=
  Prog.issue (Command.closeConnection client_id)

/-! ## Running alone -/

/-- A handler run alone. -/
def exec {α : Type} (p : Handler α) (w : World) : α × World := p.run perform w

def execSession {α : Type} (p : Session α) (w : World) : α × World := p.run perform tryLock w

section Exec

variable {α β : Type} (w : World)

@[simp] theorem exec_pure (a : α) : exec (pure a) w = (a, w) := rfl

@[simp] theorem exec_bind (p : Handler α) (f : α → Handler β) :
    exec (p >>= f) w = exec (f (exec p w).1) (exec p w).2 := Prog.run_bind _ _ _ _

@[simp] theorem exec_map (p : Handler α) (f : α → β) :
    exec (f <$> p) w = (f (exec p w).1, (exec p w).2) := Prog.run_map _ _ _ _

theorem exec_issue (c : Command) : exec (Prog.issue c) w = perform c w := rfl

@[simp] theorem exec_getStreamID :
    exec Utils.getStreamID w = (w.oracle.streamId.head, w.drawStreamId) := rfl

@[simp] theorem exec_rpcNotReply (queuename : String) (data : Message) :
    exec (AMQP.rpcNotReply queuename data) w = ((), w.effect w.redis [(queuename, data)]) := rfl

@[simp] theorem execSession_pure (a : α) : execSession (pure a) w = (a, w) := rfl

@[simp] theorem execSession_bind (p : Session α) (f : α → Session β) :
    execSession (p >>= f) w = execSession (f (execSession p w).1) (execSession p w).2 :=
  Script.run_bind _ _ _ _ _

@[simp] theorem execSession_lift (p : Handler α) :
    execSession (monadLift p : Session α) w = exec p w := Script.run_lift _ _ _ _

theorem execSession_withLock (room_id : String) (body : Handler α) :
    execSession (Script.withLock room_id body) w =
      if (tryLock room_id w).1 then
        (some (exec body (tryLock room_id w).2).1, (exec body (tryLock room_id w).2).2)
      else (none, (tryLock room_id w).2) := rfl

end Exec
