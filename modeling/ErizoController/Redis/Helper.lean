import ErizoController.Model.World

/-!
# RedisHelper

The operations on the records of the store. All of them have one of four forms, one for
each Redis command: a row filed, the rows under some ids removed, one row read and all
rows read. The operations keep their names and are these forms at their own hash.

A return value of 1 is an error. `getAll` can only return 1 for a reply of -1, which
`hvals` never gives: on failure it returns no rows.
-/

namespace RedisHelper

open Prog ACLRedis

def add (k : Kind) (name : String) (row : k.Rec) : Handler ℤ := do
  if (← hset k name row) = -1 then return 1
  return 0

def remove (k : Kind) (name : String) (ids : List String) : Handler ℤ := do
  if (← hdel k name ids) = -1 then return 1
  return 0

/-- The row read, `none` when the call returns 1: the reply is -1, or it is empty and
`fromJSON` fails on it. -/
def get (k : Kind) (name id : String) : Handler (Option k.Rec) := do
  let (rc, row) ← hget k name id
  if rc = -1 then return none
  return row

/-- The rows that `fromJSON` accepts, `none` when the call returns 1. -/
def getAll (k : Kind) (accepted : k.Rec → Bool) (name : String) :
    Handler (Option (List k.Rec)) := do
  let (rc, rows) ← hvals k name
  if rc = -1 then return none
  return some (rows.filter accepted)

def addClient (room_id : String) (client : Client) : Handler ℤ :=
  add .client room_id client.stored

def removeClient (room_id client_id : String) : Handler ℤ :=
  remove .client room_id [client_id]

def getAllClient (room_id : String) : Handler (Option (List Client)) :=
  getAll .client (fun _ => true) room_id

def addPublisher (room_id : String) (publisher : Publisher) : Handler ℤ :=
  add .publisher room_id publisher

def getPublisher (room_id publisher_id : String) : Handler (Option Publisher) :=
  get .publisher room_id publisher_id

def removePublishers (room_id : String) (publisher_ids : List String) : Handler ℤ :=
  remove .publisher room_id publisher_ids

def getAllPublisher (room_id : String) : Handler (Option (List Publisher)) :=
  getAll .publisher (fun _ => true) room_id

def addSubscriber (room_id : String) (subscriber : Subscriber) : Handler ℤ :=
  add .subscriber room_id subscriber

def removeSubscribers (room_id : String) (subscriber_ids : List String) : Handler ℤ :=
  remove .subscriber room_id subscriber_ids

def getAllSubscriber (room_id : String) : Handler (Option (List Subscriber)) :=
  getAll .subscriber (fun _ => true) room_id

def getAllErizoAgent (area : String) : Handler (Option (List ErizoAgent)) :=
  getAll .erizo_agent (fun a => readsAsUint a.last_update) area

def addBridgeStream (room_id : String) (bridge_stream : BridgeStream) : Handler ℤ :=
  add .bridge_stream room_id bridge_stream

def getAllBridgeStream (room_id : String) : Handler (Option (List BridgeStream)) :=
  getAll .bridge_stream (fun _ => true) room_id

def removeBridgeStream (room_id bridge_stream_id : String) : Handler ℤ :=
  remove .bridge_stream room_id [bridge_stream_id]

def addClientToEC (erizo_controller_id : String) (client : Client) : Handler ℤ :=
  add .ec erizo_controller_id client.stored

def removeClientFromEC (erizo_controller_id client_id : String) : Handler ℤ :=
  remove .ec erizo_controller_id [client_id]

def getAllClientFromEC (erizo_controller_id : String) : Handler (Option (List Client)) :=
  getAll .ec (fun _ => true) erizo_controller_id

/-- The name of the single hash of heartbeats. -/
def erizo_controller_heartbeat : String := ""

def addHeartbeatData (heartbeat_data : HEARTBEAT) : Handler ℤ :=
  add .heartbeat erizo_controller_heartbeat heartbeat_data

def removeHeartbeatData (id : String) : Handler ℤ :=
  remove .heartbeat erizo_controller_heartbeat [id]

def getAllHeartbeatData : Handler (Option (List HEARTBEAT)) :=
  getAll .heartbeat (fun h => readsAsUint h.last_update) erizo_controller_heartbeat

/-! ## What the four forms do -/

section Exec

variable (w : World) (k : Kind) (name : String)

theorem exec_add (row : k.Rec) :
    exec (add k name row) w =
      if w.oracle.writeFault.head then (1, w.drawWrite)
      else (0, w.drawWrite.store k name ((w.redis k name).set row)) := by
  rw [add, exec_bind, hset, exec_issue, perform]
  split <;> rfl

theorem exec_remove (ids : List String) :
    exec (remove k name ids) w =
      if w.oracle.writeFault.head then (1, w.drawWrite)
      else (0, w.drawWrite.store k name ((w.redis k name).erase ids)) := by
  rw [remove, exec_bind, hdel, exec_issue, perform]
  split <;> rfl

theorem exec_get (id : String) :
    exec (get k name id) w =
      (if w.oracle.readFault.head then none else (w.redis k name).get? (c_str id),
        w.drawRead) := by
  rw [get, exec_bind, hget, exec_issue, perform]
  cases w.oracle.readFault.head <;> rfl

theorem exec_getAll (accepted : k.Rec → Bool) :
    exec (getAll k accepted name) w =
      (some (if w.oracle.readFault.head then [] else (w.redis k name).rows.filter accepted),
        w.drawRead) := by
  rw [getAll, exec_bind, hvals, exec_issue, perform]
  cases w.oracle.readFault.head <;> rfl

variable {w}

theorem exec_add_fault {k : Kind} {name : String} (h : w.oracle.writeFault.head = true)
    (row : k.Rec) : exec (add k name row) w = (1, w.drawWrite) := by
  rw [exec_add, if_pos h]

theorem exec_add_write {k : Kind} {name : String} (h : w.oracle.writeFault.head = false)
    (row : k.Rec) :
    exec (add k name row) w =
      (0, w.drawWrite.effect (w.redis.update k name ((w.redis k name).set row)) []) := by
  rw [exec_add, h, if_neg Bool.false_ne_true, World.store_eq_effect]
  rfl

theorem exec_add_ok {k : Kind} {name : String} (h : w.WritesSucceed) (row : k.Rec) :
    exec (add k name row) w =
      (0, w.effect (w.redis.update k name ((w.redis k name).set row)) []) := by
  rw [exec_add_write h.head, h.drawWrite]

theorem exec_remove_ok {k : Kind} {name : String} (h : w.WritesSucceed) (ids : List String) :
    exec (remove k name ids) w =
      (0, w.effect (w.redis.update k name ((w.redis k name).erase ids)) []) := by
  rw [exec_remove, h.head, h.drawWrite, if_neg Bool.false_ne_true, World.store_eq_effect]

theorem exec_getAll_ok {k : Kind} {name : String} (h : w.ReadsSucceed)
    (accepted : k.Rec → Bool) :
    exec (getAll k accepted name) w = (some ((w.redis k name).rows.filter accepted), w) := by
  rw [exec_getAll, h.head, h.drawRead, if_neg Bool.false_ne_true]

end Exec

/-! ## The commands they issue -/

section Each

variable {P : Command → Prop} {k : Kind} {name : String}

theorem each_add {row : k.Rec} (h : P (.hset k name row)) : (add k name row).Each P := by
  refine Each.bind ((each_issue _).mpr h) fun rc => ?_
  split <;> trivial

theorem each_remove {ids : List String} (h : P (.hdel k name ids)) :
    (remove k name ids).Each P := by
  refine Each.bind ((each_issue _).mpr h) fun rc => ?_
  split <;> trivial

theorem each_get {id : String} (h : P (.hget k name (c_str id))) : (get k name id).Each P := by
  refine Each.bind ((each_issue _).mpr h) fun rc => ?_
  dsimp only
  split <;> trivial

theorem each_getAll {accepted : k.Rec → Bool} (h : P (.hvals k name)) :
    (getAll k accepted name).Each P := by
  refine Each.bind ((each_issue _).mpr h) fun rc => ?_
  dsimp only
  split <;> trivial

end Each

end RedisHelper
