import Mathlib.Data.List.Sort
import ErizoController.Redis.Helper

/-!
# The handlers of ErizoController

The functions of `erizo_controller.cpp` as programs, with the critical sections of the
room locks. A `RedisLocker` that goes out of scope releases its lock, so a section is the
part of a function after its `lock`, up to whichever return is taken.

A handler changes the `Client` of its connection, so it returns the client with its
reply. `onSignalingMessage` returns false where jsoncpp throws.
-/

open Json

/-- A sort of agents by load: what `std::sort` promises, which leaves the order of equal
loads open. -/
structure LoadSort where
  sort : List ErizoAgent → List ErizoAgent
  perm : ∀ agents, (sort agents).Perm agents
  sorted : ∀ agents, (sort agents).Pairwise fun a b => a.erizo_process_num ≤ b.erizo_process_num

/-- The stable sort by load. -/
def LoadSort.stable : LoadSort where
  sort := List.insertionSort fun a b => a.erizo_process_num.toInt ≤ b.erizo_process_num.toInt
  perm := List.perm_insertionSort _
  sorted agents := by
    have : Std.Total fun a b : ErizoAgent => a.erizo_process_num.toInt ≤
      b.erizo_process_num.toInt :=
      ⟨fun _ _ => Int.le_total _ _⟩
    have : IsTrans ErizoAgent fun a b => a.erizo_process_num.toInt ≤ b.erizo_process_num.toInt :=
      ⟨fun _ _ _ => Int.le_trans⟩
    exact (List.pairwise_insertionSort _ agents).imp Int32.le_iff_toInt_le.mpr

/-- A controller: its id and the configuration its handlers read, with the defaults of
`Config`. -/
structure ErizoController where
  id_ : String
  server_mapping : List (ℤ × String) := []
  erizo_agent_timeout : Int32 := 10000
  erizo_controller_update_interval : Int32 := 1000
  erizo_controller_timeout : Int32 := 3000
  sort : LoadSort
  /-- The text jsoncpp makes of a real number. -/
  realText : ℚ → String

/-- A controller with the default configuration. -/
def ErizoController.ofId (id_ : String) : ErizoController where
  id_ := id_
  sort := .stable
  realText _ := ""

/-- The cast of an `int` to `uint64_t`. -/
def toUInt64 (n : Int32) : UInt64 := n.toInt64.toUInt64

namespace ErizoController

variable (self : ErizoController)

/-- `amqp_signaling_->getReplyTo()`: the queue is bound under the id of the controller. -/
def getReplyTo : String := self.id_

/-! ## Messages to erizos and controllers -/

def removePublisher (publisher : Publisher) : Handler Unit :=
  AMQP.rpcNotReply publisher.erizo_id (.removePublisher publisher.client_id publisher.id)

def removeSubscriber (subscriber : Subscriber) : Handler Unit :=
  AMQP.rpcNotReply subscriber.erizo_id
    (.removeSubscriber subscriber.client_id subscriber.subscribe_to)

def addPublisher (client : Client) (publisher : Publisher) : Handler Unit :=
  AMQP.rpcNotReply publisher.erizo_id
    (.addPublisher client.room_id publisher.client_id publisher.id publisher.label
      self.getReplyTo (isp2String client.ip_info.isp))

def addVirtualPublisher (publisher : Publisher) (bridge_stream : BridgeStream) : Handler Unit :=
  AMQP.rpcNotReply bridge_stream.recver_erizo_id
    (.addVirtualPublisher bridge_stream.id bridge_stream.src_stream_id bridge_stream.sender_ip
      bridge_stream.sender_port publisher.video_ssrc publisher.audio_ssrc)

def addSubscriber (client : Client) (publisher : Publisher) (subscriber : Subscriber) :
    Handler Unit :=
  AMQP.rpcNotReply subscriber.erizo_id
    (.addSubscriber subscriber.client_id subscriber.subscribe_to publisher.label
      self.getReplyTo (isp2String client.ip_info.isp))

def addVirtualSubscriber (bridge_stream : BridgeStream) : Handler Unit :=
  AMQP.rpcNotReply bridge_stream.sender_erizo_id
    (.addVirtualSubscriber bridge_stream.id bridge_stream.src_stream_id bridge_stream.recver_ip
      bridge_stream.recver_port)

def processSignaling (erizo_id client_id stream_id : String) (msg : Value) : Handler Unit :=
  AMQP.rpcNotReply erizo_id (.processSignaling client_id stream_id msg)

def notifyToRemoveSubscriber (subscriber : Subscriber) : Handler Unit :=
  AMQP.rpcNotReply subscriber.reply_to
    (.remove_subscriber subscriber.subscribe_to subscriber.client_id)

def removeVirtualPublisher (bridge_stream : BridgeStream) : Handler Unit :=
  AMQP.rpcNotReply bridge_stream.recver_erizo_id
    (.removeVirtualPublisher bridge_stream.src_stream_id)

def removeVirtualSubscriber (bridge_stream : BridgeStream) : Handler Unit :=
  AMQP.rpcNotReply bridge_stream.sender_erizo_id
    (.removeVirtualSubscriber bridge_stream.id bridge_stream.src_stream_id)

/-! ## Leaving a room -/

def removeBridgeStreamSub (room_id subscribe_to erizo_id : String) : Handler ℤ := do
  let some bridge_streams ← RedisHelper.getAllBridgeStream room_id | return 1
  match bridge_streams.find? fun s =>
      s.src_stream_id == subscribe_to && s.recver_erizo_id == erizo_id with
  | none => return 0
  | some it =>
      let bridge_stream := { it with subscribe_count := it.subscribe_count - 1 }
      if bridge_stream.subscribe_count ≤ 0 then
        removeVirtualSubscriber bridge_stream
        removeVirtualPublisher bridge_stream
        RedisHelper.removeBridgeStream room_id bridge_stream.id
      else
        RedisHelper.addBridgeStream room_id bridge_stream

def removeBridgeStreamPub (room_id stream_id erizo_id : String) : Handler ℤ := do
  let some bridge_streams ← RedisHelper.getAllBridgeStream room_id | return 1
  match bridge_streams.find? fun s =>
      s.src_stream_id == stream_id && s.sender_erizo_id == erizo_id with
  | none => return 0
  | some bridge_stream =>
      removeVirtualSubscriber bridge_stream
      removeVirtualPublisher bridge_stream
      RedisHelper.removeBridgeStream room_id bridge_stream.id

/-- One subscriber to remove: the id for `subscribers_to_del`, `none` where `removeClient`
returns because the bridge was not updated. -/
def dropSubscriber (room_id : String) (subscriber : Subscriber) :
    Handler (Option (List String)) := do
  if subscriber.is_bridge then
    if (← removeBridgeStreamSub room_id subscriber.subscribe_to subscriber.erizo_id) ≠ 0 then
      return none
  removeSubscriber subscriber
  notifyToRemoveSubscriber subscriber
  return some [subscriber.id]

/-- One publisher to remove, as for a subscriber. -/
def dropPublisher (room_id : String) (publisher : Publisher) :
    Handler (Option (List String)) := do
  if (← removeBridgeStreamPub room_id publisher.id publisher.erizo_id) ≠ 0 then return none
  removePublisher publisher
  return some [publisher.id]

/-- The body of the loop over the subscribers: once for each publisher of the client that
it is subscribed to, and once more if it is the client's own. -/
def visitSubscriber (client : Client) (publishers : List Publisher) (subscriber : Subscriber) :
    Handler (Option (List String)) := do
  let some viewed ← Prog.collect (fun publisher =>
      if publisher.client_id = client.id ∧ subscriber.subscribe_to = publisher.id then
        dropSubscriber client.room_id subscriber
      else pure (some [])) publishers | return none
  let some own ←
      if subscriber.client_id = client.id then dropSubscriber client.room_id subscriber
      else pure (some []) | return none
  return some (viewed ++ own)

/-- The body of the loop over the publishers. -/
def visitPublisher (client : Client) (publisher : Publisher) : Handler (Option (List String)) :=
  if publisher.client_id = client.id then dropPublisher client.room_id publisher
  else pure (some [])

/-- A removal of listed ids, left out when there are none. -/
def unlessEmpty (ids : List String) (remove : Handler ℤ) : Handler Unit :=
  if ids = [] then return () else do
    let _ ← remove
    return ()

/-- The writes of `removeClient` after its loops; their results are not looked at. -/
def removeRecords (client : Client) (subscribers_to_del publishers_to_del : List String) :
    Handler Bool := do
  unlessEmpty subscribers_to_del
    (RedisHelper.removeSubscribers client.room_id subscribers_to_del)
  unlessEmpty publishers_to_del (RedisHelper.removePublishers client.room_id publishers_to_del)
  let _ ← RedisHelper.removeClient client.room_id client.id
  let _ ← RedisHelper.removeClientFromEC client.reply_to client.id
  return true

/-- `removeClient` under the lock; true when it comes to its end. -/
def removeClientLocked (client : Client) : Handler Bool := do
  let some subscribers ← RedisHelper.getAllSubscriber client.room_id | return false
  let some publishers ← RedisHelper.getAllPublisher client.room_id | return false
  let some subscribers_to_del ← Prog.collect (visitSubscriber client publishers) subscribers
    | return false
  let some publishers_to_del ← Prog.collect (visitPublisher client) publishers | return false
  removeRecords client subscribers_to_del publishers_to_del

/-- `none` where the lock is not obtained. -/
def removeClient (client : Client) : Session (Option Bool) :=
  Script.withLock client.room_id (removeClientLocked client)

def removeClients : List Client → Session Unit
  | [] => return ()
  | client :: clients => do
      let _ ← removeClient client
      removeClients clients

def removeExpireErizoController (erizo_controller_id : String) : Session Unit := do
  let some clients ← RedisHelper.getAllClientFromEC erizo_controller_id | return ()
  removeClients clients

/-! ## Events of a connection -/

def allocAgent (client : Client) : Handler (ℤ × Client) := do
  match self.server_mapping.find? fun it => it.1 = client.ip_info.area with
  | none => return (1, client)
  | some (_, area_name) =>
      let some agents ← RedisHelper.getAllErizoAgent area_name | return (1, client)
      let now ← Utils.getSystemMs
      let agents_alive := agents.filter fun agent =>
        now - agent.last_update < toUInt64 self.erizo_agent_timeout
      match self.sort.sort agents_alive with
      | [] => return (1, client)
      | agent :: _ => return (0, { client with agent_id := agent.id })

/-- The callback of `getErizo`: `ret` and the client it writes to. Where `asInt` throws, the
process ends and no request goes on, so it does not matter what is returned then. -/
def onErizo (client : Client) (root : Value) : ℤ × Client :=
  match root.string? "erizoID", root.string? "bridgeIP",
    (root.int? "bridgePort").bind Value.asInt with
  | some erizoID, some bridgeIP, some bridgePort =>
      (0, { client with
        erizo_id := erizoID
        bridge_ip := bridgeIP
        bridge_port := UInt16.ofInt bridgePort })
  | _, _, _ => (1, client)

/-- `allocErizo` with the tries that are left. -/
def allocErizoTries (client : Client) : ℕ → Handler (ℤ × Client)
  | 0 => return (1, client)
  | try_time + 1 => do
      let root ← AMQP.rpc client.agent_id (.getErizo client.room_id)
      match onErizo client root with
      | (0, client) => return (0, client)
      | (_, _) => allocErizoTries client try_time

def allocErizo (client : Client) : Handler (ℤ × Client) := allocErizoTries client 3

/-- The code assigns the enumerator `Json::stringValue` to `screen`, which makes an empty
string. -/
def streamValue (publisher : Publisher) : Value :=
  .objectValue [("id", .stringValue publisher.id), ("audio", .booleanValue true),
    ("video", .booleanValue true), ("data", .booleanValue true),
    ("label", .stringValue publisher.label), ("screen", .stringValue "")]

def tokenReply (client : Client) (publishers : List Publisher) : Value :=
  let streams :=
    if publishers = [] then [] else [("streams", .arrayValue (publishers.map streamValue))]
  .arrayValue [.stringValue "success", .objectValue (streams ++
    [("id", .stringValue client.room_id), ("clientId", .stringValue client.id),
      ("singlePC", .booleanValue false), ("defaultVideoBW", .intValue 300),
      ("maxVideoBW", .intValue 300), ("iceServers", .arrayValue [.objectValue
        [("url", .stringValue "stun:stun.l.google.com:19302")]])])]

/-- `handleToken` once an erizo is allocated. -/
def registerClient (client : Client) : Handler Value := do
  if (← RedisHelper.addClient client.room_id client) ≠ 0 then return .nullValue
  if (← RedisHelper.addClientToEC self.id_ client) ≠ 0 then return .nullValue
  let some publishers ← RedisHelper.getAllPublisher client.room_id | return .nullValue
  return tokenReply client publishers

def handleToken (client : Client) : Handler (Client × Value) := do
  let client := { client with room_id := "test_room_id", reply_to := self.getReplyTo }
  let (ret, client) ← self.allocAgent client
  if ret ≠ 0 then return (client, .nullValue)
  let (ret, client) ← allocErizo client
  if ret ≠ 0 then return (client, .nullValue)
  return (client, ← self.registerClient client)

/-- `handlePublish` under the lock. -/
def publishLocked (client : Client) (publisher : Publisher) : Handler Value := do
  if (← RedisHelper.addPublisher client.room_id publisher) ≠ 0 then return .nullValue
  self.addPublisher client publisher
  return .arrayValue [.stringValue publisher.id, .stringValue publisher.erizo_id]

/-- The publisher of a publish request. Its constructor leaves the SSRCs as they are. -/
def newPublisher (client : Client) (label : String) : Handler Publisher := do
  let video_ssrc ← uninitialized
  let audio_ssrc ← uninitialized
  let id ← Utils.getStreamID
  return {
    id
    erizo_id := client.erizo_id
    bridge_ip := client.bridge_ip
    bridge_port := client.bridge_port
    agent_id := client.agent_id
    client_id := client.id
    label
    video_ssrc
    audio_ssrc }

def handlePublish (client : Client) (root : Value) : Session Value :=
  match root.string? "label" with
  | none => return .nullValue
  | some label => do
      let publisher ← newPublisher client label
      let some reply ← Script.withLock client.room_id (self.publishLocked client publisher)
        | return .nullValue
      return reply

/-- A bridge for the first subscriber of a stream on an erizo. -/
def newBridgeStream (client : Client) (publisher : Publisher) (stream_id id : String) :
    BridgeStream where
  id := id
  sender_erizo_id := publisher.erizo_id
  sender_ip := publisher.bridge_ip
  sender_port := publisher.bridge_port
  recver_erizo_id := client.erizo_id
  recver_ip := client.bridge_ip
  recver_port := client.bridge_port
  src_stream_id := stream_id
  subscribe_count := 1

/-- The part of `handleSubscribe` for a bridged subscriber; 1 where it returns null. -/
def setUpBridge (client : Client) (publisher : Publisher) (subscriber : Subscriber) :
    Handler ℤ := do
  let some bridge_streams ← RedisHelper.getAllBridgeStream client.room_id | return 1
  match bridge_streams.find? fun bridge_stream =>
      bridge_stream.src_stream_id == subscriber.subscribe_to &&
        bridge_stream.recver_erizo_id == subscriber.erizo_id with
  | none =>
      let id ← Utils.getStreamID
      let bridge_stream := newBridgeStream client publisher subscriber.subscribe_to id
      let some publisher ← RedisHelper.getPublisher client.room_id bridge_stream.src_stream_id
        | return 1
      if (← RedisHelper.addBridgeStream client.room_id bridge_stream) ≠ 0 then return 1
      addVirtualPublisher publisher bridge_stream
      addVirtualSubscriber bridge_stream
      return 0
  | some it =>
      let bridge_stream := { it with subscribe_count := it.subscribe_count + 1 }
      RedisHelper.addBridgeStream client.room_id bridge_stream

def newSubscriber (client : Client) (publisher : Publisher) (stream_id id : String) :
    Subscriber where
  id := id
  client_id := client.id
  erizo_id := client.erizo_id
  agent_id := client.agent_id
  subscribe_to := stream_id
  reply_to := self.getReplyTo
  is_bridge := client.agent_id ≠ publisher.agent_id

/-- One try of `handleSubscribe` under the lock, `none` where it goes on with `again`. -/
def subscribeLocked (client : Client) (stream_id : String) : Handler (Option Value) := do
  let some publisher ← RedisHelper.getPublisher client.room_id stream_id
    | return some .nullValue
  if publisher.video_ssrc = 0 ∨ publisher.audio_ssrc = 0 then return none
  let id ← Utils.getStreamID
  let subscriber := self.newSubscriber client publisher stream_id id
  if (← RedisHelper.addSubscriber client.room_id subscriber) ≠ 0 then return some .nullValue
  if subscriber.is_bridge then
    if (← setUpBridge client publisher subscriber) ≠ 0 then return some .nullValue
  self.addSubscriber client publisher subscriber
  return some (.arrayValue [.booleanValue true, .stringValue subscriber.erizo_id])

/-- One try of `handleSubscribe`; `again` is what is left to do when the SSRCs are not
known yet. -/
def subscribeTry (client : Client) (stream_id : String) (again : Session Value) :
    Session Value := do
  match ← Script.withLock client.room_id (self.subscribeLocked client stream_id) with
  | none => return .nullValue
  | some none => again
  | some (some reply) => return reply

/-- `handleSubscribe` with the value of `try_time`. -/
def subscribeTries (client : Client) (stream_id : String) : ℕ → Session Value
  | 0 => self.subscribeTry client stream_id (return .nullValue)
  | try_time + 1 => self.subscribeTry client stream_id (subscribeTries client stream_id try_time)

def handleSubscribe (client : Client) (root : Value) : Session Value :=
  match root.string? "streamId" with
  | none => return .nullValue
  | some stream_id => self.subscribeTries client stream_id 10

def handleSignaling (client : Client) (root : Value) : Handler Unit :=
  match root.string? "streamId", root.object? "msg" with
  | some stream_id, some msg => processSignaling client.erizo_id client.id stream_id msg
  | _, _ => return ()

/-- What a connection is answered: `disconnect`, `keep` or a reply to write. -/
inductive Answer where
  | disconnect
  | keep
  | write (reply : Value)

def Answer.ofReply : Value → Answer
  | .nullValue => disconnect
  | reply => write reply

/-- `onMessage` on the parsed message, `none` where it does not parse. -/
def onMessage (client : Client) (root : Option Value) : Session (Client × Answer) :=
  match root with
  | some (.arrayValue (.stringValue event :: .objectValue members :: _)) => do
      let data := Value.objectValue members
      if event = "token" then
        let (client, reply) ← self.handleToken client
        return (client, .ofReply reply)
      else if event = "publish" then
        return (client, .ofReply (← self.handlePublish client data))
      else if event = "subscribe" then
        let reply ← self.handleSubscribe client data
        return (client, if reply.isNull then .keep else .write reply)
      else if event = "signaling_message" then
        handleSignaling client data
        return (client, .keep)
      else return (client, .disconnect)
  | _ => return (client, .disconnect)

def onClose (client : Client) : Session (Option Bool) := removeClient client

/-! ## Signaling messages from the erizos -/

def signalingEvent (name : String) (data : List (String × Value)) : Value :=
  .arrayValue [.stringValue name, .objectValue data]

/-- `publisher_answer` under the lock; false where it returns without an event. -/
def publisherAnswerLocked (room_id stream_id : String) (video_ssrc audio_ssrc : UInt32) :
    Handler Bool := do
  let some publisher ← RedisHelper.getPublisher room_id stream_id | return false
  let rc ← RedisHelper.addPublisher room_id { publisher with video_ssrc, audio_ssrc }
  return rc = 0

def publisherAnswer (client_id : String) (data : Value) : Session Bool :=
  match data.string? "streamId", data.string? "sdp", data.string? "roomId",
      data.member? "videoSSRC", data.member? "audioSSRC" with
  | some stream_id, some sdp, some room_id, some videoSSRC, some audioSSRC =>
      match videoSSRC.asUInt, audioSSRC.asUInt with
      | some video_ssrc, some audio_ssrc => do
          let stored ← Script.withLock room_id
            (publisherAnswerLocked room_id stream_id video_ssrc audio_ssrc)
          if stored = some true then
            SocketIO.sendEvent client_id (signalingEvent "signaling_message_erizo"
              [("streamId", .stringValue stream_id), ("mess", .objectValue
                [("type", .stringValue "answer"), ("sdp", .stringValue sdp)])])
          return true
      | _, _ => return false
  | _, _, _, _, _ => return true

def ready (client_id : String) (data : Value) : Session Bool :=
  match data.string? "streamId" with
  | none => return true
  | some stream_id =>
      match data.member? "roomId" with
      | none => return true
      | some roomId =>
          match roomId.asString self.realText with
          | none => return false
          | some room_id => do
              let _ ← Script.withLock room_id
                (asyncTask (.notifyToSubscribe room_id client_id stream_id))
              return true

def started (client_id : String) (data : Value) : Handler Unit :=
  match data.string? "agentId", data.string? "erizoId", data.string? "streamId" with
  | some agent_id, some erizo_id, some stream_id => do
      SocketIO.sendEvent client_id (signalingEvent "signaling_message_erizo"
        [("streamId", .stringValue stream_id), ("mess", .objectValue
          [("agentId", .stringValue agent_id), ("erizoId", .stringValue erizo_id),
            ("type", .stringValue "initializing")])])
      SocketIO.sendEvent client_id (signalingEvent "signaling_message_erizo"
        [("streamId", .stringValue stream_id),
          ("mess", .objectValue [("type", .stringValue "started")])])
  | _, _, _ => return ()

def subscriberAnswer (client_id : String) (data : Value) : Handler Unit :=
  match data.string? "streamId", data.string? "sdp", data.string? "erizoId" with
  | some stream_id, some sdp, some erizo_id =>
      SocketIO.sendEvent client_id (signalingEvent "signaling_message_erizo"
        [("peerId", .stringValue stream_id), ("mess", .objectValue
          [("type", .stringValue "answer"), ("sdp", .stringValue sdp),
            ("erizoId", .stringValue erizo_id)])])
  | _, _, _ => return ()

def newPublisherEvent (client_id : String) (data : Value) : Handler Unit :=
  match data.string? "label", data.string? "streamId" with
  | some label, some stream_id =>
      SocketIO.sendEvent client_id (signalingEvent "onAddStream"
        [("id", .stringValue stream_id), ("audio", .booleanValue true),
          ("video", .booleanValue true), ("data", .booleanValue true),
          ("label", .stringValue label), ("screen", .stringValue "")])
  | _, _ => return ()

def removeSubscriberEvent (client_id : String) (data : Value) : Handler Unit :=
  match data.string? "streamId" with
  | some stream_id =>
      SocketIO.sendEvent client_id
        (signalingEvent "onRemoveStream" [("id", .stringValue stream_id)])
  | none => return ()

/-- The task of a signaling message, on the parsed message. -/
def onSignalingMessage (root : Value) : Session Bool := do
  if ¬ (root.isNull ∨ root.isObject) then return false
  match root.object? "data" with
  | none => return true
  | some data =>
      match data.string? "type", data.string? "clientId" with
      | some type, some client_id =>
          if type = "started" then
            started client_id data
            return true
          else if type = "publisher_answer" then publisherAnswer client_id data
          else if type = "subscriber_answer" then
            subscriberAnswer client_id data
            return true
          else if type = "ready" then self.ready client_id data
          else if type = "new_publisher" then
            newPublisherEvent client_id data
            return true
          else if type = "remove_subscriber" then
            removeSubscriberEvent client_id data
            return true
          else if type = "notifyErizoProcessQuit" then
            SocketIO.closeConnection client_id
            return true
          else return true
      | _, _ => return true

def notifyClients (client_id stream_id label : String) : List Client → Handler Unit
  | [] => return ()
  | client :: clients => do
      if client.id ≠ client_id then
        AMQP.rpcNotReply client.reply_to (.new_publisher stream_id client.id label)
      notifyClients client_id stream_id label clients

/-- The task of `notifyToSubscribe`. -/
def notifyToSubscribe (room_id client_id stream_id : String) : Handler Unit := do
  let some publisher ← RedisHelper.getPublisher room_id stream_id | return ()
  let some clients ← RedisHelper.getAllClient room_id | return ()
  notifyClients client_id stream_id publisher.label clients

end ErizoController
