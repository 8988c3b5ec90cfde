import ErizoController.Core.Removal
import ErizoController.Core.Rooms

/-!
# The critical sections of the handlers

The threads of a controller run the handlers of the connections, the tasks of the
signaling messages and the tasks given to the workers. Outside of their critical sections
they leave the guarded hashes of all rooms alone, and every section is one of five.
-/

open Prog Script Room Json

namespace ErizoController

/-! ## The commands of the sections -/

/-- The commands of a section that files rows in the hashes `sets` and removes rows from the
hashes `dels`. It writes no other room and reads the guarded hashes of its room only. -/
def Within (room_id : String) (sets dels : List Kind) : Command → Prop
  | .hset k name _ => k ∈ sets ∧ (k.Guarded → name = room_id)
  | .hdel k name _ => k ∈ dels ∧ (k.Guarded → name = room_id)
  | .hget k name _ => k.Guarded ∧ name = room_id
  | .hvals k name => k.Guarded ∧ name = room_id
  | _ => True

theorem Within.inside {room_id : String} {sets dels : List Kind} {c : Command}
    (h : Within room_id sets dels c) : Inside room_id c := by
  cases c with
  | hset k name row => exact h.2
  | hdel k name fields => exact h.2
  | hget k name field => exact h
  | hvals k name => exact h
  | _ => trivial

theorem Within.mono {room_id : String} {sets sets' dels dels' : List Kind} (hsets : sets ⊆ sets')
    (hdels : dels ⊆ dels') {c : Command} (h : Within room_id sets dels c) :
    Within room_id sets' dels' c := by
  cases c with
  | hset k name row => exact ⟨hsets h.1, h.2⟩
  | hdel k name fields => exact ⟨hdels h.1, h.2⟩
  | hget k name field => exact h
  | hvals k name => exact h
  | _ => trivial

/-- The commands that set up a bridge for a subscriber. -/
def SetsUpBridge (client : Client) : Command → Prop
  | .getStreamID => True
  | .hvals k name => k = .bridge_stream ∧ name = client.room_id
  | .hget k name _ => k = .publisher ∧ name = client.room_id
  | .hset k name _ => k = .bridge_stream ∧ name = client.room_id
  | .rpcNotReply queuename data =>
      (queuename = client.erizo_id ∧ ∃ id src_stream_id sender_ip sender_port video_ssrc audio_ssrc,
        data = .addVirtualPublisher id src_stream_id sender_ip sender_port video_ssrc audio_ssrc) ∨
      ∃ id src_stream_id recver_ip recver_port,
        data = .addVirtualSubscriber id src_stream_id recver_ip recver_port
  | _ => False

section Commands

variable (self : ErizoController) (client : Client)

theorem each_message {P : Command → Prop} (hP : ∀ q m, P (.rpcNotReply q m)) (q : String)
    (m : Message) : (AMQP.rpcNotReply q m).Each P := (each_issue _).mpr (hP q m)

theorem each_removeBridgeStreamSub (room_id st erizo : String) :
    (removeBridgeStreamSub room_id st erizo).Each
    (Within room_id [.bridge_stream] [.bridge_stream]) := by
  refine Each.bind (RedisHelper.each_getAll ⟨trivial, rfl⟩) fun r => ?_
  cases r with
  | none => trivial
  | some bridge_streams =>
      dsimp only
      split
      · trivial
      · split
        · refine Each.bind (each_message (fun _ _ => trivial) _ _) fun _ => ?_
          refine Each.bind (each_message (fun _ _ => trivial) _ _) fun _ => ?_
          exact RedisHelper.each_remove ⟨by simp, fun _ => rfl⟩
        · exact RedisHelper.each_add ⟨by simp, fun _ => rfl⟩

theorem each_removeBridgeStreamPub (room_id st erizo : String) :
    (removeBridgeStreamPub room_id st erizo).Each
    (Within room_id [.bridge_stream] [.bridge_stream]) := by
  refine Each.bind (RedisHelper.each_getAll ⟨trivial, rfl⟩) fun r => ?_
  cases r with
  | none => trivial
  | some bridge_streams =>
      dsimp only
      split
      · trivial
      · refine Each.bind (each_message (fun _ _ => trivial) _ _) fun _ => ?_
        refine Each.bind (each_message (fun _ _ => trivial) _ _) fun _ => ?_
        exact RedisHelper.each_remove ⟨by simp, fun _ => rfl⟩

theorem each_dropSubscriber (room_id : String) (s : Subscriber) :
    (dropSubscriber room_id s).Each (Within room_id [.bridge_stream] [.bridge_stream]) := by
  have hrest : (do
      removeSubscriber s
      notifyToRemoveSubscriber s
      return some [s.id] : Handler (Option (List String))).Each
        (Within room_id [.bridge_stream] [.bridge_stream]) := by
    refine Each.bind (each_message (fun _ _ => trivial) _ _) fun _ => ?_
    exact Each.bind (each_message (fun _ _ => trivial) _ _) fun _ => trivial
  rw [dropSubscriber]
  split
  · refine Each.bind (each_removeBridgeStreamSub _ _ _) fun rc => ?_
    split
    · trivial
    · exact hrest
  · exact hrest

theorem each_dropPublisher (room_id : String) (p : Publisher) :
    (dropPublisher room_id p).Each (Within room_id [.bridge_stream] [.bridge_stream]) := by
  refine Each.bind (each_removeBridgeStreamPub _ _ _) fun rc => ?_
  split
  · trivial
  · exact Each.bind (each_message (fun _ _ => trivial) _ _) fun _ => trivial

theorem each_unlessEmpty {P : Command → Prop} {ids : List String} {remove : Handler ℤ}
    (h : remove.Each P) : (unlessEmpty ids remove).Each P := by
  rw [unlessEmpty]
  split
  · trivial
  · exact h.bind fun _ => trivial

theorem each_removeClientLocked : (removeClientLocked client).Each
    (Within client.room_id [.bridge_stream] [.bridge_stream, .subscriber, .publisher, .client,
    .ec]) := by
  refine Each.bind (RedisHelper.each_getAll ⟨trivial, rfl⟩) fun r => ?_
  cases r with
  | none => trivial
  | some subscribers =>
  refine Each.bind (RedisHelper.each_getAll ⟨trivial, rfl⟩) fun r => ?_
  cases r with
  | none => trivial
  | some publishers =>
  dsimp only
  rw [collect_visitSubscriber, collect_visitPublisher]
  refine Each.bind (Each.collect fun s _ => (each_dropSubscriber _ s).mono fun _ =>
    Within.mono (by simp) (by simp)) fun r => ?_
  cases r with
  | none => trivial
  | some subscribers_to_del =>
  refine Each.bind (Each.collect fun p _ => (each_dropPublisher _ p).mono fun _ =>
    Within.mono (by simp) (by simp)) fun r => ?_
  cases r with
  | none => trivial
  | some publishers_to_del =>
  refine Each.bind (each_unlessEmpty (RedisHelper.each_remove ⟨by simp, fun _ => rfl⟩)) fun _ => ?_
  refine Each.bind (each_unlessEmpty (RedisHelper.each_remove ⟨by simp, fun _ => rfl⟩)) fun _ => ?_
  refine Each.bind (RedisHelper.each_remove ⟨by simp, fun h => absurd h id⟩) fun _ => ?_
  exact Each.bind (RedisHelper.each_remove ⟨by simp, fun h => absurd h id⟩) fun _ => trivial

theorem each_publishLocked_of {P : Command → Prop} {publisher : Publisher}
    (hset : P (.hset .publisher client.room_id publisher))
    (hmessage : ∀ data, P (.rpcNotReply publisher.erizo_id data)) :
    (self.publishLocked client publisher).Each P := by
  refine Each.bind (RedisHelper.each_add hset) fun rc => ?_
  split
  · trivial
  · exact Each.bind ((each_issue _).mpr (hmessage _)) fun _ => trivial

theorem each_publishLocked (publisher : Publisher) :
    (self.publishLocked client publisher).Each (Within client.room_id [.publisher] []) :=
  each_publishLocked_of self client ⟨by simp, fun _ => rfl⟩ fun _ => trivial

theorem each_setUpBridge_exact (p : Publisher) (s : Subscriber) :
    (setUpBridge client p s).Each (SetsUpBridge client) := by
  refine Each.bind (RedisHelper.each_getAll ⟨rfl, rfl⟩) fun r => ?_
  cases r with
  | none => trivial
  | some bridge_streams =>
  dsimp only
  split
  · refine Each.bind ((each_issue _).mpr trivial) fun id => ?_
    refine Each.bind (RedisHelper.each_get ⟨rfl, rfl⟩) fun r => ?_
    cases r with
    | none => trivial
    | some publisher =>
    refine Each.bind (RedisHelper.each_add ⟨rfl, rfl⟩) fun rc => ?_
    split
    · trivial
    · refine Each.bind ((each_issue _).mpr (.inl ⟨rfl, _, _, _, _, _, _, rfl⟩)) fun _ => ?_
      exact Each.bind ((each_issue _).mpr (.inr ⟨_, _, _, _, rfl⟩)) fun _ => trivial
  · exact RedisHelper.each_add ⟨rfl, rfl⟩

theorem SetsUpBridge.within {client : Client} {c : Command} (h : SetsUpBridge client c) :
    Within client.room_id [.bridge_stream] [] c := by
  cases c with
  | hset k name row =>
      obtain ⟨rfl, rfl⟩ := h
      exact ⟨List.mem_singleton_self _, fun _ => rfl⟩
  | hdel k name fields => exact h.elim
  | hget k name field =>
      obtain ⟨rfl, rfl⟩ := h
      exact ⟨trivial, rfl⟩
  | hvals k name =>
      obtain ⟨rfl, rfl⟩ := h
      exact ⟨trivial, rfl⟩
  | _ => trivial

theorem each_setUpBridge (p : Publisher) (s : Subscriber) :
    (setUpBridge client p s).Each (Within client.room_id [.bridge_stream] []) :=
  (each_setUpBridge_exact client p s).mono fun _ h => h.within

theorem each_subscribeLocked_of {P : Command → Prop} {stream_id : String}
    (hget : P (.hget .publisher client.room_id (ACLRedis.c_str stream_id)))
    (hid : P .getStreamID)
    (hset : ∀ publisher id, P (.hset .subscriber client.room_id
      (self.newSubscriber client publisher stream_id id)))
    (hbridge : ∀ publisher subscriber, (setUpBridge client publisher subscriber).Each P)
    (hmessage : ∀ data, P (.rpcNotReply client.erizo_id data)) :
    (self.subscribeLocked client stream_id).Each P := by
  refine Each.bind (RedisHelper.each_get hget) fun r => ?_
  cases r with
  | none => trivial
  | some publisher =>
  dsimp only
  split
  · trivial
  · refine Each.bind ((each_issue _).mpr hid) fun id => ?_
    refine Each.bind (RedisHelper.each_add (hset publisher id)) fun rc => ?_
    have hrest : (do
        self.addSubscriber client publisher (self.newSubscriber client publisher stream_id id)
        return some (.arrayValue [.booleanValue true, .stringValue
          (self.newSubscriber client publisher stream_id id).erizo_id]) :
          Handler (Option Value)).Each P :=
      Each.bind ((each_issue _).mpr (hmessage _)) fun _ => trivial
    split
    · trivial
    · split
      · refine Each.bind (hbridge _ _) fun rc => ?_
        split
        · trivial
        · exact hrest
      · exact hrest

theorem each_subscribeLocked (stream_id : String) :
    (self.subscribeLocked client stream_id).Each
    (Within client.room_id [.subscriber, .bridge_stream] []) :=
  each_subscribeLocked_of self client ⟨trivial, rfl⟩ trivial (fun _ _ => ⟨by simp, fun _ => rfl⟩)
    (fun _ _ => (each_setUpBridge client _ _).mono fun _ => Within.mono (by simp) (by simp))
    fun _ => trivial

theorem each_publisherAnswerLocked (room_id stream_id : String) (video_ssrc audio_ssrc : UInt32) :
    (publisherAnswerLocked room_id stream_id video_ssrc audio_ssrc).Each
    (Within room_id [.publisher] []) := by
  refine Each.bind (RedisHelper.each_get ⟨trivial, rfl⟩) fun r => ?_
  cases r with
  | none => trivial
  | some publisher => exact Each.bind (RedisHelper.each_add ⟨by simp, fun _ => rfl⟩) fun rc =>
        trivial

end Commands

/-- The critical sections of the program. -/
inductive IsSection : {β : Type} → String → Handler β → Prop
  | removeClient (client : Client) : IsSection client.room_id (removeClientLocked client)
  | publish (self : ErizoController) (client : Client) (publisher : Publisher) :
      IsSection client.room_id (self.publishLocked client publisher)
  | subscribe (self : ErizoController) (client : Client) (stream_id : String) :
      IsSection client.room_id (self.subscribeLocked client stream_id)
  | publisher_answer (room_id stream_id : String) (video_ssrc audio_ssrc : UInt32) :
      IsSection room_id (publisherAnswerLocked room_id stream_id video_ssrc audio_ssrc)
  | ready (room_id client_id stream_id : String) :
      IsSection room_id (asyncTask (.notifyToSubscribe room_id client_id stream_id))

/-- The critical sections other than that of `handlePublish`. -/
inductive PlainSection : {β : Type} → String → Handler β → Prop
  | removeClient (client : Client) : PlainSection client.room_id (removeClientLocked client)
  | subscribe (self : ErizoController) (client : Client) (stream_id : String) :
      PlainSection client.room_id (self.subscribeLocked client stream_id)
  | publisher_answer (room_id stream_id : String) (video_ssrc audio_ssrc : UInt32) :
      PlainSection room_id (publisherAnswerLocked room_id stream_id video_ssrc audio_ssrc)
  | ready (room_id client_id stream_id : String) :
      PlainSection room_id (asyncTask (.notifyToSubscribe room_id client_id stream_id))

theorem PlainSection.isSection {β : Type} {room_id : String} {body : Handler β}
    (h : PlainSection room_id body) : IsSection room_id body := by
  cases h with
  | removeClient client => exact .removeClient client
  | subscribe self client stream_id => exact .subscribe self client stream_id
  | publisher_answer room_id stream_id v a => exact .publisher_answer room_id stream_id v a
  | ready room_id client_id stream_id => exact .ready room_id client_id stream_id

theorem IsSection.each {β : Type} {room_id : String} {body : Handler β}
    (h : IsSection room_id body) : body.Each (Inside room_id) := by
  cases h with
  | removeClient client => exact (each_removeClientLocked client).mono fun _ => Within.inside
  | publish self client publisher => exact (each_publishLocked self client publisher).mono fun _ =>
        Within.inside
  | subscribe self client stream_id =>
      exact (each_subscribeLocked self client stream_id).mono fun _ => Within.inside
  | publisher_answer room_id stream_id v a =>
      exact (each_publisherAnswerLocked room_id stream_id v a).mono fun _ => Within.inside
  | ready room_id client_id stream_id => exact (each_issue _).mpr trivial

/-! ## What a section leaves alone -/

section Frame

variable {α : Type} {room_id : String} {sets dels : List Kind} {body : Handler α}

/-- A section leaves alone the hashes of the kinds it does not write, and the guarded hashes
of the other rooms. -/
theorem exec_within_frame (hbody : body.Each (Within room_id sets dels)) {k : Kind} {name : String}
    (h : (k ∉ sets ∧ k ∉ dels) ∨ (k.Guarded ∧ name ≠ room_id)) (w : World) :
    (exec body w).2.redis k name = w.redis k name := by
  refine exec_of_each (I := fun w' => w'.redis k name = w.redis k name) hbody
    (fun c w' hc hw' => ?_) rfl
  refine (perform_frame w' ?_ ?_).trans hw'
  · rintro row rfl
    rcases h with ⟨hset, -⟩ | ⟨hk, hne⟩
    · exact hset hc.1
    · exact hne (hc.2 hk)
  · rintro fields rfl
    rcases h with ⟨-, hdel⟩ | ⟨hk, hne⟩
    · exact hdel hc.1
    · exact hne (hc.2 hk)

/-- A section adds no rows to the hashes of the kinds that it does not file rows in. -/
theorem exec_within_subset (hbody : body.Each (Within room_id sets dels)) {k : Kind}
    (hk : k ∉ sets) {name : String} {w : World} {row : k.Rec}
    (h : row ∈ (exec body w).2.redis k name) : row ∈ w.redis k name := by
  have hsubset : ∀ row ∈ (exec body w).2.redis k name, row ∈ w.redis k name := by
    refine exec_of_each (I := fun w' => ∀ row ∈ w'.redis k name, row ∈ w.redis k name) hbody
      (fun c w' hc hw' row hrow => hw' row (perform_subset ?_ hrow)) fun _ => id
    rintro row rfl
    exact hk hc.1
  exact hsubset row h

end Frame

/-! ## The commands outside of the sections -/

/-- The commands outside of the sections, other than the drawing of an id. -/
def PlainCommand : Command → Prop
  | .hset k _ _ => ¬ k.Guarded
  | .hdel k _ _ => ¬ k.Guarded
  | .getStreamID => False
  | _ => True

theorem PlainCommand.outside {c : Command} (h : PlainCommand c) : Outside c := by
  cases c with
  | hset k name row => exact h
  | hdel k name fields => exact h
  | _ => trivial

/-- The commands outside of the sections that write nothing and draw no id. -/
def SilentCommand : Command → Prop
  | .hset .. => False
  | .hdel .. => False
  | .getStreamID => False
  | _ => True

theorem SilentCommand.plain {c : Command} (h : SilentCommand c) : PlainCommand c := by
  cases c with
  | hset k name row => exact h.elim
  | hdel k name fields => exact h.elim
  | getStreamID => exact h.elim
  | _ => trivial

/-- The silent commands that send an erizo or another controller no message but signaling, a
request for an erizo and the news of a stream. -/
def QuietCommand : Command → Prop
  | .hset .. => False
  | .hdel .. => False
  | .getStreamID => False
  | .rpcNotReply _ (.processSignaling ..) => True
  | .rpcNotReply _ (.new_publisher ..) => True
  | .rpcNotReply .. => False
  | .rpc _ (.getErizo _) => True
  | .rpc .. => False
  | _ => True

theorem QuietCommand.silent {c : Command} (h : QuietCommand c) : SilentCommand c := by
  cases c with
  | hset k name row => exact h.elim
  | hdel k name fields => exact h.elim
  | getStreamID => exact h.elim
  | _ => trivial

theorem all_silent {α : Type} {B : {β : Type} → String → Handler β → Prop} {p : Session α}
    (h : p.All QuietCommand B) : p.All SilentCommand B :=
  h.imp (fun _ hc => hc.silent) fun _ _ => id

theorem all_plain {α : Type} {p : Session α} (h : p.All SilentCommand PlainSection) :
    p.All PlainCommand PlainSection :=
  h.imp (fun _ hc => hc.plain) fun _ _ => id

theorem all_of_plain {α : Type} {p : Session α} (h : p.All PlainCommand PlainSection) :
    p.All Outside IsSection :=
  h.imp (fun _ hc => hc.outside) fun _ _ hbody => hbody.isSection

section Outside

variable (self : ErizoController) (client : Client)

theorem quiet_allocAgent : (self.allocAgent client).Each QuietCommand := by
  rw [allocAgent]
  split
  · trivial
  · refine Each.bind (RedisHelper.each_getAll trivial) fun r => ?_
    cases r with
    | none => trivial
    | some agents =>
    refine Each.bind ((each_issue _).mpr trivial) fun now => ?_
    dsimp only
    split <;> trivial

theorem each_allocAgent : (self.allocAgent client).Each SilentCommand :=
  (quiet_allocAgent self client).mono fun _ hc => hc.silent

theorem quiet_allocErizoTries (client : Client) (try_time : ℕ) :
    (allocErizoTries client try_time).Each QuietCommand := by
  induction try_time generalizing client with
  | zero => trivial
  | succ try_time ih =>
      refine Each.bind ((each_issue _).mpr trivial) fun root => ?_
      split
      · trivial
      · exact ih _

theorem each_allocErizoTries (client : Client) (try_time : ℕ) :
    (allocErizoTries client try_time).Each SilentCommand :=
  (quiet_allocErizoTries client try_time).mono fun _ hc => hc.silent

theorem each_registerClient : (self.registerClient client).Each PlainCommand := by
  refine Each.bind (RedisHelper.each_add id) fun rc => ?_
  split
  · trivial
  · refine Each.bind (RedisHelper.each_add id) fun rc => ?_
    split
    · trivial
    · refine Each.bind (RedisHelper.each_getAll trivial) fun r => ?_
      cases r <;> trivial

theorem each_handleToken : (self.handleToken client).Each PlainCommand := by
  refine Each.bind ((each_allocAgent _ _).mono fun _ => SilentCommand.plain) fun (rc, client) => ?_
  dsimp only
  split
  · trivial
  · refine Each.bind ((each_allocErizoTries _ _).mono fun _ => SilentCommand.plain)
      fun (rc, client) => ?_
    dsimp only
    split
    · trivial
    · exact Each.bind (each_registerClient _ _) fun _ => trivial

theorem quiet_handleSignaling (root : Value) : (handleSignaling client root).Each QuietCommand := by
  rw [handleSignaling]
  split
  · exact (each_issue _).mpr trivial
  · trivial

theorem each_handleSignaling (root : Value) : (handleSignaling client root).Each SilentCommand :=
  (quiet_handleSignaling client root).mono fun _ hc => hc.silent

theorem quiet_started (client_id : String) (data : Value) :
    (started client_id data).Each QuietCommand := by
  rw [started]
  split
  · refine Each.bind ((each_issue _).mpr trivial) fun _ => ?_
    exact (each_issue _).mpr trivial
  · trivial

theorem quiet_subscriberAnswer (client_id : String) (data : Value) :
    (subscriberAnswer client_id data).Each QuietCommand := by
  rw [subscriberAnswer]
  split
  · exact (each_issue _).mpr trivial
  · trivial

theorem quiet_newPublisherEvent (client_id : String) (data : Value) :
    (newPublisherEvent client_id data).Each QuietCommand := by
  rw [newPublisherEvent]
  split
  · exact (each_issue _).mpr trivial
  · trivial

theorem quiet_removeSubscriberEvent (client_id : String) (data : Value) :
    (removeSubscriberEvent client_id data).Each QuietCommand := by
  rw [removeSubscriberEvent]
  split
  · exact (each_issue _).mpr trivial
  · trivial

theorem quiet_notifyClients (client_id stream_id label : String) (clients : List Client) :
    (notifyClients client_id stream_id label clients).Each QuietCommand := by
  induction clients with
  | nil => trivial
  | cons client clients ih =>
      rw [notifyClients]
      split
      · exact Each.bind ((each_issue _).mpr trivial) fun _ => ih
      · exact ih

theorem each_notifyClients (client_id stream_id label : String) (clients : List Client) :
    (notifyClients client_id stream_id label clients).Each SilentCommand :=
  (quiet_notifyClients client_id stream_id label clients).mono fun _ hc => hc.silent

theorem quiet_notifyToSubscribe (room_id client_id stream_id : String) :
    (notifyToSubscribe room_id client_id stream_id).Each QuietCommand := by
  refine Each.bind (RedisHelper.each_get trivial) fun r => ?_
  cases r with
  | none => trivial
  | some publisher =>
  refine Each.bind (RedisHelper.each_getAll trivial) fun r => ?_
  cases r with
  | none => trivial
  | some clients => exact quiet_notifyClients _ _ _ _

theorem each_notifyToSubscribe (room_id client_id stream_id : String) :
    (notifyToSubscribe room_id client_id stream_id).Each SilentCommand :=
  (quiet_notifyToSubscribe room_id client_id stream_id).mono fun _ hc => hc.silent

end Outside

/-! ## The scripts of the threads -/

section Scripts

variable (self : ErizoController) (client : Client)
variable {P : Command → Prop} {B : {β : Type} → String → Handler β → Prop}

/-! Each script in terms of the sections it can enter. -/

theorem quiet_removeClients_of
    (hB : ∀ client : Client, B client.room_id (removeClientLocked client))
    (clients : List Client) : (removeClients clients).All QuietCommand B := by
  induction clients with
  | nil => trivial
  | cons client clients ih => exact (all_withLock (hB client)).bind fun _ => ih

theorem quiet_removeExpireErizoController_of
    (hB : ∀ client : Client, B client.room_id (removeClientLocked client))
    (erizo_controller_id : String) :
    (removeExpireErizoController erizo_controller_id).All QuietCommand B := by
  refine All.bind (all_monadLift (RedisHelper.each_getAll trivial)) fun r => ?_
  cases r with
  | none => trivial
  | some clients => exact quiet_removeClients_of hB clients

theorem all_removeExpireErizoController_of
    (hB : ∀ client : Client, B client.room_id (removeClientLocked client))
    (erizo_controller_id : String) :
    (removeExpireErizoController erizo_controller_id).All SilentCommand B :=
  all_silent (quiet_removeExpireErizoController_of hB erizo_controller_id)

theorem all_handlePublish_of (hP : P .uninitialized ∧ P .getStreamID)
    (hB : ∀ publisher : Publisher, publisher.client_id = client.id →
      publisher.erizo_id = client.erizo_id →
      B client.room_id (self.publishLocked client publisher)) (root : Value) :
    (self.handlePublish client root).All P B := by
  rw [handlePublish]
  split
  · trivial
  · refine ⟨hP.1, fun video_ssrc => ⟨hP.1, fun audio_ssrc => ⟨hP.2, fun id => ⟨hB _ rfl rfl,
      fun r => ?_⟩⟩⟩⟩
    cases r <;> trivial

theorem all_handleSubscribe_of {root : Value}
    (hB : ∀ stream_id, root.string? "streamId" = some stream_id →
      B client.room_id (self.subscribeLocked client stream_id)) :
    (self.handleSubscribe client root).All P B := by
  have htry : ∀ stream_id, root.string? "streamId" = some stream_id →
      ∀ {again : Session Value}, again.All P B →
        (self.subscribeTry client stream_id again).All P B := by
    intro stream_id hid again hagain
    refine All.bind (all_withLock (hB stream_id hid)) fun r => ?_
    split
    · trivial
    · exact hagain
    · trivial
  have htries : ∀ stream_id, root.string? "streamId" = some stream_id → ∀ try_time,
      (self.subscribeTries client stream_id try_time).All P B := by
    intro stream_id hid try_time
    induction try_time with
    | zero => exact htry _ hid trivial
    | succ try_time ih => exact htry _ hid ih
  rw [handleSubscribe]
  split
  · trivial
  · exact htries _ ‹_› 10

theorem quiet_publisherAnswer_of
    (hB : ∀ room_id stream_id v a, B room_id (publisherAnswerLocked room_id stream_id v a))
    (client_id : String) (data : Value) : (publisherAnswer client_id data).All QuietCommand B := by
  rw [publisherAnswer]
  split
  · split
    · refine All.bind (all_withLock (hB _ _ _ _)) fun stored => ?_
      split
      · exact All.bind (all_monadLift ((each_issue _).mpr trivial)) fun _ => trivial
      · trivial
    · trivial
  · trivial

theorem quiet_ready_of
    (hB : ∀ room_id client_id stream_id,
      B room_id (asyncTask (.notifyToSubscribe room_id client_id stream_id)))
    (client_id : String) (data : Value) : (self.ready client_id data).All QuietCommand B := by
  rw [ready]
  split
  · trivial
  · split
    · trivial
    · split
      · trivial
      · exact All.bind (all_withLock (hB _ _ _)) fun _ => trivial

theorem quiet_onSignalingMessage_of
    (hanswer : ∀ room_id stream_id v a, B room_id (publisherAnswerLocked room_id stream_id v a))
    (hready : ∀ room_id client_id stream_id,
      B room_id (asyncTask (.notifyToSubscribe room_id client_id stream_id))) (root : Value) :
    (self.onSignalingMessage root).All QuietCommand B := by
  rw [onSignalingMessage]
  split
  · trivial
  · split
    · trivial
    · split
      · split_ifs
        · exact All.bind (all_monadLift (quiet_started _ _)) fun _ => trivial
        · exact quiet_publisherAnswer_of hanswer _ _
        · exact All.bind (all_monadLift (quiet_subscriberAnswer _ _)) fun _ => trivial
        · exact quiet_ready_of self hready _ _
        · exact All.bind (all_monadLift (quiet_newPublisherEvent _ _)) fun _ => trivial
        · exact All.bind (all_monadLift (quiet_removeSubscriberEvent _ _)) fun _ => trivial
        · exact All.bind (all_monadLift ((each_issue _).mpr trivial)) fun _ => trivial
        · trivial
      · trivial

theorem all_onSignalingMessage_of
    (hanswer : ∀ room_id stream_id v a, B room_id (publisherAnswerLocked room_id stream_id v a))
    (hready : ∀ room_id client_id stream_id,
      B room_id (asyncTask (.notifyToSubscribe room_id client_id stream_id))) (root : Value) :
    (self.onSignalingMessage root).All SilentCommand B :=
  all_silent (quiet_onSignalingMessage_of self hanswer hready root)

/-! The same of the sections in general. -/

theorem all_removeClient : (removeClient client).All SilentCommand PlainSection :=
  all_withLock (.removeClient client)

theorem all_removeExpireErizoController (erizo_controller_id : String) :
    (removeExpireErizoController erizo_controller_id).All SilentCommand PlainSection :=
  all_removeExpireErizoController_of (fun client => .removeClient client) erizo_controller_id

theorem all_handlePublish (root : Value) :
    (self.handlePublish client root).All Outside IsSection :=
  all_handlePublish_of self client ⟨trivial, trivial⟩
    (fun publisher _ _ => .publish self client publisher) root

theorem all_handleSubscribe (root : Value) :
    (self.handleSubscribe client root).All SilentCommand PlainSection :=
  all_handleSubscribe_of self client fun stream_id _ => .subscribe self client stream_id

theorem all_onSignalingMessage (root : Value) :
    (self.onSignalingMessage root).All SilentCommand PlainSection :=
  all_onSignalingMessage_of self
    (fun room_id stream_id v a => .publisher_answer room_id stream_id v a)
    (fun room_id client_id stream_id => .ready room_id client_id stream_id) root

theorem all_onMessage (root : Option Value) :
    (self.onMessage client root).All Outside IsSection := by
  unfold onMessage
  split
  · split_ifs
    · exact all_of_plain (All.bind (all_monadLift (each_handleToken _ _)) fun _ => trivial)
    · exact All.bind (all_handlePublish _ _ _) fun _ => trivial
    · exact all_of_plain (all_plain (All.bind (all_handleSubscribe _ _ _) fun _ => trivial))
    · exact all_of_plain
        (all_plain (All.bind (all_monadLift (each_handleSignaling _ _)) fun _ => trivial))
    · trivial
  · trivial

end Scripts

/-- What a thread can be given to do: an event of a connection, its close, a signaling
message, or a task. The client is the one of the connection, in whatever state. -/
inductive Job where
  | onMessage (self : ErizoController) (client : Client) (root : Option Value)
  | onClose (client : Client)
  | onSignalingMessage (self : ErizoController) (root : Value)
  | task (task : WorkerTask)

def Job.script : Job → Session Unit
  | onMessage self client root => do
      let _ ← self.onMessage client root
      return ()
  | onClose client => do
      let _ ← ErizoController.onClose client
      return ()
  | onSignalingMessage self root => do
      let _ ← self.onSignalingMessage root
      return ()
  | task (.notifyToSubscribe room_id client_id stream_id) =>
      monadLift (ErizoController.notifyToSubscribe room_id client_id stream_id)
  | task (.removeExpireErizoController erizo_controller_id) =>
      ErizoController.removeExpireErizoController erizo_controller_id

theorem Job.all_script (job : Job) : job.script.All Outside IsSection := by
  cases job with
  | onMessage self client root => exact (all_onMessage self client root).bind fun _ => trivial
  | onClose client =>
      exact all_of_plain (all_plain ((all_removeClient client).bind fun _ => trivial))
  | onSignalingMessage self root =>
      exact all_of_plain (all_plain ((all_onSignalingMessage self root).bind fun _ => trivial))
  | task task =>
      cases task with
      | notifyToSubscribe room_id client_id stream_id =>
          exact all_of_plain
            (all_plain (all_monadLift (each_notifyToSubscribe room_id client_id stream_id)))
      | removeExpireErizoController id =>
          exact all_of_plain (all_plain (all_removeExpireErizoController id))

end ErizoController
