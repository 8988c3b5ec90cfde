import ErizoController.Core.Confluence
import ErizoController.Redis.TextCommands

/-!
# The jobs given plain strings

The scripts of the threads rely on the replies of Redis and of the other processes: as long as
the strings in these have no NUL, and those in the job itself have none, each command that is
issued files or names plain strings.
-/

open Json Locked Prog
open ACLRedis (Plain c_str_of_plain plain_c_str)

namespace TextStore

open ErizoController

/-! ## The strings of the records -/

section Records

theorem noNul_client {client : Client} :
    Value.NoNul client.toJSON ↔ Plain client.id ∧ Plain client.agent_id ∧ Plain client.erizo_id ∧
      Plain client.bridge_ip ∧ Plain client.room_id ∧ Plain client.ip ∧ Plain client.family ∧
      Plain client.reply_to := by
  simp [Value.noNul_iff, Client.toJSON, Value.plain, Plain]

theorem noNul_publisher {publisher : Publisher} :
    Value.NoNul publisher.toJSON ↔ Plain publisher.id ∧ Plain publisher.erizo_id ∧
      Plain publisher.bridge_ip ∧ Plain publisher.agent_id ∧ Plain publisher.client_id ∧
      Plain publisher.label := by
  simp [Value.noNul_iff, Publisher.toJSON, Value.plain, Plain]

theorem noNul_subscriber {subscriber : Subscriber} :
    Value.NoNul subscriber.toJSON ↔ Plain subscriber.id ∧ Plain subscriber.agent_id ∧
      Plain subscriber.erizo_id ∧ Plain subscriber.client_id ∧ Plain subscriber.subscribe_to ∧
      Plain subscriber.reply_to := by
  simp [Value.noNul_iff, Subscriber.toJSON, Value.plain, Plain]

theorem noNul_bridgeStream {bridge_stream : BridgeStream} :
    Value.NoNul bridge_stream.toJSON ↔ Plain bridge_stream.id ∧
      Plain bridge_stream.sender_erizo_id ∧ Plain bridge_stream.sender_ip ∧
      Plain bridge_stream.recver_erizo_id ∧ Plain bridge_stream.recver_ip ∧
      Plain bridge_stream.src_stream_id ∧ Plain bridge_stream.label := by
  simp [Value.noNul_iff, BridgeStream.toJSON, Value.plain, Plain]

end Records

/-! ## What the handlers do with plain strings -/

section Helper

variable {k : Kind} {name : String}

theorem relies_get {id : String} (h : Proper (.hget k name (ACLRedis.c_str id))) :
    (RedisHelper.get k name id).Relies SoundReply Proper
      fun row => ∀ r, row = some r → PlainRow k r := by
  refine (relies_issue h fun reply hreply => hreply).bind fun (rc, row) hrow => ?_
  dsimp only
  split
  · exact fun r hr => by cases hr
  · exact hrow

theorem relies_getAll {accepted : k.Rec → Bool} (h : Proper (.hvals k name)) :
    (RedisHelper.getAll k accepted name).Relies SoundReply Proper
      fun rows => ∀ row ∈ rows.getD [], PlainRow k row := by
  refine (relies_issue h fun reply hreply => hreply).bind fun (rc, rows) hrows => ?_
  dsimp only
  split
  · exact fun row hrow => absurd hrow List.not_mem_nil
  · exact fun row hrow => hrows row (List.mem_filter.mp hrow).1

theorem proper_hdel_one {id : String} (hname : PlainName k name ∨ k = .ec ∧ name = "")
    (hid : Plain id) : Proper (.hdel k name [id]) :=
  ⟨hname, List.forall_mem_singleton.mpr hid⟩

end Helper

section Removal

variable {client : Client} {room_id : String}

theorem relies_message (queuename : String) (data : Message) :
    (AMQP.rpcNotReply queuename data).Relies SoundReply Proper fun _ => True :=
  relies_issue trivial fun _ _ => trivial

theorem relies_removeBridgeStreamSub (hroom : Plain room_id) (subscribe_to erizo_id : String) :
    (removeBridgeStreamSub room_id subscribe_to erizo_id).Relies SoundReply Proper
      fun _ => True := by
  have hlist : Proper (.hvals .bridge_stream room_id) := hroom
  refine (relies_getAll hlist).bind fun r hr => ?_
  cases r with
  | none => trivial
  | some bridge_streams =>
      dsimp only
      split
      · trivial
      · rename_i it hfind
        have hit := noNul_bridgeStream.mp (hr it (List.mem_of_find?_eq_some hfind))
        split
        · refine (relies_message _ _).bind fun _ _ => ?_
          refine (relies_message _ _).bind fun _ _ => ?_
          exact relies_of_each (RedisHelper.each_remove (proper_hdel_one (.inl hroom) hit.1))
        · exact relies_of_each
            (RedisHelper.each_add ⟨hroom, noNul_bridgeStream.mpr hit, trivial⟩)

theorem relies_removeBridgeStreamPub (hroom : Plain room_id) (stream_id erizo_id : String) :
    (removeBridgeStreamPub room_id stream_id erizo_id).Relies SoundReply Proper fun _ => True := by
  have hlist : Proper (.hvals .bridge_stream room_id) := hroom
  refine (relies_getAll hlist).bind fun r hr => ?_
  cases r with
  | none => trivial
  | some bridge_streams =>
      dsimp only
      split
      · trivial
      · rename_i it hfind
        have hit := noNul_bridgeStream.mp (hr it (List.mem_of_find?_eq_some hfind))
        refine (relies_message _ _).bind fun _ _ => ?_
        refine (relies_message _ _).bind fun _ _ => ?_
        exact relies_of_each (RedisHelper.each_remove (proper_hdel_one (.inl hroom) hit.1))

theorem relies_dropSubscriber (hroom : Plain room_id) {s : Subscriber} (hid : Plain s.id) :
    (dropSubscriber room_id s).Relies SoundReply Proper
      fun ids => ∀ id ∈ ids.getD [], Plain id := by
  have hrest : (do
      removeSubscriber s
      notifyToRemoveSubscriber s
      return some [s.id] : Handler (Option (List String))).Relies SoundReply Proper
        fun ids => ∀ id ∈ ids.getD [], Plain id := by
    refine (relies_message _ _).bind fun _ _ => ?_
    exact (relies_message _ _).bind fun _ _ => List.forall_mem_singleton.mpr hid
  rw [dropSubscriber]
  split
  · refine (relies_removeBridgeStreamSub hroom _ _).bind fun rc _ => ?_
    split
    · exact fun id hid => absurd hid List.not_mem_nil
    · exact hrest
  · exact hrest

theorem relies_dropPublisher (hroom : Plain room_id) {publisher : Publisher}
    (hid : Plain publisher.id) :
    (dropPublisher room_id publisher).Relies SoundReply Proper
      fun ids => ∀ id ∈ ids.getD [], Plain id := by
  refine (relies_removeBridgeStreamPub hroom _ _).bind fun rc _ => ?_
  split
  · exact fun id hid => absurd hid List.not_mem_nil
  · exact (relies_message _ _).bind fun _ _ => List.forall_mem_singleton.mpr hid

theorem relies_removeClientLocked (hclient : PlainClient client) :
    (removeClientLocked client).Relies SoundReply Proper fun _ => True := by
  obtain ⟨hid, -, -, -, hroom, -⟩ := noNul_client.mp hclient.noNul
  have hsubscribers : Proper (.hvals .subscriber client.room_id) := hroom
  have hpublishers : Proper (.hvals .publisher client.room_id) := hroom
  have hroom' : PlainName .client client.room_id ∨ Kind.client = .ec ∧ client.room_id = "" :=
    .inl hroom
  have hec : PlainName .ec client.reply_to ∨ Kind.ec = .ec ∧ client.reply_to = "" :=
    hclient.reply_to.elim (fun hempty => .inr ⟨rfl, hempty⟩) .inl
  refine (relies_getAll hsubscribers).bind fun r hs => ?_
  cases r with
  | none => trivial
  | some subscribers =>
  refine (relies_getAll hpublishers).bind fun r hp => ?_
  cases r with
  | none => trivial
  | some publishers =>
  dsimp only
  rw [collect_visitSubscriber, collect_visitPublisher]
  refine (relies_collect fun s hmem => relies_dropSubscriber hroom
    (noNul_subscriber.mp (hs s (mem_viewings.mp hmem).1)).1).bind fun r hs' => ?_
  cases r with
  | none => trivial
  | some subscribers_to_del =>
  refine (relies_collect fun p hmem => relies_dropPublisher hroom
    (noNul_publisher.mp (hp p (List.mem_filter.mp hmem).1)).1).bind fun r hp' => ?_
  cases r with
  | none => trivial
  | some publishers_to_del =>
  refine (relies_of_each (each_unlessEmpty
    (RedisHelper.each_remove ⟨.inl hroom, hs'⟩))).bind fun _ _ => ?_
  refine (relies_of_each (each_unlessEmpty
    (RedisHelper.each_remove ⟨.inl hroom, hp'⟩))).bind fun _ _ => ?_
  refine (relies_of_each
    (RedisHelper.each_remove (proper_hdel_one hroom' hid))).bind fun _ _ => ?_
  exact (relies_of_each
    (RedisHelper.each_remove (proper_hdel_one hec hid))).bind fun _ _ => trivial

theorem relies_removeClient (hclient : PlainClient client) :
    (removeClient client).Relies SoundReply Proper fun _ => True :=
  Script.relies_withLock (relies_removeClientLocked hclient) trivial

theorem relies_removeClients {clients : List Client} (h : ∀ client ∈ clients, PlainClient client) :
    (removeClients clients).Relies SoundReply Proper fun _ => True := by
  induction clients with
  | nil => trivial
  | cons client clients ih =>
      refine (relies_removeClient (h client List.mem_cons_self)).bind fun _ _ => ?_
      exact ih fun client' hmem => h client' (List.mem_cons_of_mem _ hmem)

theorem relies_removeExpireErizoController {erizo_controller_id : String}
    (h : ControllerId erizo_controller_id) :
    (removeExpireErizoController erizo_controller_id).Relies SoundReply Proper fun _ => True := by
  have hlist : Proper (.hvals .ec erizo_controller_id) := h
  refine (Script.relies_lift (relies_getAll hlist)).bind fun r hr => ?_
  cases r with
  | none => trivial
  | some clients => exact relies_removeClients hr

end Removal

section Connection

variable {self : ErizoController} {client : Client}

theorem PlainClient.room_id (h : PlainClient client) : Plain client.room_id :=
  (noNul_client.mp h.noNul).2.2.2.2.1

theorem PlainClient.stored (h : PlainClient client) : PlainClient client.stored :=
  ⟨h.noNul, h.reply_to⟩

/-- The client of a token. -/
theorem PlainClient.token (h : PlainClient client) (hself : ControllerId self.id_) :
    PlainClient { client with room_id := "test_room_id", reply_to := self.getReplyTo } := by
  obtain ⟨hid, hagent_id, herizo_id, hbridge_ip, -, hip, hfamily, -⟩ := noNul_client.mp h.noNul
  have hroom : Plain "test_room_id" := by
    unfold Plain
    decide
  exact ⟨noNul_client.mpr ⟨hid, hagent_id, herizo_id, hbridge_ip, hroom, hip, hfamily, hself.1⟩,
    .inr hself⟩

theorem relies_allocAgent (hclient : PlainClient client) :
    (self.allocAgent client).Relies SoundReply Proper fun r => PlainClient r.2 := by
  rw [allocAgent]
  split
  · exact hclient
  · rename_i area_name _
    have hlist : Proper (.hvals .erizo_agent area_name) := trivial
    refine (relies_getAll hlist).bind fun r hr => ?_
    cases r with
    | none => exact hclient
    | some agents =>
        refine (relies_issue trivial fun _ _ => trivial).bind fun now _ => ?_
        dsimp only
        split
        · exact hclient
        · rename_i agent agents' hsort
          obtain ⟨hid, -, herizo_id, hbridge_ip, hroom_id, hip, hfamily, hreply_to⟩ :=
            noNul_client.mp hclient.noNul
          have hmem := (self.sort.perm _).mem_iff.mp (hsort ▸ List.mem_cons_self)
          have hagent : Plain agent.id := hr agent (List.mem_filter.mp hmem).1
          exact ⟨noNul_client.mpr ⟨hid, hagent, herizo_id, hbridge_ip, hroom_id, hip, hfamily,
            hreply_to⟩, hclient.reply_to⟩

theorem PlainClient.onErizo {root : Value} (hclient : PlainClient client)
    (hroot : PlainMembers root) : PlainClient (onErizo client root).2 := by
  rw [ErizoController.onErizo]
  split
  · rename_i erizoID bridgeIP bridgePort herizoID hbridgeIP _
    obtain ⟨hid, hagent_id, -, -, hroom_id, hip, hfamily, hreply_to⟩ :=
      noNul_client.mp hclient.noNul
    exact ⟨noNul_client.mpr ⟨hid, hagent_id, hroot _ _ herizoID, hroot _ _ hbridgeIP, hroom_id, hip,
      hfamily, hreply_to⟩, hclient.reply_to⟩
  · exact hclient

theorem relies_allocErizoTries (hclient : PlainClient client) (try_time : ℕ) :
    (allocErizoTries client try_time).Relies SoundReply Proper fun r => PlainClient r.2 := by
  induction try_time generalizing client with
  | zero => exact hclient
  | succ try_time ih =>
      refine (relies_issue trivial fun reply hreply => hreply).bind fun root hroot => ?_
      have hnext := hclient.onErizo hroot
      split
      · rename_i client' heq
        rw [heq] at hnext
        exact hnext
      · exact ih hclient

theorem relies_registerClient (hself : ControllerId self.id_) (hclient : PlainClient client) :
    (self.registerClient client).Relies SoundReply Proper fun _ => True := by
  have hadd : Proper (.hset .client client.room_id client.stored) :=
    ⟨hclient.room_id, hclient.stored, rfl⟩
  have haddec : Proper (.hset .ec self.id_ client.stored) := ⟨hself, hclient.stored, rfl⟩
  have hlist : Proper (.hvals .publisher client.room_id) := hclient.room_id
  refine (relies_of_each (RedisHelper.each_add hadd)).bind fun rc _ => ?_
  split
  · trivial
  · refine (relies_of_each (RedisHelper.each_add haddec)).bind fun rc _ => ?_
    split
    · trivial
    · refine (relies_getAll hlist).bind fun r _ => ?_
      cases r <;> trivial

theorem relies_handleToken (hself : ControllerId self.id_) (hclient : PlainClient client) :
    (self.handleToken client).Relies SoundReply Proper fun _ => True := by
  refine (relies_allocAgent (hclient.token hself)).bind fun (rc, client) hclient => ?_
  dsimp only
  split
  · trivial
  · refine (relies_allocErizoTries hclient 3).bind fun (rc, client) hclient => ?_
    dsimp only
    split
    · trivial
    · exact (relies_registerClient hself hclient).bind fun _ _ => trivial

theorem relies_newPublisher (hclient : PlainClient client) {label : String} (hlabel : Plain label) :
    (newPublisher client label).Relies SoundReply Proper
      fun publisher => Value.NoNul publisher.toJSON := by
  obtain ⟨hid, hagent_id, herizo_id, hbridge_ip, -⟩ := noNul_client.mp hclient.noNul
  refine (relies_issue trivial fun _ _ => trivial).bind fun video_ssrc _ => ?_
  refine (relies_issue trivial fun _ _ => trivial).bind fun audio_ssrc _ => ?_
  refine (relies_issue trivial fun reply hreply => hreply).bind fun id hnew => ?_
  exact noNul_publisher.mpr ⟨hnew, herizo_id, hbridge_ip, hagent_id, hid, hlabel⟩

theorem relies_handlePublish (hclient : PlainClient client) {root : Value}
    (hroot : PlainMembers root) :
    (self.handlePublish client root).Relies SoundReply Proper fun _ => True := by
  rw [handlePublish]
  split
  · trivial
  · rename_i label hlabel
    refine (Script.relies_lift (relies_newPublisher hclient (hroot _ _ hlabel))).bind
      fun publisher hpublisher => ?_
    have hadd : Proper (.hset .publisher client.room_id publisher) :=
      ⟨hclient.room_id, hpublisher, trivial⟩
    have hbody : (self.publishLocked client publisher).Each Proper :=
      each_publishLocked_of self client hadd fun _ => trivial
    have hsection : (Script.withLock client.room_id (self.publishLocked client publisher) :
        Session (Option Value)).Relies SoundReply Proper fun _ => True :=
      Script.relies_withLock (relies_of_each hbody) trivial
    refine hsection.bind fun r _ => ?_
    cases r <;> trivial

theorem relies_setUpBridge (hclient : PlainClient client) {publisher : Publisher}
    (hpublisher : Value.NoNul publisher.toJSON) {subscriber : Subscriber}
    (hstream : Plain subscriber.subscribe_to) :
    (setUpBridge client publisher subscriber).Relies SoundReply Proper fun _ => True := by
  have hroom := hclient.room_id
  have hlist : Proper (.hvals .bridge_stream client.room_id) := hroom
  have hget : Proper (.hget .publisher client.room_id (ACLRedis.c_str subscriber.subscribe_to)) :=
    ⟨hroom, plain_c_str _⟩
  refine (relies_getAll hlist).bind fun r hr => ?_
  cases r with
  | none => trivial
  | some bridge_streams =>
  dsimp only
  split
  · refine (relies_issue trivial fun reply hreply => hreply).bind fun id hid => ?_
    refine (relies_get hget).bind fun r _ => ?_
    cases r with
    | none => trivial
    | some publisher' =>
    obtain ⟨-, -, herizo_id, hbridge_ip, -⟩ := noNul_client.mp hclient.noNul
    obtain ⟨-, hsender_erizo_id, hsender_ip, -⟩ := noNul_publisher.mp hpublisher
    have hlabel : Plain "" := List.not_mem_nil
    have hadd : Proper (.hset .bridge_stream client.room_id
        (newBridgeStream client publisher subscriber.subscribe_to id)) :=
      ⟨hroom, noNul_bridgeStream.mpr ⟨hid, hsender_erizo_id, hsender_ip, herizo_id, hbridge_ip,
        hstream, hlabel⟩, trivial⟩
    refine (relies_of_each (RedisHelper.each_add hadd)).bind fun rc _ => ?_
    split
    · trivial
    · refine (relies_message _ _).bind fun _ _ => ?_
      exact (relies_message _ _).bind fun _ _ => trivial
  · rename_i it hfind
    have hit := noNul_bridgeStream.mp (hr it (List.mem_of_find?_eq_some hfind))
    exact relies_of_each (RedisHelper.each_add ⟨hroom, noNul_bridgeStream.mpr hit, trivial⟩)

theorem relies_subscribeLocked (hself : ControllerId self.id_) (hclient : PlainClient client)
    {stream_id : String} (hstream : Plain stream_id) :
    (self.subscribeLocked client stream_id).Relies SoundReply Proper fun _ => True := by
  have hget : Proper (.hget .publisher client.room_id (ACLRedis.c_str stream_id)) :=
    ⟨hclient.room_id, plain_c_str _⟩
  refine (relies_get hget).bind fun r hr => ?_
  cases r with
  | none => trivial
  | some publisher =>
  have hpublisher : Value.NoNul publisher.toJSON := hr publisher rfl
  dsimp only
  split
  · trivial
  · refine (relies_issue trivial fun reply hreply => hreply).bind fun id hid => ?_
    obtain ⟨hclient_id, hagent_id, herizo_id, -⟩ := noNul_client.mp hclient.noNul
    have hadd : Proper (.hset .subscriber client.room_id
        (self.newSubscriber client publisher stream_id id)) :=
      ⟨hclient.room_id, noNul_subscriber.mpr ⟨hid, hagent_id, herizo_id, hclient_id, hstream,
        hself.1⟩, trivial⟩
    refine (relies_of_each (RedisHelper.each_add hadd)).bind fun rc _ => ?_
    have hrest : (do
        self.addSubscriber client publisher (self.newSubscriber client publisher stream_id id)
        return some (.arrayValue [.booleanValue true, .stringValue
          (self.newSubscriber client publisher stream_id id).erizo_id]) :
          Handler (Option Value)).Relies SoundReply Proper fun _ => True :=
      (relies_message _ _).bind fun _ _ => trivial
    split
    · trivial
    · split
      · refine (relies_setUpBridge hclient hpublisher hstream).bind fun rc _ => ?_
        split
        · trivial
        · exact hrest
      · exact hrest

theorem relies_handleSubscribe (hself : ControllerId self.id_) (hclient : PlainClient client)
    {root : Value} (hroot : PlainMembers root) :
    (self.handleSubscribe client root).Relies SoundReply Proper fun _ => True := by
  have htry : ∀ {stream_id} {again : Session Value}, Plain stream_id →
      again.Relies SoundReply Proper (fun _ => True) →
      (self.subscribeTry client stream_id again).Relies SoundReply Proper fun _ => True := by
    intro stream_id again hstream hagain
    have hsection : (Script.withLock client.room_id (self.subscribeLocked client stream_id) :
        Session (Option (Option Value))).Relies SoundReply Proper fun _ => True :=
      Script.relies_withLock (relies_subscribeLocked hself hclient hstream) trivial
    refine hsection.bind fun r _ => ?_
    split
    · trivial
    · exact hagain
    · trivial
  have htries : ∀ {stream_id} try_time, Plain stream_id →
      (self.subscribeTries client stream_id try_time).Relies SoundReply Proper fun _ => True := by
    intro stream_id try_time hstream
    induction try_time with
    | zero => exact htry hstream trivial
    | succ try_time ih => exact htry hstream ih
  rw [handleSubscribe]
  split
  · trivial
  · rename_i stream_id hstream
    exact htries 10 (hroot _ _ hstream)

end Connection

section Signaling

variable {self : ErizoController} {client : Client} {data : Value}

theorem proper_event (client_id : String) (event : Value) :
    Each Proper <| SocketIO.sendEvent client_id event := (each_issue _).mpr trivial

theorem proper_started (client_id : String) (data : Value) :
    (started client_id data).Each Proper := by
  rw [started]
  split
  · exact (proper_event _ _).bind fun _ => proper_event _ _
  · trivial

theorem proper_subscriberAnswer (client_id : String) (data : Value) :
    (subscriberAnswer client_id data).Each Proper := by
  rw [subscriberAnswer]
  split
  · exact proper_event _ _
  · trivial

theorem proper_newPublisherEvent (client_id : String) (data : Value) :
    (newPublisherEvent client_id data).Each Proper := by
  rw [newPublisherEvent]
  split
  · exact proper_event _ _
  · trivial

theorem proper_removeSubscriberEvent (client_id : String) (data : Value) :
    (removeSubscriberEvent client_id data).Each Proper := by
  rw [removeSubscriberEvent]
  split
  · exact proper_event _ _
  · trivial

theorem proper_handleSignaling (root : Value) : (handleSignaling client root).Each Proper := by
  rw [handleSignaling]
  split
  · exact each_message (fun _ _ => trivial) _ _
  · trivial

theorem relies_publisherAnswerLocked {room_id : String} (hroom : Plain room_id)
    (stream_id : String) (video_ssrc audio_ssrc : UInt32) :
    (publisherAnswerLocked room_id stream_id video_ssrc audio_ssrc).Relies SoundReply Proper
      fun _ => True := by
  have hget : Proper (.hget .publisher room_id (ACLRedis.c_str stream_id)) := ⟨hroom, plain_c_str _⟩
  refine (relies_get hget).bind fun r hr => ?_
  cases r with
  | none => trivial
  | some publisher =>
      have hpublisher := noNul_publisher.mp (hr publisher rfl)
      have hadd : Proper (.hset .publisher room_id { publisher with video_ssrc, audio_ssrc }) :=
        ⟨hroom, noNul_publisher.mpr hpublisher, trivial⟩
      exact (relies_of_each (RedisHelper.each_add hadd)).bind fun _ _ => trivial

theorem relies_publisherAnswer (hdata : PlainMembers data) (client_id : String) :
    (publisherAnswer client_id data).Relies SoundReply Proper fun _ => True := by
  rw [publisherAnswer]
  split
  · rename_i stream_id sdp room_id videoSSRC audioSSRC hstream _ hroom _ _
    split
    · rename_i video_ssrc audio_ssrc _ _
      have hsection : (Script.withLock room_id
          (publisherAnswerLocked room_id stream_id video_ssrc audio_ssrc) :
          Session (Option Bool)).Relies SoundReply Proper fun _ => True :=
        Script.relies_withLock
          (relies_publisherAnswerLocked (hdata _ _ hroom) _ _ _) trivial
      refine hsection.bind fun stored _ => ?_
      split
      · exact (Script.relies_lift (relies_of_each (proper_event _ _))).bind fun _ _ => trivial
      · trivial
    · trivial
  · trivial

theorem relies_ready (client_id : String) (data : Value) :
    (self.ready client_id data).Relies SoundReply Proper fun _ => True := by
  rw [ready]
  split
  · trivial
  · rename_i stream_id _
    split
    · trivial
    · split
      · trivial
      · rename_i room_id _
        have htask : (asyncTask (.notifyToSubscribe room_id client_id stream_id)).Each Proper :=
          (each_issue _).mpr trivial
        have hsection : (Script.withLock room_id
            (asyncTask (.notifyToSubscribe room_id client_id stream_id)) :
            Session (Option Unit)).Relies SoundReply Proper fun _ => True :=
          Script.relies_withLock (relies_of_each htask) trivial
        exact hsection.bind fun _ _ => trivial

theorem relies_onSignalingMessage {root : Value}
    (hroot : ∀ data, root.object? "data" = some data → PlainMembers data) :
    (self.onSignalingMessage root).Relies SoundReply Proper fun _ => True := by
  have hlift : ∀ {p : Handler Unit}, p.Each Proper → ((do
      p
      return true) : Session Bool).Relies SoundReply Proper fun _ => True :=
    fun hp => (Script.relies_lift (relies_of_each hp)).bind fun _ _ => trivial
  rw [onSignalingMessage]
  split
  · trivial
  · split
    · trivial
    · rename_i data hdata
      split
      · split_ifs
        · exact hlift (proper_started _ _)
        · exact relies_publisherAnswer (hroot data hdata) _
        · exact hlift (proper_subscriberAnswer _ _)
        · exact relies_ready _ _
        · exact hlift (proper_newPublisherEvent _ _)
        · exact hlift (proper_removeSubscriberEvent _ _)
        · exact hlift ((each_issue _).mpr trivial)
        · trivial
      · trivial

theorem proper_notifyClients (client_id stream_id label : String) (clients : List Client) :
    (notifyClients client_id stream_id label clients).Each Proper := by
  induction clients with
  | nil => trivial
  | cons client clients ih =>
      rw [notifyClients]
      split
      · exact (each_message (fun _ _ => trivial) _ _).bind fun _ => ih
      · exact ih

theorem relies_notifyToSubscribe {room_id : String} (hroom : Plain room_id)
    (client_id stream_id : String) :
    (notifyToSubscribe room_id client_id stream_id).Relies SoundReply Proper fun _ => True := by
  have hget : Proper (.hget .publisher room_id (ACLRedis.c_str stream_id)) := ⟨hroom, plain_c_str _⟩
  have hlist : Proper (.hvals .client room_id) := hroom
  refine (relies_get hget).bind fun r _ => ?_
  cases r with
  | none => trivial
  | some publisher =>
  refine (relies_getAll hlist).bind fun r _ => ?_
  cases r with
  | none => trivial
  | some clients => exact relies_of_each (proper_notifyClients _ _ _ _)

end Signaling

/-! ## The jobs -/

/-- The strings given to a job have no NUL, and controllers have the ids of `init`. -/
def PlainJob : Job → Prop
  | .onMessage self client root => ControllerId self.id_ ∧ PlainClient client ∧
      ∀ event members rest,
        root = some (.arrayValue (.stringValue event :: .objectValue members :: rest)) →
          PlainMembers (.objectValue members)
  | .onClose client => PlainClient client
  | .onSignalingMessage _ root => ∀ data, root.object? "data" = some data → PlainMembers data
  | .task (.notifyToSubscribe room_id _ stream_id) => Plain room_id ∧ Plain stream_id
  | .task (.removeExpireErizoController erizo_controller_id) => ControllerId erizo_controller_id

theorem relies_onMessage {self : ErizoController} {client : Client} {root : Option Value}
    (h : PlainJob (.onMessage self client root)) :
    (self.onMessage client root).Relies SoundReply Proper fun _ => True := by
  obtain ⟨hself, hclient, hroot⟩ := h
  unfold onMessage
  split
  · rename_i event members rest
    have hmembers := hroot event members rest rfl
    split_ifs
    · exact (Script.relies_lift (relies_handleToken hself hclient)).bind fun _ _ => trivial
    · exact (relies_handlePublish hclient hmembers).bind fun _ _ => trivial
    · exact (relies_handleSubscribe hself hclient hmembers).bind fun _ _ => trivial
    · exact (Script.relies_lift (relies_of_each (proper_handleSignaling _))).bind fun _ _ => trivial
    · trivial
  · trivial

theorem PlainJob.relies {job : Job} (h : PlainJob job) :
    job.script.Relies SoundReply Proper fun _ => True := by
  cases job with
  | onMessage self client root => exact (relies_onMessage h).bind fun _ _ => trivial
  | onClose client => exact (relies_removeClient h).bind fun _ _ => trivial
  | onSignalingMessage self root => exact (relies_onSignalingMessage h).bind fun _ _ => trivial
  | task task =>
      cases task with
      | notifyToSubscribe room_id client_id stream_id =>
          exact Script.relies_lift (relies_notifyToSubscribe h.1 client_id _)
      | removeExpireErizoController id => exact relies_removeExpireErizoController h

end TextStore
