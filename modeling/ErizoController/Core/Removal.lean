import ErizoController.Core.Bridges

/-!
# What removeClient does

The two loops of `removeClient` visit a list of subscribers, `viewings`, in which a
subscriber stands once for each reason to remove it. A completed run gives back one use
of a bridge for each bridged entry of that list, then removes the bridges of the client's
own streams, and erases the visited subscribers, the client's publishers and the client.
-/

open RefCount

namespace ErizoController

/-! ## The subscribers and publishers that are visited -/

/-- The entries of one subscriber: one for each publisher of the client it views, and one
if it is the client's own. -/
def viewingsOf (client : Client) (publishers : List Publisher) (s : Subscriber) :
    List Subscriber :=
  (publishers.filter fun p => p.client_id = client.id ∧ s.subscribe_to = p.id).map (fun _ => s) ++
    if s.client_id = client.id then [s] else []

def viewings (client : Client) (subscribers : List Subscriber) (publishers : List Publisher) :
    List Subscriber :=
  subscribers.flatMap (viewingsOf client publishers)

def ownPublishers (client : Client) (publishers : List Publisher) : List Publisher :=
  publishers.filter fun p => p.client_id = client.id

theorem visitSubscriber_eq (client : Client) (publishers : List Publisher) (s : Subscriber) :
    visitSubscriber client publishers s =
      Prog.collect (dropSubscriber client.room_id) (viewingsOf client publishers s) := by
  rw [visitSubscriber, viewingsOf, Prog.collect_append, Prog.collect_map, Prog.collect_filter]
  simp only [decide_eq_true_eq]
  refine congrArg _ (funext fun r => ?_)
  cases r with
  | none => rfl
  | some viewed =>
      by_cases hown : s.client_id = client.id
      · simp only [if_pos hown, Prog.collect, bind_assoc]
        refine congrArg _ (funext fun r => ?_)
        cases r with
        | none => simp
        | some own => simp
      · simp only [if_neg hown, Prog.collect_nil, pure_bind]

theorem collect_visitSubscriber (client : Client) (publishers : List Publisher)
    (subscribers : List Subscriber) :
    Prog.collect (visitSubscriber client publishers) subscribers =
      Prog.collect (dropSubscriber client.room_id) (viewings client subscribers publishers) := by
  rw [viewings, ← Prog.collect_flatMap]
  exact congrArg (fun f => Prog.collect f subscribers) (funext (visitSubscriber_eq _ _))

theorem collect_visitPublisher (client : Client) (publishers : List Publisher) :
    Prog.collect (visitPublisher client) publishers =
      Prog.collect (dropPublisher client.room_id) (ownPublishers client publishers) := by
  rw [ownPublishers, Prog.collect_filter]
  simp only [decide_eq_true_eq]
  rfl

theorem mem_viewings {client : Client} {subscribers : List Subscriber}
    {publishers : List Publisher} {s : Subscriber} :
    s ∈ viewings client subscribers publishers ↔ s ∈ subscribers ∧
      (s.client_id = client.id ∨ ∃ p ∈ ownPublishers client publishers, s.subscribe_to = p.id) := by
  simp only [viewings, List.mem_flatMap, viewingsOf, ownPublishers, List.mem_append, List.mem_map,
    List.mem_filter, decide_eq_true_eq, List.mem_ite_nil_right, List.mem_singleton]
  constructor
  · rintro ⟨a, ha, ⟨p, ⟨hp, hcond⟩, rfl⟩ | ⟨hown, rfl⟩⟩
    · exact ⟨ha, .inr ⟨p, ⟨hp, hcond.1⟩, hcond.2⟩⟩
    · exact ⟨ha, .inl hown⟩
  · rintro ⟨hs, hown | ⟨p, ⟨hp, hclient⟩, hto⟩⟩
    · exact ⟨s, hs, .inr ⟨hown, rfl⟩⟩
    · exact ⟨s, hs, .inl ⟨p, ⟨hp, hclient, hto⟩, rfl⟩⟩

/-! ## The loop over the subscribers -/

/-- The resources of the bridged subscribers of a list. -/
def bridgedPairs (ss : List Subscriber) : List (String × String) :=
  (ss.filter Subscriber.is_bridge).map pairOf

theorem bridgedPairs_cons (s : Subscriber) (ss : List Subscriber) :
    bridgedPairs (s :: ss) =
      if s.is_bridge then pairOf s :: bridgedPairs ss else bridgedPairs ss := by
  rw [bridgedPairs, List.filter_cons]
  split <;> rfl

/-- The table of bridges once a subscriber is removed. -/
def leave (s : Subscriber) (t : Table BridgeStream) : Table BridgeStream :=
  if s.is_bridge then drop (pairOf s) t else t

theorem dropAll_bridgedPairs_cons (s : Subscriber) (ss : List Subscriber)
    (t : Table BridgeStream) :
    dropAll (bridgedPairs (s :: ss)) t = dropAll (bridgedPairs ss) (leave s t) := by
  rw [bridgedPairs_cons, leave]
  split <;> rfl

/-- The messages about a subscriber that is removed. -/
def leaveMessages (s : Subscriber) (t : Table BridgeStream) : List (String × Message) :=
  (if s.is_bridge then dropMessages (pairOf s) t else []) ++
    [(s.erizo_id, .removeSubscriber s.client_id s.subscribe_to),
      (s.reply_to, .remove_subscriber s.subscribe_to s.client_id)]

def viewerMessages : List Subscriber → Table BridgeStream → List (String × Message)
  | [], _ => []
  | s :: ss, t => leaveMessages s t ++ viewerMessages ss (leave s t)

theorem exec_removeBridgeStreamSub_ok {w : World} (hr : w.ReadsSucceed) (hw : w.WritesSucceed)
    (room_id st erizo : String) :
    exec (removeBridgeStreamSub room_id st erizo) w =
      (0, w.effect
        (w.redis.update .bridge_stream room_id (drop (st, erizo) (w.redis .bridge_stream room_id)))
        (dropMessages (st, erizo) (w.redis .bridge_stream room_id))) := by
  rw [exec_removeBridgeStreamSub hr, hw.head, hw.drawWrite]
  split
  · rename_i hnone
    rw [dropMessages, drop, hnone]
    simp [World.effect]
  · rw [if_neg Bool.false_ne_true]

theorem exec_dropSubscriber_ok {w : World} (hr : w.ReadsSucceed) (hw : w.WritesSucceed)
    (room_id : String) (s : Subscriber) :
    exec (dropSubscriber room_id s) w =
      (some [s.id], w.effect
        (w.redis.update .bridge_stream room_id (leave s (w.redis .bridge_stream room_id)))
        (leaveMessages s (w.redis .bridge_stream room_id))) := by
  rw [dropSubscriber, leave, leaveMessages]
  cases s.is_bridge with
  | true =>
      simp [exec_removeBridgeStreamSub_ok hr hw, removeSubscriber, notifyToRemoveSubscriber, pairOf]
  | false => simp [removeSubscriber, notifyToRemoveSubscriber]

theorem exec_collect_dropSubscriber_ok {w : World} (hr : w.ReadsSucceed) (hw : w.WritesSucceed)
    (room_id : String) (ss : List Subscriber) :
    exec (Prog.collect (dropSubscriber room_id) ss) w =
      (some (ss.map Subscriber.id), w.effect
        (w.redis.update .bridge_stream room_id
          (dropAll (bridgedPairs ss) (w.redis .bridge_stream room_id)))
        (viewerMessages ss (w.redis .bridge_stream room_id))) := by
  induction ss generalizing w with
  | nil =>
      change (_, w) = (_, _)
      simp [bridgedPairs, dropAll, viewerMessages, World.effect]
  | cons s ss ih =>
      rw [Prog.collect, exec_bind, exec_dropSubscriber_ok hr hw]
      dsimp only
      rw [exec_bind, ih (w := w.effect _ _) hr hw, dropAll_bridgedPairs_cons, viewerMessages]
      simp

/-! ## The loop over the publishers -/

/-- The bridge that `removeBridgeStreamPub` finds for a publisher. -/
def sentBridge? (p : Publisher) (t : Table BridgeStream) : Option BridgeStream :=
  t.rows.find? fun b => b.src_stream_id == p.id && b.sender_erizo_id == p.erizo_id

/-- The table of bridges once a publisher is removed. -/
def unpublish (p : Publisher) (t : Table BridgeStream) : Table BridgeStream :=
  match sentBridge? p t with
  | none => t
  | some b => t.erase [b.id]

def unpublishAll (ps : List Publisher) (t : Table BridgeStream) : Table BridgeStream :=
  ps.foldl (fun t p => unpublish p t) t

theorem unpublishAll_of_none {ps : List Publisher} {t : Table BridgeStream}
    (h : ∀ p ∈ ps, ∀ b ∈ t, b.src_stream_id ≠ p.id) : unpublishAll ps t = t := by
  induction ps with
  | nil => rfl
  | cons p ps ih =>
      have hnone : sentBridge? p t = none := by
        rw [sentBridge?, List.find?_eq_none]
        intro b hb hsent
        exact h p List.mem_cons_self b hb (beq_iff_eq.mp (Bool.and_eq_true_iff.mp hsent).1)
      rw [unpublishAll, List.foldl_cons, unpublish, hnone]
      exact ih fun p hp => h p (List.mem_cons_of_mem _ hp)

def unpublishMessages (p : Publisher) (t : Table BridgeStream) : List (String × Message) :=
  ((sentBridge? p t).map teardown).getD [] ++
    [(p.erizo_id, .removePublisher p.client_id p.id)]

def publisherMessages : List Publisher → Table BridgeStream → List (String × Message)
  | [], _ => []
  | p :: ps, t => unpublishMessages p t ++ publisherMessages ps (unpublish p t)

section RemoveBridgeStreamPub

variable {w : World} (room_id : String) (p : Publisher)

/-- Where the listing fails no bridge is found, and 0 is returned. -/
theorem exec_removeBridgeStreamPub_unheard (h : w.oracle.readFault.head = true) :
    exec (removeBridgeStreamPub room_id p.id p.erizo_id) w = (0, w.drawRead) := by
  rw [removeBridgeStreamPub, exec_bind, RedisHelper.getAllBridgeStream, RedisHelper.exec_getAll,
    if_pos h]
  rfl

theorem exec_removeBridgeStreamPub_heard (h : w.oracle.readFault.head = false) :
    exec (removeBridgeStreamPub room_id p.id p.erizo_id) w =
      match sentBridge? p (w.redis .bridge_stream room_id) with
      | none => (0, w.drawRead)
      | some b =>
          if w.oracle.writeFault.head then (1, w.drawRead.drawWrite.effect w.redis (teardown b))
          else (0, w.drawRead.drawWrite.effect (w.redis.update .bridge_stream room_id
            ((w.redis .bridge_stream room_id).erase [b.id])) (teardown b)) := by
  rw [removeBridgeStreamPub, exec_bind, RedisHelper.getAllBridgeStream, RedisHelper.exec_getAll,
    h, if_neg Bool.false_ne_true]
  dsimp only
  rw [List.filter_true]
  change exec (match sentBridge? p (w.redis .bridge_stream room_id) with
    | none => _
    | some it => _) w.drawRead = _
  cases sentBridge? p (w.redis .bridge_stream room_id) with
  | none => rfl
  | some b =>
      simp only [removeVirtualSubscriber, removeVirtualPublisher, exec_bind, exec_rpcNotReply,
        RedisHelper.removeBridgeStream, RedisHelper.exec_remove, World.effect_redis,
        World.effect_effect, World.effect_oracle]
      by_cases hfault : w.oracle.writeFault.head = true <;>
        simp [hfault, World.effect, World.drawRead, World.drawWrite, World.store, teardown]

end RemoveBridgeStreamPub

theorem exec_removeBridgeStreamPub_ok {w : World} (hr : w.ReadsSucceed) (hw : w.WritesSucceed)
    (room_id : String) (p : Publisher) :
    exec (removeBridgeStreamPub room_id p.id p.erizo_id) w =
      (0, w.effect
        (w.redis.update .bridge_stream room_id (unpublish p (w.redis .bridge_stream room_id)))
        (((sentBridge? p (w.redis .bridge_stream room_id)).map teardown).getD [])) := by
  rw [exec_removeBridgeStreamPub_heard room_id p hr.head, hr.drawRead, hw.head, hw.drawWrite,
    unpublish]
  cases sentBridge? p (w.redis .bridge_stream room_id) with
  | none => simp [World.effect]
  | some b => rfl

theorem exec_dropPublisher_ok {w : World} (hr : w.ReadsSucceed) (hw : w.WritesSucceed)
    (room_id : String) (p : Publisher) :
    exec (dropPublisher room_id p) w =
      (some [p.id], w.effect
        (w.redis.update .bridge_stream room_id (unpublish p (w.redis .bridge_stream room_id)))
        (unpublishMessages p (w.redis .bridge_stream room_id))) := by
  simp [dropPublisher, exec_removeBridgeStreamPub_ok hr hw, removePublisher, unpublishMessages]

theorem exec_collect_dropPublisher_ok {w : World} (hr : w.ReadsSucceed) (hw : w.WritesSucceed)
    (room_id : String) (ps : List Publisher) :
    exec (Prog.collect (dropPublisher room_id) ps) w =
      (some (ps.map Publisher.id), w.effect
        (w.redis.update .bridge_stream room_id
          (unpublishAll ps (w.redis .bridge_stream room_id)))
        (publisherMessages ps (w.redis .bridge_stream room_id))) := by
  induction ps generalizing w with
  | nil =>
      change (_, w) = (_, _)
      simp [unpublishAll, publisherMessages, World.effect]
  | cons p ps ih =>
      rw [Prog.collect, exec_bind, exec_dropPublisher_ok hr hw]
      dsimp only
      rw [exec_bind, ih (w := w.effect _ _) hr hw, publisherMessages]
      simp [unpublishAll]

/-! ## A run without failures -/

section Removed

variable (client : Client) (r : Redis)

/-- The entries that a removal visits. -/
def visited : List Subscriber :=
  viewings client (r .subscriber client.room_id).rows (r .publisher client.room_id).rows

/-- The client's publishers. -/
def published : List Publisher := ownPublishers client (r .publisher client.room_id).rows

def removedBridges : Table BridgeStream :=
  unpublishAll (published client r)
    (dropAll (bridgedPairs (visited client r)) (r .bridge_stream client.room_id))

/-- The hashes after a removal. -/
def removed : Redis :=
  ((((r.update .bridge_stream client.room_id (removedBridges client r)).update .subscriber
    client.room_id
      ((r .subscriber client.room_id).erase ((visited client r).map Subscriber.id))).update
    .publisher client.room_id ((r .publisher client.room_id).erase
      ((published client r).map Publisher.id))).update .client client.room_id
    ((r .client client.room_id).erase [client.id])).update .ec client.reply_to
    ((r .ec client.reply_to).erase [client.id])

@[simp] theorem removed_bridge_stream :
    removed client r .bridge_stream client.room_id = removedBridges client r := by
  simp [removed]

@[simp] theorem removed_subscriber :
    removed client r .subscriber client.room_id =
      (r .subscriber client.room_id).erase ((visited client r).map Subscriber.id) := by
  simp [removed]

@[simp] theorem removed_publisher :
    removed client r .publisher client.room_id =
      (r .publisher client.room_id).erase ((published client r).map Publisher.id) := by
  simp [removed]

@[simp] theorem removed_client :
    removed client r .client client.room_id = (r .client client.room_id).erase [client.id] := by
  simp [removed]

/-- The messages of a removal, in order. -/
def removalMessages : List (String × Message) :=
  viewerMessages (visited client r) (r .bridge_stream client.room_id) ++
    publisherMessages (published client r)
      (dropAll (bridgedPairs (visited client r)) (r .bridge_stream client.room_id))

end Removed

theorem erase_nil {k : Kind} (t : Table k.Rec) : t.erase [] = t := by
  ext v
  simp

/-- Leaving out a removal of no ids changes nothing. -/
theorem exec_unlessEmpty {w : World} (hw : w.WritesSucceed) (k : Kind) (name : String)
    (ids : List String) :
    exec (unlessEmpty ids (RedisHelper.remove k name ids)) w =
      ((), w.effect (w.redis.update k name ((w.redis k name).erase ids)) []) := by
  rw [unlessEmpty]
  split
  · rename_i hempty
    subst hempty
    simp [erase_nil, World.effect]
  · simp [RedisHelper.exec_remove_ok hw]

theorem exec_removeRecords_ok {w : World} (hw : w.WritesSucceed) (client : Client)
    (subscriber_ids publisher_ids : List String) :
    exec (removeRecords client subscriber_ids publisher_ids) w =
      (true, w.effect ((((w.redis.update .subscriber client.room_id
        ((w.redis .subscriber client.room_id).erase subscriber_ids)).update .publisher
        client.room_id ((w.redis .publisher client.room_id).erase publisher_ids)).update .client
        client.room_id ((w.redis .client client.room_id).erase [client.id])).update .ec
        client.reply_to ((w.redis .ec client.reply_to).erase [client.id])) []) := by
  rw [removeRecords, exec_bind, RedisHelper.removeSubscribers, exec_unlessEmpty hw]
  dsimp only
  rw [exec_bind, RedisHelper.removePublishers, exec_unlessEmpty (w := w.effect _ _) hw]
  dsimp only
  rw [exec_bind, RedisHelper.removeClient,
    RedisHelper.exec_remove_ok (w := (w.effect _ _).effect _ _) hw]
  dsimp only
  rw [exec_bind, RedisHelper.removeClientFromEC,
    RedisHelper.exec_remove_ok (w := ((w.effect _ _).effect _ _).effect _ _) hw]
  simp

/-- The two loops of `removeClient`, on the lists it reads, and the writes after them. -/
theorem exec_removeClientLocked {w : World} (hr : w.ReadsSucceed) (client : Client) :
    exec (removeClientLocked client) w =
      match exec (Prog.collect (dropSubscriber client.room_id) (visited client w.redis)) w with
      | (none, w') => (false, w')
      | (some subscriber_ids, w') =>
          match exec (Prog.collect (dropPublisher client.room_id) (published client w.redis))
            w' with
          | (none, w'') => (false, w'')
          | (some publisher_ids, w'') =>
              exec (removeRecords client subscriber_ids publisher_ids) w'' := by
  rw [removeClientLocked, exec_bind, RedisHelper.getAllSubscriber,
    RedisHelper.exec_getAll_ok hr, List.filter_true]
  dsimp only
  rw [exec_bind, RedisHelper.getAllPublisher, RedisHelper.exec_getAll_ok hr, List.filter_true]
  dsimp only
  have hvisited : viewings client (w.redis .subscriber client.room_id).rows
      (w.redis .publisher client.room_id).rows = visited client w.redis := rfl
  have hpublished : ownPublishers client (w.redis .publisher client.room_id).rows =
      published client w.redis := rfl
  rw [exec_bind, collect_visitSubscriber, collect_visitPublisher, hvisited, hpublished]
  rcases exec (Prog.collect (dropSubscriber client.room_id) (visited client w.redis)) w with
    ⟨_ | subscriber_ids, w'⟩
  · rfl
  · dsimp only
    rw [exec_bind]
    rcases exec (Prog.collect (dropPublisher client.room_id) (published client w.redis)) w' with
      ⟨_ | publisher_ids, w''⟩ <;> rfl

theorem exec_removeClientLocked_ok {w : World} (hr : w.ReadsSucceed) (hw : w.WritesSucceed)
    (client : Client) :
    exec (removeClientLocked client) w =
      (true, w.effect (removed client w.redis) (removalMessages client w.redis)) := by
  rw [exec_removeClientLocked hr, exec_collect_dropSubscriber_ok hr hw]
  dsimp only
  rw [exec_collect_dropPublisher_ok (w := w.effect _ _) hr hw]
  dsimp only
  rw [exec_removeRecords_ok (w := (w.effect _ _).effect _ _) hw]
  simp [removed, removedBridges, removalMessages, visited, published]

theorem execSession_removeClient_ok {w : World} (hr : w.ReadsSucceed) (hw : w.WritesSucceed)
    {client : Client} (hlock : (tryLock client.room_id w).1 = true) :
    execSession (removeClient client) w =
      (some true, (tryLock client.room_id w).2.effect (removed client w.redis)
        (removalMessages client w.redis)) := by
  rw [removeClient, execSession_withLock, if_pos hlock,
    exec_removeClientLocked_ok (w := (tryLock client.room_id w).2) hr hw]
  rfl

end ErizoController
