import ErizoController.Core.Footprint
import ErizoController.Core.Sections

/-!
# Removals with failing commands

A listing that fails returns no rows and no error, so `removeClient` goes on as if there
were nothing to remove, and it does not look at the results of its last writes. What is left
behind can be told from the commands that fail: the bridges of the visited subscribers are
given back only where their listing succeeds.
-/

open RefCount Prog Room

namespace ErizoController

/-! ## The loops, with any failures -/

/-- None of the next `n` commands fails. -/
def Spares (faults : Stream' Bool) (n : ℕ) : Prop := ∀ i < n, faults.get i = false

instance (faults : Stream' Bool) (n : ℕ) : Decidable (Spares faults n) :=
  inferInstanceAs (Decidable (∀ i < n, _))

theorem spares_zero (faults : Stream' Bool) : Spares faults 0 :=
  fun _ h => absurd h (Nat.not_lt_zero _)

theorem spares_one_add {faults : Stream' Bool} {n : ℕ} :
    Spares faults (1 + n) ↔ faults.head = false ∧ Spares faults.tail n := by
  constructor
  · exact fun h => ⟨h 0 (by omega), fun i hi => h (i + 1) (by omega)⟩
  · rintro ⟨hhead, htail⟩ i hi
    cases i with
    | zero => exact hhead
    | succ i => exact htail i (by omega)

theorem spares_add {faults : Stream' Bool} {m n : ℕ} :
    Spares faults (m + n) ↔ Spares faults m ∧ Spares (faults.drop m) n := by
  constructor
  · refine fun h => ⟨fun i hi => h i (by omega), fun i hi => ?_⟩
    rw [Stream'.get_drop]
    exact h _ (by omega)
  · rintro ⟨hm, hn⟩ i hi
    by_cases hlt : i < m
    · exact hm i hlt
    · have hget := hn (i - m) (by omega)
      rw [Stream'.get_drop] at hget
      have hsub : m + (i - m) = i := by omega
      rwa [hsub] at hget

/-- The resources of the bridged subscribers whose bridge is listed. -/
def heardPairs : List Subscriber → Stream' Bool → List (String × String)
  | [], _ => []
  | s :: ss, faults =>
      if s.is_bridge then
        if faults.head then heardPairs ss faults.tail else pairOf s :: heardPairs ss faults.tail
      else heardPairs ss faults

/-- The number of bridges written when uses are given back. -/
def dropCount : List (String × String) → Table BridgeStream → ℕ
  | [], _ => 0
  | pair :: pairs, t => (if find? pair t = none then 0 else 1) + dropCount pairs (drop pair t)

/-- The publishers whose bridge is listed. -/
def heardPublishers : List Publisher → Stream' Bool → List Publisher
  | [], _ => []
  | p :: ps, faults =>
      if faults.head then heardPublishers ps faults.tail else p :: heardPublishers ps faults.tail

/-- The number of bridges removed with publishers. -/
def unpublishCount : List Publisher → Table BridgeStream → ℕ
  | [], _ => 0
  | p :: ps, t => (if sentBridge? p t = none then 0 else 1) + unpublishCount ps (unpublish p t)

theorem heardPairs_cons (s : Subscriber) (ss : List Subscriber) (faults : Stream' Bool) :
    heardPairs (s :: ss) faults =
      heardPairs [s] faults ++ heardPairs ss (faults.drop (if s.is_bridge then 1 else 0)) := by
  rw [heardPairs, heardPairs]
  split
  · split <;> rfl
  · rfl

theorem dropCount_append (ps qs : List (String × String)) (t : Table BridgeStream) :
    dropCount (ps ++ qs) t = dropCount ps t + dropCount qs (dropAll ps t) := by
  induction ps generalizing t with
  | nil => exact (Nat.zero_add _).symm
  | cons p ps ih => rw [List.cons_append, dropCount, dropCount, ih, dropAll_cons, Nat.add_assoc]

/-- How a loop over the bridges ends: with the ids unless one of its writes fails, and then
with the bridges `t`. -/
structure Ends (room_id : String) (w : World) (ids : List String) (t : Table BridgeStream)
    (reads writes : ℕ) (r : Option (List String) × World) : Prop where
  result : r.1 = if Spares w.oracle.writeFault writes then some ids else none
  effect : Spares w.oracle.writeFault writes →
    r.2.redis = w.redis.update .bridge_stream room_id t ∧
    r.2.oracle.readFault = w.oracle.readFault.drop reads ∧
    r.2.oracle.writeFault = w.oracle.writeFault.drop writes

section Loops

variable {w : World} {room_id : String}

/-- A loop that writes nothing. -/
theorem Ends.idle {r : Option (List String) × World} {ids : List String} {reads : ℕ}
    (hresult : r.1 = some ids) (hredis : r.2.redis = w.redis)
    (hreads : r.2.oracle.readFault = w.oracle.readFault.drop reads)
    (hwrites : r.2.oracle.writeFault = w.oracle.writeFault) :
    Ends room_id w ids (w.redis .bridge_stream room_id) reads 0 r where
  result := by rw [hresult, if_pos (spares_zero _)]
  effect _ := ⟨by rw [hredis, Redis.update_eq_self], hreads, hwrites⟩

/-- A loop that ends at its first write, or makes just that one. -/
theorem Ends.write {r : Option (List String) × World} {ids : List String} {t : Table BridgeStream}
    {reads : ℕ} (hfault : w.oracle.writeFault.head = true → r.1 = none)
    (hwrite : w.oracle.writeFault.head = false → r.1 = some ids ∧
      r.2.redis = w.redis.update .bridge_stream room_id t ∧
      r.2.oracle.readFault = w.oracle.readFault.drop reads ∧
      r.2.oracle.writeFault = w.oracle.writeFault.tail) : Ends room_id w ids t reads 1 r := by
  have hspares : Spares w.oracle.writeFault 1 ↔ w.oracle.writeFault.head = false :=
    spares_one_add.trans (and_iff_left (spares_zero _))
  refine ⟨?_, fun h => (hwrite (hspares.mp h)).2⟩
  by_cases h : w.oracle.writeFault.head = true
  · rw [hfault h, if_neg fun hnot => by rw [hspares.mp hnot] at h; cases h]
  · have hfalse := Bool.eq_false_of_not_eq_true h
    rw [(hwrite hfalse).1, if_pos (hspares.mpr hfalse)]

/-- One round of a loop, and the rest of it. -/
theorem Ends.collect_cons {α : Type} {f : α → Handler (Option (List String))} {a : α} {as : List α}
    {ids ids' : List String} {t t' : Table BridgeStream} {m m' n n' : ℕ}
    (h : Ends room_id w ids t m n (exec (f a) w))
    (hrest : ∀ w' : World, w'.redis = w.redis.update .bridge_stream room_id t →
      w'.oracle.readFault = w.oracle.readFault.drop m →
      w'.oracle.writeFault = w.oracle.writeFault.drop n →
      Ends room_id w' ids' t' m' n' (exec (Prog.collect f as) w')) :
    Ends room_id w (ids ++ ids') t' (m + m') (n + n') (exec (Prog.collect f (a :: as)) w) := by
  rw [Prog.collect, exec_bind]
  have hresult := h.result
  by_cases hspares : Spares w.oracle.writeFault n
  · obtain ⟨hredis, hreads, hwrites⟩ := h.effect hspares
    obtain ⟨hresult', heffect⟩ := hrest _ hredis hreads hwrites
    rw [if_pos hspares] at hresult
    rw [hresult]
    dsimp only
    rw [exec_bind]
    have hboth : Spares w.oracle.writeFault (n + n') ↔
        Spares (exec (f a) w).2.oracle.writeFault n' := by
      rw [spares_add, hwrites]
      exact and_iff_right hspares
    by_cases hspares' : Spares (exec (f a) w).2.oracle.writeFault n'
    · obtain ⟨hredis', hreads', hwrites'⟩ := heffect hspares'
      rw [if_pos hspares'] at hresult'
      rw [hresult']
      refine ⟨by rw [if_pos (hboth.mpr hspares')]; rfl, fun _ => ⟨?_, ?_, ?_⟩⟩
      · change (exec (Prog.collect f as) (exec (f a) w).2).2.redis = _
        rw [hredis', hredis, Redis.update_update]
      · change (exec (Prog.collect f as) (exec (f a) w).2).2.oracle.readFault = _
        rw [hreads', hreads, Stream'.drop_drop]
      · change (exec (Prog.collect f as) (exec (f a) w).2).2.oracle.writeFault = _
        rw [hwrites', hwrites, Stream'.drop_drop]
    · rw [if_neg hspares'] at hresult'
      rw [hresult']
      exact ⟨by rw [if_neg (mt hboth.mp hspares')]; rfl,
        fun hnot => absurd (hboth.mp hnot) hspares'⟩
  · rw [if_neg hspares] at hresult
    rw [hresult]
    have hnot : ¬ Spares w.oracle.writeFault (n + n') := fun h => hspares (spares_add.mp h).1
    exact ⟨by rw [if_neg hnot]; rfl, fun h => absurd h hnot⟩

/-- One subscriber. -/
theorem ends_dropSubscriber (room_id : String) (s : Subscriber) (w : World) :
    Ends room_id w [s.id]
      (dropAll (heardPairs [s] w.oracle.readFault) (w.redis .bridge_stream room_id))
      (if s.is_bridge then 1 else 0)
      (dropCount (heardPairs [s] w.oracle.readFault) (w.redis .bridge_stream room_id))
      (exec (dropSubscriber room_id s) w) := by
  rw [dropSubscriber, heardPairs]
  by_cases hbridge : s.is_bridge = true
  · rw [if_pos hbridge, if_pos hbridge, if_pos hbridge, exec_bind]
    by_cases hread : w.oracle.readFault.head = true
    · rw [if_pos hread, exec_removeBridgeStreamSub_unheard _ _ _ hread]
      exact Ends.idle rfl rfl rfl rfl
    · rw [if_neg hread,
        exec_removeBridgeStreamSub_heard _ _ _ (Bool.eq_false_of_not_eq_true hread)]
      by_cases hnone : find? (s.subscribe_to, s.erizo_id) (w.redis .bridge_stream room_id) = none
      · have hdrop : dropAll [pairOf s] (w.redis .bridge_stream room_id) =
            w.redis .bridge_stream room_id := drop_of_none (find?_eq_none_iff.mp hnone)
        have hcount : dropCount [pairOf s] (w.redis .bridge_stream room_id) = 0 := by
          rw [dropCount, pairOf, if_pos hnone]
          rfl
        rw [if_pos hnone, heardPairs, hdrop, hcount]
        exact Ends.idle rfl rfl rfl rfl
      · have hcount : dropCount [pairOf s] (w.redis .bridge_stream room_id) = 1 := by
          rw [dropCount, pairOf, if_neg hnone]
          rfl
        rw [if_neg hnone, heardPairs, hcount]
        refine Ends.write (fun hfault => ?_) fun hwrite => ?_
        · rw [if_pos hfault]
          rfl
        · rw [hwrite]
          exact ⟨rfl, rfl, rfl, rfl⟩
  · rw [if_neg hbridge, if_neg hbridge, if_neg hbridge]
    exact Ends.idle rfl rfl rfl rfl

/-- The loop over the subscribers. -/
theorem ends_dropSubscribers (room_id : String) (ss : List Subscriber) (w : World) :
    Ends room_id w (ss.map Subscriber.id)
      (dropAll (heardPairs ss w.oracle.readFault) (w.redis .bridge_stream room_id))
      (ss.countP Subscriber.is_bridge)
      (dropCount (heardPairs ss w.oracle.readFault) (w.redis .bridge_stream room_id))
      (exec (Prog.collect (dropSubscriber room_id) ss) w) := by
  induction ss generalizing w with
  | nil => exact Ends.idle rfl rfl rfl rfl
  | cons s ss ih =>
      rw [heardPairs_cons, dropAll_append, dropCount_append, List.countP_cons, Nat.add_comm]
      change Ends room_id w ([s.id] ++ ss.map Subscriber.id) _ _ _ _
      refine (ends_dropSubscriber room_id s w).collect_cons fun w' hredis hreads _ => ?_
      have hrest := ih w'
      rwa [hredis, Redis.update_self, hreads] at hrest

theorem heardPublishers_cons (p : Publisher) (ps : List Publisher) (faults : Stream' Bool) :
    heardPublishers (p :: ps) faults = heardPublishers [p] faults ++
      heardPublishers ps faults.tail := by
  rw [heardPublishers, heardPublishers]
  split <;> rfl

theorem unpublishAll_append (ps qs : List Publisher) (t : Table BridgeStream) :
    unpublishAll (ps ++ qs) t = unpublishAll qs (unpublishAll ps t) := List.foldl_append

theorem unpublishCount_append (ps qs : List Publisher) (t : Table BridgeStream) :
    unpublishCount (ps ++ qs) t = unpublishCount ps t + unpublishCount qs (unpublishAll ps t) := by
  induction ps generalizing t with
  | nil => exact (Nat.zero_add _).symm
  | cons p ps ih =>
      rw [List.cons_append, unpublishCount, unpublishCount, ih, Nat.add_assoc]
      rfl

/-- One publisher. -/
theorem ends_dropPublisher (room_id : String) (p : Publisher) (w : World) :
    Ends room_id w [p.id]
      (unpublishAll (heardPublishers [p] w.oracle.readFault) (w.redis .bridge_stream room_id)) 1
      (unpublishCount (heardPublishers [p] w.oracle.readFault) (w.redis .bridge_stream room_id))
      (exec (dropPublisher room_id p) w) := by
  rw [dropPublisher, heardPublishers, exec_bind]
  by_cases hread : w.oracle.readFault.head = true
  · rw [if_pos hread, exec_removeBridgeStreamPub_unheard _ _ hread]
    exact Ends.idle rfl rfl rfl rfl
  · have hheard := exec_removeBridgeStreamPub_heard room_id p (Bool.eq_false_of_not_eq_true hread)
    rw [if_neg hread]
    cases hsent : sentBridge? p (w.redis .bridge_stream room_id) with
    | none =>
        have hsame : unpublishAll [p] (w.redis .bridge_stream room_id) =
            w.redis .bridge_stream room_id := by
          rw [unpublishAll, List.foldl_cons, unpublish, hsent]
          rfl
        have hcount : unpublishCount [p] (w.redis .bridge_stream room_id) = 0 := by
          rw [unpublishCount, if_pos hsent]
          rfl
        rw [hsent] at hheard
        rw [hheard, heardPublishers, hsame, hcount]
        exact Ends.idle rfl rfl rfl rfl
    | some b =>
        have herase : unpublishAll [p] (w.redis .bridge_stream room_id) =
            (w.redis .bridge_stream room_id).erase [b.id] := by
          rw [unpublishAll, List.foldl_cons, unpublish, hsent]
          rfl
        have hcount : unpublishCount [p] (w.redis .bridge_stream room_id) = 1 := by
          rw [unpublishCount, if_neg (by rw [hsent]; exact Option.some_ne_none b)]
          rfl
        rw [hsent] at hheard
        dsimp only at hheard
        rw [hheard, heardPublishers, herase, hcount]
        refine Ends.write (fun hfault => ?_) fun hwrite => ?_
        · rw [if_pos hfault]
          rfl
        · rw [hwrite]
          exact ⟨rfl, rfl, rfl, rfl⟩

/-- The loop over the publishers. -/
theorem ends_dropPublishers (room_id : String) (ps : List Publisher) (w : World) :
    Ends room_id w (ps.map Publisher.id)
      (unpublishAll (heardPublishers ps w.oracle.readFault) (w.redis .bridge_stream room_id))
      ps.length
      (unpublishCount (heardPublishers ps w.oracle.readFault) (w.redis .bridge_stream room_id))
      (exec (Prog.collect (dropPublisher room_id) ps) w) := by
  induction ps generalizing w with
  | nil => exact Ends.idle rfl rfl rfl rfl
  | cons p ps ih =>
      rw [heardPublishers_cons p ps, unpublishAll_append, unpublishCount_append, List.length_cons,
        Nat.add_comm ps.length]
      change Ends room_id w ([p.id] ++ ps.map Publisher.id) _ _ _ _
      refine (ends_dropPublisher room_id p w).collect_cons fun w' hredis hreads _ => ?_
      have hrest := ih w'
      rwa [hredis, Redis.update_self, hreads] at hrest

end Loops

/-! ## The writes after the loops -/

/-- One of the last writes: it is left out when there is nothing to remove, and its failure
is not noticed. -/
theorem exec_unlessEmpty_faults (k : Kind) (name : String) (ids : List String) (w : World) :
    ∃ w', exec (unlessEmpty ids (RedisHelper.remove k name ids)) w = ((), w') ∧
      w'.redis = (if ids = [] ∨ w.oracle.writeFault.head = true then w.redis
        else w.redis.update k name ((w.redis k name).erase ids)) ∧
      w'.oracle.writeFault = w.oracle.writeFault.drop (if ids = [] then 0 else 1) := by
  rw [unlessEmpty]
  by_cases hids : ids = []
  · rw [if_pos hids, if_pos hids, if_pos (.inl hids)]
    exact ⟨w, rfl, rfl, rfl⟩
  · rw [if_neg hids, if_neg hids, exec_bind, RedisHelper.exec_remove]
    by_cases hfault : w.oracle.writeFault.head = true
    · rw [if_pos hfault, if_pos (.inr hfault)]
      exact ⟨_, rfl, rfl, rfl⟩
    · rw [if_neg hfault, if_neg (not_or.mpr ⟨hids, hfault⟩)]
      exact ⟨_, rfl, rfl, rfl⟩

theorem exec_remove_faults (k : Kind) (name : String) (ids : List String) (w : World) :
    (exec (RedisHelper.remove k name ids) w).2.redis =
      if w.oracle.writeFault.head = true then w.redis
      else w.redis.update k name ((w.redis k name).erase ids) := by
  rw [RedisHelper.exec_remove]
  split <;> rfl

/-- The other hashes are as they were before one of the last writes. -/
theorem ite_update_of_ne {c : Prop} [Decidable c] {r : Redis} {k k' : Kind} {name name' : String}
    {t : Table k.Rec} (h : k' ≠ k) :
    (if c then r else r.update k name t) k' name' = r k' name' := by
  split
  · rfl
  · exact Redis.update_kind r name name' t h

theorem ite_update_self {c : Prop} [Decidable c] {r : Redis} {k : Kind} {name : String}
    {t : Table k.Rec} :
    (if c then r else r.update k name t) k name = if c then r k name else t := by
  split
  · rfl
  · exact Redis.update_self r k name t

theorem exec_removeRecords (client : Client) (subscriber_ids publisher_ids : List String)
    (w : World) :
    ∃ w', exec (removeRecords client subscriber_ids publisher_ids) w = (true, w') ∧
      w'.redis .bridge_stream client.room_id = w.redis .bridge_stream client.room_id ∧
      w'.redis .subscriber client.room_id =
        (if subscriber_ids = [] ∨ w.oracle.writeFault.get 0 = true
          then w.redis .subscriber client.room_id
          else (w.redis .subscriber client.room_id).erase subscriber_ids) ∧
      w'.redis .publisher client.room_id =
        (if publisher_ids = [] ∨
            w.oracle.writeFault.get (if subscriber_ids = [] then 0 else 1) = true
          then w.redis .publisher client.room_id
          else (w.redis .publisher client.room_id).erase publisher_ids) ∧
      w'.redis .client client.room_id =
        (if w.oracle.writeFault.get ((if subscriber_ids = [] then 0 else 1) +
            if publisher_ids = [] then 0 else 1) = true
          then w.redis .client client.room_id
          else (w.redis .client client.room_id).erase [client.id]) := by
  obtain ⟨w₁, hexec₁, hredis₁, hwrites₁⟩ :=
    exec_unlessEmpty_faults .subscriber client.room_id subscriber_ids w
  obtain ⟨w₂, hexec₂, hredis₂, hwrites₂⟩ :=
    exec_unlessEmpty_faults .publisher client.room_id publisher_ids w₁
  have hexec : exec (removeRecords client subscriber_ids publisher_ids) w =
      (true, (exec (RedisHelper.remove .ec client.reply_to [client.id])
        (exec (RedisHelper.remove .client client.room_id [client.id]) w₂).2).2) := by
    rw [removeRecords, exec_bind, RedisHelper.removeSubscribers, hexec₁]
    dsimp only
    rw [exec_bind, RedisHelper.removePublishers, hexec₂]
    simp only [exec_bind, exec_pure]
    rfl
  have hfault₁ : w₁.oracle.writeFault.head =
      w.oracle.writeFault.get (if subscriber_ids = [] then 0 else 1) := by
    rw [hwrites₁]
    split <;> rfl
  have hfault₂ : w₂.oracle.writeFault.head = w.oracle.writeFault.get
      ((if subscriber_ids = [] then 0 else 1) + if publisher_ids = [] then 0 else 1) := by
    rw [hwrites₂, hwrites₁, Stream'.drop_drop]
    split <;> split <;> rfl
  refine ⟨_, hexec, ?_, ?_, ?_, ?_⟩
  · rw [exec_remove_faults, ite_update_of_ne (by decide), exec_remove_faults,
      ite_update_of_ne (by decide), hredis₂, ite_update_of_ne (by decide), hredis₁,
      ite_update_of_ne (by decide)]
  · rw [exec_remove_faults, ite_update_of_ne (by decide), exec_remove_faults,
      ite_update_of_ne (by decide), hredis₂, ite_update_of_ne (by decide), hredis₁, ite_update_self]
  · rw [exec_remove_faults, ite_update_of_ne (by decide), exec_remove_faults,
      ite_update_of_ne (by decide), hredis₂, ite_update_self, hfault₁, hredis₁,
      ite_update_of_ne (by decide)]
  · rw [exec_remove_faults, ite_update_of_ne (by decide), exec_remove_faults, ite_update_self,
      hfault₂, hredis₂, ite_update_of_ne (by decide), hredis₁, ite_update_of_ne (by decide)]

/-! ## The whole removal, with any failures -/

section Removal

variable (client : Client) (w : World)

/-- What `getAllSubscriber` and `getAllPublisher` return: nothing where the listing fails. -/
def listedSubscribers : List Subscriber :=
  if w.oracle.readFault.get 0 then [] else (w.redis .subscriber client.room_id).rows

def listedPublishers : List Publisher :=
  if w.oracle.readFault.get 1 then [] else (w.redis .publisher client.room_id).rows

/-- The entries that are visited, and the client's publishers that are. -/
def visitedListed : List Subscriber :=
  viewings client (listedSubscribers client w) (listedPublishers client w)

def ownListed : List Publisher := ownPublishers client (listedPublishers client w)

/-- The uses that are given back, and the publishers whose bridges are looked up, when the
loops run over the entries `ss` and the publishers `ps`. -/
def givenBack (ss : List Subscriber) : List (String × String) :=
  heardPairs ss (w.oracle.readFault.drop 2)

def lookedUp (ss : List Subscriber) (ps : List Publisher) : List Publisher :=
  heardPublishers ps (w.oracle.readFault.drop (2 + ss.countP Subscriber.is_bridge))

/-- The number of bridges that the loops write. -/
def bridgeWriteCount (ss : List Subscriber) (ps : List Publisher) : ℕ :=
  dropCount (givenBack w ss) (w.redis .bridge_stream client.room_id) +
    unpublishCount (lookedUp w ss ps)
      (dropAll (givenBack w ss) (w.redis .bridge_stream client.room_id))

/-- The bridges after the loops. -/
def bridgesAfter (ss : List Subscriber) (ps : List Publisher) : Table BridgeStream :=
  unpublishAll (lookedUp w ss ps)
    (dropAll (givenBack w ss) (w.redis .bridge_stream client.room_id))

theorem exec_removeClientLocked_listed :
    exec (removeClientLocked client) w =
      match exec (Prog.collect (dropSubscriber client.room_id) (visitedListed client w))
          w.drawRead.drawRead with
      | (none, w') => (false, w')
      | (some subscriber_ids, w') =>
          match exec (Prog.collect (dropPublisher client.room_id) (ownListed client w)) w' with
          | (none, w'') => (false, w'')
          | (some publisher_ids, w'') =>
              exec (removeRecords client subscriber_ids publisher_ids) w'' := by
  have hsubscribers : (if w.oracle.readFault.head then []
      else (w.redis .subscriber client.room_id).rows.filter fun _ => true) =
        listedSubscribers client w := by
    rw [List.filter_true]
    rfl
  have hpublishers : (if w.drawRead.oracle.readFault.head then []
      else (w.drawRead.redis .publisher client.room_id).rows.filter fun _ => true) =
        listedPublishers client w := by
    rw [List.filter_true]
    rfl
  rw [removeClientLocked, exec_bind, RedisHelper.getAllSubscriber, RedisHelper.exec_getAll,
    hsubscribers]
  dsimp only
  rw [exec_bind, RedisHelper.getAllPublisher, RedisHelper.exec_getAll, hpublishers]
  dsimp only
  have hvisited : viewings client (listedSubscribers client w) (listedPublishers client w) =
      visitedListed client w := rfl
  have hown : ownPublishers client (listedPublishers client w) = ownListed client w := rfl
  rw [exec_bind, collect_visitSubscriber, collect_visitPublisher, hvisited, hown]
  rcases exec (Prog.collect (dropSubscriber client.room_id) (visitedListed client w))
    w.drawRead.drawRead with ⟨_ | subscriber_ids, w'⟩
  · rfl
  · dsimp only
    rw [exec_bind]
    rcases exec (Prog.collect (dropPublisher client.room_id) (ownListed client w)) w' with
      ⟨_ | publisher_ids, w''⟩ <;> rfl

variable {client w}

/-- The loops leave the client alone. -/
theorem client_of_dropSubscribers (client : Client) (ss : List Subscriber) (w : World) :
    (exec (Prog.collect (dropSubscriber client.room_id) ss) w).2.redis .client client.room_id =
      w.redis .client client.room_id :=
  exec_within_frame (Each.collect fun s _ => each_dropSubscriber client.room_id s)
    (.inl (by simp)) w

theorem client_of_dropPublishers (client : Client) (ps : List Publisher) (w : World) :
    (exec (Prog.collect (dropPublisher client.room_id) ps) w).2.redis .client client.room_id =
      w.redis .client client.room_id :=
  exec_within_frame (Each.collect fun p _ => each_dropPublisher client.room_id p)
    (.inl (by simp)) w

/-- A removal that fails to write a bridge leaves the client where it is, and any other one
comes to its last writes. -/
theorem removeClientLocked_cases (client : Client) (w : World) :
    ¬ Spares w.oracle.writeFault
        (bridgeWriteCount client w (visitedListed client w) (ownListed client w)) ∧
      (exec (removeClientLocked client) w).2.redis .client client.room_id =
        w.redis .client client.room_id ∨
    Spares w.oracle.writeFault
        (bridgeWriteCount client w (visitedListed client w) (ownListed client w)) ∧
      ∃ w', exec (removeClientLocked client) w =
          exec (removeRecords client ((visitedListed client w).map Subscriber.id)
            ((ownListed client w).map Publisher.id)) w' ∧
        w'.redis = w.redis.update .bridge_stream client.room_id
          (bridgesAfter client w (visitedListed client w) (ownListed client w)) ∧
        w'.oracle.writeFault = w.oracle.writeFault.drop
          (bridgeWriteCount client w (visitedListed client w) (ownListed client w)) := by
  rw [exec_removeClientLocked_listed, bridgeWriteCount, spares_add]
  have hends := ends_dropSubscribers client.room_id (visitedListed client w)
    w.drawRead.drawRead
  have hclient := client_of_dropSubscribers client (visitedListed client w)
    w.drawRead.drawRead
  obtain ⟨hresult, heffect⟩ := hends
  generalize exec (Prog.collect (dropSubscriber client.room_id) (visitedListed client w))
    w.drawRead.drawRead = r at hresult heffect hclient
  obtain ⟨ids, w₁⟩ := r
  change ids = if Spares w.oracle.writeFault (dropCount (givenBack w (visitedListed client w))
    (w.redis .bridge_stream client.room_id)) then _ else none at hresult
  change Spares w.oracle.writeFault _ → w₁.redis = w.redis.update .bridge_stream client.room_id
    (dropAll (givenBack w (visitedListed client w)) (w.redis .bridge_stream client.room_id)) ∧
    w₁.oracle.readFault = (w.oracle.readFault.drop 2).drop _ ∧
    w₁.oracle.writeFault =
      w.oracle.writeFault.drop (dropCount (givenBack w (visitedListed client w))
      (w.redis .bridge_stream client.room_id)) at heffect
  by_cases hfirst : Spares w.oracle.writeFault (dropCount (givenBack w (visitedListed client w))
    (w.redis .bridge_stream client.room_id))
  · rw [if_pos hfirst] at hresult
    subst hresult
    obtain ⟨hredis, hreads, hwrites⟩ := heffect hfirst
    obtain ⟨hresult, heffect⟩ := ends_dropPublishers client.room_id
      (ownListed client w) w₁
    have hclient₂ := client_of_dropPublishers client (ownListed client w) w₁
    rw [hreads, Stream'.drop_drop, hwrites, hredis, Redis.update_self] at hresult heffect
    dsimp only
    generalize exec (Prog.collect (dropPublisher client.room_id) (ownListed client w)) w₁ = r
      at hresult heffect hclient₂
    obtain ⟨ids, w₂⟩ := r
    change ids = if Spares _ (unpublishCount (lookedUp w _ _) _) then _ else none at hresult
    change Spares _ (unpublishCount (lookedUp w _ _) _) → _ at heffect
    by_cases hsecond : Spares (w.oracle.writeFault.drop
        (dropCount (givenBack w (visitedListed client w)) (w.redis .bridge_stream client.room_id)))
      (unpublishCount (lookedUp w (visitedListed client w) (ownListed client w))
        (dropAll (givenBack w (visitedListed client w)) (w.redis .bridge_stream client.room_id)))
    · rw [if_pos hsecond] at hresult
      subst hresult
      obtain ⟨hredis₂, -, hwrites₂⟩ := heffect hsecond
      refine .inr ⟨⟨hfirst, hsecond⟩, w₂, rfl, ?_, ?_⟩
      · change w₂.redis = _ at hredis₂
        rw [hredis₂, Redis.update_update]
        rfl
      · change w₂.oracle.writeFault = _ at hwrites₂
        rw [hwrites₂, Stream'.drop_drop]
        rfl
    · rw [if_neg hsecond] at hresult
      subst hresult
      refine .inl ⟨fun h => hsecond h.2, ?_⟩
      exact hclient₂.trans hclient
  · rw [if_neg hfirst] at hresult
    subst hresult
    exact .inl ⟨fun h => hfirst h.1, hclient⟩

end Removal

/-! ## What is left behind -/

/-- Nothing of the client is left in `r'`: none of its publishers, no subscriber that was to
go with it, and no bridge of its streams. -/
structure NothingLeft (client : Client) (r r' : Redis) : Prop where
  publishers : ∀ p ∈ r' .publisher client.room_id, p.client_id ≠ client.id
  subscribers : ∀ s ∈ r' .subscriber client.room_id,
    ¬ Leaves client (r .publisher client.room_id).rows s
  bridges : ∀ p ∈ published client r, ∀ b ∈ r' .bridge_stream client.room_id,
    b.src_stream_id ≠ p.id

/-- The record of the client is there before, and not after. -/
def Forgotten (client : Client) (r r' : Redis) : Prop :=
  (∃ c ∈ r .client client.room_id, c.id = client.id) ∧
    ¬ ∃ c ∈ r' .client client.room_id, c.id = client.id

/-- The record is there and the removal gets to delete it: no write of a bridge fails, nor
the write of the record itself. -/
def RecordRemoved (client : Client) (w : World) : Prop :=
  (∃ c ∈ w.redis .client client.room_id, c.id = client.id) ∧
  Spares w.oracle.writeFault
    (bridgeWriteCount client w (visitedListed client w) (ownListed client w)) ∧
  w.oracle.writeFault.get (bridgeWriteCount client w (visitedListed client w) (ownListed client w) +
    ((if visitedListed client w = [] then 0 else 1) + if ownListed client w = [] then 0 else 1)) =
      false

/-- The bridge outlives the uses that are given back. -/
def Outlives (client : Client) (w : World) (b : BridgeStream) : Prop :=
  b ∈ leftover ((givenBack w (visited client w.redis)).count (Counted.pair b))
    (rowsOf (Counted.pair b) (w.redis .bridge_stream client.room_id))

instance (client : Client) (w : World) (b : BridgeStream) : Decidable (Outlives client w b) :=
  inferInstanceAs (Decidable (b ∈ _))

/-- Nothing that the removal needs fails without being noticed: the publishers and the
subscribers are listed and removed where there are any to remove, and no bridge of a stream
outlives the uses that are given back but for the one that goes with the publisher. -/
structure NothingSwallowed (client : Client) (w : World) : Prop where
  publishers : published client w.redis ≠ [] → w.oracle.readFault.get 1 = false ∧
    w.oracle.writeFault.get (bridgeWriteCount client w (visited client w.redis)
      (published client w.redis) + if visited client w.redis = [] then 0 else 1) = false
  subscribers : visited client w.redis ≠ [] → w.oracle.readFault.get 0 = false ∧
    w.oracle.writeFault.get (bridgeWriteCount client w (visited client w.redis)
      (published client w.redis)) = false
  bridges : ∀ p ∈ published client w.redis, ∀ b, Outlives client w b → b.src_stream_id = p.id →
    b.sender_erizo_id = p.erizo_id ∧
    p ∈ lookedUp w (visited client w.redis) (published client w.redis) ∧
    ∀ b', Outlives client w b' → b'.src_stream_id = p.id → b' = b

section Left

variable {client : Client} {w : World}

/-- A visit only looks at the client's publishers. -/
theorem viewings_ownPublishers (client : Client) (subscribers : List Subscriber)
    (publishers : List Publisher) :
    viewings client subscribers (ownPublishers client publishers) =
      viewings client subscribers publishers := by
  rw [viewings, viewings]
  refine congrArg (List.flatMap · subscribers) (funext fun s => ?_)
  rw [viewingsOf, viewingsOf, ownPublishers, List.filter_filter]
  refine congrArg (fun ps => List.map (fun _ => s) ps ++ _) (List.filter_congr fun p _ => ?_)
  by_cases h : p.client_id = client.id <;> simp [h]

theorem ownListed_eq (h : published client w.redis ≠ [] → w.oracle.readFault.get 1 = false) :
    ownListed client w = published client w.redis := by
  rw [ownListed, listedPublishers]
  split
  · rename_i hfault
    by_contra hne
    have hsome : published client w.redis ≠ [] := fun hnil => hne hnil.symm
    rw [h hsome] at hfault
    cases hfault
  · rfl

theorem visitedListed_eq (hp : published client w.redis ≠ [] → w.oracle.readFault.get 1 = false)
    (hs : visited client w.redis ≠ [] → w.oracle.readFault.get 0 = false) :
    visitedListed client w = visited client w.redis := by
  have hown : ownPublishers client (listedPublishers client w) = published client w.redis :=
    ownListed_eq hp
  rw [visitedListed, ← viewings_ownPublishers, hown, listedSubscribers]
  split
  · rename_i hfault
    by_contra hne
    have hsome : visited client w.redis ≠ [] := fun hnil => hne hnil.symm
    rw [hs hsome] at hfault
    cases hfault
  · exact viewings_ownPublishers _ _ _

/-- The bridges that are left after the uses are given back. -/
theorem outlives_iff {b : BridgeStream} :
    Outlives client w b ↔ b ∈ dropAll (givenBack w (visited client w.redis))
      (w.redis .bridge_stream client.room_id) := by
  rw [Outlives, ← rowsOf_dropAll, rowsOf, List.mem_filter, beq_self_eq_true, Table.mem_rows]
  exact and_iff_left rfl

theorem heardPublishers_sublist (ps : List Publisher) (faults : Stream' Bool) :
    (heardPublishers ps faults).Sublist ps := by
  induction ps generalizing faults with
  | nil => exact .slnil
  | cons p ps ih =>
      rw [heardPublishers]
      split
      · exact (ih _).cons p
      · exact (ih _).cons_cons p

theorem published_nodup (client : Client) (r : Redis) : (published client r).Nodup :=
  (r .publisher client.room_id).nodup.filter _

theorem eq_of_id_eq {r : Redis} {p q : Publisher} (hp : p ∈ published client r)
    (hq : q ∈ published client r) (hid : p.id = q.id) : p = q :=
  Table.eq_of_key_eq (mem_published.mp hp).1 (mem_published.mp hq).1 hid

/-- Removing the bridge of one publisher leaves no bridge of its stream exactly when it was
the only one, and is sent from the publisher's erizo. -/
theorem unpublish_left_iff {p : Publisher} {t : Table BridgeStream} :
    (∀ b ∈ unpublish p t, b.src_stream_id ≠ p.id) ↔
      ∀ b ∈ t, b.src_stream_id = p.id → b.sender_erizo_id = p.erizo_id ∧
        ∀ b' ∈ t, b'.src_stream_id = p.id → b' = b := by
  rw [unpublish]
  cases hsent : sentBridge? p t with
  | none =>
      have hnone : ∀ b ∈ t, b.src_stream_id = p.id → b.sender_erizo_id ≠ p.erizo_id := by
        intro b hb hsrc hsender
        refine List.find?_eq_none.mp hsent b hb ?_
        exact Bool.and_eq_true_iff.mpr ⟨beq_iff_eq.mpr hsrc, beq_iff_eq.mpr hsender⟩
      constructor
      · exact fun h b hb hsrc => absurd hsrc (h b hb)
      · exact fun h b hb hsrc => hnone b hb hsrc (h b hb hsrc).1
  | some b₀ =>
      have hb₀ : b₀ ∈ t := List.mem_of_find?_eq_some hsent
      have htest := List.find?_some hsent
      obtain ⟨hsrc₀, hsender₀⟩ := Bool.and_eq_true_iff.mp htest
      have hsrc₀ : b₀.src_stream_id = p.id := beq_iff_eq.mp hsrc₀
      have hsender₀ : b₀.sender_erizo_id = p.erizo_id := beq_iff_eq.mp hsender₀
      constructor
      · intro h
        have honly : ∀ b ∈ t, b.src_stream_id = p.id → b = b₀ := by
          intro b hb hsrc
          by_contra hne
          refine h b (Table.mem_erase.mpr ⟨hb, ?_⟩) hsrc
          rw [List.mem_singleton]
          exact fun hid => hne (Table.eq_of_key_eq hb hb₀ hid)
        intro b hb hsrc
        obtain rfl := honly b hb hsrc
        exact ⟨hsender₀, honly⟩
      · intro h b hb hsrc
        obtain ⟨hb, hid⟩ := Table.mem_erase.mp hb
        rw [(h b hb hsrc).2 b₀ hb₀ hsrc₀] at hid
        exact hid (List.mem_singleton_self _)

theorem unpublishAll_left_iff {ps : List Publisher} {p : Publisher} {t : Table BridgeStream}
    (hnodup : ps.Nodup) (hids : ∀ q ∈ ps, q.id = p.id → q = p) :
    (∀ b ∈ unpublishAll ps t, b.src_stream_id ≠ p.id) ↔
      ∀ b ∈ t, b.src_stream_id = p.id → b.sender_erizo_id = p.erizo_id ∧ p ∈ ps ∧
        ∀ b' ∈ t, b'.src_stream_id = p.id → b' = b := by
  -- The other publishers leave the bridges of the stream alone.
  have hothers : ∀ {ps : List Publisher} {t : Table BridgeStream},
      (∀ q ∈ ps, q.id ≠ p.id) → ∀ b, b.src_stream_id = p.id →
        (b ∈ unpublishAll ps t ↔ b ∈ t) := by
    intro ps t hne b hsrc
    exact ⟨mem_of_mem_unpublishAll, fun hb => mem_unpublishAll hb fun q hq heq =>
      hne q hq (heq.symm.trans hsrc)⟩
  by_cases hp : p ∈ ps
  · obtain ⟨before, after, rfl⟩ := List.append_of_mem hp
    rw [List.nodup_append, List.nodup_cons] at hnodup
    obtain ⟨-, ⟨hafter, -⟩, hdisjoint⟩ := hnodup
    have hbefore : ∀ q ∈ before, q.id ≠ p.id := fun q hq hid =>
      hdisjoint q hq p List.mem_cons_self (hids q (List.mem_append_left _ hq) hid)
    have hafter' : ∀ q ∈ after, q.id ≠ p.id := fun q hq hid =>
      hafter (hids q (List.mem_append_right _ (List.mem_cons_of_mem _ hq)) hid ▸ hq)
    have hrows : ∀ b, b.src_stream_id = p.id →
        (b ∈ unpublishAll (before ++ p :: after) t ↔ b ∈ unpublish p (unpublishAll before t)) := by
      intro b hsrc
      rw [unpublishAll_append]
      exact hothers hafter' b hsrc
    have hleft : (∀ b ∈ unpublishAll (before ++ p :: after) t, b.src_stream_id ≠ p.id) ↔
        ∀ b ∈ unpublish p (unpublishAll before t), b.src_stream_id ≠ p.id :=
      ⟨fun h b hb hsrc => h b ((hrows b hsrc).mpr hb) hsrc,
        fun h b hb hsrc => h b ((hrows b hsrc).mp hb) hsrc⟩
    rw [hleft, unpublish_left_iff]
    constructor
    · intro h b hb hsrc
      obtain ⟨hsender, honly⟩ := h b ((hothers hbefore b hsrc).mpr hb) hsrc
      exact ⟨hsender, hp, fun b' hb' hsrc' => honly b' ((hothers hbefore b' hsrc').mpr hb') hsrc'⟩
    · intro h b hb hsrc
      obtain ⟨hsender, -, honly⟩ := h b ((hothers hbefore b hsrc).mp hb) hsrc
      exact ⟨hsender, fun b' hb' hsrc' => honly b' ((hothers hbefore b' hsrc').mp hb') hsrc'⟩
  · have hne : ∀ q ∈ ps, q.id ≠ p.id := fun q hq hid => hp (hids q hq hid ▸ hq)
    constructor
    · exact fun h b hb hsrc => absurd hsrc (h b ((hothers hne b hsrc).mpr hb))
    · exact fun h b hb hsrc => hp (h b ((hothers hne b hsrc).mp hb) hsrc).2.1

/-- The record goes exactly when the removal gets to delete it. -/
theorem forgotten_iff :
    Forgotten client w.redis (exec (removeClientLocked client) w).2.redis ↔
      RecordRemoved client w := by
  refine and_congr_right fun hstored => ?_
  rcases removeClientLocked_cases client w with ⟨hstops, hclient⟩ | ⟨hends, w', hexec,
    hredis, hwrites⟩
  · refine iff_of_false (fun h => h ?_) fun h => hstops h.1
    rwa [hclient]
  · obtain ⟨w'', hrecords, -, -, -, hclient⟩ := exec_removeRecords client
      ((visitedListed client w).map Subscriber.id) ((ownListed client w).map Publisher.id) w'
    rw [hexec, hrecords, hclient, hwrites, hredis]
    simp only [List.map_eq_nil_iff, Stream'.get_drop]
    rw [and_iff_right hends]
    have hsame : (w.redis.update .bridge_stream client.room_id (bridgesAfter client w
        (visitedListed client w) (ownListed client w))) .client client.room_id =
        w.redis .client client.room_id := Redis.update_kind _ _ _ _ (by decide)
    rw [hsame]
    by_cases hfault : w.oracle.writeFault.get
        (bridgeWriteCount client w (visitedListed client w) (ownListed client w) +
          ((if visitedListed client w = [] then 0 else 1) + if ownListed client w =
            [] then 0 else 1)) =
        true
    · rw [if_pos hfault, hfault]
      exact iff_of_false (fun h => h hstored) Bool.noConfusion
    · rw [if_neg hfault]
      refine iff_of_true ?_ (Bool.eq_false_of_not_eq_true hfault)
      rintro ⟨c, hc, hid⟩
      exact (Table.mem_erase.mp hc).2 (List.mem_singleton.mpr hid)

/-- The hashes after a removal that comes to its end. -/
theorem tables_of_spares (hends : Spares w.oracle.writeFault
      (bridgeWriteCount client w (visitedListed client w) (ownListed client w))) :
    (exec (removeClientLocked client) w).2.redis .bridge_stream client.room_id =
      bridgesAfter client w (visitedListed client w) (ownListed client w) ∧
    (exec (removeClientLocked client) w).2.redis .subscriber client.room_id =
      (if visitedListed client w = [] ∨ w.oracle.writeFault.get
          (bridgeWriteCount client w (visitedListed client w) (ownListed client w)) = true
        then w.redis .subscriber client.room_id
        else (w.redis .subscriber client.room_id).erase
          ((visitedListed client w).map Subscriber.id)) ∧
    (exec (removeClientLocked client) w).2.redis .publisher client.room_id =
      (if ownListed client w = [] ∨ w.oracle.writeFault.get
          (bridgeWriteCount client w (visitedListed client w) (ownListed client w) +
            if visitedListed client w = [] then 0 else 1) = true
        then w.redis .publisher client.room_id
        else (w.redis .publisher client.room_id).erase
          ((ownListed client w).map Publisher.id)) := by
  rcases removeClientLocked_cases client w with ⟨hstops, -⟩ | ⟨-, w', hexec, hredis, hwrites⟩
  · exact absurd hends hstops
  · obtain ⟨w'', hrecords, hbridges, hsubscribers, hpublishers, -⟩ := exec_removeRecords client
      ((visitedListed client w).map Subscriber.id) ((ownListed client w).map Publisher.id) w'
    have hsame : ∀ k, k ≠ .bridge_stream →
      w'.redis k client.room_id = w.redis k client.room_id := by
      intro k hk
      rw [hredis]
      exact Redis.update_kind _ _ _ _ hk
    rw [hexec, hrecords, hbridges, hsubscribers, hpublishers, hwrites,
      hsame .subscriber (by decide),
      hsame .publisher (by decide), hredis, Redis.update_self]
    simp only [List.map_eq_nil_iff, Stream'.get_drop, Nat.add_zero, and_self]

/-- A removal that deletes the record leaves nothing else behind exactly when no failure is
swallowed. -/
theorem nothingLeft_iff (h : RecordRemoved client w) :
    NothingLeft client w.redis (exec (removeClientLocked client) w).2.redis ↔
      NothingSwallowed client w := by
  obtain ⟨hbridges, hsubscribers, hpublishers⟩ := tables_of_spares h.2.1
  have hown : ∀ p, p ∈ published client w.redis ↔
      p ∈ w.redis .publisher client.room_id ∧ p.client_id = client.id := fun _ => mem_published
  -- What is left of the bridges, once the lists are those of the store.
  have hbridgesLeft : (∀ p ∈ published client w.redis, ∀ b ∈ bridgesAfter client w
      (visited client w.redis) (published client w.redis), b.src_stream_id ≠ p.id) ↔
      ∀ p ∈ published client w.redis, ∀ b, Outlives client w b → b.src_stream_id = p.id →
        b.sender_erizo_id = p.erizo_id ∧
        p ∈ lookedUp w (visited client w.redis) (published client w.redis) ∧
        ∀ b', Outlives client w b' → b'.src_stream_id = p.id → b' = b := by
    refine forall₂_congr fun p hp => ?_
    have hsub := heardPublishers_sublist (published client w.redis)
      (w.oracle.readFault.drop (2 + (visited client w.redis).countP Subscriber.is_bridge))
    refine (unpublishAll_left_iff ((published_nodup client w.redis).sublist hsub)
      fun q hq hid => eq_of_id_eq (hsub.subset hq) hp hid).trans ?_
    simp only [outlives_iff]
    rfl
  constructor
  · intro hleft
    have hpublisher : published client w.redis ≠ [] → w.oracle.readFault.get 1 = false ∧
        ¬ (ownListed client w = [] ∨ w.oracle.writeFault.get
          (bridgeWriteCount client w (visitedListed client w) (ownListed client w) +
            if visitedListed client w = [] then 0 else 1) = true) := by
      intro hne
      obtain ⟨p, hp⟩ := List.exists_mem_of_ne_nil _ hne
      obtain ⟨hstored, hclient⟩ := (hown p).mp hp
      have hremoved : ¬ (ownListed client w = [] ∨ w.oracle.writeFault.get
          (bridgeWriteCount client w (visitedListed client w) (ownListed client w) +
            if visitedListed client w = [] then 0 else 1) = true) := by
        intro hkept
        rw [if_pos hkept] at hpublishers
        exact hleft.publishers p (hpublishers ▸ hstored) hclient
      refine ⟨?_, hremoved⟩
      by_contra hfault
      refine hremoved (.inl ?_)
      rw [ownListed, listedPublishers, if_pos (Bool.eq_true_of_not_eq_false hfault)]
      rfl
    have hsubscriber : visited client w.redis ≠ [] → w.oracle.readFault.get 0 = false ∧
        ¬ (visitedListed client w = [] ∨ w.oracle.writeFault.get
          (bridgeWriteCount client w (visitedListed client w) (ownListed client w)) = true) := by
      intro hne
      obtain ⟨s, hs⟩ := List.exists_mem_of_ne_nil _ hne
      obtain ⟨hstored, hleaves⟩ := mem_visited.mp hs
      have hremoved : ¬ (visitedListed client w = [] ∨ w.oracle.writeFault.get
          (bridgeWriteCount client w (visitedListed client w) (ownListed client w)) = true) := by
        intro hkept
        rw [if_pos hkept] at hsubscribers
        exact hleft.subscribers s (hsubscribers ▸ hstored) hleaves
      refine ⟨?_, hremoved⟩
      by_contra hfault
      refine hremoved (.inl ?_)
      rw [visitedListed, listedSubscribers, if_pos (Bool.eq_true_of_not_eq_false hfault)]
      rfl
    have hps := ownListed_eq fun hne => (hpublisher hne).1
    have hss := visitedListed_eq (fun hne => (hpublisher hne).1) fun hne => (hsubscriber hne).1
    rw [hps, hss] at hpublisher hsubscriber hbridges
    refine ⟨fun hne => ⟨(hpublisher hne).1, ?_⟩, fun hne => ⟨(hsubscriber hne).1, ?_⟩,
      hbridgesLeft.mp fun p hp b hb => hleft.bridges p hp b (hbridges ▸ hb)⟩
    · exact Bool.eq_false_of_not_eq_true fun hfault => (hpublisher hne).2 (.inr hfault)
    · exact Bool.eq_false_of_not_eq_true fun hfault => (hsubscriber hne).2 (.inr hfault)
  · intro hall
    have hps := ownListed_eq fun hne => (hall.publishers hne).1
    have hss := visitedListed_eq (fun hne => (hall.publishers hne).1)
      fun hne => (hall.subscribers hne).1
    rw [hps, hss] at hpublishers hsubscribers hbridges
    refine ⟨fun p hp hclient => ?_, fun s hs hleaves => ?_, fun p hp b hb => ?_⟩
    · rw [hpublishers] at hp
      by_cases hkept : published client w.redis = [] ∨ w.oracle.writeFault.get
          (bridgeWriteCount client w (visited client w.redis) (published client w.redis) +
            if visited client w.redis = [] then 0 else 1) = true
      · rw [if_pos hkept] at hp
        have hne := List.ne_nil_of_mem ((hown p).mpr ⟨hp, hclient⟩)
        rw [(hall.publishers hne).2] at hkept
        exact hkept.elim hne Bool.noConfusion
      · rw [if_neg hkept] at hp
        obtain ⟨hp, hid⟩ := Table.mem_erase.mp hp
        exact hid ((key_mem_published hp).mpr hclient)
    · rw [hsubscribers] at hs
      by_cases hkept : visited client w.redis = [] ∨ w.oracle.writeFault.get
          (bridgeWriteCount client w (visited client w.redis) (published client w.redis)) = true
      · rw [if_pos hkept] at hs
        have hne := List.ne_nil_of_mem (mem_visited.mpr ⟨hs, hleaves⟩)
        rw [(hall.subscribers hne).2] at hkept
        exact hkept.elim hne Bool.noConfusion
      · rw [if_neg hkept] at hs
        obtain ⟨hs, hid⟩ := Table.mem_erase.mp hs
        exact hid ((key_mem_visited hs).mpr hleaves)
    · exact hbridgesLeft.mpr hall.bridges p hp b (hbridges ▸ hb)

end Left

/-- `removeClient` deletes the record of the client and leaves some of its streams or
subscriptions behind exactly when it swallows a failure. -/
theorem forgets_nothing_iff (client : Client) (w : World) :
    (Forgotten client w.redis (execSession (removeClient client) w).2.redis →
        NothingLeft client w.redis (execSession (removeClient client) w).2.redis) ↔
      ((tryLock client.room_id w).1 = true → RecordRemoved client w →
        NothingSwallowed client w) := by
  rw [removeClient, execSession_withLock]
  split_ifs with hlock
  · have hforgotten : Forgotten client w.redis (exec (removeClientLocked client)
        (tryLock client.room_id w).2).2.redis ↔ RecordRemoved client w :=
      forgotten_iff (w := (tryLock client.room_id w).2)
    have hswallowed : NothingSwallowed client (tryLock client.room_id w).2 ↔
        NothingSwallowed client w :=
      ⟨fun h => ⟨h.publishers, h.subscribers, h.bridges⟩,
        fun h => ⟨h.publishers, h.subscribers, h.bridges⟩⟩
    constructor
    · intro h _ hrecord
      exact hswallowed.mp ((nothingLeft_iff (w := (tryLock client.room_id w).2) hrecord).mp
        (h (hforgotten.mpr hrecord)))
    · intro h hgone
      have hrecord := hforgotten.mp hgone
      exact (nothingLeft_iff (w := (tryLock client.room_id w).2) hrecord).mpr
        (hswallowed.mpr (h hlock hrecord))
  · exact iff_of_true (fun hgone => absurd hgone.1 hgone.2) fun h => absurd h hlock

/-! A client with one stream leaves, and the listing of the publishers fails. -/

def strandedPublisher : Publisher :=
  { id := "x", client_id := "c", erizo_id := "e", bridge_ip := "", bridge_port := 0,
    agent_id := "a",
    label := "", video_ssrc := 7, audio_ssrc := 8 }

def publishingRoom : Redis :=
  (Redis.empty.update .client "room"
    ((∅ : Table Client).set { id := "c", room_id := "room" })).update
    .publisher "room" ((∅ : Table Publisher).set strandedPublisher)

theorem listing_failure_swallowed :
    ¬ ∀ (client : Client) (w : World),
      Forgotten client w.redis (execSession (removeClient client) w).2.redis →
        NothingLeft client w.redis (execSession (removeClient client) w).2.redis := by
  intro hclaim
  have hleft := hclaim { id := "c", room_id := "room" }
    (World.start publishingRoom { Oracle.quiet with readFault := fun n => n == 1 })
    ⟨⟨{ id := "c", room_id := "room" }, by decide, rfl⟩, by
      rintro ⟨c, hc, -⟩
      exact absurd (List.length_pos_of_mem hc) (by decide)⟩
  exact hleft.publishers strandedPublisher (by decide) rfl

end ErizoController
