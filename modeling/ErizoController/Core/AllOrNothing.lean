import ErizoController.Core.Subscribe

/-!
# A subscribe request that is half done

`handleSubscribe` answers null as soon as one of its commands fails. What it wrote before
stays: a subscriber whose bridge could not be written is stored and not counted.
-/

open RefCount Json
open ACLRedis (c_str)

namespace ErizoController

/-! ## What the reply promises -/

/-- One bridge of the resource went up by one, or a new one with count 1 was stored. -/
def BridgeCounted (pair : String × String) (old new : Table BridgeStream) : Prop :=
  ∃ b, new = old.set b ∧ Counted.pair b = pair ∧
    ((∃ b₀ ∈ old, b = Counted.setCount b₀ (Counted.count b₀ + 1) ∧
        Counted.count b = Counted.count b₀ + 1) ∨
      ((∀ b₀ ∈ old, b₀.id ≠ b.id) ∧ b.subscribe_count = 1))

/-- One new subscriber was stored, and counted if it is bridged. -/
def OneSubscriber (room_id : String) (w w' : World) : Prop :=
  ∃ s, w'.redis .subscriber room_id = (w.redis .subscriber room_id).set s ∧
    (∀ s₀ ∈ w.redis .subscriber room_id, s₀.id ≠ s.id) ∧
    (s.is_bridge = true → BridgeCounted (pairOf s) (w.redis .bridge_stream room_id)
      (w'.redis .bridge_stream room_id))

/-- The reply tells what was done. -/
def AllOrNothing (room_id : String) (w : World) (outcome : Value × World) : Prop :=
  (outcome.1.isNull = true → NothingDone room_id w outcome.2) ∧
    (outcome.1.isNull = false → OneSubscriber room_id w outcome.2)

theorem allOrNothing_null {room_id : String} {w w' : World} :
    AllOrNothing room_id w (.nullValue, w') ↔ NothingDone room_id w w' :=
  ⟨fun h => h.1 rfl, fun h => ⟨fun _ => h, fun hnull => Bool.noConfusion hnull⟩⟩

theorem allOrNothing_reply {room_id : String} {w w' : World} {s : Subscriber} :
    AllOrNothing room_id w (subscribeReply s, w') ↔ OneSubscriber room_id w w' :=
  ⟨fun h => h.2 rfl, fun h => ⟨fun hnull => Bool.noConfusion hnull, fun _ => h⟩⟩

/-! ## The rows that were stored -/

theorem oneSubscriber_iff {room_id : String} {w w' : World} {s : Subscriber}
    (h : w'.redis .subscriber room_id = (w.redis .subscriber room_id).set s) :
    OneSubscriber room_id w w' ↔ (∀ s₀ ∈ w.redis .subscriber room_id, s₀.id ≠ s.id) ∧
      (s.is_bridge = true → BridgeCounted (pairOf s) (w.redis .bridge_stream room_id)
        (w'.redis .bridge_stream room_id)) := by
  refine ⟨?_, fun hs => ⟨s, h, hs⟩⟩
  rintro ⟨s', hset, hnew, hcounted⟩
  obtain rfl := Table.eq_of_set_eq_set (hset.symm.trans h) fun hmem => hnew s' hmem rfl
  exact ⟨hnew, hcounted⟩

theorem bridgeCounted_set_iff {pair : String × String} {old : Table BridgeStream}
    {b : BridgeStream} :
    BridgeCounted pair old (old.set b) ↔ Counted.pair b = pair ∧
      ((∃ b₀ ∈ old, b = Counted.setCount b₀ (Counted.count b₀ + 1) ∧
          Counted.count b = Counted.count b₀ + 1) ∨
        ((∀ b₀ ∈ old, b₀.id ≠ b.id) ∧ b.subscribe_count = 1)) := by
  refine ⟨?_, fun h => ⟨b, rfl, h⟩⟩
  rintro ⟨b', hset, hpair, hcount⟩
  have hnew : b' ∉ old := by
    intro hmem
    rcases hcount with ⟨b₀, hb₀, heq, hcount⟩ | ⟨hid, -⟩
    · have hid : b'.id = b₀.id := by rw [heq]; rfl
      rw [Table.eq_of_key_eq hmem hb₀ hid] at hcount
      omega
    · exact hid b' hmem rfl
  obtain rfl := Table.eq_of_set_eq_set hset.symm hnew
  exact ⟨hpair, hcount⟩

theorem count_bump {b : BridgeStream} (h : b.subscribe_count < Int32.maxValue) :
    Counted.count (Counted.setCount b (Counted.count b + 1)) = Counted.count b + 1 := by
  have hlt : b.subscribe_count.toInt < 2 ^ 31 - 1 := Int32.lt_iff_toInt_lt.mp h
  have hle := b.subscribe_count.le_toInt
  change (Int32.ofInt (b.subscribe_count.toInt + 1)).toInt = b.subscribe_count.toInt + 1
  exact Int32.toInt_ofInt_of_le (by omega) (by omega)

/-- Bumping a stored bridge counts one more unless the count overflows. -/
theorem bridgeCounted_bump_iff {old : Table BridgeStream} {b : BridgeStream} (hb : b ∈ old) :
    BridgeCounted (Counted.pair b) old
        (old.set { b with subscribe_count := b.subscribe_count + 1 }) ↔
      b.subscribe_count < Int32.maxValue := by
  have hbump : ({ b with subscribe_count := b.subscribe_count + 1 } : BridgeStream) =
      Counted.setCount b (Counted.count b + 1) := (setCount_add b 1).symm
  rw [hbump, bridgeCounted_set_iff]
  constructor
  · rintro ⟨-, ⟨b₀, hb₀, heq, hcount⟩ | ⟨hid, -⟩⟩
    · have hid := congrArg BridgeStream.id heq
      change b.id = b₀.id at hid
      rw [← Table.eq_of_key_eq hb hb₀ hid] at hcount
      have hlimit := Counted.count_le (Counted.setCount b (Counted.count b + 1))
      rw [hcount] at hlimit
      exact Int32.lt_iff_toInt_lt.mpr (by exact Int.lt_of_add_one_le hlimit)
    · exact absurd rfl (hid b hb)
  · intro hlt
    exact ⟨rfl, .inl ⟨b, hb, rfl, count_bump hlt⟩⟩

/-- A new bridge counts one use unless its id is taken. -/
theorem bridgeCounted_new_iff {old : Table BridgeStream} {b : BridgeStream}
    (hone : b.subscribe_count = 1) :
    BridgeCounted (Counted.pair b) old (old.set b) ↔
      ∀ b₀ ∈ old, b₀.id = b.id → b₀ = { b with subscribe_count := 0 } := by
  have hcount : Counted.count b = 1 := congrArg Int32.toInt hone
  rw [bridgeCounted_set_iff]
  constructor
  · rintro ⟨-, ⟨b₁, hb₁, heq, hbump⟩ | ⟨hid, -⟩⟩ b₀ hb₀ hb₀id
    · have hid := congrArg BridgeStream.id heq
      change b.id = b₁.id at hid
      obtain rfl := Table.eq_of_key_eq hb₀ hb₁ (hb₀id.trans hid)
      have hzero : Counted.count b₀ = 0 := by omega
      rw [heq]
      change b₀ = Counted.setCount (Counted.setCount b₀ (Counted.count b₀ + 1)) 0
      rw [Counted.setCount_setCount, ← hzero, Counted.setCount_count]
    · exact absurd hb₀id (hid b₀ hb₀)
  · intro h
    refine ⟨rfl, ?_⟩
    by_cases hex : ∃ b₀ ∈ old, b₀.id = b.id
    · obtain ⟨b₀, hb₀, hid⟩ := hex
      refine .inl ⟨b₀, hb₀, ?_⟩
      rw [h b₀ hb₀ hid, hcount]
      refine ⟨?_, rfl⟩
      change b = { b with subscribe_count := 1 }
      rw [← hone]
    · exact .inr ⟨fun b₀ hb₀ hid => hex ⟨b₀, hb₀, hid⟩, hone⟩

/-! ## The condition -/

variable (self : ErizoController)

/-- The count of the bridge fits: a seen bridge can be bumped, and the id of a new one is
not taken. -/
def CountFits (w : World) (client : Client) (p : Publisher) (s : Subscriber) : Prop :=
  match seenBridge? w client.room_id s with
  | some b => b.subscribe_count < Int32.maxValue
  | none => ∀ b₀ ∈ w.redis .bridge_stream client.room_id, b₀.id = w.oracle.streamId.head →
      b₀ = { newBridgeStream client p s.subscribe_to w.oracle.streamId.head with
        subscribe_count := 0 }

/-- Storing the subscriber `s` ends well: no later command fails (or `s` was there
already), its id is not taken and the count of its bridge fits. -/
def StoresWhole (w : World) (client : Client) (p : Publisher) (s : Subscriber) : Prop :=
  if s.is_bridge = true ∧ SetUpFails (stored w client.room_id s) client.room_id s then
    s ∈ w.redis .subscriber client.room_id
  else
    (∀ s₀ ∈ w.redis .subscriber client.room_id, s₀.id ≠ s.id) ∧
      (s.is_bridge = true → CountFits (stored w client.room_id s) client p s)

/-- A request that comes to store its subscriber ends well. -/
def SubscribesWhole (client : Client) (root : Value) (w : World) : Prop :=
  ∀ stream_id p, root.string? "streamId" = some stream_id → w.oracle.lockTaken.head = true →
    readPublisher? w client.room_id stream_id = some p → Publisher.Known p →
    w.oracle.writeFault.head = false →
    StoresWhole w client p (self.subscriberOf w client p stream_id)

theorem bridgeCounted_countedBridge_iff {w : World} {client : Client} {p : Publisher}
    {s : Subscriber} (herizo : s.erizo_id = client.erizo_id) :
    BridgeCounted (pairOf s) (w.redis .bridge_stream client.room_id)
        ((w.redis .bridge_stream client.room_id).set (countedBridge w client p s)) ↔
      CountFits w client p s := by
  rw [countedBridge, CountFits]
  cases hseen : seenBridge? w client.room_id s with
  | some b =>
      rw [seenBridge?] at hseen
      split at hseen
      · cases hseen
      · obtain ⟨hb, hpair⟩ := find?_some hseen
        rw [← hpair]
        exact bridgeCounted_bump_iff hb
  | none =>
      have hpair : pairOf s = Counted.pair
          (newBridgeStream client p s.subscribe_to w.oracle.streamId.head) :=
        congrArg (Prod.mk s.subscribe_to) herizo
      rw [hpair]
      exact bridgeCounted_new_iff rfl

/-! ## One try -/

section SubscribeLocked

variable {self} {w : World} {client : Client} {stream_id : String} {p : Publisher}

theorem stored_of_mem {room_id : String} {s : Subscriber}
    (h : s ∈ w.redis .subscriber room_id) : (stored w room_id s).redis = w.redis := by
  rw [stored, World.effect_redis, Table.set_of_mem h, Redis.update_eq_self]

/-- A try that stores its subscriber keeps the promise exactly when it ends well. -/
theorem allOrNothing_subscribeLocked_iff
    (h : readPublisher? w client.room_id stream_id = some p) (hp : Publisher.Known p)
    (hfault : w.oracle.writeFault.head = false) :
    ∃ reply w', exec (self.subscribeLocked client stream_id) w = (some reply, w') ∧
      (AllOrNothing client.room_id w (reply, w') ↔
        StoresWhole w client p (self.subscriberOf w client p stream_id)) := by
  rw [exec_subscribeLocked_stored h hp hfault, StoresWhole]
  generalize hs : self.subscriberOf w client p stream_id = s
  have herizo : s.erizo_id = client.erizo_id := by rw [← hs]; rfl
  have hto : s.subscribe_to = stream_id := by rw [← hs]; rfl
  have hsubscriber : (stored w client.room_id s).redis .subscriber client.room_id =
      (w.redis .subscriber client.room_id).set s := by simp [stored]
  have hbridges : (stored w client.room_id s).redis .bridge_stream client.room_id =
      w.redis .bridge_stream client.room_id := by simp [stored]
  by_cases hbridge : s.is_bridge = true
  · rw [if_pos hbridge]
    by_cases hfails : SetUpFails (stored w client.room_id s) client.room_id s
    · obtain ⟨w', hexec, hredis, houtbox⟩ := exec_setUpBridge_fails (p := p) hfails
      rw [hexec, if_pos ⟨hbridge, hfails⟩]
      refine ⟨_, _, rfl, allOrNothing_null.trans ⟨fun hnothing => ?_, fun hmem => ?_⟩⟩
      · have hsame := hnothing.subscriber
        rw [hredis, hsubscriber] at hsame
        exact Table.set_eq_self_iff.mp hsame
      · refine .of_eq (hredis.trans (stored_of_mem hmem)) (houtbox.trans ?_)
        exact List.append_nil _
    · have hpublisher : ((stored w client.room_id s).redis .publisher client.room_id).get?
          (c_str s.subscribe_to) = some p := by
        rw [readPublisher?] at h
        split at h
        · cases h
        · simpa [stored, hto] using h
      obtain ⟨w', hexec, hredis, -⟩ := exec_setUpBridge_succeeds hfails hpublisher
      rw [hexec, if_neg fun hboth => hfails hboth.2]
      refine ⟨_, _, rfl, allOrNothing_reply.trans ?_⟩
      rw [oneSubscriber_iff (s := s) (by simp [hredis, hsubscriber])]
      refine and_congr_right fun _ => imp_congr_right fun _ => ?_
      rw [← bridgeCounted_countedBridge_iff herizo, hbridges]
      simp [hredis, hbridges]
  · rw [if_neg hbridge, if_neg fun hboth => hbridge hboth.1]
    refine ⟨_, _, rfl, allOrNothing_reply.trans ?_⟩
    rw [oneSubscriber_iff (s := s) (by simp [hsubscriber])]
    exact and_congr_right fun _ => imp_congr_left (iff_of_false hbridge hbridge) |>.trans
      ⟨fun _ h => absurd h hbridge, fun _ h => absurd h hbridge⟩

end SubscribeLocked

/-! ## The whole request -/

section HandleSubscribe

variable {self} {w : World} {client : Client} {stream_id : String}

theorem execSession_subscribeTry (again : Session Value) :
    execSession (self.subscribeTry client stream_id again) w =
      if w.oracle.lockTaken.head then
        match exec (self.subscribeLocked client stream_id) (tryLock client.room_id w).2 with
        | (none, w') => execSession again w'
        | (some reply, w') => (reply, w')
      else (.nullValue, (tryLock client.room_id w).2) := by
  rw [subscribeTry, execSession_bind, execSession_withLock]
  by_cases htaken : w.oracle.lockTaken.head = true
  · rw [if_pos htaken, if_pos (show (tryLock client.room_id w).1 = true from htaken)]
    cases hexec : exec (self.subscribeLocked client stream_id) (tryLock client.room_id w).2 with
    | mk result w' =>
        cases result with
        | none => rfl
        | some reply => rfl
  · rw [if_neg htaken, if_neg (show ¬ (tryLock client.room_id w).1 = true from htaken)]
    rfl

/-- The attempt to lock stores and sends nothing. -/
theorem allOrNothing_tryLock {room_id : String} {outcome : Value × World} :
    AllOrNothing room_id (tryLock room_id w).2 outcome ↔ AllOrNothing room_id w outcome := by
  refine and_congr_left fun _ => imp_congr_right fun _ => ?_
  exact ⟨fun ⟨hs, hb, hp, ho⟩ => ⟨hs, hb, hp, ho⟩, fun ⟨hs, hb, hp, ho⟩ => ⟨hs, hb, hp, ho⟩⟩

/-- While the SSRCs are not known every try ends with nothing done. -/
theorem execSession_subscribeTries_unknown
    (h : ∀ p, (w.redis .publisher client.room_id).get? (c_str stream_id) = some p →
      ¬ Publisher.Known p) (try_time : ℕ) :
    ∃ w', execSession (self.subscribeTries client stream_id try_time) w = (.nullValue, w') ∧
      w'.redis = w.redis ∧ w'.outbox = w.outbox := by
  have htry : ∀ (w : World) (again : Session Value),
      (∀ p, (w.redis .publisher client.room_id).get? (c_str stream_id) = some p →
        ¬ Publisher.Known p) →
      (∀ w', w'.redis = w.redis → ∃ w'', execSession again w' = (.nullValue, w'') ∧
        w''.redis = w'.redis ∧ w''.outbox = w'.outbox) →
      ∃ w', execSession (self.subscribeTry client stream_id again) w = (.nullValue, w') ∧
        w'.redis = w.redis ∧ w'.outbox = w.outbox := by
    intro w again h hagain
    rw [execSession_subscribeTry]
    split
    · cases hread : readPublisher? (tryLock client.room_id w).2 client.room_id stream_id with
      | none =>
          rw [exec_subscribeLocked_missing hread]
          exact ⟨_, rfl, rfl, rfl⟩
      | some p =>
          have hp : ¬ Publisher.Known p := by
            rw [readPublisher?] at hread
            split at hread
            · cases hread
            · exact h p hread
          rw [exec_subscribeLocked_unknown hread hp]
          exact hagain _ rfl
    · exact ⟨_, rfl, rfl, rfl⟩
  induction try_time generalizing w with
  | zero => exact htry w _ h fun w' _ => ⟨w', rfl, rfl, rfl⟩
  | succ try_time ih =>
      refine htry w _ h fun w' hredis => ih fun p hp => h p ?_
      rwa [hredis] at hp

end HandleSubscribe

/-- `handleSubscribe` is all or nothing exactly when the request ends well. -/
theorem allOrNothing_iff (client : Client) (root : Value) (w : World) :
    AllOrNothing client.room_id w (execSession (self.handleSubscribe client root) w) ↔
      self.SubscribesWhole client root w := by
  have hnothing : ∀ outcome : Value × World, outcome.1 = .nullValue →
      outcome.2.redis = w.redis → outcome.2.outbox = w.outbox →
      AllOrNothing client.room_id w outcome := by
    rintro ⟨reply, w'⟩ rfl hredis houtbox
    exact allOrNothing_null.mpr (.of_eq hredis houtbox)
  rw [handleSubscribe]
  cases hid : root.string? "streamId" with
  | none =>
      refine iff_of_true (hnothing _ rfl rfl rfl) fun stream_id p hsome => ?_
      cases hid.symm.trans hsome
  | some stream_id =>
      change AllOrNothing client.room_id w
        (execSession (self.subscribeTry client stream_id (self.subscribeTries client stream_id 9))
          w) ↔ _
      rw [execSession_subscribeTry]
      by_cases htaken : w.oracle.lockTaken.head = true
      · have hcondition : self.SubscribesWhole client root w ↔
            ∀ p, readPublisher? (tryLock client.room_id w).2 client.room_id stream_id = some p →
              Publisher.Known p → w.oracle.writeFault.head = false →
              StoresWhole w client p (self.subscriberOf w client p stream_id) := by
          constructor
          · exact fun h p hread => h stream_id p hid htaken hread
          · intro h stream_id' p hid' _ hread
            obtain rfl := Option.some.inj (hid.symm.trans hid')
            exact h p hread
        rw [if_pos htaken, hcondition]
        cases hread : readPublisher? (tryLock client.room_id w).2 client.room_id stream_id with
        | none =>
            rw [exec_subscribeLocked_missing hread]
            exact iff_of_true (hnothing _ rfl rfl rfl) fun p hsome => by cases hsome
        | some p =>
            by_cases hp : Publisher.Known p
            · by_cases hfault : w.oracle.writeFault.head = true
              · rw [exec_subscribeLocked_fault hread hp hfault]
                refine iff_of_true (hnothing _ rfl rfl rfl) fun _ _ _ hwrites => ?_
                cases hfault.symm.trans hwrites
              · have hwrites := Bool.eq_false_of_not_eq_true hfault
                obtain ⟨reply, w', hexec, hiff⟩ :
                    ∃ reply w', exec (self.subscribeLocked client stream_id) _ = (some reply, w') ∧
                      (_ ↔ _) := allOrNothing_subscribeLocked_iff hread hp hwrites
                rw [hexec]
                refine (allOrNothing_tryLock.symm.trans hiff).trans ?_
                constructor
                · intro h p' hp' _ _
                  obtain rfl := Option.some.inj hp'
                  exact h
                · exact fun h => h p rfl hp hwrites
            · rw [exec_subscribeLocked_unknown hread hp]
              have hunknown : ∀ p',
                  ((tryLock client.room_id w).2.drawRead.redis .publisher client.room_id).get?
                    (c_str stream_id) = some p' → ¬ Publisher.Known p' := by
                intro p' hp'
                rw [readPublisher?] at hread
                split at hread
                · cases hread
                · rwa [Option.some.inj (hp'.symm.trans hread)]
              obtain ⟨w', hexec, hredis, houtbox⟩ :
                  ∃ w', execSession (self.subscribeTries client stream_id 9)
                    (tryLock client.room_id w).2.drawRead = (.nullValue, w') ∧
                    w'.redis = w.redis ∧ w'.outbox = w.outbox :=
                execSession_subscribeTries_unknown hunknown 9
              refine iff_of_true (hnothing _ (congrArg Prod.fst hexec) ?_ ?_) ?_
              · exact (congrArg (fun o : Value × World => o.2.redis) hexec).trans hredis
              · exact (congrArg (fun o : Value × World => o.2.outbox) hexec).trans houtbox
              · intro p' hp' hknown
                obtain rfl := Option.some.inj hp'
                exact absurd hknown hp
      · rw [if_neg htaken]
        exact iff_of_true (hnothing _ rfl rfl rfl) fun _ _ _ hlock => absurd hlock htaken

/-! A room with one stream, published from another agent than the client's. -/

def samplePublisher : Publisher where
  id := "p"
  client_id := "a"
  erizo_id := "e1"
  bridge_ip := "10.0.0.1"
  bridge_port := 1
  agent_id := "a1"
  label := "l"
  video_ssrc := 7
  audio_ssrc := 8

/-- The update of the bridge fails: the reply is null, and the subscriber stays. -/
theorem subscribe_half_done :
    ¬ ∀ (self : ErizoController) (client : Client) (root : Value) (w : World),
      AllOrNothing client.room_id w (execSession (self.handleSubscribe client root) w) := by
  intro h
  have hsame := ((h (.ofId "ec")
    { id := "c", room_id := "room", agent_id := "a2", erizo_id := "e2" }
    (.objectValue [("streamId", .stringValue "p")])
    (.failing (Redis.empty.update .publisher "room" ((∅ : Table Publisher).set samplePublisher))
      1)).1 (by decide)).subscriber
  exact absurd hsame (by decide)

end ErizoController
