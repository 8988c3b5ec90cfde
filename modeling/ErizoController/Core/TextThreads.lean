import ErizoController.Core.PlainJobs
import ErizoController.Core.RoomLocks

/-!
# The handlers on the texts

The threads of the controllers on the texts in Redis, with the locks of the rooms taken by
`RedisLocker::lock`. As long as the jobs are given strings without a NUL, no record that was
filed is dropped and no `fromJSON` throws, and every run of these threads is a run of the
threads on tables of records; so what was shown of simple locks and tables holds of what is
read from the texts. The keys of the locks are apart from the hashes of the rooms.
-/

open Json Locked RedisLocker
open ACLRedis (Plain)

namespace TextStore

open ErizoController

/-! ## Runs -/

/-- Texts of no record at all, with plain strings to come. -/
structure Starts (t : TextWorld) : Prop where
  db : t.db = fun _ => none
  empty : ∀ (h : Hash) (name : String), t.world.redis h.kind name = ∅
  agents : ∀ area, ∀ agent ∈ t.world.redis .erizo_agent area, Plain agent.id
  ids : ∀ n, Plain (t.world.oracle.streamId.get n)
  replies : ∀ n, PlainMembers (t.world.oracle.rpcReply.get n)
  kept : t.thrown = false

/-- The threads of any number of controllers on the texts of one Redis, with the locks of the
rooms taken by `RedisLocker::lock`. -/
def textThreads (jsoncpp : Jsoncpp) (T : Type) [DecidableEq T] (redis_lock_timeout : Fin (2 ^ 31))
    (redis_lock_try_time : ℤ) (init : TextWorld → Prop) :
    Machine (LockAction T Job) (LockPool Command Command.Reply String T TextWorld) :=
  lockMachine (performText jsoncpp) Job.script redis_lock_timeout redis_lock_try_time init

/-- A job that is started is given plain strings. -/
def PlainAction {T : Type} : LockAction T Job → Prop
  | .start _ job => PlainJob job
  | _ => True

/-- The threads on tables before anything is stored. -/
def tablesOf {T : Type} (t : LockPool Command Command.Reply String T TextWorld) :
    LockPool Command Command.Reply String T World where
  shared := t.shared.world
  clock := t.clock
  key := t.key
  thread := t.thread

/-- The threads on texts stand where those on tables stand: they have the same left to do, the
same lock keys and the same clock, nothing was thrown, each listing of the texts is that of the
tables, and the rest of the world is the same. -/
structure ReadsLike {T : Type} (jsoncpp : Jsoncpp)
    (s : LockPool Command Command.Reply String T World)
    (t : LockPool Command Command.Reply String T TextWorld) : Prop where
  thread : s.thread = t.thread
  key : s.key = t.key
  clock : s.clock = t.clock
  world : s.shared = { t.shared.world with redis := s.shared.redis }
  reads : ReadsAs jsoncpp t.shared.db s.shared.redis
  kept : t.shared.thrown = false

/-- Every room is read with fewer than `2 ^ 31` subscribers. -/
def FewRead (jsoncpp : Jsoncpp) (db : Redis.Keyspace) : Prop :=
  ∀ room_id subscribers, Plain room_id →
    getAllSubscriber jsoncpp room_id db = .reads subscribers → subscribers.length < 2 ^ 31

/-- The bridges count their subscribers, as both are read from the texts. -/
structure CountsRead (subscribers : List Subscriber) (bridge_streams : List BridgeStream) :
    Prop where
  count : ∀ b ∈ bridge_streams, 1 ≤ b.subscribe_count.toInt ∧
    b.subscribe_count.toInt = subscribers.countP fun s =>
      s.is_bridge ∧ s.subscribe_to = b.src_stream_id ∧ s.erizo_id = b.recver_erizo_id
  unique : ∀ b ∈ bridge_streams, ∀ b' ∈ bridge_streams,
    b.src_stream_id = b'.src_stream_id → b.recver_erizo_id = b'.recver_erizo_id → b = b'
  complete : ∀ s ∈ subscribers, s.is_bridge = true →
    ∃ b ∈ bridge_streams, b.src_stream_id = s.subscribe_to ∧ b.recver_erizo_id = s.erizo_id

section Run

variable {jsoncpp : Jsoncpp}

theorem Starts.stands {t : TextWorld} (h : Starts t) : Stands jsoncpp t.world t where
  refines hash name _ := by
    rw [h.db, h.empty]
    exact refines_empty hash name ‹_›
  unused := by rw [h.db]
  others hash name _ := h.empty hash name
  agents := rfl
  heartbeats := rfl
  world := rfl
  kept := h.kept
  plain k name row hrow := by
    obtain ⟨hash, rfl⟩ | rfl | rfl := Hash.exists_or k
    · rw [h.empty] at hrow
      exact absurd hrow (Table.not_mem_empty row)
    · exact h.agents name row hrow
    · trivial
  ids := h.ids
  replies := h.replies

variable {T : Type} {redis_lock_timeout : Fin (2 ^ 31)} {redis_lock_try_time : ℤ}

/-- The invariant of the threads on texts and on tables. -/
abbrev TextAlike (jsoncpp : Jsoncpp) (s : LockPool Command Command.Reply String T World)
    (t : LockPool Command Command.Reply String T TextWorld) : Prop :=
  LockAlike SoundReply Proper (Stands jsoncpp) s t

variable {s : LockPool Command Command.Reply String T World}
variable {t : LockPool Command Command.Reply String T TextWorld}

theorem TextAlike.readsLike (hlaw : jsoncpp.Lawful) (h : TextAlike jsoncpp s t) :
    ReadsLike jsoncpp s t where
  thread := h.thread
  key := h.key
  clock := h.clock
  world := h.shared.world
  reads := h.shared.refines.readsAs hlaw
  kept := h.shared.kept

theorem TextAlike.fewRead_iff (hlaw : jsoncpp.Lawful) (h : TextAlike jsoncpp s t) :
    FewRead jsoncpp t.shared.db ↔ ∀ room_id, FewSubscribers s.shared room_id := by
  have hreads := h.shared.refines.readsAs hlaw
  constructor
  · intro hfew room_id
    by_cases hroom : Plain room_id
    · exact hfew room_id _ hroom (hreads.getAllSubscriber room_id hroom)
    · have hempty : s.shared.redis .subscriber room_id = ∅ :=
        h.shared.others .subscriber room_id hroom
      rw [FewSubscribers, hempty]
      exact Nat.two_pow_pos 31
  · intro hfew room_id subscribers hroom hread
    rw [hreads.getAllSubscriber room_id hroom] at hread
    obtain rfl := Parsed.reads.inj hread
    exact hfew room_id

theorem TextAlike.timely_iff (h : TextAlike jsoncpp s t) :
    Timely redis_lock_timeout s ↔ Timely redis_lock_timeout t := by
  rw [Timely, Timely, h.thread, h.key, h.clock]

variable [DecidableEq T] {init : TextWorld → Prop}

theorem TextAlike.start
    (ht : (textThreads jsoncpp T redis_lock_timeout redis_lock_try_time init).init t)
    (hinit : Starts t.shared) : TextAlike jsoncpp (tablesOf t) t where
  shared := hinit.stands
  clock := rfl
  key := rfl
  thread := rfl
  relies i := by
    change (t.thread i).Relies SoundReply Proper
    rw [ht.2.2.2 i]
    trivial

theorem TextAlike.next (hlaw : jsoncpp.Lawful) {a : LockAction T Job} (ha : PlainAction a)
    (h : TextAlike jsoncpp s t) :
    Option.Rel (TextAlike jsoncpp)
      ((lockThreads T redis_lock_timeout redis_lock_try_time).step a s)
      ((textThreads jsoncpp T redis_lock_timeout redis_lock_try_time init).step a t) := by
  refine LockAlike.next h (represents hlaw) fun i job hjob => ?_
  rw [hjob] at ha
  exact PlainJob.relies ha

theorem run_alike (hlaw : jsoncpp.Lawful)
    (ht : (textThreads jsoncpp T redis_lock_timeout redis_lock_try_time Starts).init t)
    {as : List (LockAction T Job)} (has : ∀ a ∈ as, PlainAction a) :
    Option.Rel (TextAlike jsoncpp)
      ((lockThreads T redis_lock_timeout redis_lock_try_time).run as (tablesOf t))
      ((textThreads jsoncpp T redis_lock_timeout redis_lock_try_time Starts).run as t) :=
  Machine.run_rel (fun _ _ _ ha h => TextAlike.next hlaw ha h) has (TextAlike.start ht ht.1)

/-- The threads on texts do what the threads on tables do, step by step: the one makes a step
when the other does, whichever commands fail and whoever takes over a lock. Nothing is dropped
and nothing throws. -/
theorem texts_run_as_tables (hlaw : jsoncpp.Lawful)
    (ht : (textThreads jsoncpp T redis_lock_timeout redis_lock_try_time Starts).init t)
    {as : List (LockAction T Job)} (has : ∀ a ∈ as, PlainAction a) :
    Option.Rel (ReadsLike jsoncpp)
      ((lockThreads T redis_lock_timeout redis_lock_try_time).run as (tablesOf t))
      ((textThreads jsoncpp T redis_lock_timeout redis_lock_try_time Starts).run as t) := by
  have halike := run_alike hlaw ht has
  generalize (lockThreads T redis_lock_timeout redis_lock_try_time).run as (tablesOf t) = s',
    (textThreads jsoncpp T redis_lock_timeout redis_lock_try_time Starts).run as t = t'
    at halike ⊢
  cases halike with
  | some h => exact .some (TextAlike.readsLike hlaw h)
  | none => exact .none

/-! Client `a` publishes, the answer of its erizo arrives, and client `b` of another agent
subscribes, after a try that finds the lock taken. -/

def textPool : LockPool Command Command.Reply String Bool TextWorld where
  shared :=
    { db := fun _ => none
      world := .start .empty freshOracle
      thrown := false }
  clock := 1000
  key _ := none
  thread _ := .outside (.ret ())

theorem textPool_starts : Starts textPool.shared where
  db := rfl
  empty _ _ := rfl
  agents _ agent hagent := absurd hagent (Table.not_mem_empty agent)
  ids n hmem := by
    have hx := List.eq_of_mem_replicate (String.toList_ofList ▸ hmem)
    exact absurd hx (by decide)
  replies n key s hs := by cases hs
  kept := rfl

def textEvent (client : Client) (name : String) (data : List (String × Value)) : Job :=
  .onMessage (.ofId "ec_0") client (some (.arrayValue [.stringValue name, .objectValue data]))

def textViewer : List (LockAction Bool Job) :=
  [.start false (textEvent (sampleClient "a" "a1" "e1") "publish" [("label", .stringValue "l")]),
    .command false, .command false, .command false, .tryLock false, .tryCommand false,
    .command false, .command false, .unlock false, .start true sampleAnswer, .tryLock true,
    .tryCommand true, .command true, .tick 1200,
    .start false (textEvent (sampleClient "b" "a2" "e2") "subscribe"
      [("streamId", .stringValue "x")]),
    .tryLock false, .tryCommand false, .tryCommand false, .command true, .unlock true,
    .tryLock false, .tryCommand false] ++
    List.replicate 10 (.command false) ++ [.unlock false]

theorem plainMembers_of_noNul {members : List (String × Value)} (h : Value.NoNul members) :
    PlainMembers (.objectValue members) := by
  intro key s hs
  rw [Value.string?] at hs
  split at hs
  · rename_i s' hmember
    obtain rfl := Option.some.inj hs
    obtain ⟨⟨key', v⟩, hfind, rfl⟩ := Option.map_eq_some_iff.mp hmember
    exact h key' _ (List.mem_of_find?_eq_some hfind)
  · cases hs

theorem plainJob_textEvent {client : Client} (hclient : PlainClient client) {name : String}
    {data : List (String × Value)} (hdata : Value.NoNul data) :
    PlainJob (textEvent client name data) := by
  refine ⟨⟨by unfold Plain; decide, "0", by decide⟩, hclient, ?_⟩
  rintro event members rest heq
  cases heq
  exact plainMembers_of_noNul hdata

theorem plainJob_sampleAnswer : PlainJob sampleAnswer := by
  intro data hdata
  obtain rfl := Option.some.inj hdata
  exact plainMembers_of_noNul (by decide)

theorem textViewer_plain : ∀ a ∈ textViewer, PlainAction a := by
  simp only [textViewer, List.forall_mem_append, List.forall_mem_cons, List.forall_mem_replicate]
  have ha : PlainJob (textEvent (sampleClient "a" "a1" "e1") "publish"
      [("label", .stringValue "l")]) :=
    plainJob_textEvent ⟨by decide, .inl rfl⟩ (by decide)
  have hb : PlainJob (textEvent (sampleClient "b" "a2" "e2") "subscribe"
      [("streamId", .stringValue "x")]) :=
    plainJob_textEvent ⟨by decide, .inl rfl⟩ (by decide)
  simp [PlainAction, ha, hb, plainJob_sampleAnswer]

theorem textViewer_run :
    ((lockThreads Bool 2000 10).runChecked (fun a s => decide (a.Answered ∧ Timely 2000 s))
      textViewer (tablesOf textPool)).map (fun s => (decide (∀ i, (s.thread i).held = none),
        (s.shared.redis .bridge_stream "room").rows.map BridgeStream.subscribe_count)) =
          some (true, [1]) := by
  decide

theorem texts_run_as_tables_viewer : ∃ s t,
    (textThreads Text.jsoncpp Bool 2000 10 Starts).run textViewer textPool = some t ∧
      ReadsLike Text.jsoncpp s t ∧
      (s.shared.redis .bridge_stream "room").rows.map BridgeStream.subscribe_count = [1] := by
  have hinit : (textThreads Text.jsoncpp Bool 2000 10 Starts).init textPool :=
    ⟨textPool_starts, by decide, fun _ => rfl, fun _ => rfl⟩
  have halike := texts_run_as_tables Text.jsoncpp_lawful hinit textViewer_plain
  obtain ⟨s, hs, hend⟩ := Option.map_eq_some_iff.mp textViewer_run
  have hrun := (Machine.run_of_runChecked (P := fun _ _ => True) (fun _ _ _ => trivial) hs).1
  rw [hrun] at halike
  generalize (textThreads Text.jsoncpp Bool 2000 10 Starts).run textViewer textPool = t' at halike ⊢
  cases halike with
  | @some _ t h => exact ⟨s, t, rfl, h, (Prod.ext_iff.mp hend).2⟩

/-- Texts of no record, with the ids of streams to come all different. -/
abbrev StartsFit (t : TextWorld) : Prop := Starts t ∧ t.world.Fits

theorem TextAlike.exists_start
    (ht : (textThreads jsoncpp T redis_lock_timeout redis_lock_try_time StartsFit).init t) :
    ∃ s, (lockThreads T redis_lock_timeout redis_lock_try_time).init s ∧ TextAlike jsoncpp s t := by
  refine ⟨tablesOf t, ⟨⟨ht.1.2, fun k hk room_id => ?_⟩, ht.2⟩, TextAlike.start ht ht.1.1⟩
  obtain ⟨h, rfl⟩ | rfl | rfl := Hash.exists_or k
  · exact ht.1.1.empty h room_id
  · exact hk.elim
  · exact hk.elim

/-- As long as the sections are left in time and no room has too many subscribers to count,
whoever reads a room that nobody is in the section of reads bridges that count the subscribers
that are read. -/
theorem counts_read (hlaw : jsoncpp.Lawful)
    (ht : (textThreads jsoncpp T redis_lock_timeout redis_lock_try_time StartsFit).Reaches
      (fun a t => PlainAction a ∧ (a.Answered ∧ Timely redis_lock_timeout t) ∧
        FewRead jsoncpp t.shared.db) t)
    (hfew : FewRead jsoncpp t.shared.db) {room_id : String} (hroom : Plain room_id)
    (hfree : ∀ i, (t.thread i).held ≠ some room_id) :
    ∃ subscribers bridge_streams,
      getAllSubscriber jsoncpp room_id t.shared.db = .reads subscribers ∧
      getAllBridgeStream jsoncpp room_id t.shared.db = .reads bridge_streams ∧
      CountsRead subscribers bridge_streams := by
  have htables : ∃ s, (lockThreads T redis_lock_timeout redis_lock_try_time).Reaches
      (fun a s => (a.Answered ∧ Timely redis_lock_timeout s) ∧
        ∀ room_id, FewSubscribers s.shared room_id) s ∧
        TextAlike jsoncpp s t :=
    ht.exists_rel (fun _ h => TextAlike.exists_start h) (fun _ _ _ ha h => h.next hlaw ha.1)
      fun _ _ _ h ha => ⟨⟨ha.2.1.1, h.timely_iff.mpr ha.2.1.2⟩, (h.fewRead_iff hlaw).mp ha.2.2⟩
  obtain ⟨s, hs, h⟩ := htables
  have hsimple : ∃ p,
      (threads T).Reaches (fun _ p => ∀ room_id, FewSubscribers p.shared room_id) p ∧
        Simulates redis_lock_timeout p s :=
    exists_simulates (fun _ _ hlockers hs => ⟨hs.1.1, hlockers.undisturbed hs.1.2⟩)
      (fun _ _ p s h hs _ room_id => h.shared ▸ hs.2 room_id) hs
  obtain ⟨p, hp, hsim⟩ := hsimple
  have hfree' : p.owner room_id = none := by
    refine Option.eq_none_iff_forall_ne_some.mpr fun i hi => hfree i ?_
    rw [← h.thread]
    exact (hsim.owner room_id i).mp hi
  have hexact : ExactBridges s.shared.redis room_id := by
    rw [← hsim.shared]
    refine exactBridges_of_free hp ?_ hfree'
    rw [hsim.shared]
    exact (h.fewRead_iff hlaw).mp hfew room_id
  obtain ⟨hcount, hunique, hcomplete⟩ := hexact.countsExact
  have hreads := h.shared.refines.readsAs hlaw
  exact ⟨_, _, hreads.getAllSubscriber room_id hroom, hreads.getAllBridgeStream room_id hroom,
    hcount, hunique, hcomplete⟩

theorem counts_read_viewer : ∃ t subscribers bridge_streams,
    (textThreads Text.jsoncpp Bool 2000 10 StartsFit).run textViewer textPool = some t ∧
      getAllSubscriber Text.jsoncpp "room" t.shared.db = .reads subscribers ∧
      getAllBridgeStream Text.jsoncpp "room" t.shared.db = .reads bridge_streams ∧
      bridge_streams.map BridgeStream.subscribe_count = [1] ∧
      CountsRead subscribers bridge_streams := by
  have hlaw := Text.jsoncpp_lawful
  have hroom : Plain "room" := by
    unfold Plain
    decide
  have hinit : (textThreads Text.jsoncpp Bool 2000 10 StartsFit).init textPool :=
    ⟨⟨textPool_starts, freshOracle_fits⟩, by decide, fun _ => rfl, fun _ => rfl⟩
  have hstart := TextAlike.start hinit textPool_starts
  obtain ⟨s, hs, hend⟩ := Option.map_eq_some_iff.mp textViewer_run
  obtain ⟨hfree, hcounts⟩ := Prod.ext_iff.mp hend
  obtain ⟨hrun, htimely⟩ := Machine.run_of_runChecked
    (P := fun a s => LockAction.Answered a ∧ Timely 2000 s) (fun _ _ h => of_decide_eq_true h) hs
  have hfew : (lockThreads Bool 2000 10).Throughout
      (fun s => ∀ room_id, FewSubscribers s.shared room_id) textViewer (tablesOf textPool) :=
    throughout_few (fun _ => Nat.le_refl 0) (by decide)
  have hstep : ∀ (a : LockAction Bool Job) s t, PlainAction a → TextAlike Text.jsoncpp s t →
      Option.Rel (TextAlike Text.jsoncpp) ((lockThreads Bool 2000 10).step a s)
        ((textThreads Text.jsoncpp Bool 2000 10 StartsFit).step a t) :=
    fun _ _ _ ha h => h.next hlaw ha
  have halong : (textThreads Text.jsoncpp Bool 2000 10 StartsFit).Along
      (fun a t => PlainAction a ∧ (a.Answered ∧ Timely 2000 t) ∧ FewRead Text.jsoncpp t.shared.db)
      textViewer textPool :=
    (htimely.and_throughout hfew).of_rel hstep
      (fun _ _ _ ha h hP =>
        ⟨ha, ⟨hP.1.1, h.timely_iff.mp hP.1.2⟩, (h.fewRead_iff hlaw).mpr hP.2⟩)
      textViewer_plain hstart
  have halike := Machine.run_rel hstep textViewer_plain hstart
  rw [hrun] at halike
  generalize ht : (textThreads Text.jsoncpp Bool 2000 10 StartsFit).run textViewer textPool = t'
    at halike
  cases halike with
  | @some _ t h =>
      have hfree' : ∀ i, (t.thread i).held ≠ some "room" := by
        intro i
        rw [← h.thread, of_decide_eq_true hfree i]
        exact Option.some_ne_none "room" ∘ Eq.symm
      obtain ⟨subscribers, bridge_streams, hsubscribers, hbridges, hread⟩ :=
        counts_read hlaw ((Machine.Reaches.init hinit).along halong ht)
          ((h.fewRead_iff hlaw).mpr (hfew.last hrun)) hroom hfree'
      have hreads := (h.shared.refines.readsAs hlaw).getAllBridgeStream "room" hroom
      obtain rfl : bridge_streams = (s.shared.redis .bridge_stream "room").rows := by
        rw [hbridges] at hreads
        exact Parsed.reads.inj hreads
      exact ⟨t, subscribers, _, rfl, hsubscribers, hbridges, hcounts, hread⟩

end Run

end TextStore
