import ErizoController.Core.References
import ErizoController.Core.SessionDiscipline
import ErizoController.Library.Series

/-!
# The visits of all clients

Any number of connections of any number of controllers run their sessions side by side, each
its events and then its close, while other threads run the tasks and the signaling messages.
When all of them are closed nothing of them is left in Redis, but for what a client filed in
the empty room before its token event.
-/

open Json Locked LockMonitor Prog Script Room

namespace ErizoController

/-- A connection: the controller it is made to, its client as it is created, and its events. -/
structure Visit where
  self : ErizoController
  client : Client
  roots : List (Option Value)
  room_id : client.room_id = ""
  reply_to : client.reply_to = ""

abbrev VisitPool (T U : Type) :=
  Pool (Command ⊕ (T × Milestone)) (Reported (T × Milestone) Command.Reply) String (T ⊕ U)
    (World × List (T × Milestone))

/-- Every connection has a thread of its own, and the others do whatever they are given. Redis
holds nothing of any client in the beginning, and no command fails. -/
def visits (T U : Type) [DecidableEq T] [DecidableEq U] (visit : T → Visit) :
    Machine (Action (T ⊕ U) Job) (VisitPool T U) :=
  machineFrom (reportStep perform) (fun job => Script.embed (T × Milestone) job.script) fun s =>
    (s.shared.1.Fits ∧ (∀ k, k.Guarded → ∀ name, s.shared.1.redis k name = ∅) ∧
      (∀ k name, ∀ row ∈ s.shared.1.redis k name, ∀ c, ¬ Belongs c k row) ∧ s.shared.2 = []) ∧
    (∀ t, s.thread (.inl t) = .outside (Script.relabel (Prod.mk t)
      (session (visit t).self (visit t).client (visit t).roots))) ∧
    (∀ u, s.thread (.inr u) = .outside (.ret ())) ∧ ∀ r, s.owner r = none

variable {T U : Type}

/-- What is reported of one connection, or of none. -/
def heard [DecidableEq T] (watched : Option T) (e : T × Milestone) : Option Milestone :=
  if watched = some e.1 then some e.2 else none

/-- The history of one connection. -/
def historyOf [DecidableEq T] (t : T) (log : List (T × Milestone)) : List Milestone :=
  log.filterMap (heard (some t))

/-! ## A session is a series of jobs -/

theorem returns_onMessage (self : ErizoController) (client : Client) (root : Option Value) :
    (self.onMessage client root).Returns fun r => r.1.id = client.id := by
  unfold onMessage
  split
  · split_ifs
    · refine Returns.bind (returns_monadLift (returns_handleToken self client)) fun r hr => ?_
      exact hr.1
    · exact Returns.bind (returns_true _) fun _ _ => rfl
    · exact Returns.bind (returns_true _) fun _ _ => rfl
    · exact Returns.bind (returns_true _) fun _ _ => rfl
    · rfl
  · rfl

theorem series_session {A : Job → Prop} {B : Milestone → Prop} (self : ErizoController)
    (hB : ∀ e, B e) (roots : List (Option Value)) (client : Client)
    (hA : ∀ client' root, client'.id = client.id →
      A (.onMessage self client' root) ∧ A (.onClose client')) :
    Series Job.script A B (.ret ()) (session self client roots) := by
  induction roots generalizing client with
  | nil =>
      exact .start (.onClose client) (hA client none rfl).2 (hB _) (series_reporting fun _ => hB _)
  | cons root roots ih =>
      refine .start (.onMessage self client root) (hA client root rfl).1 (hB _) ?_
      refine series_embed_bind (returns_onMessage self client root) fun r hr => ih r.1 ?_
      exact fun client' root' hid => hA client' root' (hid.trans hr)

/-! ## One of them watched -/

variable [DecidableEq T] [DecidableEq U] {visit : T → Visit} {s : VisitPool T U}

/-- The events of connections are handled on their threads only. -/
abbrev OnlyTasks : Action (T ⊕ U) Job → VisitPool T U → Prop :=
  Monitor.Meets (reportStep perform) (fun job => Script.embed (T × Milestone) job.script)
    (fun job _ => ∀ c, job.Foreign c) fun _ _ => True

/-- Where the threads are in the beginning, when one of them is watched. -/
def stageOf (watched : Option T) : T ⊕ U → SessionStage
  | .inl t => if watched = some t then .own false false else .foreign none
  | .inr _ => .foreign none

omit [DecidableEq U] in
theorem stageOf_own {watched : Option T} {t : T ⊕ U}
    (h : (stageOf watched t).IsOwn) : ∃ t', watched = some t' ∧ t = .inl t' := by
  cases t with
  | inl t =>
      rw [stageOf] at h
      split at h
      · exact ⟨t, ‹_›, rfl⟩
      · exact h.elim
  | inr u => exact h.elim

theorem followsScript_foreign_job {self : ErizoController} {c : String} {job : Job}
    (hjob : job.Foreign c) :
    (watchSession self c).commands.FollowsScript (fun m _ => m = .foreign none) (.foreign none)
      job.script := by
  refine followsScript_steady (all_script_foreign hjob)
    (fun command h => ⟨tame_allows h _, fun reply => ?_⟩) fun _ _ h => h
  cases command with
  | hset k name row => cases k <;> rfl
  | hdel k name fields => cases k <;> rfl
  | hget k name field => cases k <;> rfl
  | _ => rfl

omit [DecidableEq U] in
/-- In the beginning nobody has a record. -/
theorem orderly_stageOf {watched : Option T} {self : ErizoController} {c : String} {w : World}
    (hfits : w.Fits) (hnone : ∀ k name, ∀ row ∈ w.redis k name, ¬ Belongs c k row)
    (h : T ⊕ U → Option String) : Orderly self c (w, []) h (stageOf watched) := by
  refine ⟨hfits.reads, hfits.writes,
    fun k name row hrow hbelongs => absurd hbelongs (hnone k name row hrow),
    fun t t' ht ht' => ?_, fun t tokened files hm => ?_, fun t p hm => ?_,
    fun t tokened left hm => ?_, fun result hresult => nomatch hresult⟩
  · obtain ⟨t₀, hwatched, rfl⟩ := stageOf_own ht
    obtain ⟨t₁, hwatched', rfl⟩ := stageOf_own ht'
    obtain rfl := Option.some.inj (hwatched.symm.trans hwatched')
    rfl
  · have hown : (stageOf watched t).IsOwn := by
      rw [hm]
      trivial
    obtain ⟨t₀, hwatched, rfl⟩ := stageOf_own hown
    rw [stageOf, if_pos hwatched] at hm
    obtain ⟨rfl, rfl⟩ := SessionStage.own.inj hm
    exact ⟨rfl, fun hfiles => nomatch hfiles⟩
  · cases t with
    | inl t =>
        rw [stageOf] at hm
        split at hm <;> cases hm
    | inr u => cases hm
  · cases t with
    | inl t =>
        rw [stageOf] at hm
        split at hm <;> cases hm
    | inr u => cases hm

/-- What holds at every moment of the watched connection. -/
def OrderlyVisit (watched : Option T) (self : ErizoController) (c : String)
    (v : World × List (T × Milestone)) (h : T ⊕ U → Option String) (m : T ⊕ U → SessionStage) :
    Prop :=
  Orderly self c (v.1, v.2.filterMap (heard watched)) h m

theorem OrderlyVisit.act {watched : Option T} {self : ErizoController} {c : String}
    {v : World × List (T × Milestone)} {h : T ⊕ U → Option String} {m : T ⊕ U → SessionStage}
    (hI : OrderlyVisit watched self c v h m) (hexclusive : Exclusive h) {t : T ⊕ U}
    {command : Command ⊕ (T × Milestone)}
    (hallows : ((watchSession self c).filtered (heard watched)).allows (h t) (m t) command) :
    OrderlyVisit watched self c (reportStep perform command v).2 h
      (Function.update m t
        (((watchSession self c).filtered (heard watched)).next (h t) (m t) command
        (reportStep perform command v).1)) := by
  obtain ⟨w, log⟩ := v
  cases command with
  | inl command => exact Orderly.command hI hexclusive hallows
  | inr milestone =>
      change Orderly self c (w, (log ++ [milestone]).filterMap (heard watched)) h
        (Function.update m t (((watchSession self c).filtered (heard watched)).next (h t) (m t)
          (.inr milestone) ()))
      rw [List.filterMap_append]
      cases hheard : heard watched milestone with
      | none =>
          rw [filtered_next_none hheard, Function.update_eq_self, List.filterMap_cons_none hheard,
            List.filterMap_nil, List.append_nil]
          exact hI
      | some e =>
          rw [filtered_next hheard, List.filterMap_cons_some hheard, List.filterMap_nil]
          exact Orderly.report hI (hallows e hheard)

/-- The threads in the beginning. -/
theorem followsPool_stageOf {watched : Option T} {self : ErizoController} {c : String}
    (hwatched : ∀ t, watched = some t → (visit t).self = self ∧ (visit t).client.id = c)
    (hothers : ∀ t, watched ≠ some t → (visit t).client.id ≠ c)
    (hinit : (visits T U visit).init s) :
    ((watchSession self c).filtered (heard watched)).FollowsPool s (stageOf watched) := by
  obtain ⟨-, hsession, hidle, -⟩ := hinit
  rintro (t | u)
  · rw [hsession]
    change LockMonitor.FollowsScript _ _ _ _
    by_cases hw : watched = some t
    · obtain ⟨rfl, rfl⟩ := hwatched t hw
      rw [stageOf, if_pos hw]
      refine FollowsScript.relabel (fun e => by rw [heard, if_pos hw]) (follows_session ?_ _)
      exact ⟨rfl, (visit t).room_id, (visit t).reply_to⟩
    · rw [stageOf, if_neg hw]
      refine FollowsScript.series (A := fun job : Job => job.Foreign c) (B := fun e => e.1 = t)
        (fun e he => ?_) (fun job hjob => followsScript_foreign_job hjob)
        (Series.relabel (series_session (B := fun _ => True) (visit t).self (fun _ => trivial)
          (visit t).roots (visit t).client fun client' root hid => ?_) fun _ _ => rfl) rfl
      · rw [heard, if_neg (he ▸ hw)]
      · have hne : client'.id ≠ c := fun h => hothers t hw (hid.symm.trans h)
        exact ⟨hne, hne⟩
  · rw [hidle]
    trivial

/-- What is true of one connection among all of them, or of the id of none. -/
theorem exists_orderly_visit {watched : Option T} {self : ErizoController} {c : String}
    (hwatched : ∀ t, watched = some t → (visit t).self = self ∧ (visit t).client.id = c)
    (hothers : ∀ t, watched ≠ some t → (visit t).client.id ≠ c)
    (hs : (visits T U visit).Reaches OnlyTasks s) :
    ∃ m : T ⊕ U → SessionStage, OrderlyVisit watched self c s.shared s.locks m := by
  have hscript : ∀ (job : Job) (v : World × List (T × Milestone)), (∀ c, job.Foreign c) →
      ((watchSession self c).filtered (heard watched)).FollowsScript (fun _ _ => True)
        (.foreign none) (Script.embed (T × Milestone) job.script) := by
    intro job v hjob
    exact FollowsScript.series (A := fun job : Job => job.Foreign c) (B := fun _ => False)
      (fun _ h => h.elim) (fun job hjob => followsScript_foreign_job hjob) series_embed
      (followsScript_foreign_job (hjob c))
  refine (LockMonitor.exists_invariant (I := OrderlyVisit watched self c) hscript
    (fun s hinit => ?_) (fun job t s h m hI _ _ => Orderly.to_foreign hI t)
    (fun command s h m hI => ?_)
    (fun command t s h m hexclusive hI hallows _ => hI.act hexclusive hallows)
    (fun r t s h m hI ht _ => Orderly.acquire hI ht r)
    (fun r t s h m hI _ => Orderly.release hI t) hs).2.imp fun _ => And.left
  · have hfollows := followsPool_stageOf hwatched hothers hinit
    obtain ⟨⟨hfits, -, hnone, hlog⟩, hsession, hidle, hfree⟩ := hinit
    refine ⟨fun t r β body k ht => ?_, stageOf watched, ?_, hfollows⟩
    · rcases t with t | u
      · rw [hsession] at ht
        cases ht
      · rw [hidle] at ht
        cases ht
    · rw [OrderlyVisit, hlog]
      exact orderly_stageOf hfits (fun k name row hrow => hnone k name row hrow c) _
  · cases command with
    | inl command => exact succeeds_perform (Orderly.reads hI) (Orderly.writes hI) command
    | inr milestone => exact fun _ _ => trivial

/-! ## All of them together -/

/-- Every run of connections is a run of their jobs. -/
theorem exists_threads (hs : (visits T U visit).Reaches OnlyTasks s) :
    ∃ s' : Pool Command Command.Reply String (T ⊕ U) World,
      (threads (T ⊕ U)).Reachable s' ∧ s'.shared = s.shared.1 ∧ s'.owner = s.owner := by
  have hinit : ∀ s : VisitPool T U, (visits T U visit).init s →
      ∃ s', (threads (T ⊕ U)).init s' ∧
        Mirrored Job.script (fun _ => True) (fun _ => True) s' s := by
    rintro s ⟨⟨hfits, hempty, -, -⟩, hsession, hidle, hfree⟩
    refine ⟨⟨s.shared.1, fun _ => .outside (.ret ()), s.owner⟩,
      ⟨⟨hfits, hempty⟩, fun _ => rfl, hfree⟩, rfl, rfl, ?_⟩
    rintro (t | u)
    · rw [hsession]
      exact .outside (Series.relabel (series_session (B := fun _ => True) (visit t).self
        (fun _ => trivial) (visit t).roots (visit t).client fun _ _ _ => ⟨trivial, trivial⟩)
        fun _ _ => trivial)
    · rw [hidle]
      exact .outside .done
  obtain ⟨s', hs', hmirrored⟩ := Mirrored.reaches hinit (fun t job s _ => ⟨job, series_embed⟩) hs
  exact ⟨s', hs', hmirrored.shared, hmirrored.owner⟩

/-- The connection's close has ended, having had the lock of its room. -/
def HasClosed (t : T) (log : List (T × Milestone)) : Prop :=
  ∃ done, (t, .closed (some done)) ∈ log

/-- What a connection leaves whose close has had the lock. -/
theorem Orderly.early_of_closed {I : Type} {self : ErizoController} {c : String}
    {v : World × List Milestone} {h : I → Option String} {m : I → SessionStage}
    (hI : Orderly self c v h m) {done : Bool} (hdone : .closed (some done) ∈ v.2) {k : Kind}
    {name : String} {row : k.Rec} (hrow : row ∈ v.1.redis k name) (hbelongs : Belongs c k row) :
    (k = .publisher ∨ k = .subscriber) ∧ name = "" ∧ filedEarly v.2 = true := by
  have hplace := hI.placed k name row hrow hbelongs
  have hbounds := ((hI.closed _ hdone).2 done rfl).2
  have hearly : tokenCame v.2 = true ∧ name = test_room_id ∨ filedEarly v.2 = true ∧ name = "" →
      name ≠ homeOf (tokenCame v.2) → name = "" ∧ filedEarly v.2 = true := by
    rintro (⟨htoken, rfl⟩ | ⟨hfiled, rfl⟩) hhome
    · rw [htoken] at hhome
      exact absurd rfl hhome
    · exact ⟨rfl, hfiled⟩
  cases k with
  | client =>
      obtain ⟨htoken, rfl⟩ := hplace
      rw [htoken] at hbounds
      exact absurd hbelongs (hbounds.client rfl row hrow)
  | ec =>
      obtain ⟨htoken, rfl⟩ := hplace
      rw [htoken] at hbounds
      exact absurd hbelongs (hbounds.controller_client rfl row hrow)
  | publisher =>
      refine ⟨.inl rfl, hearly hplace ?_⟩
      rintro rfl
      exact nomatch hbounds.publishers [] rfl row hrow hbelongs
  | subscriber =>
      refine ⟨.inr rfl, hearly hplace ?_⟩
      rintro rfl
      exact nomatch hbounds.subscribers [] rfl row hrow hbelongs
  | _ => exact hbelongs.elim

/-- A record belongs to the client of some connection. -/
theorem exists_visit_of_belongs (hs : (visits T U visit).Reaches OnlyTasks s) {k : Kind}
    {name : String} {row : k.Rec} (hrow : row ∈ s.shared.1.redis k name) {c : String}
    (hbelongs : Belongs c k row) : ∃ t, (visit t).client.id = c := by
  by_contra hno
  have horderly : ∃ m : T ⊕ U → SessionStage,
      OrderlyVisit none (.ofId "") c s.shared s.locks m :=
    exists_orderly_visit (fun t h => nomatch h) (fun t _ h => hno ⟨t, h⟩) hs
  obtain ⟨m, hI⟩ := horderly
  have hplace := Orderly.placed hI k name row hrow hbelongs
  have hnothing : s.shared.2.filterMap (heard none) = [] :=
    List.filterMap_eq_nil_iff.mpr fun _ _ => rfl
  rw [hnothing] at hplace
  cases k with
  | client => exact nomatch hplace.1
  | ec => exact nomatch hplace.1
  | publisher => rcases hplace with h | h <;> exact nomatch h.1
  | subscriber => rcases hplace with h | h <;> exact nomatch h.1
  | _ => exact hbelongs

/-- When all connections of all controllers have been closed, each having had the lock of its
room, what is left in Redis of any client is what it filed in the empty room before its token
event. In every other room, and in every room if nobody has done so, nothing is left at all. -/
theorem nothing_left (hids : Function.Injective fun t => (visit t).client.id)
    (hs : (visits T U visit).Reaches OnlyTasks s) (hclosed : ∀ t, HasClosed t s.shared.2) :
    (∀ k name, ∀ row ∈ s.shared.1.redis k name, ∀ c, Belongs c k row →
      (k = .publisher ∨ k = .subscriber) ∧ name = "" ∧
        ∃ t, (visit t).client.id = c ∧ filedEarly (historyOf t s.shared.2) = true) ∧
    ∀ room_id, s.owner room_id = none →
      (room_id = "" → ∀ t, filedEarly (historyOf t s.shared.2) = false) →
      ∀ k, k.Guarded → ∀ row, row ∉ s.shared.1.redis k room_id := by
  have hrecords : ∀ k name, ∀ row ∈ s.shared.1.redis k name, ∀ c, Belongs c k row →
      (k = .publisher ∨ k = .subscriber) ∧ name = "" ∧
        ∃ t, (visit t).client.id = c ∧ filedEarly (historyOf t s.shared.2) = true := by
    intro k name row hrow c hbelongs
    obtain ⟨t, rfl⟩ := exists_visit_of_belongs hs hrow hbelongs
    have horderly : ∃ m : T ⊕ U → SessionStage,
        OrderlyVisit (some t) (visit t).self (visit t).client.id s.shared s.locks m := by
      refine exists_orderly_visit (fun t' h => ?_) (fun t' hne h => ?_) hs
      · obtain rfl := Option.some.inj h
        exact ⟨rfl, rfl⟩
      · exact hne (congrArg some (hids h).symm)
    obtain ⟨m, hI⟩ := horderly
    obtain ⟨done, hdone⟩ := hclosed t
    have hmem : .closed (some done) ∈ historyOf t s.shared.2 :=
      List.mem_filterMap.mpr ⟨_, hdone, if_pos rfl⟩
    obtain ⟨hk, hname, hearly⟩ := Orderly.early_of_closed hI hmem hrow hbelongs
    exact ⟨hk, hname, t, rfl, hearly⟩
  refine ⟨hrecords, fun room_id hfree hempty => ?_⟩
  have hgone : ∀ k, ∀ row ∈ s.shared.1.redis k room_id, ∀ c, ¬ Belongs c k row := by
    intro k row hrow c hbelongs
    obtain ⟨-, hname, t, -, hearly⟩ := hrecords k room_id row hrow c hbelongs
    exact nomatch (hempty hname t).symm.trans hearly
  obtain ⟨s', hs', hshared, howner⟩ := exists_threads hs
  have hbacked := backedBridges_of_free hs' (howner ▸ hfree)
  rw [hshared] at hbacked
  intro k hk row hrow
  cases k with
  | publisher => exact hgone .publisher row hrow row.client_id rfl
  | subscriber => exact hgone .subscriber row hrow row.client_id rfl
  | bridge_stream =>
      -- a bridge is for a subscriber of its room, and there is none
      obtain ⟨s₀, hs₀, -⟩ := hbacked.subscriber hrow
      exact hgone .subscriber s₀ hs₀ s₀.client_id rfl
  | _ => exact hk

/-! Two connections: one publishes, and both are closed. -/

def twoVisits (publishes : Bool) : Visit where
  self := joinController
  client := { id := if publishes then "a" else "b" }
  roots := if publishes then [some joinEvent, some publishEvent] else [some joinEvent]
  room_id := rfl
  reply_to := rfl

def twoVisitsPool : VisitPool Bool Empty where
  shared := (.start (Redis.empty.update .erizo_agent "area"
    ((∅ : Table ErizoAgent).set ⟨"agent", 2 ^ 31, 0⟩)) joinOracle, [])
  thread t := t.elim (fun b => .outside (Script.relabel (Prod.mk b)
    (session (twoVisits b).self (twoVisits b).client (twoVisits b).roots)))
    fun _ => .outside (.ret ())
  owner _ := none

theorem joinOracle_fits (r : Redis) : (World.start r joinOracle).Fits where
  reads := rfl
  writes := rfl
  fresh _ := List.not_mem_nil
  injective := freshOracle_fits.injective

theorem twoVisitsPool_init : (visits Bool Empty twoVisits).init twoVisitsPool := by
  refine ⟨⟨joinOracle_fits _, fun k hk name => ?_, fun k name row hrow c => ?_, rfl⟩,
    fun _ => rfl, fun _ => rfl, fun _ => rfl⟩
  · cases k <;> first | rfl | exact hk.elim
  · cases k with
    | client => exact absurd hrow (Table.not_mem_empty (V := Client) row)
    | publisher => exact absurd hrow (Table.not_mem_empty (V := Publisher) row)
    | subscriber => exact absurd hrow (Table.not_mem_empty (V := Subscriber) row)
    | ec => exact absurd hrow (Table.not_mem_empty (V := Client) row)
    | _ => exact id

/-- Commands of a connection up to a section, the section, and a command after it. -/
def visitSteps (b : Bool) (before inside after : ℕ) : List (Action (Bool ⊕ Empty) Job) :=
  List.replicate before (.command (.inl b)) ++ [.acquire (.inl b)] ++
    List.replicate inside (.command (.inl b)) ++ [.release (.inl b)] ++
    List.replicate after (.command (.inl b))

theorem onlyTasks_visitSteps {b : Bool} {before inside after : ℕ} :
    ∀ a ∈ visitSteps b before inside after, ∀ s, OnlyTasks a s := by
  intro a ha s
  simp only [visitSteps, List.mem_append, List.mem_replicate, List.mem_singleton] at ha
  rcases ha with (((⟨-, rfl⟩ | rfl) | ⟨-, rfl⟩) | rfl) | ⟨-, rfl⟩ <;> exact fun _ _ => trivial

theorem hasClosed_of_any {t : Bool} {log : List (Bool × Milestone)}
    (h : (log.any fun e => e.1 == t && isClosed e.2) = true) : HasClosed t log := by
  obtain ⟨⟨t', e⟩, he, hend⟩ := List.any_eq_true.mp h
  obtain ⟨ht, hclosed⟩ := Bool.and_eq_true_iff.mp hend
  obtain rfl : t' = t := eq_of_beq ht
  change isClosed e = true at hclosed
  rw [isClosed.eq_def] at hclosed
  split at hclosed
  · exact ⟨true, he⟩
  · cases hclosed

/-- Both connections are open at the same time, and the one that publishes is closed first. -/
theorem nothing_left_two_visits : ∃ s : VisitPool Bool Empty, s.shared.2.length = 7 ∧
    ∀ k, k.Guarded → ∀ row, row ∉ s.shared.1.redis k test_room_id := by
  have hrun : ((visits Bool Empty twoVisits).run (visitSteps true 11 2 0 ++
      (visitSteps false 8 4 1 ++ visitSteps true 1 7 1)) twoVisitsPool).any (fun s =>
        s.shared.2.length == 7 && (s.owner test_room_id).isNone &&
          (s.shared.2.any (fun e => e.1 == true && isClosed e.2) &&
            s.shared.2.any fun e => e.1 == false && isClosed e.2)) = true := by
    decide
  obtain ⟨s, hs, hend⟩ := (Option.any_eq_true _ _).mp hrun
  simp only [Bool.and_eq_true, beq_iff_eq, Option.isNone_iff_eq_none] at hend
  obtain ⟨⟨hlength, hfree⟩, htrue, hfalse⟩ := hend
  have hreaches : (visits Bool Empty twoVisits).Reaches OnlyTasks s := by
    refine (Machine.Reaches.init twoVisitsPool_init).run_of_forall_mem (fun a ha => ?_) hs
    simp only [List.mem_append] at ha
    rcases ha with ha | ha | ha
    · exact onlyTasks_visitSteps a ha
    · exact onlyTasks_visitSteps a ha
    · exact onlyTasks_visitSteps a ha
  have hids : Function.Injective fun b => (twoVisits b).client.id := by decide
  have hclosed : ∀ t, HasClosed t s.shared.2 := by
    rintro (_ | _)
    · exact hasClosed_of_any (t := false) (by simpa using hfalse)
    · exact hasClosed_of_any (t := true) (by simpa using htrue)
  have hleft := (nothing_left hids hreaches hclosed).2 test_room_id hfree
    fun h => absurd h (by decide)
  exact ⟨s, hlength, hleft⟩

end ErizoController
