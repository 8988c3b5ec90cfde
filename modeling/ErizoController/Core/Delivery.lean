import ErizoController.Library.Entering
import ErizoController.Core.MediaPlane

/-!
# The delivery of the messages

The messages leave later than they are pushed, from one queue in each controller. An erizo
agrees with the store at rest if the messages about one entry arrive in the order in which
they were pushed. That is so if they come from one controller, and need not be so if they
come from several: nothing orders what two controllers send.
-/

open Json Locked Prog Script Room RefCount

namespace ErizoController

/-! ## What the lock of the room guards of the messages -/

/-- The messages that a command pushes. -/
def pushes : Command → List (String × Message)
  | .rpcNotReply queuename data => [(queuename, data)]
  | .rpc queuename data => [(queuename, data)]
  | _ => []

theorem outbox_perform (c : Command) (w : World) :
    (perform c w).2.outbox = w.outbox ++ pushes c := by
  cases c with
  | rpcNotReply queuename data => rfl
  | rpc queuename data => rfl
  | hset k name row =>
      rw [perform]
      split <;> exact (List.append_nil _).symm
  | hdel k name fields =>
      rw [perform]
      split <;> exact (List.append_nil _).symm
  | hget k name field =>
      rw [perform]
      split <;> exact (List.append_nil _).symm
  | hvals k name =>
      rw [perform]
      split <;> exact (List.append_nil _).symm
  | _ => exact (List.append_nil _).symm

/-- The messages that change what an erizo keeps. -/
def media (messages : List (String × Message)) : List (String × Message) :=
  messages.filter fun m => m.2.named?.isSome

theorem media_append (messages messages' : List (String × Message)) :
    media (messages ++ messages') = media messages ++ media messages' := List.filter_append _ _

/-- An erizo does not depend on the other messages. -/
theorem mem_erizo_media {e : String} {x : Entry} {messages : List (String × Message)} :
    x ∈ erizo e (media messages) ↔ x ∈ erizo e messages := by
  refine mem_erizo_congr ?_
  rw [media, List.filter_filter]
  refine List.filter_congr fun m _ => ?_
  cases hnamed : m.2.named? with
  | none => simp [About, hnamed]
  | some entry => simp

/-- A command outside of the sections writes no guarded hash and says nothing about media. -/
def OffMedia (c : Command) : Prop := Outside c ∧ media (pushes c) = []

/-- The lock of the room with the messages that change what the erizos keep. -/
def mediaGuard (room_id : String) :
    Guard Command Command.Reply String World World perform where
  Inv := World.Fits
  Sees name v w := Room.Sees name v w ∧ (name = room_id → media v.outbox = media w.outbox)
  sem := Room.sem
  Sec name c := Inside name c ∧ name = room_id
  Out := OffMedia
  inv_step c w h := h.after c
  sees_out name v c w hw hc h := by
    refine ⟨Room.guard.sees_out name v c w hw hc.1 h.1, fun hname => ?_⟩
    rw [outbox_perform, media_append, hc.2, List.append_nil]
    exact h.2 hname
  sees_other name name' v c w hw hne hc h :=
    ⟨Room.guard.sees_other name name' v c w hw hne hc.1 h.1,
      fun hname => absurd (hc.2.trans hname.symm) hne⟩
  sees_sec name v c w hw hc h := by
    obtain ⟨hreply, hsees⟩ := h.1.inside hw hc.1
    refine ⟨(perform c (v.withOracle w.oracle)).2,
      ⟨w.oracle, h.1.withOracle hw, Prod.ext hreply rfl⟩, hsees, fun hname => ?_⟩
    rw [outbox_perform, outbox_perform, media_append, media_append]
    exact congrArg (· ++ media (pushes c)) (h.2 hname)

/-- What the lock of the room keeps; the others keep nothing. -/
def MediaKeeps (room_id name : String) (w : World) : Prop := name = room_id → MediaKept room_id w

/-! ## The commands outside of the sections -/

theorem offMedia_of_quiet {c : Command} (h : QuietCommand c) : OffMedia c := by
  refine ⟨h.silent.plain.outside, ?_⟩
  cases c with
  | rpcNotReply queuename data =>
      cases data with
      | processSignaling => rfl
      | new_publisher => rfl
      | _ => exact h.elim
  | rpc queuename data =>
      cases data with
      | getErizo => rfl
      | _ => exact h.elim
  | _ => rfl

theorem all_offMedia {α : Type} {B : {β : Type} → String → Handler β → Prop} {p : Session α}
    (h : p.All QuietCommand B) : p.All OffMedia B :=
  h.imp (fun _ hc => offMedia_of_quiet hc) fun _ _ => id

section Scripts

variable (self : ErizoController) (client : Client)

theorem offMedia_registerClient : (self.registerClient client).Each OffMedia := by
  refine Each.bind (RedisHelper.each_add ⟨id, rfl⟩) fun rc => ?_
  split
  · trivial
  · refine Each.bind (RedisHelper.each_add ⟨id, rfl⟩) fun rc => ?_
    split
    · trivial
    · refine Each.bind (RedisHelper.each_getAll ⟨trivial, rfl⟩) fun r => ?_
      cases r <;> trivial

theorem offMedia_handleToken : (self.handleToken client).Each OffMedia := by
  refine Each.bind ((quiet_allocAgent _ _).mono fun _ => offMedia_of_quiet) fun (rc, client) => ?_
  dsimp only
  split
  · trivial
  · refine Each.bind ((quiet_allocErizoTries _ _).mono fun _ => offMedia_of_quiet)
      fun (rc, client) => ?_
    dsimp only
    split
    · trivial
    · exact Each.bind (offMedia_registerClient _ _) fun _ => trivial

theorem offMedia_onMessage (root : Option Value) :
    (self.onMessage client root).All OffMedia IsSection := by
  unfold onMessage
  split
  · split_ifs
    · exact All.bind (all_monadLift (offMedia_handleToken _ _)) fun _ => trivial
    · refine All.bind (all_handlePublish_of self client ⟨⟨trivial, rfl⟩, trivial, rfl⟩
        (fun publisher _ _ => .publish self client publisher) _) fun _ => trivial
    · refine All.bind (all_handleSubscribe_of self client
        fun stream_id _ => .subscribe self client stream_id) fun _ => trivial
    · exact All.bind (all_monadLift ((quiet_handleSignaling _ _).mono fun _ => offMedia_of_quiet))
        fun _ => trivial
    · trivial
  · trivial

end Scripts

theorem Job.offMedia (job : Job) : job.script.All OffMedia IsSection := by
  have hremove : ∀ client : Client, IsSection client.room_id (removeClientLocked client) :=
    fun client => .removeClient client
  cases job with
  | onMessage self client root => exact (offMedia_onMessage self client root).bind fun _ => trivial
  | onClose client => exact All.bind (all_withLock (hremove client)) fun _ => trivial
  | onSignalingMessage self root =>
      exact (all_offMedia (quiet_onSignalingMessage_of self
        (fun room_id stream_id v a => .publisher_answer room_id stream_id v a)
        (fun room_id client_id stream_id => .ready room_id client_id stream_id) root)).bind
          fun _ => trivial
  | task task =>
      cases task with
      | notifyToSubscribe room_id client_id stream_id =>
          exact all_offMedia (all_monadLift (quiet_notifyToSubscribe room_id client_id stream_id))
      | removeExpireErizoController id =>
          exact all_offMedia (quiet_removeExpireErizoController_of hremove id)

/-! ## Entering the sections -/

section Entering

variable {T : Type} [DecidableEq T] {s : Pool Command Command.Reply String T World}

/-- No room is in use, and nothing has been pushed. -/
structure NothingYet (w : World) : Prop where
  redis : ∀ k, k.Guarded → ∀ room_id, w.redis k room_id = ∅
  outbox : w.outbox = []

/-- The threads of any number of controllers, as they start with such answers of the
outside. -/
def senders (Answers : World → Prop) (T : Type) [DecidableEq T] :
    Machine (Action T Job) (Pool Command Command.Reply String T World) :=
  Locked.machine perform Job.script fun w => Answers w ∧ NothingYet w

/-- The lock that the step asks for. -/
def asksFor (s : Pool Command Command.Reply String T World) : Action T Job → Option String
  | .acquire t =>
      match s.thread t with
      | .outside (.locked name _ _ _) => some name
      | _ => none
  | _ => none

/-- The sections that are entered are those of the room. -/
def OneRoom (room_id : String) (a : Action T Job)
    (s : Pool Command Command.Reply String T World) : Prop :=
  ∀ name ∈ asksFor s a, name = room_id

/-- Whoever is about to file a new publisher is the first one to do so. -/
theorem not_published_of_entering
    {P : Action T Job → Pool Command Command.Reply String T World → Prop}
    (hs : (senders World.Fits T).Reaches P s) {t : T} {self : ErizoController} {client : Client}
    {p : Publisher}
    {k : Option Value → Session Unit}
    (ht : s.thread t = .outside (.locked client.room_id Value (self.publishLocked client p) k)) :
    ¬ Published s.shared.redis client.room_id p.id := by
  have hinit : ∀ w : World, w.Fits ∧ NothingYet w →
      (publisherToken client.room_id p.id).Inv w ∧
        ¬ (publisherToken client.room_id p.id).Stored w := by
    rintro w ⟨hfits, hnothing⟩
    refine ⟨hfits, ?_⟩
    rintro ⟨q, hq, -⟩
    rw [hnothing.redis .publisher trivial client.room_id] at hq
    exact Table.not_mem_empty q hq
  -- A section that files the publisher is not one of a thread that has not drawn its id.
  have hfiles : ¬ (publisherToken client.room_id p.id).Clean
      (.locked client.room_id Value (self.publishLocked client p) k) :=
    fun hclean => (hclean.1.2 rfl).1 ⟨rfl, rfl⟩
  obtain ⟨-, hphase⟩ := Token.phases Job.clean hinit hs
  rcases hphase with hbefore | hpending | hlive | hgone
  · exact hbefore.2.1
  · exact hpending.2.1
  · have hlate := hlive.2.2 t
    rw [ht] at hlate
    exact absurd hlate hfiles
  · exact hgone.2.1

/-- Every section of the room that is entered keeps what its lock keeps. -/
theorem enters_of_oneRoom {room_id : String} (a : Action T Job)
    (hs : (senders World.Fits T).Reaches (OneRoom room_id) s) (ha : OneRoom room_id a s) :
    (mediaGuard room_id).Enters (MediaKeeps room_id) a s := by
  cases a with
  | command t =>
      intro c k ht
      have hrest := rest_of_reaches Job.offMedia hs t
      rw [ht] at hrest
      exact hrest.1
  | acquire t =>
      intro name β body k ht
      have hrest := rest_of_reaches Job.offMedia hs t
      rw [ht] at hrest
      have hbody : IsSection name body := hrest.1
      have hroom : name = room_id := ha name (by rw [asksFor, ht]; rfl)
      refine ⟨hbody.each.mono fun c hc => ⟨hc, hroom⟩, fun v hv hkeeps => ?_⟩
      refine Room.wlp_of_exec hv.1.fits fun o ho hname => ?_
      have hkept : MediaKept name (v.withOracle o) :=
        MediaKept.withOracle (hname ▸ hkeeps hname) o
      rw [← hname]
      cases hbody with
      | removeClient client => exact hkept.removeClientLocked ho
      | subscribe self client stream_id => exact hkept.subscribeLocked ho
      | publish self client p =>
          refine hkept.publishLocked ho fun hpublished => not_published_of_entering hs ht ?_
          rw [Published, ← hv.1.redis .publisher trivial]
          exact hpublished
      | publisher_answer name stream_id video_ssrc audio_ssrc =>
          exact hkept.publisherAnswerLocked ho
      | ready name client_id stream_id =>
          exact ⟨hkept.referenced.of_eq rfl rfl (fun _ hid => hid) (List.Subset.refl _),
            hkept.agrees⟩
  | _ => trivial

/-- In the order in which they were pushed, the messages say what the room records whenever
nobody is inside a section of it. -/
theorem agrees_of_outside {room_id : String}
    (hs : (senders World.Fits T).Reaches (OneRoom room_id) s)
    (hout : ∀ t β body k, s.thread t ≠ .inside room_id β body k) :
    Agrees s.shared.redis room_id s.shared.outbox := by
  have hinit : ∀ w : World, w.Fits ∧ NothingYet w →
      (mediaGuard room_id).Inv w ∧ ∀ name, ∃ v, (mediaGuard room_id).Sees name v w ∧
        MediaKeeps room_id name v := by
    rintro w ⟨hfits, hnothing⟩
    refine ⟨hfits, fun name => ⟨w, ⟨⟨fun _ _ => rfl, List.Subset.refl _, hfits⟩, fun _ => rfl⟩, ?_⟩⟩
    intro _
    have hpublisher := hnothing.redis .publisher trivial room_id
    have hsubscriber := hnothing.redis .subscriber trivial room_id
    have hbridge := hnothing.redis .bridge_stream trivial room_id
    refine ⟨.of_empty hsubscriber hbridge, fun e x => ?_⟩
    rw [hnothing.outbox]
    refine iff_of_false (Finset.notMem_empty x) ?_
    cases x <;> simp [Recorded, hpublisher, hsubscriber, hbridge]
  obtain ⟨v, hv, hkeeps⟩ :=
    Guard.keeps_of_entered (fun a s hs ha => enters_of_oneRoom a hs ha) hinit hs hout
  have hkept : MediaKept room_id v := hkeeps rfl
  intro e x
  rw [← mem_erizo_media, ← hv.2 rfl, mem_erizo_media, hkept.agrees e x]
  exact recorded_congr (hv.1.redis .publisher trivial) (hv.1.redis .subscriber trivial)
    (hv.1.redis .bridge_stream trivial)

end Entering

/-! ## The queues of the controllers -/

/-- The threads of the controllers; the messages that wait in their queues, each with its
controller, in the order in which they were pushed; and those that have arrived at the
erizos. -/
structure Plane (ι T : Type) where
  pool : Pool Command Command.Reply String T World
  waiting : List (ι × String × Message)
  arrived : List (String × Message)

/-- A thread takes a step, or the next message of a controller arrives. -/
inductive PlaneAction (ι T : Type) where
  | thread (a : Action T Job)
  | arrive (i : ι)

/-- The thread that takes the step. -/
def actor {T : Type} : Action T Job → T
  | .start t _ => t
  | .command t => t
  | .acquire t => t
  | .giveUp t => t
  | .release t => t

/-- Two messages about one entry of one erizo. -/
def SameEntry (m m' : String × Message) : Prop :=
  m.1 = m'.1 ∧ m.2.named?.isSome ∧ m.2.named?.map Prod.fst = m'.2.named?.map Prod.fst

instance (m m' : String × Message) : Decidable (SameEntry m m') :=
  inferInstanceAs (Decidable (_ ∧ _ ∧ _))

theorem not_about_of_not_sameEntry {m m' : String × Message} (h : ¬ SameEntry m m') {e : String}
    {x : Entry} (hm : About e x m = true) : About e x m' = false := by
  obtain ⟨rfl, hx⟩ := of_decide_eq_true hm
  refine decide_eq_false ?_
  rintro ⟨he, hx'⟩
  refine h ⟨he.symm, ?_, hx.trans hx'.symm⟩
  cases hnamed : m.2.named? with
  | none =>
      rw [hnamed] at hx
      cases hx
  | some entry => rfl

section Plane

variable {ι T : Type} [DecidableEq ι]

/-- The queue of one controller. -/
def Plane.send_queue_ (s : Plane ι T) (i : ι) : List (ι × String × Message) :=
  s.waiting.filter fun b => b.1 = i

variable [DecidableEq T] (Answers : World → Prop) (controller : T → ι)

def planeStep : PlaneAction ι T → Plane ι T → Option (Plane ι T)
  | .thread a, s => (poolStep perform Job.script a s.pool).map fun pool =>
      { s with
        pool
        waiting := s.waiting ++ (pool.shared.outbox.drop s.pool.shared.outbox.length).map
          (Prod.mk (controller (actor a))) }
  | .arrive i, s => (Replay.takeFirst i s.waiting).map fun next =>
      { s with waiting := next.1 ++ next.2.2, arrived := s.arrived ++ [next.2.1] }

def plane : Machine (PlaneAction ι T) (Plane ι T) where
  init s := (senders Answers T).init s.pool ∧ s.waiting = [] ∧ s.arrived = []
  step := planeStep controller

/-- The controllers work on one room. -/
def InRoom (room_id : String) : PlaneAction ι T → Plane ι T → Prop
  | .thread a, s => OneRoom room_id a s.pool
  | .arrive _, _ => True

/-- A message overtakes no other message about its entry. -/
def InPushOrder : PlaneAction ι T → Plane ι T → Prop
  | .thread _, _ => True
  | .arrive i, s => ∀ next ∈ Replay.takeFirst i s.waiting, ∀ b ∈ next.1, ¬ SameEntry next.2.1 b.2

/-- All queues are empty, and no handler is inside a section of the room. -/
def Plane.Quiescent (room_id : String) (s : Plane ι T) : Prop :=
  s.waiting = [] ∧ ∀ t β body k, s.pool.thread t ≠ .inside room_id β body k

/-- What the erizos keep is what the room records for them. -/
def Plane.MediaAgrees (room_id : String) (s : Plane ι T) : Prop :=
  ∀ e x, x ∈ erizo e s.arrived ↔ Recorded s.pool.shared.redis room_id e x

variable {Answers controller} {s s' : Plane ι T}

theorem outbox_poolStep {a : Action T Job} {pool pool' : Pool Command Command.Reply String T World}
    (h : poolStep perform Job.script a pool = some pool') :
    pool'.shared.outbox = pool.shared.outbox ++
      pool'.shared.outbox.drop pool.shared.outbox.length := by
  have hgrows : ∃ l, pool'.shared.outbox = pool.shared.outbox ++ l := by
    rcases poolStep_shared h with heq | ⟨c, heq⟩
    · exact ⟨[], by rw [heq, List.append_nil]⟩
    · exact ⟨pushes c, by rw [heq, outbox_perform]⟩
  obtain ⟨l, hl⟩ := hgrows
  rw [hl, List.drop_left]

/-- What has arrived and what waits is what was pushed, in the same order for each entry. -/
def Plane.Accounted (s : Plane ι T) : Prop :=
  ∀ e x, (s.arrived ++ s.waiting.map Prod.snd).filter (About e x) =
    s.pool.shared.outbox.filter (About e x)

theorem Plane.Accounted.next {a : PlaneAction ι T} (h : s.Accounted) (ha : InPushOrder a s)
    (hstep : planeStep controller a s = some s') : s'.Accounted := by
  intro e x
  cases a with
  | thread a =>
      obtain ⟨pool, hpool, rfl⟩ := Option.map_eq_some_iff.mp hstep
      have hgrows := outbox_poolStep hpool
      dsimp only
      generalize pool.shared.outbox.drop s.pool.shared.outbox.length = sent at hgrows ⊢
      have hsent : (sent.map (Prod.mk (controller (actor a)))).map Prod.snd = sent := by
        rw [List.map_map]
        exact List.map_id sent
      rw [hgrows, List.map_append, hsent, ← List.append_assoc, List.filter_append, h e x,
        List.filter_append]
  | arrive i =>
      obtain ⟨next, hnext, rfl⟩ := Option.map_eq_some_iff.mp hstep
      obtain ⟨hwaiting, -⟩ := Replay.takeFirst_eq_some hnext
      have horder := ha next hnext
      rw [← h e x, hwaiting]
      dsimp only
      rw [List.map_append, List.map_append, List.map_cons]
      refine Replay.filter_overtake fun habout b hb => ?_
      obtain ⟨b', hb', rfl⟩ := List.mem_map.mp hb
      exact not_about_of_not_sameEntry (horder b' hb') habout

/-- The threads of a run of the controllers. -/
theorem senders_of_plane {room_id : String} {P : PlaneAction ι T → Plane ι T → Prop}
    (hP : ∀ a s, P a s → InRoom room_id a s) (hs : (plane Answers controller).Reaches P s) :
    (senders Answers T).Reaches (OneRoom room_id) s.pool := by
  induction hs with
  | init h => exact .init h.1
  | @step s s' a hs ha hstep ih =>
      cases a with
      | thread a =>
          obtain ⟨pool, hpool, rfl⟩ := Option.map_eq_some_iff.mp hstep
          exact .step ih (hP _ _ ha) hpool
      | arrive i =>
          obtain ⟨next, -, rfl⟩ := Option.map_eq_some_iff.mp hstep
          exact ih

theorem accounted_of_reaches {P : PlaneAction ι T → Plane ι T → Prop}
    (hP : ∀ a s, (plane Answers controller).Reaches P s → P a s → InPushOrder a s)
    (hs : (plane Answers controller).Reaches P s) : s.Accounted := by
  induction hs with
  | init h =>
      intro e x
      rw [h.2.1, h.2.2, h.1.1.2.outbox]
      rfl
  | step hs ha hstep ih => exact ih.next (hP _ _ hs ha) hstep

/-- At rest with a lock that is free. -/
theorem quiescent_of_free {room_id : String} {P : PlaneAction ι T → Plane ι T → Prop}
    (hP : ∀ a s, P a s → InRoom room_id a s) (hs : (plane Answers controller).Reaches P s)
    (hwaiting : s.waiting = []) (hfree : s.pool.owner room_id = none) : s.Quiescent room_id := by
  refine ⟨hwaiting, fun t β body k hinside => ?_⟩
  have hheld := held_of_reaches (senders_of_plane hP hs) t room_id β body k hinside
  rw [hfree] at hheld
  cases hheld

omit [DecidableEq ι] in
theorem mediaAgrees_of_accounted {room_id : String}
    (hs : (senders World.Fits T).Reaches (OneRoom room_id) s.pool)
    (haccounted : s.Accounted) (hquiet : s.Quiescent room_id) : s.MediaAgrees room_id := by
  intro e x
  rw [← agrees_of_outside hs hquiet.2 e x]
  refine mem_erizo_congr ?_
  rw [← haccounted e x, hquiet.1, List.map_nil, List.append_nil]

/-- The messages of one controller arrive in the order in which they were pushed. -/
theorem inPushOrder_of_one {P : PlaneAction ι T → Plane ι T → Prop}
    (hone : ∀ t t', controller t = controller t') (hs : (plane Answers controller).Reaches P s)
    (a : PlaneAction ι T) : InPushOrder a s := by
  have htags : ∀ b ∈ s.waiting, ∃ t, b.1 = controller t := by
    refine hs.invariant (I := fun s => ∀ b ∈ s.waiting, ∃ t, b.1 = controller t)
      (fun s h b hb => ?_) fun a s s' h _ hstep => ?_
    · rw [h.2.1] at hb
      cases hb
    · cases a with
      | thread a =>
          obtain ⟨pool, -, rfl⟩ := Option.map_eq_some_iff.mp hstep
          intro b hb
          rcases List.mem_append.mp hb with hb | hb
          · exact h b hb
          · obtain ⟨m, -, rfl⟩ := List.mem_map.mp hb
            exact ⟨actor a, rfl⟩
      | arrive i =>
          obtain ⟨next, hnext, rfl⟩ := Option.map_eq_some_iff.mp hstep
          intro b hb
          obtain ⟨hwaiting, -⟩ := Replay.takeFirst_eq_some hnext
          refine h b ?_
          rw [hwaiting, List.mem_append, List.mem_cons]
          exact (List.mem_append.mp hb).imp id Or.inr
  cases a with
  | thread a => trivial
  | arrive i =>
      intro next hnext b hb
      obtain ⟨hwaiting, hother⟩ := Replay.takeFirst_eq_some hnext
      have hb' : b ∈ s.waiting := by
        rw [hwaiting]
        exact List.mem_append_left _ hb
      have hnext' : (i, next.2.1) ∈ s.waiting := by
        rw [hwaiting]
        exact List.mem_append_right _ List.mem_cons_self
      obtain ⟨t, ht⟩ := htags b hb'
      obtain ⟨t', ht'⟩ := htags _ hnext'
      exact absurd (ht.trans ((hone t t').trans ht'.symm)) (hother b hb)

end Plane

/-- At rest the erizos keep what the room records if the messages about one entry arrive in the
order in which they were pushed, whatever else overtakes them; and always where there is one
controller. -/
theorem mediaPlane_agrees {ι T : Type} [DecidableEq ι] [DecidableEq T] (controller : T → ι)
    (room_id : String) :
    (∀ s, (plane World.Fits controller).Reaches (fun a s => InRoom room_id a s ∧
      InPushOrder a s) s →
      s.Quiescent room_id → s.MediaAgrees room_id) ∧
    ((∀ t t', controller t = controller t') →
      ∀ s, (plane World.Fits controller).Reaches (InRoom room_id) s →
        s.Quiescent room_id → s.MediaAgrees room_id) := by
  refine ⟨fun s hs hquiet => ?_, fun hone s hs hquiet => ?_⟩
  · exact mediaAgrees_of_accounted (senders_of_plane (fun a s ha => ha.1) hs)
      (accounted_of_reaches (fun a s _ ha => ha.2) hs) hquiet
  · exact mediaAgrees_of_accounted (senders_of_plane (fun a s ha => ha) hs)
      (accounted_of_reaches (fun a s hs _ => inPushOrder_of_one hone hs a) hs) hquiet

/-! ## Samples

The publisher `a` is connected to one controller, and its viewer `b`, on another erizo, to
the other. -/

section Sample

instance {T : Type} (room_id : String) (a : Action T Job)
    (s : Pool Command Command.Reply String T World) : Decidable (OneRoom room_id a s) :=
  inferInstanceAs (Decidable (∀ name ∈ asksFor s a, name = room_id))

instance {ι T : Type} (room_id : String) (a : PlaneAction ι T) (s : Plane ι T) :
    Decidable (InRoom room_id a s) :=
  match a with
  | .thread a => inferInstanceAs (Decidable (OneRoom room_id a s.pool))
  | .arrive _ => isTrue trivial

instance {ι T : Type} [DecidableEq ι] (a : PlaneAction ι T) (s : Plane ι T) :
    Decidable (InPushOrder a s) :=
  match a with
  | .thread _ => isTrue trivial
  | .arrive i => inferInstanceAs (Decidable (∀ next ∈ Replay.takeFirst i s.waiting,
      ∀ b ∈ next.1, ¬ SameEntry next.2.1 b.2))

/-- Two threads, each of a controller of its own. -/
def controllerOf (t : Bool) : Bool := t

def startPlane (o : Oracle) : Plane Bool Bool where
  pool := { startPool with shared := .start .empty o }
  waiting := []
  arrived := []

theorem startPlane_init {Answers : World → Prop} {controller : Bool → Bool} {o : Oracle}
    (h : Answers (.start .empty o)) : (plane Answers controller).init (startPlane o) :=
  ⟨⟨⟨h, fun _ _ _ => rfl, rfl⟩, fun _ => rfl, fun _ => rfl⟩, rfl, rfl⟩

def publishing (client_id erizo_id : String) : List (PlaneAction Bool Bool) :=
  .thread (.start false (sampleEvent (sampleClient client_id "a1" erizo_id) "publish"
      [("label", .stringValue "l")])) ::
    List.replicate 3 (.thread (.command false)) ++ [.thread (.acquire false)] ++
    List.replicate 2 (.thread (.command false)) ++ [.thread (.release false)]

def answering : List (PlaneAction Bool Bool) :=
  [.thread (.start false sampleAnswer), .thread (.acquire false), .thread (.command false),
    .thread (.command false), .thread (.release false), .thread (.command false)]

def viewing : List (PlaneAction Bool Bool) :=
  [.thread (.start true (sampleEvent (sampleClient "b" "a1" "e2") "subscribe"
      [("streamId", .stringValue "x")])), .thread (.acquire true)] ++
    List.replicate 4 (.thread (.command true)) ++ [.thread (.release true)]

/-- The close of the connection of `a`, with so many commands. -/
def leaving (commands : ℕ) : List (PlaneAction Bool Bool) :=
  [.thread (.start false (.onClose (sampleClient "a" "a1" "e1"))), .thread (.acquire false)] ++
    List.replicate commands (.thread (.command false)) ++ [.thread (.release false)]

/-- The viewer's message arrives first; it is about another entry than the publisher's. -/
theorem mediaPlane_agrees_viewer :
    ∃ s, (plane World.Fits controllerOf).Reaches
        (fun a s => InRoom "room" a s ∧ InPushOrder a s) s ∧
      s.MediaAgrees "room" ∧ Recorded s.pool.shared.redis "room" "e2" (.subscriber "b" "x") := by
  have hrun : ((plane World.Fits controllerOf).runChecked
      (fun a s => InRoom "room" a s ∧ InPushOrder a s)
      (publishing "a" "e1" ++ answering ++ viewing ++ [.arrive true, .arrive false])
      (startPlane freshOracle)).any (fun s => s.waiting.isEmpty ∧ s.pool.owner "room" = none ∧
        Recorded s.pool.shared.redis "room" "e2" (.subscriber "b" "x")) = true := by
    decide
  obtain ⟨s, hs, hend⟩ := Machine.exists_reaches_of_runChecked
    (fun _ _ h => of_decide_eq_true h) (startPlane_init freshOracle_fits) hrun
  obtain ⟨hwaiting, hfree, hviewer⟩ := of_decide_eq_true hend
  exact ⟨s, hs, (mediaPlane_agrees controllerOf "room").1 s hs
    (quiescent_of_free (fun _ _ h => h.1) hs (List.isEmpty_iff.mp hwaiting) hfree), hviewer⟩

/-- A run to rest after which an entry is kept and not recorded, or the other way. -/
theorem exists_diverging {Answers : World → Prop} {controller : Bool → Bool} {o : Oracle}
    (ho : Answers (.start .empty o)) {as : List (PlaneAction Bool Bool)} {e : String} {x : Entry}
    (hrun : ((plane Answers controller).runChecked (fun a s => InRoom "room" a s) as
      (startPlane o)).any (fun s => s.waiting.isEmpty ∧ s.pool.owner "room" = none ∧
        ¬ (x ∈ erizo e s.arrived ↔ Recorded s.pool.shared.redis "room" e x)) = true) :
    ∃ s, (plane Answers controller).Reaches (InRoom "room") s ∧ s.Quiescent "room" ∧
      ¬ s.MediaAgrees "room" := by
  obtain ⟨s, hs, hend⟩ := Machine.exists_reaches_of_runChecked
    (fun _ _ h => of_decide_eq_true h) (startPlane_init ho) hrun
  obtain ⟨hwaiting, hfree, hdiverges⟩ := of_decide_eq_true hend
  exact ⟨s, hs, quiescent_of_free (fun _ _ h => h) hs (List.isEmpty_iff.mp hwaiting) hfree,
    fun hagrees => hdiverges (hagrees e x)⟩

/-- The second write fails. -/
def secondWriteFails : Oracle :=
  { freshOracle with writeFault := fun n => n == 1 }

/-- Every stream has the same id. -/
def sameId : Oracle := { freshOracle with streamId := fun _ => "x" }

/-- The messages of a controller overtake those of another, and an erizo keeps a subscriber of
a stream that is gone. With one controller, a write that fails or an id that is drawn twice
does the same. -/
theorem mediaPlane_diverges :
    (∃ s, (plane World.Fits controllerOf).Reaches (InRoom "room") s ∧
      s.Quiescent "room" ∧ ¬ s.MediaAgrees "room") ∧
    (∃ s, (plane (fun w => w.oracle = secondWriteFails) (fun _ : Bool => false)).Reaches
        (InRoom "room") s ∧ s.Quiescent "room" ∧ ¬ s.MediaAgrees "room") ∧
    ∃ s, (plane (fun w => w.oracle = sameId) (fun _ : Bool => false)).Reaches
        (InRoom "room") s ∧ s.Quiescent "room" ∧ ¬ s.MediaAgrees "room" := by
  refine ⟨?_, ?_, ?_⟩
  · exact @exists_diverging _ _ _ freshOracle_fits
      (publishing "a" "e1" ++ answering ++ viewing ++ leaving 10 ++
        List.replicate 4 (.arrive false) ++ [.arrive true]) "e2" (.subscriber "b" "x") (by decide)
  · exact @exists_diverging _ _ _ rfl
      (publishing "a" "e1" ++ leaving 7 ++ List.replicate 2 (.arrive false)) "e1"
      (.publisher "a" "x") (by decide)
  · exact @exists_diverging _ _ _ rfl
      (publishing "a" "e1" ++ publishing "b" "e2" ++ List.replicate 2 (.arrive false)) "e1"
      (.publisher "a" "x") (by decide)

end Sample

end ErizoController
