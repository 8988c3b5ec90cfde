import ErizoController.Library.Machine
import ErizoController.Core.Handlers

/-!
# The heartbeat thread

Each controller stamps its own record from time to time and removes the records of other
controllers that it takes for expired, scheduling the removal of their clients. It reads
the clock before it asks for the lock, so a record may be stamped later than `now`.
-/

namespace ErizoController

section Thread

variable (self : ErizoController)

/-- Whether `data` is taken for expired. -/
def Expires (now : UInt64) (data : HEARTBEAT) : Prop :=
  data.id ≠ self.id_ ∧ toUInt64 self.erizo_controller_timeout < data.last_update - now

instance (now : UInt64) (data : HEARTBEAT) : Decidable (self.Expires now data) :=
  inferInstanceAs (Decidable (_ ∧ _))

/-- The loop over the heartbeats. -/
def expireHeartbeats (now : UInt64) : List HEARTBEAT → Handler Unit
  | [] => return ()
  | data :: heartbeats => do
      if self.Expires now data then
        let _ ← RedisHelper.removeHeartbeatData data.id
        asyncTask (.removeExpireErizoController data.id)
      expireHeartbeats now heartbeats

/-- Whether the own heartbeat has to be written again. -/
def UpdateDue (heartbeat_ : HEARTBEAT) (now : UInt64) : Prop :=
  toUInt64 self.erizo_controller_update_interval < now - heartbeat_.last_update

instance (heartbeat_ : HEARTBEAT) (now : UInt64) : Decidable (self.UpdateDue heartbeat_ now) :=
  inferInstanceAs (Decidable (_ < _))

/-- The own heartbeat written when it is due; `none` where the thread returns. -/
def updateHeartbeat (heartbeat_ : HEARTBEAT) (now : UInt64) : Handler (Option HEARTBEAT) :=
  if self.UpdateDue heartbeat_ now then do
    let heartbeat_ := { heartbeat_ with last_update := now }
    if (← RedisHelper.addHeartbeatData heartbeat_) ≠ 0 then return none
    return some heartbeat_
  else return some heartbeat_

/-- An iteration under the lock: the heartbeat it goes on with, `none` where the thread
returns. -/
def heartbeatLocked (heartbeat_ : HEARTBEAT) (now : UInt64) : Handler (Option HEARTBEAT) := do
  let some heartbeat_ ← self.updateHeartbeat heartbeat_ now | return none
  let some heartbeats ← RedisHelper.getAllHeartbeatData | return none
  self.expireHeartbeats now heartbeats
  return some heartbeat_

/-- One iteration of the thread after it has read the clock. -/
def heartbeatIteration (heartbeat_ : HEARTBEAT) (now : UInt64) : Session (Option HEARTBEAT) := do
  let some next ← Script.withLock "erizo_controller_heartbeat_locker"
    (self.heartbeatLocked heartbeat_ now) | return none
  return next

end Thread

/-! ## What an iteration does to the other controllers -/

/-- The records of the heartbeats. -/
abbrev heartbeatsOf (w : World) : Table HEARTBEAT :=
  w.redis .heartbeat RedisHelper.erizo_controller_heartbeat

section Iteration

variable (self : ErizoController)

/-- The world after one turn of the loop over the heartbeats. -/
def expire (now : UInt64) (data : HEARTBEAT) (w : World) : World :=
  if self.Expires now data then
    (exec (asyncTask (.removeExpireErizoController data.id))
      (exec (RedisHelper.removeHeartbeatData data.id) w).2).2
  else w

theorem exec_expireHeartbeats_cons (now : UInt64) (data : HEARTBEAT)
    (heartbeats : List HEARTBEAT) (w : World) :
    (exec (self.expireHeartbeats now (data :: heartbeats)) w).2 =
      (exec (self.expireHeartbeats now heartbeats) (self.expire now data w)).2 := by
  rw [expireHeartbeats, expire]
  split
  · rw [exec_bind, exec_bind]
  · rfl

/-- A turn removes at most the record it looks at. -/
theorem mem_expire {now : UInt64} {data other : HEARTBEAT} {w : World}
    (hmem : other ∈ heartbeatsOf w) (hother : self.Expires now data → data.id ≠ other.id) :
    other ∈ heartbeatsOf (self.expire now data w) := by
  rw [expire]
  split
  · rename_i hexpires
    change other ∈ heartbeatsOf (exec (RedisHelper.removeHeartbeatData data.id) w).2
    rw [RedisHelper.removeHeartbeatData, RedisHelper.exec_remove]
    split
    · exact hmem
    · simpa [heartbeatsOf, World.store] using ⟨hmem, (hother hexpires).symm⟩
  · exact hmem

theorem expire_tasks (now : UInt64) (data : HEARTBEAT) (w : World) :
    (self.expire now data w).tasks = w.tasks ++
      if self.Expires now data then [.removeExpireErizoController data.id] else [] := by
  rw [expire]
  split
  · change (exec (RedisHelper.removeHeartbeatData data.id) w).2.tasks ++ _ = _
    rw [RedisHelper.removeHeartbeatData, RedisHelper.exec_remove]
    split <;> rfl
  · rw [List.append_nil]

/-- A task is scheduled for each record taken for expired. -/
theorem exec_expireHeartbeats_tasks (now : UInt64) (heartbeats : List HEARTBEAT) (w : World) :
    (exec (self.expireHeartbeats now heartbeats) w).2.tasks =
      w.tasks ++ (heartbeats.filter fun data => self.Expires now data).map fun data =>
        .removeExpireErizoController data.id := by
  induction heartbeats generalizing w with
  | nil => exact (List.append_nil _).symm
  | cons data heartbeats ih =>
      rw [exec_expireHeartbeats_cons, ih, expire_tasks, List.append_assoc, List.filter_cons]
      by_cases hexpires : self.Expires now data
      · simp [hexpires]
      · simp [hexpires]

/-- The other records are kept. -/
theorem mem_exec_expireHeartbeats {now : UInt64} {heartbeats : List HEARTBEAT} {w : World}
    {other : HEARTBEAT} (hmem : other ∈ heartbeatsOf w)
    (hother : ∀ data ∈ heartbeats, self.Expires now data → data.id ≠ other.id) :
    other ∈ heartbeatsOf (exec (self.expireHeartbeats now heartbeats) w).2 := by
  induction heartbeats generalizing w with
  | nil => exact hmem
  | cons data heartbeats ih =>
      rw [exec_expireHeartbeats_cons]
      exact ih (self.mem_expire hmem (hother data List.mem_cons_self))
        fun data hdata => hother data (List.mem_cons_of_mem _ hdata)

/-- What the iteration has written when it lists the heartbeats, `none` where it returns
before. -/
def updated (heartbeat_ : HEARTBEAT) (now : UInt64) (w : World) : Option World :=
  if self.UpdateDue heartbeat_ now then
    if w.oracle.writeFault.head then none
    else some (w.drawWrite.store .heartbeat RedisHelper.erizo_controller_heartbeat
      ((heartbeatsOf w).set { heartbeat_ with last_update := now }))
  else some w

theorem updated_eq_none_iff {heartbeat_ : HEARTBEAT} {now : UInt64} {w : World} :
    self.updated heartbeat_ now w = none ↔
      self.UpdateDue heartbeat_ now ∧ w.oracle.writeFault.head = true := by
  rw [updated]
  split_ifs with hdue hfault <;> simp [*]

/-- Only the own record is written. -/
theorem updated_frame {heartbeat_ : HEARTBEAT} {now : UInt64} {w w' : World}
    (h : self.updated heartbeat_ now w = some w') :
    w'.tasks = w.tasks ∧ w'.oracle.readFault = w.oracle.readFault ∧
      ∀ data : HEARTBEAT, data.id ≠ heartbeat_.id →
        (data ∈ heartbeatsOf w' ↔ data ∈ heartbeatsOf w) := by
  rw [updated] at h
  split_ifs at h with hdue hfault
  · obtain rfl := Option.some.inj h
    refine ⟨rfl, rfl, fun data hid => ?_⟩
    simp only [heartbeatsOf, World.store, Redis.update_self]
    rw [Table.mem_set]
    constructor
    · rintro (rfl | ⟨hmem, -⟩)
      · exact absurd rfl hid
      · exact hmem
    · exact fun hmem => .inr ⟨hmem, hid⟩
  · obtain rfl := Option.some.inj h
    exact ⟨rfl, rfl, fun _ _ => Iff.rfl⟩

/-- The heartbeats that the iteration reads. -/
def listed (w : World) : List HEARTBEAT :=
  if w.oracle.readFault.head then []
  else (heartbeatsOf w).rows.filter fun data => readsAsUint data.last_update

/-- The heartbeat that the next iteration starts with. -/
def nextHeartbeat (heartbeat_ : HEARTBEAT) (now : UInt64) : HEARTBEAT :=
  if self.UpdateDue heartbeat_ now then { heartbeat_ with last_update := now } else heartbeat_

theorem exec_updateHeartbeat (heartbeat_ : HEARTBEAT) (now : UInt64) (w : World) :
    exec (self.updateHeartbeat heartbeat_ now) w =
      match self.updated heartbeat_ now w with
      | none => (none, w.drawWrite)
      | some w' => (some (self.nextHeartbeat heartbeat_ now), w') := by
  rw [updateHeartbeat, updated, nextHeartbeat]
  split
  · dsimp only
    rw [exec_bind, RedisHelper.addHeartbeatData, RedisHelper.exec_add]
    by_cases hfault : w.oracle.writeFault.head = true
    · rw [if_pos hfault, if_pos hfault]
      rfl
    · rw [if_neg hfault, if_neg hfault]
      rfl
  · rfl

theorem exec_heartbeatLocked (heartbeat_ : HEARTBEAT) (now : UInt64) (w : World) :
    exec (self.heartbeatLocked heartbeat_ now) w =
      match self.updated heartbeat_ now w with
      | none => (none, w.drawWrite)
      | some w' => (some (self.nextHeartbeat heartbeat_ now),
          (exec (self.expireHeartbeats now (listed w')) w'.drawRead).2) := by
  rw [heartbeatLocked, exec_bind, exec_updateHeartbeat]
  cases self.updated heartbeat_ now w with
  | none => rfl
  | some w' =>
      dsimp only
      rw [exec_bind, RedisHelper.getAllHeartbeatData, RedisHelper.exec_getAll]
      dsimp only
      rw [exec_bind, exec_pure]
      rfl

/-- The other controllers whose record an iteration removes or whose clients it schedules
to be removed. -/
def treatedAsExpired (w w' : World) : List HEARTBEAT :=
  (heartbeatsOf w).rows.filter fun data => data.id ≠ self.id_ ∧
    (data ∉ heartbeatsOf w' ∨
      WorkerTask.removeExpireErizoController data.id ∈ w'.tasks.drop w.tasks.length)

/-- The heartbeats are read in this iteration. -/
def Lists (heartbeat_ : HEARTBEAT) (now : UInt64) (w : World) : Prop :=
  ¬ (self.UpdateDue heartbeat_ now ∧ w.oracle.writeFault.head = true) ∧
    w.oracle.readFault.head = false

instance (heartbeat_ : HEARTBEAT) (now : UInt64) (w : World) :
    Decidable (self.Lists heartbeat_ now w) :=
  inferInstanceAs (Decidable (_ ∧ _))

theorem mem_listed {w : World} {data : HEARTBEAT} :
    data ∈ listed w ↔ w.oracle.readFault.head = false ∧ data ∈ heartbeatsOf w ∧
      readsAsUint data.last_update = true := by
  rw [listed]
  split
  · simp [*]
  · simp [*, Table.mem_rows]

/-- The iteration takes another controller's record for expired exactly when it reads it
and the difference to `now` is above the timeout. -/
theorem mem_treatedAsExpired {heartbeat_ : HEARTBEAT} {now : UInt64} {w : World}
    (hid : heartbeat_.id = self.id_) {data : HEARTBEAT} :
    data ∈ self.treatedAsExpired w (exec (self.heartbeatLocked heartbeat_ now) w).2 ↔
      data ∈ heartbeatsOf w ∧ self.Lists heartbeat_ now w ∧ readsAsUint data.last_update = true ∧
        self.Expires now data := by
  rw [exec_heartbeatLocked, treatedAsExpired, List.mem_filter, decide_eq_true_eq, Table.mem_rows]
  refine and_congr_right fun hmem => ?_
  cases hupdated : self.updated heartbeat_ now w with
  | none =>
      refine iff_of_false ?_ fun h => h.1.1 (self.updated_eq_none_iff.mp hupdated)
      rintro ⟨-, hgone | htask⟩
      · exact hgone hmem
      · simp [World.drawWrite] at htask
  | some w' =>
      obtain ⟨htasks, hfault, hframe⟩ := self.updated_frame hupdated
      have hdue : ¬ (self.UpdateDue heartbeat_ now ∧ w.oracle.writeFault.head = true) := by
        rw [← updated_eq_none_iff, hupdated]
        exact Option.some_ne_none w'
      have hsame : ∀ other ∈ listed w', self.Expires now other → other.id = data.id →
        other = data := by
        intro other hother hexpires hother_id
        have hin := (hframe other (hid ▸ hexpires.1)).mp (mem_listed.mp hother).2.1
        exact Table.eq_of_key_eq hin hmem hother_id
      dsimp only
      constructor
      · rintro ⟨hne, htreated⟩
        have hexpired : data ∈ listed w' ∧ self.Expires now data := by
          rcases htreated with hgone | htask
          · by_contra hnot
            refine hgone (self.mem_exec_expireHeartbeats (w := w'.drawRead)
              ((hframe data (hid ▸ hne)).mpr hmem) fun other hother hexpires hother_id => hnot ?_)
            rw [← hsame other hother hexpires hother_id]
            exact ⟨hother, hexpires⟩
          · rw [exec_expireHeartbeats_tasks, World.drawRead, htasks, List.drop_left] at htask
            simp only [List.mem_map, List.mem_filter, decide_eq_true_eq,
              WorkerTask.removeExpireErizoController.injEq] at htask
            obtain ⟨other, ⟨hother, hexpires⟩, hother_id⟩ := htask
            rw [← hsame other hother hexpires hother_id]
            exact ⟨hother, hexpires⟩
        obtain ⟨hread, -, huint⟩ := mem_listed.mp hexpired.1
        exact ⟨⟨hdue, by rw [← hfault]; exact hread⟩, huint, hexpired.2⟩
      · rintro ⟨hlists, huint, hexpires⟩
        have hlisted : data ∈ listed w' := by
          refine mem_listed.mpr ⟨by rw [hfault]; exact hlists.2, ?_, huint⟩
          exact (hframe data (hid ▸ hexpires.1)).mpr hmem
        refine ⟨hexpires.1, .inr ?_⟩
        rw [exec_expireHeartbeats_tasks, World.drawRead, htasks, List.drop_left]
        exact List.mem_map_of_mem (List.mem_filter.mpr ⟨hlisted, decide_eq_true hexpires⟩)

theorem execSession_heartbeatIteration (heartbeat_ : HEARTBEAT) (now : UInt64) (w : World) :
    execSession (self.heartbeatIteration heartbeat_ now) w =
      if w.oracle.lockTaken.head then exec (self.heartbeatLocked heartbeat_ now)
        (tryLock "erizo_controller_heartbeat_locker" w).2
      else (none, (tryLock "erizo_controller_heartbeat_locker" w).2) := by
  rw [heartbeatIteration, execSession_bind, execSession_withLock]
  by_cases htaken : w.oracle.lockTaken.head = true
  · rw [if_pos htaken, if_pos (show (tryLock _ w).1 = true from htaken)]
    rfl
  · rw [if_neg htaken, if_neg (show ¬ (tryLock _ w).1 = true from htaken)]
    rfl

/-- An iteration that does not obtain the lock leaves every record alone. -/
theorem mem_treatedAsExpired_iteration {heartbeat_ : HEARTBEAT} {now : UInt64} {w : World}
    (hid : heartbeat_.id = self.id_) {data : HEARTBEAT} :
    data ∈ self.treatedAsExpired w (execSession (self.heartbeatIteration heartbeat_ now) w).2 ↔
      w.oracle.lockTaken.head = true ∧ data ∈ heartbeatsOf w ∧ self.Lists heartbeat_ now w ∧
        readsAsUint data.last_update = true ∧ self.Expires now data := by
  rw [execSession_heartbeatIteration]
  split
  · rename_i htaken
    exact (self.mem_treatedAsExpired (w := (tryLock _ w).2) hid).trans (by simp [htaken]; rfl)
  · rename_i htaken
    refine iff_of_false ?_ fun h => htaken h.1
    rw [treatedAsExpired, List.mem_filter, decide_eq_true_eq]
    rintro ⟨hmem, -, hgone | htask⟩
    · exact hgone hmem
    · simp [tryLock] at htask

theorem heartbeatIteration_id {heartbeat_ next : HEARTBEAT} {now : UInt64} {w : World}
    (h : (execSession (self.heartbeatIteration heartbeat_ now) w).1 = some next) :
    next.id = heartbeat_.id := by
  rw [execSession_heartbeatIteration, exec_heartbeatLocked] at h
  split at h
  · split at h
    · cases h
    · obtain rfl := Option.some.inj h
      rw [nextHeartbeat]
      split <;> rfl
  · cases h

end Iteration

/-! ## Controllers that share the store -/

/-- A record treated as expired, with the clock value and the timeout it was judged by. -/
structure Expiry where
  timeout : Int32
  now : UInt64
  data : HEARTBEAT

/-- In exact arithmetic the record is older than the timeout. -/
def Expiry.Overdue (e : Expiry) : Prop :=
  e.timeout.toInt < (e.now.toNat : ℤ) - e.data.last_update.toNat

instance (e : Expiry) : Decidable e.Overdue := inferInstanceAs (Decidable (_ < _))

/-- The store and the heartbeat threads of the controllers. `now` is the clock value of an
iteration under way, and `expiries` records what was treated as expired. -/
structure Heartbeats (ι : Type) where
  world : World
  heartbeat_ : ι → HEARTBEAT
  now : ι → Option UInt64
  running : ι → Bool
  expiries : List Expiry

/-- A thread reads the clock, goes through one iteration, or ends because its controller
is closed. The oracle holds the answers of the outside to its commands. -/
inductive HeartbeatAction (ι : Type) where
  | getSystemMs (i : ι) (now : UInt64)
  | iterate (i : ι) (o : Oracle)
  | close (i : ι) (o : Oracle)

section Controllers

variable {ι : Type} [DecidableEq ι] (controllers : ι → ErizoController)

/-- The state after an iteration that started at `now`. -/
def iterated (i : ι) (o : Oracle) (now : UInt64) (s : Heartbeats ι) : Heartbeats ι :=
  let w := s.world.withOracle o
  let (next, w') := execSession ((controllers i).heartbeatIteration (s.heartbeat_ i) now) w
  { world := w'
    heartbeat_ := Function.update s.heartbeat_ i (next.getD (s.heartbeat_ i))
    now := Function.update s.now i none
    running := Function.update s.running i next.isSome
    expiries := s.expiries ++ ((controllers i).treatedAsExpired w w').map
      (Expiry.mk (controllers i).erizo_controller_timeout now) }

def heartbeatStep : HeartbeatAction ι → Heartbeats ι → Option (Heartbeats ι)
  | .getSystemMs i now, s =>
      if s.running i = true ∧ s.now i = none then
        some { s with now := Function.update s.now i (some now) }
      else none
  | .iterate i o, s => (s.now i).map fun now => iterated controllers i o now s
  | .close i o, s =>
      if s.running i = true ∧ s.now i = none then
        some { s with
          world := (exec (RedisHelper.removeHeartbeatData (controllers i).id_)
            (s.world.withOracle o)).2
          running := Function.update s.running i false }
      else none

/-- Threads that start on any store. -/
def heartbeats : Machine (HeartbeatAction ι) (Heartbeats ι) where
  init s := (∀ i, s.heartbeat_ i = { id := (controllers i).id_ }) ∧ (∀ i, s.now i = none) ∧
    (∀ i, s.running i = true) ∧ s.expiries = []
  step := heartbeatStep controllers

/-- Every other controller's record that an iteration reads lies at most the timeout above
`now`, in the arithmetic of `uint64_t`, or is older than the timeout. -/
def Punctual : HeartbeatAction ι → Heartbeats ι → Prop
  | .iterate i o, s => ∀ now, s.now i = some now → o.lockTaken.head = true →
      (controllers i).Lists (s.heartbeat_ i) now (s.world.withOracle o) →
      ∀ data ∈ heartbeatsOf s.world, data.id ≠ (controllers i).id_ →
        readsAsUint data.last_update = true →
        data.last_update - now ≤ toUInt64 (controllers i).erizo_controller_timeout ∨
          (Expiry.mk (controllers i).erizo_controller_timeout now data).Overdue
  | _, _ => True

/-- Every thread keeps its own id. -/
def OwnIds (s : Heartbeats ι) : Prop := ∀ i, (s.heartbeat_ i).id = (controllers i).id_

variable {controllers}

/-- A step is an iteration, or it leaves the heartbeats and the expiries as they are. -/
theorem heartbeatStep_cases {a : HeartbeatAction ι} {s s' : Heartbeats ι}
    (hstep : heartbeatStep controllers a s = some s') :
    (∃ i o now, a = .iterate i o ∧ s.now i = some now ∧ s' = iterated controllers i o now s) ∨
      (s'.heartbeat_ = s.heartbeat_ ∧ s'.expiries = s.expiries ∧ Punctual controllers a s) := by
  cases a with
  | getSystemMs i now =>
      simp only [heartbeatStep] at hstep
      split at hstep
      · obtain rfl := Option.some.inj hstep
        exact .inr ⟨rfl, rfl, trivial⟩
      · cases hstep
  | close i o =>
      simp only [heartbeatStep] at hstep
      split at hstep
      · obtain rfl := Option.some.inj hstep
        exact .inr ⟨rfl, rfl, trivial⟩
      · cases hstep
  | iterate i o =>
      obtain ⟨now, hnow, rfl⟩ := Option.map_eq_some_iff.mp hstep
      exact .inl ⟨i, o, now, rfl, hnow, rfl⟩

theorem OwnIds.step {a : HeartbeatAction ι} {s s' : Heartbeats ι} (h : OwnIds controllers s)
    (hstep : heartbeatStep controllers a s = some s') : OwnIds controllers s' := by
  intro j
  rcases heartbeatStep_cases hstep with ⟨i, o, now, -, -, rfl⟩ | ⟨hheartbeat, -, -⟩
  · rw [iterated]
    dsimp only
    by_cases hj : j = i
    · subst hj
      rw [Function.update_self]
      cases hnext : (execSession ((controllers j).heartbeatIteration (s.heartbeat_ j) now)
        (s.world.withOracle o)).1 with
      | none => exact h j
      | some next => exact (heartbeatIteration_id _ hnext).trans (h j)
    · rw [Function.update_of_ne hj]
      exact h j
  · rw [hheartbeat]
    exact h j

theorem expiries_subset {a : HeartbeatAction ι} {s s' : Heartbeats ι}
    (hstep : heartbeatStep controllers a s = some s') : s.expiries ⊆ s'.expiries := by
  rcases heartbeatStep_cases hstep with ⟨i, o, now, -, -, rfl⟩ | ⟨-, hexpiries, -⟩
  · exact List.subset_append_left _ _
  · rw [hexpiries]
    exact List.Subset.refl _

theorem overdue_step_iff {a : HeartbeatAction ι} {s s' : Heartbeats ι}
    (hids : OwnIds controllers s) (hstep : heartbeatStep controllers a s = some s') :
    (∀ e ∈ s'.expiries, e.Overdue) ↔ (∀ e ∈ s.expiries, e.Overdue) ∧ Punctual controllers a s := by
  rcases heartbeatStep_cases hstep with ⟨i, o, now, rfl, hnow, rfl⟩ | ⟨-, hexpiries, hpunctual⟩
  · simp only [iterated, List.forall_mem_append]
    refine and_congr_right fun _ => ?_
    simp only [List.forall_mem_map, mem_treatedAsExpired_iteration _ (hids i)]
    constructor
    · intro hall now' hnow' htaken hlists data hmem hid huint
      obtain rfl := Option.some.inj (hnow.symm.trans hnow')
      by_cases hexpires : (controllers i).Expires now data
      · exact .inr (hall data ⟨htaken, hmem, hlists, huint, hexpires⟩)
      · exact .inl (UInt64.not_lt.mp fun hlt => hexpires ⟨hid, hlt⟩)
    · rintro hpunctual data ⟨htaken, hmem, hlists, huint, hid, hlt⟩
      rcases hpunctual now hnow htaken hlists data hmem hid huint with hle | hoverdue
      · exact absurd hlt (UInt64.not_lt.mpr hle)
      · exact hoverdue
  · rw [hexpiries]
    exact (and_iff_left hpunctual).symm

/-- Only records older than the timeout are treated as expired exactly in the runs whose
iterations all find the other records punctual. -/
theorem expiries_overdue_iff {as : List (HeartbeatAction ι)} {s s' : Heartbeats ι}
    (hinit : (heartbeats controllers).init s)
    (hrun : (heartbeats controllers).run as s = some s') :
    (∀ e ∈ s'.expiries, e.Overdue) ↔
      (heartbeats controllers).Along (Punctual controllers) as s := by
  obtain ⟨hheartbeat, -, -, hexpiries⟩ := hinit
  refine Machine.run_iff_along (P := Punctual controllers) (I := OwnIds controllers)
    (G := fun s => ∀ e ∈ s.expiries, e.Overdue) ?_ ?_ ?_ ?_ ?_ hrun
  · intro a s s' hids hG hP hstep
    exact ⟨hids.step hstep, (overdue_step_iff hids hstep).mpr ⟨hG, hP⟩⟩
  · intro a s s' hids _ hP hstep hG
    exact hP ((overdue_step_iff hids hstep).mp hG).2
  · exact fun a s s' hstep hG e he => hG e (expiries_subset hstep he)
  · intro i
    rw [hheartbeat i]
  · rw [hexpiries]
    exact fun e he => absurd he List.not_mem_nil

end Controllers

/-- Two controllers with the default timeout of 3000 ms. -/
def twoControllers (second : Bool) : ErizoController :=
  .ofId (if second then "ec_2" else "ec_1")

def twoHeartbeats : Heartbeats Bool where
  world := .start .empty .quiet
  heartbeat_ second := { id := (twoControllers second).id_ }
  now _ := none
  running _ := true
  expiries := []

/-- The first controller stamps its record at 10000000000, and `ms` later the second one
goes through an iteration. -/
def twoIterations (ms : UInt64) : List (HeartbeatAction Bool) :=
  [.getSystemMs false 10000000000, .iterate false .quiet,
    .getSystemMs true (10000000000 + ms), .iterate true .quiet]

theorem twoHeartbeats_init : (heartbeats twoControllers).init twoHeartbeats :=
  ⟨fun _ => rfl, fun _ => rfl, fun _ => rfl, rfl⟩

/-- A record of 4000 ms ago is removed, and it is overdue. -/
theorem expiries_overdue_after_silence :
    ∃ s, (heartbeats twoControllers).run (twoIterations 4000) twoHeartbeats = some s ∧
      s.expiries.length = 1 ∧
      (heartbeats twoControllers).Along (Punctual twoControllers) (twoIterations 4000)
        twoHeartbeats := by
  have hrun : (((heartbeats twoControllers).run (twoIterations 4000) twoHeartbeats).map
      fun s => s.expiries.map fun e => decide e.Overdue) = some [true] := by decide
  obtain ⟨s, hs, hexpiries⟩ := Option.map_eq_some_iff.mp hrun
  have hlength := congrArg List.length hexpiries
  rw [List.length_map] at hlength
  refine ⟨s, hs, hlength, (expiries_overdue_iff twoHeartbeats_init hs).mp ?_⟩
  intro e he
  have hmem := List.mem_map_of_mem (f := fun e => decide e.Overdue) he
  rw [hexpiries, List.mem_singleton] at hmem
  exact of_decide_eq_true hmem

/-- A record of 1 ms ago is removed. -/
theorem live_controller_expires :
    ∃ s, (heartbeats twoControllers).run (twoIterations 1) twoHeartbeats = some s ∧
      ¬ ∀ e ∈ s.expiries, e.Overdue := by
  have hrun : (((heartbeats twoControllers).run (twoIterations 1) twoHeartbeats).map
      fun s => s.expiries.any fun e => !decide e.Overdue) = some true := by decide
  obtain ⟨s, hs, hexpiries⟩ := Option.map_eq_some_iff.mp hrun
  obtain ⟨e, he, hoverdue⟩ := List.any_eq_true.mp hexpiries
  exact ⟨s, hs, fun h => by simp [h e he] at hoverdue⟩

end ErizoController
