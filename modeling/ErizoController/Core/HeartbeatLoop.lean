import ErizoController.Core.Heartbeat

/-!
# The loop of the heartbeat thread

The thread of one controller, with the outcomes of its lock attempts and of its Redis commands
chosen anew in each iteration and the store changed by others in between. An iteration that
does not obtain the lock returns from the thread, and so does one whose write fails, after it
has taken the write for done.
-/

namespace ErizoController

/-- What an iteration has met and done. -/
structure Iteration where
  now : UInt64
  lockTaken : Bool
  due : Bool
  writeFault : Bool
  issued : List Command

/-- The iteration has attempted to write the record of the controller. -/
def Iteration.Attempts (id_ : String) (it : Iteration) : Prop :=
  .hset .heartbeat RedisHelper.erizo_controller_heartbeat { id := id_, last_update := it.now } ∈
    it.issued

/-- With the lock the record was due, and its write has failed. -/
def Iteration.WriteFailed (it : Iteration) : Prop :=
  it.lockTaken = true ∧ it.due = true ∧ it.writeFault = true

/-- The thread and what it shares: `now` is the clock value of an iteration under way, and
`written` is the `last_update` of the last record that was stored. -/
structure HeartbeatThread where
  run_ : Bool
  inLoop : Bool
  now : Option UInt64
  heartbeat_ : HEARTBEAT
  world : World
  written : UInt64
  iterations : List Iteration

/-- The thread tests `run_` and reads the clock; it goes through the rest of an iteration, with
the answers of the outside in the oracle; `close` clears `run_`; others change the store. -/
inductive LoopAction where
  | test (now : UInt64) (o : Oracle)
  | iterate (o : Oracle)
  | stop
  | others (redis : Redis)

section Loop

variable (self : ErizoController)

/-- The thread after an iteration that started at `now`. The record in memory is changed
before it is written. -/
def HeartbeatThread.iterated (o : Oracle) (now : UInt64) (s : HeartbeatThread) :
    HeartbeatThread :=
  let w := s.world.withOracle o
  let (next, w') := execSession (self.heartbeatIteration s.heartbeat_ now) w
  let due := decide (self.UpdateDue s.heartbeat_ now)
  let lockTaken := o.lockTaken.head
  { s with
    inLoop := next.isSome
    now := none
    heartbeat_ := if lockTaken then self.nextHeartbeat s.heartbeat_ now else s.heartbeat_
    world := w'
    written := if lockTaken && due && !o.writeFault.head then now else s.written
    iterations := s.iterations ++ [{
      now, lockTaken, due
      writeFault := o.writeFault.head
      issued := if lockTaken then
          (self.heartbeatLocked s.heartbeat_ now).issued perform
            (tryLock "erizo_controller_heartbeat_locker" w).2
        else [] }] }

def loopStep : LoopAction → HeartbeatThread → Option HeartbeatThread
  | .test now o, s =>
      if s.inLoop = true ∧ s.now = none then
        if s.run_ = true then some { s with now := some now }
        else some { s with
          inLoop := false
          world := (exec (RedisHelper.removeHeartbeatData self.id_) (s.world.withOracle o)).2 }
      else none
  | .iterate o, s => s.now.map fun now => s.iterated self o now
  | .stop, s => some { s with run_ := false }
  | .others redis, s => some { s with world := { s.world with redis := redis } }

/-- The thread as `init` starts it, on any store. -/
def startLoop (w : World) : HeartbeatThread where
  run_ := true
  inLoop := true
  now := none
  heartbeat_ := { id := self.id_ }
  world := w
  written := 0
  iterations := []

def heartbeatLoop : Machine LoopAction HeartbeatThread where
  init s := ∃ w, s = self.startLoop w
  step := self.loopStep

/-- A controller that runs is in its loop, each iteration with the lock attempts the write
when it is due, the iteration after a failed write attempts it again, and only a write that
was stored counts. -/
structure KeepsHeartbeat (ec : ErizoController) (s : HeartbeatThread) : Prop where
  inLoop : s.run_ = true → s.inLoop = true
  attempts : ∀ it ∈ s.iterations, it.lockTaken = true → it.due = true → it.Attempts ec.id_
  again : ∀ before it next after, s.iterations = before ++ it :: next :: after →
    it.WriteFailed → next.lockTaken = true → next.Attempts ec.id_
  counted : s.heartbeat_.last_update = s.written

/-- While the controller runs the lock is obtained, and the writes that are due succeed. -/
def LockedAndWritten : LoopAction → HeartbeatThread → Prop
  | .iterate o, s => ∀ now, s.now = some now → (s.run_ = true → o.lockTaken.head = true) ∧
      ¬ (o.lockTaken.head = true ∧ self.UpdateDue s.heartbeat_ now ∧ o.writeFault.head = true)
  | _, _ => True

/-! ## One iteration -/

/-- With the lock, the record is the first thing written when it is due. -/
theorem hset_mem_issued {heartbeat_ : HEARTBEAT} {now : UInt64} (w : World)
    (hid : heartbeat_.id = self.id_) (hdue : self.UpdateDue heartbeat_ now) :
    .hset .heartbeat RedisHelper.erizo_controller_heartbeat
        { id := self.id_, last_update := now } ∈
      (self.heartbeatLocked heartbeat_ now).issued perform w := by
  rw [heartbeatLocked, updateHeartbeat, if_pos hdue, ← hid]
  exact List.mem_cons_self

/-- The thread stays in its loop when it obtains the lock and its write does not fail. -/
theorem heartbeatIteration_isSome {heartbeat_ : HEARTBEAT} {now : UInt64} {w : World} :
    (execSession (self.heartbeatIteration heartbeat_ now) w).1.isSome = true ↔
      w.oracle.lockTaken.head = true ∧
        ¬ (self.UpdateDue heartbeat_ now ∧ w.oracle.writeFault.head = true) := by
  rw [execSession_heartbeatIteration]
  by_cases htaken : w.oracle.lockTaken.head = true
  · rw [if_pos htaken, exec_heartbeatLocked]
    have hnone : self.updated heartbeat_ now (tryLock "erizo_controller_heartbeat_locker" w).2 =
      none ↔
        self.UpdateDue heartbeat_ now ∧ w.oracle.writeFault.head = true :=
      self.updated_eq_none_iff
    cases hupdated : self.updated heartbeat_ now
        (tryLock "erizo_controller_heartbeat_locker" w).2 with
    | none =>
        refine iff_of_false (fun h => by cases h) fun h => h.2 ?_
        exact hnone.mp hupdated
    | some w' =>
        refine iff_of_true rfl ⟨htaken, fun h => ?_⟩
        rw [hnone.mpr h] at hupdated
        cases hupdated
  · rw [if_neg htaken]
    exact iff_of_false (fun h => by cases h) fun h => htaken h.1

theorem nextHeartbeat_id (heartbeat_ : HEARTBEAT) (now : UInt64) :
    (self.nextHeartbeat heartbeat_ now).id = heartbeat_.id := by
  rw [nextHeartbeat]
  split <;> rfl

theorem nextHeartbeat_last_update (heartbeat_ : HEARTBEAT) (now : UInt64) :
    (self.nextHeartbeat heartbeat_ now).last_update =
      if self.UpdateDue heartbeat_ now then now else heartbeat_.last_update := by
  rw [nextHeartbeat]
  split <;> rfl

/-- A record that is due is not stamped with `now`. -/
theorem UpdateDue.ne {heartbeat_ : HEARTBEAT} {now : UInt64}
    (h : self.UpdateDue heartbeat_ now) : now ≠ heartbeat_.last_update := by
  rintro rfl
  rw [UpdateDue, UInt64.sub_self] at h
  exact absurd h (UInt64.not_lt.mpr (UInt64.zero_le))

/-! ## What every run keeps -/

/-- What holds in every state: an iteration runs in the loop, one that attempts nothing is not
due or has no lock, and the thread has left its loop once a write has failed. -/
structure LoopInvariant (ec : ErizoController) (s : HeartbeatThread) : Prop where
  id : s.heartbeat_.id = ec.id_
  looping : s.now ≠ none → s.inLoop = true
  attempts : ∀ it ∈ s.iterations, it.lockTaken = true → it.due = true → it.Attempts ec.id_
  again : ∀ before it next after, s.iterations = before ++ it :: next :: after →
    it.WriteFailed → next.lockTaken = true → next.Attempts ec.id_
  left : ∀ it, s.iterations.getLast? = some it → it.WriteFailed → s.inLoop = false

theorem LoopInvariant.start (w : World) : LoopInvariant self (self.startLoop w) where
  id := rfl
  looping h := absurd rfl h
  attempts it h := absurd h List.not_mem_nil
  again before it next after h := by
    have hlength := congrArg List.length h
    rw [List.length_append] at hlength
    cases before <;> cases hlength
  left it h := by cases h

variable {self}

theorem LoopInvariant.iterated {s : HeartbeatThread} (h : LoopInvariant self s) {now : UInt64}
    (hnow : s.now = some now) (o : Oracle) : LoopInvariant self (s.iterated self o now) where
  id := by
    simp only [HeartbeatThread.iterated]
    split
    · exact (self.nextHeartbeat_id _ _).trans h.id
    · exact h.id
  looping hne := absurd rfl hne
  attempts it hit htaken hdue := by
    rcases List.mem_append.mp hit with hold | hnew
    · exact h.attempts it hold htaken hdue
    · obtain rfl := List.mem_singleton.mp hnew
      rw [Iteration.Attempts]
      dsimp only at htaken hdue ⊢
      rw [if_pos htaken]
      exact self.hset_mem_issued _ h.id (of_decide_eq_true hdue)
  again before it next after heq hfailed htaken := by
    have hlooping : s.inLoop = true := h.looping (by rw [hnow]; exact Option.some_ne_none now)
    obtain ⟨new, hnew⟩ : ∃ new, (s.iterated self o now).iterations = s.iterations ++ [new] :=
      ⟨_, rfl⟩
    rw [hnew] at heq
    rcases List.eq_nil_or_concat after with rfl | ⟨after', last, rfl⟩
    · -- the iteration before the new one has not failed, for the thread was still in its loop
      have hsplit : s.iterations ++ [new] = (before ++ [it]) ++ [next] := by
        rw [heq, List.append_assoc]
        rfl
      have hlast : s.iterations.getLast? = some it := by
        rw [(List.append_inj' hsplit rfl).1, List.getLast?_concat]
      rw [h.left it hlast hfailed] at hlooping
      cases hlooping
    · have hsplit : s.iterations ++ [new] = (before ++ it :: next :: after') ++ [last] := by
        rw [heq]
        simp
      exact h.again before it next after' (List.append_inj' hsplit rfl).1 hfailed htaken
  left it hlast hfailed := by
    simp only [HeartbeatThread.iterated, List.getLast?_concat] at hlast
    obtain rfl := Option.some.inj hlast
    obtain ⟨-, hdue, hfault⟩ := hfailed
    dsimp only at hdue hfault
    refine Bool.eq_false_iff.mpr fun hsome => ?_
    exact ((self.heartbeatIteration_isSome).mp hsome).2 ⟨of_decide_eq_true hdue, hfault⟩

theorem LoopInvariant.step {a : LoopAction} {s s' : HeartbeatThread} (h : LoopInvariant self s)
    (hstep : self.loopStep a s = some s') : LoopInvariant self s' := by
  cases a with
  | test now o =>
      simp only [loopStep] at hstep
      split_ifs at hstep with hloop hrun
      · obtain rfl := Option.some.inj hstep
        exact ⟨h.id, fun _ => hloop.1, h.attempts, h.again, h.left⟩
      · obtain rfl := Option.some.inj hstep
        exact ⟨h.id, fun hne => absurd hloop.2 hne, h.attempts, h.again, fun _ _ _ => rfl⟩
  | iterate o =>
      obtain ⟨now, hnow, rfl⟩ := Option.map_eq_some_iff.mp hstep
      exact h.iterated hnow o
  | stop =>
      obtain rfl := Option.some.inj hstep
      exact ⟨h.id, h.looping, h.attempts, h.again, h.left⟩
  | others redis =>
      obtain rfl := Option.some.inj hstep
      exact ⟨h.id, h.looping, h.attempts, h.again, h.left⟩

/-! ## When the heartbeat is kept -/

/-- An iteration keeps the heartbeat exactly when it has the lock while the controller runs, and
the write that is due succeeds. -/
theorem keepsHeartbeat_iterated {s : HeartbeatThread} (hinv : LoopInvariant self s)
    (h : KeepsHeartbeat self s) {now : UInt64} (hnow : s.now = some now) (o : Oracle) :
    KeepsHeartbeat self (s.iterated self o now) ↔
      (s.run_ = true → o.lockTaken.head = true) ∧ ¬ (o.lockTaken.head = true ∧
        self.UpdateDue s.heartbeat_ now ∧ o.writeFault.head = true) := by
  have hloop : (s.iterated self o now).inLoop = true ↔ o.lockTaken.head = true ∧
      ¬ (self.UpdateDue s.heartbeat_ now ∧ o.writeFault.head = true) :=
    self.heartbeatIteration_isSome
  constructor
  · intro hkeeps
    refine ⟨fun hrun => (hloop.mp (hkeeps.inLoop hrun)).1, ?_⟩
    rintro ⟨htaken, hdue, hfault⟩
    have hcounted := hkeeps.counted
    simp only [HeartbeatThread.iterated, htaken, hfault, if_true, Bool.not_true,
      Bool.and_false] at hcounted
    rw [nextHeartbeat_last_update, if_pos hdue] at hcounted
    exact UpdateDue.ne self hdue (hcounted.trans h.counted.symm)
  · rintro ⟨hlock, hwrite⟩
    have hinv' := hinv.iterated hnow o
    refine ⟨fun hrun => ?_, hinv'.attempts, hinv'.again, ?_⟩
    · exact hloop.mpr ⟨hlock hrun, fun hfault => hwrite ⟨hlock hrun, hfault⟩⟩
    · simp only [HeartbeatThread.iterated]
      by_cases htaken : o.lockTaken.head = true
      · rw [if_pos htaken, nextHeartbeat_last_update]
        by_cases hdue : self.UpdateDue s.heartbeat_ now
        · have hfault : o.writeFault.head = false :=
            Bool.eq_false_iff.mpr fun hfault => hwrite ⟨htaken, hdue, hfault⟩
          simp [hdue, htaken, hfault]
        · simp [hdue, h.counted]
      · simp [htaken, h.counted]

theorem keepsHeartbeat_step {a : LoopAction} {s s' : HeartbeatThread}
    (hinv : LoopInvariant self s) (h : KeepsHeartbeat self s)
    (hstep : self.loopStep a s = some s') :
    KeepsHeartbeat self s' ↔ LockedAndWritten self a s := by
  cases a with
  | test now o =>
      simp only [loopStep] at hstep
      split_ifs at hstep with hloop hrun
      · obtain rfl := Option.some.inj hstep
        exact iff_of_true ⟨h.inLoop, h.attempts, h.again, h.counted⟩ trivial
      · obtain rfl := Option.some.inj hstep
        exact iff_of_true ⟨fun h => absurd h hrun, h.attempts, h.again, h.counted⟩ trivial
  | iterate o =>
      obtain ⟨now, hnow, rfl⟩ := Option.map_eq_some_iff.mp hstep
      rw [keepsHeartbeat_iterated hinv h hnow o]
      constructor
      · intro hwritten now' hnow'
        obtain rfl := Option.some.inj (hnow.symm.trans hnow')
        exact hwritten
      · exact fun hwritten => hwritten now hnow
  | stop =>
      obtain rfl := Option.some.inj hstep
      exact iff_of_true ⟨fun h => (by cases h), h.attempts, h.again, h.counted⟩ trivial
  | others redis =>
      obtain rfl := Option.some.inj hstep
      exact iff_of_true ⟨h.inLoop, h.attempts, h.again, h.counted⟩ trivial

theorem lockedAndWritten_or_enabled (a : LoopAction) (s : HeartbeatThread) :
    LockedAndWritten self a s ∨ self.loopStep a s ≠ none := by
  cases a with
  | iterate o =>
      cases hnow : s.now with
      | none =>
          refine .inl fun now h => ?_
          rw [hnow] at h
          cases h
      | some now =>
          refine .inr ?_
          rw [loopStep, hnow]
          exact Option.some_ne_none _
  | test now o => exact .inl trivial
  | stop => exact .inl trivial
  | others redis => exact .inl trivial

variable (self)

/-- The controller keeps its heartbeat in every state of a run exactly when each lock attempt
made while it runs obtains the lock and each write that is due succeeds. -/
theorem heartbeat_kept_iff (w : World) (as : List LoopAction) :
    self.heartbeatLoop.Throughout self.KeepsHeartbeat as (self.startLoop w) ↔
      self.heartbeatLoop.Along self.LockedAndWritten as (self.startLoop w) := by
  have hinv := LoopInvariant.start self w
  exact Machine.throughout_iff_along_of_invariant (I := LoopInvariant self)
    (fun a s s' h hstep => h.step hstep)
    (fun a s s' hs h hstep => keepsHeartbeat_step hs h hstep)
    lockedAndWritten_or_enabled hinv ⟨fun _ => rfl, hinv.attempts, hinv.again, rfl⟩

end Loop

/-- The first iteration, at 10000 ms. -/
def firstIteration (o : Oracle) : List LoopAction := [.test 10000 .quiet, .iterate o]

/-- A run that ends with the loop left while the controller runs. -/
theorem not_throughout_of_left {o : Oracle} {s : HeartbeatThread}
    (hs : (heartbeatLoop (.ofId "ec")).run (firstIteration o)
      (startLoop (.ofId "ec") (.start .empty .quiet)) = some s)
    (hrun : s.run_ = true) (hleft : s.inLoop = false) :
    ¬ (heartbeatLoop (.ofId "ec")).Throughout (KeepsHeartbeat (.ofId "ec")) (firstIteration o)
      (startLoop (.ofId "ec") (.start .empty .quiet)) := by
  intro h
  have hin : s.inLoop = true := (h.last hs).inLoop hrun
  rw [hleft] at hin
  cases hin

/-- A lock that is not obtained ends the heartbeat of a controller that runs, and so does one
failed write, which counts as an update. -/
theorem heartbeat_ends :
    ¬ (heartbeatLoop (.ofId "ec")).Throughout (KeepsHeartbeat (.ofId "ec"))
        (firstIteration { Oracle.quiet with lockTaken := .const false })
        (startLoop (.ofId "ec") (.start .empty .quiet)) ∧
      ¬ (heartbeatLoop (.ofId "ec")).Throughout (KeepsHeartbeat (.ofId "ec"))
        (firstIteration { Oracle.quiet with writeFault := .const true })
        (startLoop (.ofId "ec") (.start .empty .quiet)) :=
  ⟨not_throughout_of_left rfl rfl (by decide), not_throughout_of_left rfl rfl (by decide)⟩

end ErizoController
