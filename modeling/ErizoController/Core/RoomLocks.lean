import ErizoController.Core.Counts
import ErizoController.Redis.LockProgress

/-!
# The room locks in Redis

The threads of the controllers, with the locks of the rooms taken by `RedisLocker::lock`. As
long as no command on the key of a lock is answered with an error and no section outlives the
time stamp of its lock by the timeout they do what the threads on simple locks do, so what was
shown of those holds of them. Their jobs end in any case, as long as the number of tries is not
negative.
-/

open RedisLocker Json

namespace ErizoController

/-- The threads of any number of controllers, and the keys of the room locks. They start as
`threads` do, with no lock taken. -/
def lockThreads (T : Type) [DecidableEq T] (redis_lock_timeout : Fin (2 ^ 31))
    (redis_lock_try_time : ℤ) :
    Machine (LockAction T Job) (LockPool Command Command.Reply String T World) :=
  lockMachine perform Job.script redis_lock_timeout redis_lock_try_time fun w =>
    w.Fits ∧ ∀ k, k.Guarded → ∀ room_id, w.redis k room_id = ∅

section Locks

variable {T : Type} [DecidableEq T] {redis_lock_timeout : Fin (2 ^ 31)} {redis_lock_try_time : ℤ}
variable {t : LockPool Command Command.Reply String T World}

/-- As long as no command on the key of a lock is answered with an error and every section is
left within the timeout past the time stamp of its lock, what the threads reach is what threads
on simple locks reach. -/
theorem locks_refine
    (ht : (lockThreads T redis_lock_timeout redis_lock_try_time).Reaches
      (fun a t => a.Answered ∧ Timely redis_lock_timeout t) t) :
    ∃ s, (threads T).Reachable s ∧ s.shared = t.shared ∧
      (∀ i, s.thread i = (t.thread i).thread) ∧
      ∀ room_id i, s.owner room_id = some i ↔ (t.thread i).held = some room_id := by
  have hsim : ∃ s, (threads T).Reachable s ∧ Simulates redis_lock_timeout s t :=
    exists_simulates (fun _ _ hlockers h => ⟨h.1, hlockers.undisturbed h.2⟩)
      (fun _ _ _ _ _ _ _ => trivial) ht
  obtain ⟨s, hs, h⟩ := hsim
  exact ⟨s, hs, h.shared, fun i => congrFun h.thread i, h.owner⟩

/-- In every run without an error on the key of a lock, no two threads are ever inside the
sections of one room exactly when no step takes over the key of a lock that is held. An error
lets a thread into the section that another is in. -/
theorem sections_exclusive_iff
    (ht : (lockThreads T redis_lock_timeout redis_lock_try_time).init t) :
    (∀ as : List (LockAction T Job), (∀ a ∈ as, a.Answered) →
      ((lockThreads T redis_lock_timeout redis_lock_try_time).Throughout Exclusive as t ↔
        (lockThreads T redis_lock_timeout redis_lock_try_time).Along Undisturbed as t)) ∧
    ∀ (s : LockPool Command Command.Reply String T World) i j room_id,
      (s.thread i).pc room_id ≠ .idle → (s.thread j).held = some room_id →
        ∃ s', (lockThreads T redis_lock_timeout redis_lock_try_time).step (.tryError i) s =
          some s' ∧ ¬ Exclusive s' := by
  refine ⟨fun as has => throughout_exclusive_iff has (Lockers.start ht), ?_⟩
  intro s i j room_id hpc hheld
  have herror : ∃ s', lockStep perform Job.script redis_lock_timeout redis_lock_try_time
      (.tryError i) s = some s' ∧ ¬ Exclusive s' := not_exclusive_of_error hpc hheld
  exact herror

/-- Every job ends: in every run without end, whichever commands fail, on records or on the keys
of the locks, whatever the other
threads do and whichever of them stop, a thread that is not left out for ever while it can go
on is idle again and again. -/
theorem jobs_end (htry : 0 ≤ redis_lock_try_time) {init : World → Prop}
    {as : ℕ → LockAction T Job} {s : ℕ → LockPool Command Command.Reply String T World}
    (h : (lockMachine perform Job.script redis_lock_timeout redis_lock_try_time init).Forever as s)
    {i : T}
    (hfair : ∀ n, ∃ m ≥ n,
      ¬ CanGoOn perform Job.script redis_lock_timeout redis_lock_try_time i (s m) ∨
        (as m).thread? = some i) (n : ℕ) : ∃ m ≥ n, ¬ ((s m).thread i).Busy :=
  idle_again htry h hfair n

/-- A run of fewer than `2 ^ 31` steps stores fewer than `2 ^ 31` subscribers in a room. -/
theorem throughout_few {as : List (LockAction T Job)} {n : ℕ}
    (hn : ∀ room_id, (t.shared.redis .subscriber room_id).rows.length ≤ n)
    (hlength : n + as.length < 2 ^ 31) :
    (lockThreads T redis_lock_timeout redis_lock_try_time).Throughout
      (fun t => ∀ room_id, FewSubscribers t.shared room_id) as t := by
  have hfew : ∀ room_id, FewSubscribers t.shared room_id :=
    fun room_id => (hn room_id).trans_lt (Nat.lt_of_le_of_lt (Nat.le_add_right _ _) hlength)
  induction as generalizing t n with
  | nil => exact hfew
  | cons a as ih =>
      refine ⟨hfew, fun t' ht' => ?_⟩
      have hnext : ∀ room_id, (t'.shared.redis .subscriber room_id).rows.length ≤ n + 1 := by
        intro room_id
        rcases lockStep_shared ht' with heq | ⟨c, heq⟩
        · rw [heq]
          exact (hn room_id).trans (Nat.le_succ n)
        · rw [heq]
          exact (length_perform_le c _ room_id).trans (Nat.succ_le_succ (hn room_id))
      have hlength' : n + 1 + as.length < 2 ^ 31 := by
        rw [List.length_cons] at hlength
        omega
      exact ih hnext hlength' fun room_id =>
        (hnext room_id).trans_lt (Nat.lt_of_le_of_lt (Nat.le_add_right _ _) hlength')

end Locks

/-! Client `a` publishes while the connection of `b` closes; `b` waits for the lock. -/

def lockStart : LockPool Command Command.Reply String Bool World where
  shared := .start .empty freshOracle
  clock := 1000
  key _ := none
  thread _ := .outside (.ret ())

theorem lockStart_init : (lockThreads Bool 2000 10).init lockStart :=
  ⟨⟨freshOracle_fits, fun _ _ _ => rfl⟩, by decide, fun _ => rfl, fun _ => rfl⟩

def contended : List (LockAction Bool Job) :=
  [.start false (sampleEvent (sampleClient "a" "a1" "e1") "publish" [("label", .stringValue "l")]),
    .command false, .command false, .command false, .tryLock false, .tryCommand false,
    .start true (.onClose (sampleClient "b" "a2" "e2")), .tryLock true, .tryCommand true,
    .tick 1500, .tryCommand true, .command false, .command false, .unlock false, .tryLock true,
    .tryCommand true]

instance (t : LockPool Command Command.Reply String Bool World) : Decidable (Timely 2000 t) :=
  inferInstanceAs (Decidable (∀ _, ∀ _ ∈ _, ∀ _ ∈ _, _))

theorem locks_refine_contended : ∃ t s,
    (lockThreads Bool 2000 10).Reaches (fun a t => a.Answered ∧ Timely 2000 t) t ∧
      (threads Bool).Reachable s ∧ s.shared = t.shared ∧ s.owner "room" = some true := by
  obtain ⟨t, ht, hheld⟩ := Machine.exists_reaches_of_runChecked
    (M := lockThreads Bool 2000 10) (P := fun a t => a.Answered ∧ Timely 2000 t)
    (p := fun a t => decide (a.Answered ∧ Timely 2000 t))
    (q := fun t => decide ((t.thread true).held = some "room"))
    (l := contended) (fun _ _ h => of_decide_eq_true h) lockStart_init (by decide)
  obtain ⟨s, hs, hshared, -, howner⟩ := locks_refine ht
  exact ⟨t, s, ht, hs, hshared, (howner "room" true).mpr (of_decide_eq_true hheld)⟩

/-- The section of the publish of client `a` outlives its lock by more than the timeout. -/
def overrun : List (LockAction Bool Job) :=
  contended.take 6 ++ [.tick 3001, .start true (.onClose (sampleClient "b" "a2" "e2")),
    .tryLock true, .tryCommand true, .tryCommand true, .tryCommand true]

theorem sections_exclusive_iff_overrun :
    ¬ (lockThreads Bool 2000 10).Along Undisturbed overrun lockStart := by
  intro halong
  have hexclusive := ((sections_exclusive_iff lockStart_init).1 overrun (by decide)).mpr halong
  have hrun : ((lockThreads Bool 2000 10).run overrun lockStart).any (fun t =>
      (t.thread false).held = some "room" ∧ (t.thread true).held = some "room") = true := by
    decide
  obtain ⟨t, ht, hheld⟩ := (Option.any_eq_true _ _).mp hrun
  obtain ⟨hfalse, htrue⟩ := of_decide_eq_true hheld
  exact absurd (hexclusive.last ht false true "room" hfalse htrue) Bool.false_ne_true

/-- Thread `false` has stopped inside its section, and `true` goes on with job after job. -/
theorem jobs_end_stopped : ∃ as s, (lockThreads Bool 2000 10).Forever as s ∧
    ((s 0).thread false).held = some "room" ∧ (∀ n, (as n).thread? = some true) ∧
    ∀ n, ∃ m ≥ n, ¬ ((s m).thread true).Busy := by
  have hrun : ((lockThreads Bool 2000 10).run (contended.take 6) lockStart).any (fun t =>
      (t.thread false).held = some "room") = true := by
    decide
  obtain ⟨t, ht, hheld⟩ := (Option.any_eq_true _ _).mp hrun
  have hreach : (lockThreads Bool 2000 10).Reachable t :=
    (Machine.Reaches.init lockStart_init).run (fun _ _ => trivial) ht
  have halone : ∃ as s, s 0 = t ∧ (lockThreads Bool 2000 10).Forever as s ∧
      ∀ n, (as n).thread? = some true :=
    exists_forever_alone (.onClose (sampleClient "b" "a2" "e2")) hreach
  obtain ⟨as, s, rfl, hforever, htrue⟩ := halone
  exact ⟨as, s, hforever, of_decide_eq_true hheld, htrue,
    jobs_end (by decide) hforever fun n => ⟨n, Nat.le_refl n, .inr (htrue n)⟩⟩

end ErizoController
