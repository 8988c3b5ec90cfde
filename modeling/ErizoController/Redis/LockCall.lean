import ErizoController.Redis.KeyOwner

/-!
# What `RedisLocker::lock` reports

One `RedisLocker` object over its whole life, with Redis commands that may fail. A
failing command has no effect. The calls of `lock` and `unlock` are the steps, and a
call of `lock` comes with what Redis answers to each of its tries. The ghost field
`owns` is the key of which a `SETNX` or `GETSET` of this object made it the owner, until
it unlocks.
-/

namespace RedisLocker

/-- The answer to `SETNX`. -/
inductive SetnxReply where
  | set
  | present
  | error
  deriving DecidableEq, Repr

/-- The number that `acl::redis_string::setnx` returns. -/
def SetnxReply.code : SetnxReply → ℤ
  | .set => 1
  | .present => 0
  | .error => -1

/-- A stored time stamp, as `std::stoll` reads it back. -/
abbrev Stamp := Fin (2 ^ 63)

/-- The answers Redis has ready for one try: `none` is an error, `some none` nil. -/
structure Attempt where
  now : ℕ := 0
  setnx : SetnxReply := .present
  get : Option (Option Stamp) := some none
  getset : Option (Option Stamp) := some none
  deriving DecidableEq

/-- `ACLRedis::get` and `ACLRedis::getset`: the returned number as a truth value, and the
string `value`, empty as `none`, which is only assigned from a reply that is not empty. -/
def ACLRedis.fetch : Option (Option Stamp) → Option Stamp → Bool × Option Stamp
  | none, value => (false, value)
  | some none, value => (true, value)
  | some (some v), _ => (true, some v)

structure Object where
  key_ : String := ""
  locked_ : Bool := false
  owns : Option String := none
  deriving DecidableEq

/-- `locked_ = true` after a `SETNX` or `GETSET` that took effect. -/
def Object.acquire (l : Object) : Object :=
  { l with locked_ := true, owns := some l.key_ }

variable (redis_lock_timeout : ℤ)

def try_lock (key : String) (a : Attempt) (l : Object) : Bool × Object :=
  if l.locked_ then (true, l)
  else
    let l : Object := { l with key_ := key }
    if a.setnx.code = 0 then
      match ACLRedis.fetch a.get none with
      | (false, _) => (true, l)
      | (true, none) =>
          match ACLRedis.fetch a.getset none with
          | (false, _) => (true, l)
          | (true, none) => (true, l.acquire)
          | (true, some _) => (false, { l with locked_ := false })
      | (true, some t1) =>
          if expiredAny redis_lock_timeout a.now t1 then
            match ACLRedis.fetch a.getset (some t1) with
            | (false, _) => (true, l)
            | (true, value) =>
                if value = some t1 then (true, l.acquire)
                else (false, { l with locked_ := false })
          else (l.locked_, l)
    else (true, if a.setnx = .set then l.acquire else { l with locked_ := true })

/-- The loop of `lock`. The tries after the first are answered by the list, and the call
has not returned when the answers run out. -/
def lock (key : String) (a : Attempt) :
    List Attempt → (try_time : ℤ) → Object → Option (Bool × Object)
  | [], try_time, l =>
      let (ret, l) := try_lock redis_lock_timeout key a l
      if ret ∨ try_time = 0 then some (ret, l) else none
  | a' :: as, try_time, l =>
      let (ret, l) := try_lock redis_lock_timeout key a l
      if ret ∨ try_time = 0 then some (ret, l) else lock key a' as (try_time - 1) l

/-- `unlock()`: whatever `DEL` returns. -/
def unlock (l : Object) : Object :=
  if l.locked_ then { l with locked_ := false, owns := none } else l

/-- One use of the object. -/
inductive Call where
  | lock (key : String) (first : Attempt) (rest : List Attempt)
  | unlock

/-- A `RedisLocker` from its construction on. -/
def calls (redis_lock_try_time : ℤ) : Machine Call Object where
  init l := l = {}
  step
    | .lock key a as, l => (lock redis_lock_timeout key a as redis_lock_try_time l).map (·.2)
    | .unlock, l => some (unlock l)

/-! ## Reports and holdings -/

/-- `lock(key)` reported success only to an object that a `SETNX` or `GETSET` made the
owner of that key, and failure only to one with `locked_ = false`. -/
def Truthful (key : String) (r : Bool × Object) : Prop :=
  (r.1 = true → r.2.locked_ = true ∧ r.2.key_ = key ∧ r.2.owns = some key) ∧
  (r.1 = false → r.2.locked_ = false)

/-- Every report of the call is truthful. -/
def Call.Truthful (redis_lock_try_time : ℤ) : Call → Object → Prop
  | .lock key a as, l =>
      ∀ r ∈ RedisLocker.lock redis_lock_timeout key a as redis_lock_try_time l,
        RedisLocker.Truthful key r
  | .unlock, _ => True

/-- A command that the try issues is answered by an error. -/
def Attempt.errs (a : Attempt) : Bool :=
  match a.setnx with
  | .set => false
  | .error => true
  | .present =>
      match a.get with
      | none => true
      | some none => a.getset.isNone
      | some (some t1) => expiredAny redis_lock_timeout a.now t1 && a.getset.isNone

/-- The try makes its object the owner. -/
def Attempt.acquires (a : Attempt) : Bool :=
  match a.setnx with
  | .set => true
  | .error => false
  | .present =>
      match a.get with
      | none => false
      | some none => a.getset == some none
      | some (some t1) =>
          expiredAny redis_lock_timeout a.now t1 &&
            (a.getset == some none || a.getset == some (some t1))

/-- No command that the tries issue is answered by an error, as far as the tries go. -/
def NoError (a : Attempt) : List Attempt → (try_time : ℤ) → Prop
  | [], _ => a.errs redis_lock_timeout = false
  | a' :: as, try_time =>
      a.errs redis_lock_timeout = false ∧
        (a.acquires redis_lock_timeout = false → try_time ≠ 0 → NoError a' as (try_time - 1))

/-- A call of an object that holds a lock is for the key it holds, and one of an object
that holds none meets no error. -/
def Call.Clean (redis_lock_try_time : ℤ) : Call → Object → Prop
  | .lock key a as, l =>
      if l.locked_ then l.key_ = key else NoError redis_lock_timeout a as redis_lock_try_time
  | .unlock, _ => True

/-- `locked_` goes with the ownership of `key_`. -/
def Object.Genuine (l : Object) : Prop := l.locked_ = true → l.owns = some l.key_

variable {redis_lock_timeout}

/-- The three ways a try of an object that holds nothing can end. -/
theorem try_lock_free (redis_lock_timeout : ℤ) (key : String) (a : Attempt) {l : Object}
    (hl : l.locked_ = false) :
    (a.errs redis_lock_timeout = true ∧ (try_lock redis_lock_timeout key a l).1 = true ∧
      (try_lock redis_lock_timeout key a l).2.owns = l.owns) ∨
    (a.errs redis_lock_timeout = false ∧ a.acquires redis_lock_timeout = true ∧
      try_lock redis_lock_timeout key a l = (true, { l with key_ := key }.acquire)) ∨
    (a.errs redis_lock_timeout = false ∧ a.acquires redis_lock_timeout = false ∧
      try_lock redis_lock_timeout key a l = (false, { l with key_ := key })) := by
  obtain ⟨now, setnx, get, getset⟩ := a
  obtain ⟨key_, locked_, owns⟩ := l
  subst hl
  cases setnx with
  | set => exact .inr (.inl ⟨rfl, rfl, rfl⟩)
  | error => exact .inl ⟨rfl, rfl, rfl⟩
  | present =>
      match get with
      | none => exact .inl ⟨rfl, rfl, rfl⟩
      | some none =>
          match getset with
          | none => exact .inl ⟨rfl, rfl, rfl⟩
          | some none => exact .inr (.inl ⟨rfl, rfl, rfl⟩)
          | some (some v) => exact .inr (.inr ⟨rfl, rfl, rfl⟩)
      | some (some t1) =>
          by_cases hexp : expiredAny redis_lock_timeout now t1 = true
          · match getset with
            | none =>
                simp [Attempt.errs, Attempt.acquires, try_lock, SetnxReply.code, ACLRedis.fetch,
                  hexp]
            | some none =>
                simp [Attempt.errs, Attempt.acquires, try_lock, SetnxReply.code, ACLRedis.fetch,
                  hexp]
            | some (some t2) =>
                by_cases ht : t2 = t1 <;>
                  simp [Attempt.errs, Attempt.acquires, try_lock, SetnxReply.code,
                    ACLRedis.fetch, hexp, ht]
          · simp [Attempt.errs, Attempt.acquires, try_lock, SetnxReply.code, ACLRedis.fetch,
              hexp]

/-- The report of a call on an object that holds nothing is truthful exactly when no
command of the call is answered by an error. -/
theorem truthful_lock_free {key : String} {a : Attempt} {as : List Attempt} {try_time : ℤ}
    {l : Object} (hl : l.locked_ = false) (howns : l.owns = none) :
    (∀ r ∈ lock redis_lock_timeout key a as try_time l, Truthful key r) ↔
      NoError redis_lock_timeout a as try_time := by
  induction as generalizing a try_time l with
  | nil =>
      rw [lock, NoError]
      obtain ⟨herr, hret, hown⟩ | ⟨herr, hacq, htry⟩ | ⟨herr, hacq, htry⟩ :=
        try_lock_free redis_lock_timeout key a hl
      · simp [herr, hret, Truthful, hown, howns]
      · simp [herr, htry, Truthful, Object.acquire]
      · simp [herr, htry, Truthful, hl]
  | cons a' as ih =>
      rw [lock, NoError]
      obtain ⟨herr, hret, hown⟩ | ⟨herr, hacq, htry⟩ | ⟨herr, hacq, htry⟩ :=
        try_lock_free redis_lock_timeout key a hl
      · simp [herr, hret, Truthful, hown, howns]
      · simp [herr, hacq, htry, Truthful, Object.acquire]
      · by_cases hlast : try_time = 0
        · simp [herr, htry, hlast, Truthful, hl]
        · simp only [htry, herr, hacq, hlast, Bool.false_eq_true, or_self, if_false, true_and,
            ne_eq, not_false_eq_true, forall_const]
          exact ih (l := { l with key_ := key }) hl howns

/-- An object that holds a lock answers every call at once. -/
theorem lock_held {key : String} {a : Attempt} {as : List Attempt} {try_time : ℤ} {l : Object}
    (hl : l.locked_ = true) : lock redis_lock_timeout key a as try_time l = some (true, l) := by
  cases as <;> simp [lock, try_lock, hl]

/-- An object owns nothing while it holds no lock. -/
structure Object.Wf (l : Object) : Prop where
  held : l.Genuine
  free : l.locked_ = false → l.owns = none

theorem Object.wf_init : ({} : Object).Wf := ⟨fun h => (by cases h), fun _ => rfl⟩

theorem Object.Wf.truthful_iff {l : Object} (hl : l.Wf) (redis_lock_try_time : ℤ) (c : Call) :
    c.Truthful redis_lock_timeout redis_lock_try_time l ↔
      c.Clean redis_lock_timeout redis_lock_try_time l := by
  cases c with
  | unlock => exact Iff.rfl
  | lock key a as =>
      rw [Call.Truthful, Call.Clean]
      split
      · rename_i hlocked
        rw [lock_held hlocked]
        constructor
        · intro h
          exact ((h (true, l) rfl).1 rfl).2.1
        · rintro hkey r hr
          obtain rfl := Option.some.inj hr
          exact ⟨fun _ => ⟨hlocked, hkey, by rw [hl.held hlocked, hkey]⟩, fun h => by cases h⟩
      · rename_i hlocked
        have hfree : l.locked_ = false := by simpa using hlocked
        exact truthful_lock_free hfree (hl.free hfree)

/-- A try of an object that holds nothing gives it nothing when it reports failure. -/
theorem lock_failed {key : String} {a : Attempt} {as : List Attempt} {try_time : ℤ}
    {l l' : Object} (hl : l.locked_ = false) (howns : l.owns = none)
    (h : lock redis_lock_timeout key a as try_time l = some (false, l')) : l'.owns = none := by
  induction as generalizing a try_time l with
  | nil =>
      rw [lock] at h
      obtain ⟨herr, hret, hown⟩ | ⟨herr, hacq, htry⟩ | ⟨herr, hacq, htry⟩ :=
        try_lock_free redis_lock_timeout key a hl
      · simp [hret] at h
      · simp [htry] at h
      · simp only [htry, Bool.false_eq_true, false_or, Option.ite_none_right_eq_some,
          Option.some.injEq, Prod.mk.injEq, true_and] at h
        rw [← h.2]
        exact howns
  | cons a' as ih =>
      rw [lock] at h
      obtain ⟨herr, hret, hown⟩ | ⟨herr, hacq, htry⟩ | ⟨herr, hacq, htry⟩ :=
        try_lock_free redis_lock_timeout key a hl
      · simp [hret] at h
      · simp [htry] at h
      · simp only [htry, Bool.false_eq_true, false_or] at h
        split at h
        · simp only [Option.some.injEq, Prod.mk.injEq, true_and] at h
          rw [← h]
          exact howns
        · exact ih (l := { l with key_ := key }) hl howns h

theorem Object.Wf.step {redis_lock_try_time : ℤ} {c : Call} {l l' : Object} (hl : l.Wf)
    (hc : c.Truthful redis_lock_timeout redis_lock_try_time l)
    (h : (calls redis_lock_timeout redis_lock_try_time).step c l = some l') : l'.Wf := by
  cases c with
  | unlock =>
      simp only [calls, Option.some.injEq] at h
      subst h
      rw [unlock]
      split
      · exact ⟨fun h => (by cases h), fun _ => rfl⟩
      · exact hl
  | lock key a as =>
      simp only [calls, Option.map_eq_some_iff, Prod.exists, exists_eq_right] at h
      obtain ⟨ret, hlock⟩ := h
      have hreport : RedisLocker.Truthful key (ret, l') := hc _ hlock
      cases ret with
      | true =>
          obtain ⟨hlocked, hkey, howns⟩ := hreport.1 rfl
          exact ⟨fun _ => (by rw [howns, hkey]), fun h => (by rw [hlocked] at h; cases h)⟩
      | false =>
          have hfree : l'.locked_ = false := hreport.2 rfl
          refine ⟨fun h => (by rw [hfree] at h; cases h), fun _ => ?_⟩
          by_cases hlocked : l.locked_ = true
          · rw [lock_held hlocked] at hlock
            simp at hlock
          · have hl' : l.locked_ = false := by simpa using hlocked
            exact lock_failed hl' (hl.free hl') hlock

/-- Over the whole life of an object, every report of `lock` is truthful exactly when each
call finds the object without a lock and meets no error, or finds it with the lock of the
same key. -/
theorem lock_truthful_iff (redis_lock_timeout redis_lock_try_time : ℤ) (cs : List Call) :
    (calls redis_lock_timeout redis_lock_try_time).Along
        (Call.Truthful redis_lock_timeout redis_lock_try_time) cs {} ↔
      (calls redis_lock_timeout redis_lock_try_time).Along
        (Call.Clean redis_lock_timeout redis_lock_try_time) cs {} :=
  Machine.along_congr (fun c _ hl => hl.truthful_iff redis_lock_try_time c)
    (fun _ _ _ hl hc h => hl.step hc h) Object.wf_init

/-- A `SETNX` that fails with -1 is taken for one that has set the key. -/
theorem lock_reports_failed_setnx :
    ¬ ∀ (redis_lock_timeout redis_lock_try_time : ℤ) (cs : List Call),
      (calls redis_lock_timeout redis_lock_try_time).Along
        (Call.Truthful redis_lock_timeout redis_lock_try_time) cs {} := by
  intro hclaim
  have hreport := (hclaim 2000 1000 [.lock "room" { setnx := .error } []]).1
    (true, { key_ := "room", locked_ := true }) (by decide)
  exact absurd (hreport.1 rfl).2.2 (by decide)

end RedisLocker
