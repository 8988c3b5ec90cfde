import Mathlib.Data.List.Count
import Mathlib.Tactic.Linarith
import ErizoController.Library.Table

/-!
# Reference counts kept in a table

Each row counts the uses of one resource. A use is taken with `retain`, which bumps
the count of the first row of the resource or files a new row, and given back with
`drop`, which decrements it and removes the row when nothing is left. The counts are
exact for a usage `f` when every row carries its positive usage, a resource has at most
one row, and every resource in use has one.

The counts may be machine integers: the law on setting a count only speaks of positive
counts up to a limit.
-/

universe u v w

open Keyed (key)

/-- Rows with the resource they count and its count. -/
class Counted (V : Type u) {K : outParam (Type v)} [Keyed V K] (P : outParam (Type w)) where
  pair : V → P
  count : V → ℤ
  setCount : V → ℤ → V
  limit : ℤ
  key_setCount : ∀ v n, key (setCount v n) = key v
  pair_setCount : ∀ v n, pair (setCount v n) = pair v
  count_setCount : ∀ v n, 0 ≤ n → n ≤ limit → count (setCount v n) = n
  count_le : ∀ v, count v ≤ limit
  setCount_setCount : ∀ v m n, setCount (setCount v m) n = setCount v n
  setCount_count : ∀ v, setCount v (count v) = v

namespace RefCount

open Counted

attribute [simp] key_setCount pair_setCount setCount_setCount setCount_count

variable {V : Type u} {K : Type v} {P : Type w}
variable [Keyed V K] [LinearOrder K] [Counted V P]

/-- Positive counts, and at most one row for each resource. -/
structure Proper (t : Table V) : Prop where
  pos : ∀ v ∈ t, 0 < count v
  unique : ∀ v ∈ t, ∀ w ∈ t, pair v = pair w → v = w

/-- The counts are those of the usage `f`. -/
structure Exact (t : Table V) (f : P → ℕ) : Prop where
  count : ∀ v ∈ t, Counted.count v = f (pair v)
  pos : ∀ v ∈ t, 0 < f (pair v)
  unique : ∀ v ∈ t, ∀ w ∈ t, pair v = pair w → v = w
  complete : ∀ p, 0 < f p → ∃ v ∈ t, pair v = p

theorem Exact.proper {t : Table V} {f : P → ℕ} (h : Exact t f) : Proper t where
  pos v hv := by
    rw [h.count v hv]
    exact_mod_cast h.pos v hv
  unique := h.unique

theorem exact_empty : Exact (∅ : Table V) fun _ => 0 where
  count v hv := absurd hv (Table.not_mem_empty v)
  pos v hv := absurd hv (Table.not_mem_empty v)
  unique v hv := absurd hv (Table.not_mem_empty v)
  complete _ h := absurd h (lt_irrefl 0)

/-- The exact table of a usage is determined by the resources it has rows for. -/
theorem Exact.eq_of_versions {t t₁ t₂ : Table V} {f : P → ℕ}
    (hunique : ∀ v ∈ t, ∀ w ∈ t, pair v = pair w → v = w)
    (h₁ : Exact t₁ f) (h₂ : Exact t₂ f)
    (hold₁ : ∀ w ∈ t₁, ∃ v ∈ t, ∃ n, w = setCount v n)
    (hold₂ : ∀ w ∈ t₂, ∃ v ∈ t, ∃ n, w = setCount v n) : t₁ = t₂ := by
  have hsub : ∀ {t₁ t₂ : Table V}, Exact t₁ f → Exact t₂ f →
      (∀ w ∈ t₁, ∃ v ∈ t, ∃ n, w = setCount v n) → (∀ w ∈ t₂, ∃ v ∈ t, ∃ n, w = setCount v n) →
      ∀ w ∈ t₁, w ∈ t₂ := by
    intro t₁ t₂ h₁ h₂ hold₁ hold₂ w hw
    obtain ⟨w', hw', hpair⟩ := h₂.complete _ (h₁.pos w hw)
    obtain ⟨v, hv, m, hm⟩ := hold₁ w hw
    obtain ⟨v', hv', n, hn⟩ := hold₂ w' hw'
    have hrow : v = v' := by
      refine hunique v hv v' hv' ?_
      rw [hm, hn, pair_setCount, pair_setCount] at hpair
      exact hpair.symm
    have hcount : Counted.count w = Counted.count w' := by
      rw [h₁.count w hw, h₂.count w' hw', hpair]
    have heq : w = w' := by
      rw [← setCount_count w, ← setCount_count w', hcount, hm, hn, hrow, setCount_setCount,
        setCount_setCount]
    exact heq ▸ hw'
  exact Table.ext fun w => ⟨hsub h₁ h₂ hold₁ hold₂ w, hsub h₂ h₁ hold₂ hold₁ w⟩

/-- The row left of `v` when `n` of its uses are given back. -/
theorem count_setCount_sub {t : Table V} (h : Proper t) {v : V} (hv : v ∈ t) {n : ℤ}
    (h0 : 0 ≤ n) (hn : n < count v) : count (setCount v (count v - n)) = count v - n := by
  have hpos := h.pos v hv
  have hlimit := count_le v
  exact count_setCount v _ (by omega) (by omega)

variable [BEq P] [LawfulBEq P]

/-! ## Taking and giving back uses -/

/-- The first row of a resource. -/
def find? (p : P) (t : Table V) : Option V :=
  t.rows.find? fun v => pair v == p

/-- One use more: the row of the resource is bumped, or `new` is filed. -/
def retain (p : P) (new : V) (t : Table V) : Table V :=
  match find? p t with
  | none => t.set new
  | some v => t.set (setCount v (count v + 1))

/-- One use less: the row of the resource is decremented, and removed at zero. -/
def drop (p : P) (t : Table V) : Table V :=
  match find? p t with
  | none => t
  | some v =>
      let v' := setCount v (count v - 1)
      if count v' ≤ 0 then t.erase [key v] else t.set v'

/-- A list of uses given back in order. -/
def dropAll (ps : List P) (t : Table V) : Table V :=
  ps.foldl (fun t p => drop p t) t

/-! ## Finding the row of a resource -/

theorem find?_some {p : P} {t : Table V} {v : V} (h : find? p t = some v) :
    v ∈ t ∧ pair v = p :=
  ⟨List.mem_of_find?_eq_some h, by simpa using List.find?_some h⟩

theorem find?_eq_none_iff {p : P} {t : Table V} :
    find? p t = none ↔ ∀ v ∈ t, pair v ≠ p := by
  simp [find?, Table.mem_rows]

theorem Proper.find?_eq {p : P} {t : Table V} {v : V} (h : Proper t) (hv : v ∈ t)
    (hp : pair v = p) : find? p t = some v := by
  cases hfound : find? p t with
  | none => exact absurd hp (find?_eq_none_iff.mp hfound v hv)
  | some w =>
      obtain ⟨hw, hwp⟩ := find?_some hfound
      rw [h.unique w hw v hv (hwp.trans hp.symm)]

/-! ## Giving uses back -/

theorem drop_of_none {p : P} {t : Table V} (h : ∀ v ∈ t, pair v ≠ p) : drop p t = t := by
  rw [drop, find?_eq_none_iff.mpr h]

/-- In any table, a drop leaves the rows of the other resources alone. -/
theorem mem_drop_of_ne {p : P} {t : Table V} {v : V} (hv : v ∈ t) (hp : pair v ≠ p) :
    v ∈ drop p t := by
  rw [drop]
  cases hfound : find? p t with
  | none => exact hv
  | some u =>
      obtain ⟨hu, hup⟩ := find?_some hfound
      have hkey : key v ≠ key u := fun hkey => hp (Table.eq_of_key_eq hv hu hkey ▸ hup)
      dsimp only
      split
      · exact Table.mem_erase.mpr ⟨hv, by simpa using hkey⟩
      · exact Table.mem_set.mpr (.inr ⟨hv, by simpa using hkey⟩)

/-- In any table, a row left by a drop is a row that was there, up to its count. -/
theorem exists_of_mem_drop {p : P} {t : Table V} {w : V} (h : w ∈ drop p t) :
    ∃ v ∈ t, ∃ n, w = setCount v n := by
  rw [drop] at h
  cases hfound : find? p t with
  | none =>
      rw [hfound] at h
      exact ⟨w, h, count w, (setCount_count w).symm⟩
  | some u =>
      rw [hfound] at h
      dsimp only at h
      split at h
      · exact ⟨w, (Table.mem_erase.mp h).1, count w, (setCount_count w).symm⟩
      · rcases Table.mem_set.mp h with rfl | ⟨hw, -⟩
        · exact ⟨u, (find?_some hfound).1, _, rfl⟩
        · exact ⟨w, hw, count w, (setCount_count w).symm⟩

theorem mem_dropAll_of_ne {ps : List P} {t : Table V} {v : V} (hv : v ∈ t)
    (hp : ∀ p ∈ ps, pair v ≠ p) : v ∈ dropAll ps t := by
  induction ps generalizing t with
  | nil => exact hv
  | cons p ps ih =>
      exact ih (mem_drop_of_ne hv (hp p List.mem_cons_self))
        fun q hq => hp q (List.mem_cons_of_mem _ hq)

theorem exists_of_mem_dropAll {ps : List P} {t : Table V} {w : V} (h : w ∈ dropAll ps t) :
    ∃ v ∈ t, ∃ n, w = setCount v n := by
  induction ps generalizing t with
  | nil => exact ⟨w, h, count w, (setCount_count w).symm⟩
  | cons p ps ih =>
      obtain ⟨u, hu, n, rfl⟩ := ih h
      obtain ⟨v, hv, m, rfl⟩ := exists_of_mem_drop hu
      exact ⟨v, hv, n, setCount_setCount v m n⟩

theorem Proper.drop_of_mem {t : Table V} (h : Proper t) {v : V} (hv : v ∈ t) :
    drop (pair v) t =
      if count v = 1 then t.erase [key v] else t.set (setCount v (count v - 1)) := by
  have hpos := h.pos v hv
  have hlimit := count_le v
  have hcount := count_setCount v (count v - 1) (by omega) (by omega)
  rw [drop, h.find?_eq hv rfl]
  simp only [hcount]
  by_cases hone : count v = 1
  · rw [if_pos (by omega), if_pos hone]
  · rw [if_neg (by omega), if_neg hone]

/-- A drop keeps the rows of the other resources and decrements its own. -/
theorem Proper.mem_drop {p : P} {t : Table V} (h : Proper t) {w : V} :
    w ∈ drop p t ↔ ∃ v ∈ t, ([p].count (pair v) : ℤ) < count v ∧
      w = setCount v (count v - [p].count (pair v)) := by
  have hkept : ∀ v ∈ t, pair v ≠ p → ∀ w, w = v ↔
      ([p].count (pair v) : ℤ) < count v ∧ w = setCount v (count v - [p].count (pair v)) := by
    intro v hv hne w
    have hzero : [p].count (pair v) = 0 := List.count_eq_zero.mpr (by simpa using hne)
    simp [hzero, h.pos v hv]
  by_cases hex : ∃ v ∈ t, pair v = p
  · obtain ⟨v, hv, rfl⟩ := hex
    have hother : ∀ u ∈ t, key u ≠ key v → pair u ≠ pair v := by
      intro u hu hkey hpair
      exact hkey (congrArg key (h.unique u hu v hv hpair))
    rw [h.drop_of_mem hv]
    constructor
    · intro hw
      by_cases hone : count v = 1
      · rw [if_pos hone, Table.mem_erase, List.mem_singleton] at hw
        exact ⟨w, hw.1, (hkept w hw.1 (hother w hw.1 hw.2) w).mp rfl⟩
      · rw [if_neg hone, Table.mem_set, key_setCount] at hw
        rcases hw with rfl | ⟨hw, hkey⟩
        · have hpos := h.pos v hv
          refine ⟨v, hv, ?_, ?_⟩
          · simp only [List.count_singleton_self]
            omega
          · simp only [List.count_singleton_self, Nat.cast_one]
        · exact ⟨w, hw, (hkept w hw (hother w hw hkey) w).mp rfl⟩
    · rintro ⟨u, hu, hlt, rfl⟩
      by_cases hpair : pair u = pair v
      · obtain rfl := h.unique u hu v hv hpair
        rw [List.count_singleton_self] at hlt ⊢
        rw [if_neg (by omega)]
        exact Table.mem_set_self _ _
      · have heq := (hkept u hu hpair _).mpr ⟨hlt, rfl⟩
        rw [heq]
        have hkey : key u ≠ key v :=
          fun hkey => hpair (congrArg pair (Table.eq_of_key_eq hu hv hkey))
        split
        · exact Table.mem_erase.mpr ⟨hu, by simpa using hkey⟩
        · exact Table.mem_set.mpr (.inr ⟨hu, by simpa using hkey⟩)
  · have hnone : ∀ v ∈ t, pair v ≠ p := fun v hv hp => hex ⟨v, hv, hp⟩
    rw [drop_of_none hnone]
    constructor
    · exact fun hw => ⟨w, hw, (hkept w hw (hnone w hw) w).mp rfl⟩
    · rintro ⟨v, hv, hcond⟩
      rw [(hkept v hv (hnone v hv) w).mpr hcond]
      exact hv

theorem Proper.drop {t : Table V} (h : Proper t) (p : P) : Proper (drop p t) where
  pos w hw := by
    obtain ⟨v, hv, hlt, rfl⟩ := h.mem_drop.mp hw
    rw [count_setCount_sub h hv (Nat.cast_nonneg _) hlt]
    omega
  unique a ha b hb hab := by
    obtain ⟨v, hv, -, rfl⟩ := h.mem_drop.mp ha
    obtain ⟨w, hw, -, rfl⟩ := h.mem_drop.mp hb
    rw [pair_setCount, pair_setCount] at hab
    rw [h.unique v hv w hw hab]

omit [LawfulBEq P] in
theorem dropAll_cons (p : P) (ps : List P) (t : Table V) :
    dropAll (p :: ps) t = dropAll ps (drop p t) := rfl

omit [LawfulBEq P] in
theorem dropAll_append (ps qs : List P) (t : Table V) :
    dropAll (ps ++ qs) t = dropAll qs (dropAll ps t) := List.foldl_append

theorem Proper.dropAll {t : Table V} (h : Proper t) (ps : List P) : Proper (dropAll ps t) := by
  induction ps generalizing t with
  | nil => exact h
  | cons p ps ih => exact ih (h.drop p)

/-- What is left after a list of drops only depends on how often each resource is
dropped. -/
theorem Proper.mem_dropAll {t : Table V} (h : Proper t) {ps : List P} {w : V} :
    w ∈ RefCount.dropAll ps t ↔ ∃ v ∈ t, (ps.count (pair v) : ℤ) < count v ∧
      w = setCount v (count v - ps.count (pair v)) := by
  induction ps generalizing t with
  | nil =>
      simp only [RefCount.dropAll, List.foldl_nil, List.count_nil, Nat.cast_zero, sub_zero,
        setCount_count]
      exact ⟨fun hw => ⟨w, hw, h.pos w hw, rfl⟩, fun ⟨v, hv, _, hwv⟩ => hwv ▸ hv⟩
  | cons p ps ih =>
      have hsplit : ∀ q, (p :: ps).count q = [p].count q + ps.count q := by
        intro q
        rw [← List.count_append, List.singleton_append]
      rw [dropAll_cons, ih (h.drop p)]
      constructor
      · rintro ⟨u, hu, hlt, rfl⟩
        obtain ⟨v, hv, hltv, rfl⟩ := h.mem_drop.mp hu
        rw [pair_setCount, count_setCount_sub h hv (Nat.cast_nonneg _) hltv] at hlt ⊢
        refine ⟨v, hv, ?_, ?_⟩
        · rw [hsplit]
          omega
        · rw [setCount_setCount, hsplit, Nat.cast_add, sub_sub]
      · rintro ⟨v, hv, hlt, rfl⟩
        rw [hsplit] at hlt ⊢
        have hltv : ([p].count (pair v) : ℤ) < count v := by omega
        refine ⟨setCount v (count v - [p].count (pair v)),
          h.mem_drop.mpr ⟨v, hv, hltv, rfl⟩, ?_, ?_⟩
        · rw [pair_setCount, count_setCount_sub h hv (Nat.cast_nonneg _) hltv]
          omega
        · rw [pair_setCount, count_setCount_sub h hv (Nat.cast_nonneg _) hltv, setCount_setCount,
            Nat.cast_add, sub_sub]

/-- Giving back uses keeps the counts exact, for the usage less the uses given back. A
resource may be given back more often than it is used: its row is gone by then. -/
theorem Exact.dropAll {t : Table V} {f : P → ℕ} (h : Exact t f) (ps : List P) :
    Exact (RefCount.dropAll ps t) fun p => f p - ps.count p where
  count w hw := by
    obtain ⟨v, hv, hlt, rfl⟩ := h.proper.mem_dropAll.mp hw
    rw [pair_setCount, count_setCount_sub h.proper hv (Nat.cast_nonneg _) hlt]
    rw [h.count v hv] at hlt ⊢
    omega
  pos w hw := by
    obtain ⟨v, hv, hlt, rfl⟩ := h.proper.mem_dropAll.mp hw
    rw [h.count v hv] at hlt
    rw [pair_setCount]
    omega
  unique := (h.proper.dropAll ps).unique
  complete p hp := by
    obtain ⟨v, hv, rfl⟩ := h.complete p (by omega)
    have hlt : (ps.count (pair v) : ℤ) < Counted.count v := by
      rw [h.count v hv]
      omega
    exact ⟨_, h.proper.mem_dropAll.mpr ⟨v, hv, hlt, rfl⟩, pair_setCount _ _⟩

/-! ## Which rows are left -/

/-- The rows of one resource, in order. -/
def rowsOf (p : P) (t : Table V) : List V := t.rows.filter fun v => pair v == p

/-- What `n` drops leave of the rows of a resource: they are used up one after the other. -/
def leftover : ℕ → List V → List V
  | 0, vs => vs
  | _ + 1, [] => []
  | n + 1, v :: vs =>
      if count (setCount v (count v - 1)) ≤ 0 then leftover n vs
      else leftover n (setCount v (count v - 1) :: vs)

omit [LinearOrder K] [BEq P] [LawfulBEq P] in
theorem leftover_succ (n : ℕ) (vs : List V) : leftover (n + 1) vs = leftover n (leftover 1 vs) := by
  cases vs with
  | nil => cases n <;> rfl
  | cons v vs =>
      simp only [leftover]
      split <;> rfl

theorem rowsOf_drop (p : P) (t : Table V) : rowsOf p (drop p t) = leftover 1 (rowsOf p t) := by
  rw [drop]
  cases hfound : find? p t with
  | none =>
      have hnone : rowsOf p t = [] :=
        List.filter_eq_nil_iff.mpr fun v hv => by simpa using find?_eq_none_iff.mp hfound v hv
      dsimp only
      rw [hnone]
      rfl
  | some v =>
      obtain ⟨hv, before, after, hrows, hbefore⟩ := List.find?_eq_some_iff_append.mp hfound
      obtain ⟨herase, hset⟩ := Table.rows_split hrows
      have hnil : before.filter (fun w => pair w == p) = [] :=
        List.filter_eq_nil_iff.mpr fun w hw => by simpa using hbefore w hw
      have hrow : rowsOf p t = v :: after.filter fun w => pair w == p := by
        rw [rowsOf, hrows, List.filter_append, hnil, List.nil_append, List.filter_cons, if_pos hv]
      dsimp only
      rw [hrow, leftover]
      split
      · rw [rowsOf, herase, List.filter_append, hnil, List.nil_append]
        rfl
      · rw [rowsOf, hset _ (key_setCount v _), List.filter_append, hnil, List.nil_append,
          List.filter_cons, pair_setCount, if_pos hv]
        rfl

theorem rowsOf_drop_of_ne {p q : P} (h : q ≠ p) (t : Table V) :
    rowsOf q (drop p t) = rowsOf q t := by
  rw [drop]
  cases hfound : find? p t with
  | none => rfl
  | some v =>
      obtain ⟨hv, before, after, hrows, -⟩ := List.find?_eq_some_iff_append.mp hfound
      obtain ⟨herase, hset⟩ := Table.rows_split hrows
      have hother : (pair v == q) = false := by
        rw [eq_of_beq hv]
        exact beq_false_of_ne h.symm
      dsimp only
      split
      · rw [rowsOf, rowsOf, herase, hrows, List.filter_append, List.filter_append, List.filter_cons,
          hother]
        rfl
      · rw [rowsOf, rowsOf, hset _ (key_setCount v _), hrows, List.filter_append,
          List.filter_append, List.filter_cons, List.filter_cons, pair_setCount, hother]
        rfl

/-- In any table, what is left after a list of drops only depends on how often each resource
is dropped. -/
theorem rowsOf_dropAll (p : P) (ps : List P) (t : Table V) :
    rowsOf p (dropAll ps t) = leftover (ps.count p) (rowsOf p t) := by
  induction ps generalizing t with
  | nil => rfl
  | cons q ps ih =>
      rw [dropAll_cons, ih]
      by_cases hq : p = q
      · subst hq
        rw [rowsOf_drop, List.count_cons_self, leftover_succ (ps.count p)]
      · rw [rowsOf_drop_of_ne hq, List.count_cons_of_ne (Ne.symm hq)]

/-! ## Taking a use -/

/-- Taking a use keeps the counts exact. The new row, filed where the resource had none,
counts one and has a new key. -/
theorem Exact.retain {t : Table V} {f : P → ℕ} (h : Exact t f) {p : P} {new : V}
    (hpair : pair new = p) (hone : Counted.count new = 1) (hnew : ∀ v ∈ t, key v ≠ key new)
    (hlimit : (f p : ℤ) < limit V) :
    Exact (retain p new t) fun q => f q + if q == p then 1 else 0 := by
  rw [RefCount.retain]
  cases hfound : find? p t with
  | none =>
      have hnone := find?_eq_none_iff.mp hfound
      have hzero : f p = 0 := by
        by_contra hpos
        obtain ⟨v, hv, hvp⟩ := h.complete p (Nat.pos_of_ne_zero hpos)
        exact hnone v hv hvp
      refine ⟨fun w hw => ?_, fun w hw => ?_, fun a ha b hb hab => ?_, fun q hq => ?_⟩
      · rcases Table.mem_set.mp hw with rfl | ⟨hw, -⟩
        · simp [hpair, hone, hzero]
        · simp [h.count w hw, hnone w hw]
      · rcases Table.mem_set.mp hw with rfl | ⟨hw, -⟩
        · simp [hpair]
        · simp [h.pos w hw]
      · rw [Table.mem_set] at ha hb
        rcases ha with rfl | ⟨ha, -⟩ <;> rcases hb with rfl | ⟨hb, -⟩
        · rfl
        · exact absurd (hab.symm.trans hpair) (hnone b hb)
        · exact absurd (hab.trans hpair) (hnone a ha)
        · exact h.unique a ha b hb hab
      · by_cases hqp : q = p
        · exact ⟨new, Table.mem_set_self t new, hpair.trans hqp.symm⟩
        · obtain ⟨v, hv, hvq⟩ := h.complete q (by simpa [hqp] using hq)
          exact ⟨v, Table.mem_set.mpr (.inr ⟨hv, hnew v hv⟩), hvq⟩
  | some v =>
      obtain ⟨hv, rfl⟩ := find?_some hfound
      have hcount := h.count v hv
      have hbump : Counted.count (setCount v (Counted.count v + 1)) = Counted.count v + 1 :=
        count_setCount v _ (by omega) (by omega)
      have hother : ∀ w ∈ t, key w ≠ key v → pair w ≠ pair v := by
        intro w hw hkey hp
        exact hkey (congrArg key (h.unique w hw v hv hp))
      refine ⟨fun w hw => ?_, fun w hw => ?_, fun a ha b hb hab => ?_, fun q hq => ?_⟩
      · rcases Table.mem_set.mp hw with rfl | ⟨hw, hkey⟩
        · rw [hbump, hcount, pair_setCount, if_pos (beq_self_eq_true _), Nat.cast_add,
            Nat.cast_one]
        · rw [key_setCount] at hkey
          simp [h.count w hw, hother w hw hkey]
      · rcases Table.mem_set.mp hw with rfl | ⟨hw, -⟩
        · simp
        · simp [h.pos w hw]
      · rw [Table.mem_set] at ha hb
        rcases ha with rfl | ⟨ha, hka⟩ <;> rcases hb with rfl | ⟨hb, hkb⟩
        · rfl
        · rw [pair_setCount] at hab
          exact absurd hab.symm (hother b hb (by simpa using hkb))
        · rw [pair_setCount] at hab
          exact absurd hab (hother a ha (by simpa using hka))
        · exact h.unique a ha b hb hab
      · by_cases hqp : q = pair v
        · exact ⟨_, Table.mem_set_self t _, by simp [hqp]⟩
        · obtain ⟨w, hw, hwq⟩ := h.complete q (by simpa [hqp] using hq)
          have hkey : key w ≠ key v := by
            intro hkey
            exact hqp (hwq.symm.trans (congrArg pair (Table.eq_of_key_eq hw hv hkey)))
          exact ⟨w, Table.mem_set.mpr (.inr ⟨hw, by simpa using hkey⟩), hwq⟩

/-! ## Counts that may be off

A machine integer that overflows leaves a count that says too little. What stays true is
that the row is used up by as many drops as the resource has uses. -/

/-- The row is removed by one of the next `n` drops of its resource. -/
def UsedUp : ℕ → V → Prop
  | 0, _ => False
  | n + 1, v => count (setCount v (count v - 1)) ≤ 0 ∨ UsedUp n (setCount v (count v - 1))

omit [LinearOrder K] [BEq P] [LawfulBEq P] in
theorem UsedUp.pos {n : ℕ} {v : V} (h : UsedUp n v) : 0 < n := by
  cases n with
  | zero => exact h.elim
  | succ n => exact Nat.succ_pos n

/-- At most one row for each resource, and none that outlives its uses. -/
structure Backed (t : Table V) (f : P → ℕ) : Prop where
  used_up : ∀ v ∈ t, UsedUp (f (pair v)) v
  unique : ∀ v ∈ t, ∀ w ∈ t, pair v = pair w → v = w

omit [BEq P] [LawfulBEq P] in
theorem backed_empty (f : P → ℕ) : Backed (∅ : Table V) f where
  used_up v hv := absurd hv (Table.not_mem_empty v)
  unique v hv := absurd hv (Table.not_mem_empty v)

omit [BEq P] [LawfulBEq P] in
theorem Backed.subset {t t' : Table V} {f : P → ℕ} (h : Backed t f) (hsub : ∀ v ∈ t', v ∈ t) :
    Backed t' f where
  used_up v hv := h.used_up v (hsub v hv)
  unique v hv w hw := h.unique v (hsub v hv) w (hsub w hw)

omit [BEq P] [LawfulBEq P] in
/-- Filing the only row of its resource leaves one row for each resource. -/
theorem unique_set {t : Table V} {u : V} (h : ∀ v ∈ t, ∀ w ∈ t, pair v = pair w → v = w)
    (hother : ∀ v ∈ t, key v ≠ key u → pair v ≠ pair u) :
    ∀ v ∈ t.set u, ∀ w ∈ t.set u, pair v = pair w → v = w := by
  intro v hv w hw hp
  rcases Table.mem_set.mp hv with hvu | ⟨hvt, hkv⟩ <;>
    rcases Table.mem_set.mp hw with hwu | ⟨hwt, hkw⟩
  · exact hvu.trans hwu.symm
  · exact absurd (hp.symm.trans (congrArg pair hvu)) (hother w hwt hkw)
  · exact absurd (hp.trans (congrArg pair hwu)) (hother v hvt hkv)
  · exact h v hvt w hwt hp

omit [BEq P] [LawfulBEq P] in
/-- The rows that do not share the key of the one row of a resource count another one. -/
theorem pair_ne_of_key_ne {t : Table V} (h : ∀ v ∈ t, ∀ w ∈ t, pair v = pair w → v = w) {u : V}
    (hu : u ∈ t) {v : V} (hv : v ∈ t) (hkey : key v ≠ key u) : pair v ≠ pair u :=
  fun hp => hkey (congrArg key (h v hv u hu hp))

/-- A drop takes one use and brings the row one step closer to its end. -/
theorem Backed.drop {t : Table V} {f : P → ℕ} (h : Backed t f) (p : P) :
    Backed (drop p t) fun q => f q - [p].count q := by
  rw [RefCount.drop]
  have hother : ∀ v ∈ t, pair v ≠ p → UsedUp (f (pair v) - [p].count (pair v)) v := by
    intro v hv hne
    have hzero : [p].count (pair v) = 0 := List.count_eq_zero.mpr (by simpa using hne)
    rw [hzero]
    exact h.used_up v hv
  cases hfound : find? p t with
  | none =>
      exact ⟨fun v hv => hother v hv (find?_eq_none_iff.mp hfound v hv), h.unique⟩
  | some u =>
      obtain ⟨hu, rfl⟩ := find?_some hfound
      have hdistinct : ∀ v ∈ t, key v ≠ key u → pair v ≠ pair u :=
        fun v hv => pair_ne_of_key_ne h.unique hu hv
      dsimp only
      split
      · refine ⟨fun v hv => ?_, fun v hv w hw => ?_⟩
        · obtain ⟨hv, hkey⟩ := Table.mem_erase.mp hv
          exact hother v hv (hdistinct v hv (by simpa using hkey))
        · exact h.unique v (Table.mem_erase.mp hv).1 w (Table.mem_erase.mp hw).1
      · rename_i hlast
        refine ⟨fun v hv => ?_, unique_set h.unique fun v hv hkey => ?_⟩
        · rcases Table.mem_set.mp hv with rfl | ⟨hv, hkey⟩
          · have hused := h.used_up u hu
            obtain ⟨n, hn⟩ := Nat.exists_eq_succ_of_ne_zero hused.pos.ne'
            rw [hn] at hused
            rw [pair_setCount, List.count_singleton_self, hn]
            exact hused.resolve_left hlast
          · exact hother v hv (hdistinct v hv (by simpa using hkey))
        · rw [pair_setCount]
          exact hdistinct v hv (by simpa using hkey)

theorem Backed.dropAll {t : Table V} {f : P → ℕ} (h : Backed t f) (ps : List P) :
    Backed (RefCount.dropAll ps t) fun q => f q - ps.count q := by
  induction ps generalizing t f with
  | nil => simpa [RefCount.dropAll] using h
  | cons p ps ih =>
      have hrest := ih (h.drop p)
      rw [dropAll_cons]
      refine Eq.mp (congrArg _ (funext fun q => ?_)) hrest
      have hsplit : (p :: ps).count q = [p].count q + ps.count q := by
        rw [← List.count_append, List.singleton_append]
      omega

omit [LinearOrder K] [BEq P] [LawfulBEq P] in
/-- A row that is bumped needs one drop more, whether or not its count overflows, as long
as the next drop undoes it. -/
theorem UsedUp.bump {n : ℕ} {v : V} (h : UsedUp n v)
    (hundo : setCount v (count (setCount v (count v + 1)) - 1) = v) :
    UsedUp (n + 1) (setCount v (count v + 1)) := by
  rw [UsedUp, setCount_setCount, hundo]
  exact .inr h

theorem Backed.retain {t : Table V} {f : P → ℕ} (h : Backed t f) {p : P} {new : V}
    (hpair : pair new = p) (hone : Counted.count new = 1) (hnew : ∀ v ∈ t, key v ≠ key new)
    (hundo : ∀ v : V, setCount v (Counted.count (setCount v (Counted.count v + 1)) - 1) = v) :
    Backed (RefCount.retain p new t) fun q => f q + [p].count q := by
  rw [RefCount.retain]
  have hother : ∀ v ∈ t, pair v ≠ p → UsedUp (f (pair v) + [p].count (pair v)) v := by
    intro v hv hne
    have hzero : [p].count (pair v) = 0 := List.count_eq_zero.mpr (by simpa using hne)
    rw [hzero]
    exact h.used_up v hv
  cases hfound : find? p t with
  | none =>
      have hnone := find?_eq_none_iff.mp hfound
      have hlast : UsedUp 1 new := by
        have hlimit := count_le new
        refine .inl ?_
        rw [hone, count_setCount new (1 - 1) (by omega) (by omega)]
        omega
      refine ⟨fun v hv => ?_, unique_set h.unique fun v hv _ => ?_⟩
      · rcases Table.mem_set.mp hv with rfl | ⟨hv, -⟩
        · rw [hpair, List.count_singleton_self]
          cases f p with
          | zero => exact hlast
          | succ n => exact .inl (hlast.resolve_right id)
        · exact hother v hv (hnone v hv)
      · rw [hpair]
        exact hnone v hv
  | some u =>
      obtain ⟨hu, rfl⟩ := find?_some hfound
      have hdistinct : ∀ v ∈ t, key v ≠ key u → pair v ≠ pair u :=
        fun v hv => pair_ne_of_key_ne h.unique hu hv
      refine ⟨fun v hv => ?_, unique_set h.unique fun v hv hkey => ?_⟩
      · rcases Table.mem_set.mp hv with rfl | ⟨hv, hkey⟩
        · rw [pair_setCount, List.count_singleton_self]
          exact (h.used_up u hu).bump (hundo u)
        · exact hother v hv (hdistinct v hv (by simpa using hkey))
      · rw [pair_setCount]
        exact hdistinct v hv (by simpa using hkey)

end RefCount
