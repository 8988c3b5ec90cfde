import Mathlib.Data.List.Nodup
import Mathlib.Data.List.Perm.Basic
import Mathlib.Order.Lattice

/-!
# Tables of keyed rows

A table holds rows that carry their own key. The rows are kept in key order and
no two share a key, so a row is always filed under its own key and two tables
with the same rows are equal. Listing a table is listing its rows.
-/

universe u v

/-- Rows of type `V` carry a key of type `K`. -/
class Keyed (V : Type u) (K : outParam (Type v)) where
  key : V → K

open Keyed (key)

structure Table (V : Type u) {K : Type v} [Keyed V K] [LinearOrder K] where
  rows : List V
  sorted : rows.Pairwise fun a b => key a < key b

namespace Table

variable {V : Type u} {K : Type v} [Keyed V K] [LinearOrder K]

instance : EmptyCollection (Table V) := ⟨⟨[], .nil⟩⟩

instance : Inhabited (Table V) := ⟨∅⟩

instance : Membership V (Table V) := ⟨fun t v => v ∈ t.rows⟩

instance [DecidableEq V] : DecidableEq (Table V) := fun s t =>
  decidable_of_iff (s.rows = t.rows) (by
    cases s
    cases t
    simp)

instance [DecidableEq V] (v : V) (t : Table V) : Decidable (v ∈ t) :=
  inferInstanceAs (Decidable (v ∈ t.rows))

theorem mem_rows {t : Table V} {v : V} : v ∈ t.rows ↔ v ∈ t := Iff.rfl

@[simp] theorem rows_empty : (∅ : Table V).rows = [] := rfl

@[simp] theorem not_mem_empty (v : V) : v ∉ (∅ : Table V) := List.not_mem_nil

theorem eq_of_key_eq {t : Table V} {v w : V} (hv : v ∈ t) (hw : w ∈ t) (h : key v = key w) :
    v = w := by
  have hpair : ∀ a ∈ t.rows, ∀ b ∈ t.rows, key a = key b → a = b := by
    intro a ha b hb
    refine List.Pairwise.forall_of_forall_of_flip (R := fun a b => key a = key b → a = b)
      (fun _ _ _ => rfl) ?_ ?_ ha hb
    · exact t.sorted.imp fun hlt heq => absurd heq hlt.ne
    · exact t.sorted.imp fun hlt heq => absurd heq hlt.ne'
  exact hpair v hv w hw h

theorem nodup (t : Table V) : t.rows.Nodup :=
  t.sorted.imp fun h heq => h.ne (congrArg key heq)

/-- Two tables with the same rows are equal. -/
@[ext] theorem ext {s t : Table V} (h : ∀ v, v ∈ s ↔ v ∈ t) : s = t := by
  have hperm : s.rows.Perm t.rows := (List.perm_ext_iff_of_nodup s.nodup t.nodup).mpr h
  have hrows : s.rows = t.rows := by
    have hasymm : ∀ a b : V, a ∈ s.rows → b ∈ t.rows → key a < key b → key b < key a → a = b :=
      fun a b _ _ hab hba => absurd hab hba.asymm
    exact hperm.eq_of_pairwise hasymm s.sorted t.sorted
  cases s
  cases t
  congr

theorem exists_mem_of_ne_empty {t : Table V} (h : t ≠ ∅) : ∃ v, v ∈ t := by
  by_contra hnone
  exact h (Table.ext fun v => iff_of_false (not_exists.mp hnone v) (not_mem_empty v))

/-! ## Looking up, filing and removing rows -/

/-- The row filed under a key. -/
def get? (t : Table V) (k : K) : Option V :=
  t.rows.find? fun v => key v = k

theorem get?_eq_some_iff {t : Table V} {k : K} {v : V} :
    t.get? k = some v ↔ v ∈ t ∧ key v = k := by
  constructor
  · intro h
    exact ⟨List.mem_of_find?_eq_some h, by simpa using List.find?_some h⟩
  · rintro ⟨hv, rfl⟩
    cases hfound : t.get? (key v) with
    | none => exact absurd (List.find?_eq_none.mp hfound v hv) (by simp)
    | some w =>
        have hkey : key w = key v := by simpa using List.find?_some hfound
        rw [eq_of_key_eq (List.mem_of_find?_eq_some hfound) hv hkey]

theorem get?_eq_none_iff {t : Table V} {k : K} : t.get? k = none ↔ ∀ v ∈ t, key v ≠ k := by
  simp [get?, mem_rows]

/-- The rows that pass a test. -/
def filter (p : V → Bool) (t : Table V) : Table V :=
  ⟨t.rows.filter p, t.sorted.filter p⟩

@[simp] theorem mem_filter {p : V → Bool} {t : Table V} {v : V} :
    v ∈ t.filter p ↔ v ∈ t ∧ p v = true := List.mem_filter

@[simp] theorem rows_filter (p : V → Bool) (t : Table V) :
    (t.filter p).rows = t.rows.filter p := rfl

/-- The rows filed under none of the given keys. -/
def erase (t : Table V) (ks : List K) : Table V :=
  t.filter fun v => key v ∉ ks

@[simp] theorem mem_erase {t : Table V} {ks : List K} {v : V} :
    v ∈ t.erase ks ↔ v ∈ t ∧ key v ∉ ks := by
  simp [erase]

/-- A row placed before the first row with a larger key, replacing one with its key. -/
def insertRow (v : V) : List V → List V
  | [] => [v]
  | w :: ws =>
      if key v < key w then v :: w :: ws
      else if key v = key w then v :: ws
      else w :: insertRow v ws

theorem mem_insertRow {v w : V} {ws : List V} (h : ws.Pairwise fun a b => key a < key b) :
    w ∈ insertRow v ws ↔ w = v ∨ (w ∈ ws ∧ key w ≠ key v) := by
  induction ws with
  | nil => simp [insertRow]
  | cons x xs ih =>
      obtain ⟨hx, hxs⟩ := List.pairwise_cons.mp h
      rw [insertRow]
      split_ifs with hlt heq
      · have hne : ∀ y ∈ x :: xs, key y ≠ key v := by
          intro y hy
          rcases List.mem_cons.mp hy with rfl | hy
          · exact hlt.ne'
          · exact (hlt.trans (hx y hy)).ne'
        rw [List.mem_cons]
        exact or_congr_right ⟨fun hw => ⟨hw, hne w hw⟩, And.left⟩
      · have hne : ∀ y ∈ xs, key y ≠ key v := fun y hy => (heq ▸ hx y hy).ne'
        rw [List.mem_cons, List.mem_cons]
        refine or_congr_right ⟨fun hw => ⟨.inr hw, hne w hw⟩, ?_⟩
        rintro ⟨rfl | hw, hkey⟩
        · exact absurd heq.symm hkey
        · exact hw
      · rw [List.mem_cons, ih hxs, List.mem_cons]
        have hxv : key x ≠ key v := Ne.symm heq
        constructor
        · rintro (rfl | rfl | ⟨hw, hkey⟩)
          · exact .inr ⟨.inl rfl, hxv⟩
          · exact .inl rfl
          · exact .inr ⟨.inr hw, hkey⟩
        · rintro (rfl | ⟨rfl | hw, hkey⟩)
          · exact .inr (.inl rfl)
          · exact .inl rfl
          · exact .inr (.inr ⟨hw, hkey⟩)

theorem sorted_insertRow {v : V} {ws : List V} (h : ws.Pairwise fun a b => key a < key b) :
    (insertRow v ws).Pairwise fun a b => key a < key b := by
  induction ws with
  | nil => simp [insertRow]
  | cons x xs ih =>
      obtain ⟨hx, hxs⟩ := List.pairwise_cons.mp h
      rw [insertRow]
      split_ifs with hlt heq
      · refine List.pairwise_cons.mpr ⟨fun y hy => ?_, h⟩
        rcases List.mem_cons.mp hy with rfl | hy
        · exact hlt
        · exact hlt.trans (hx y hy)
      · exact List.pairwise_cons.mpr ⟨fun y hy => heq ▸ hx y hy, hxs⟩
      · refine List.pairwise_cons.mpr ⟨fun y hy => ?_, ih hxs⟩
        rcases (mem_insertRow hxs).mp hy with rfl | ⟨hy, -⟩
        · exact lt_of_le_of_ne (not_lt.mp hlt) (Ne.symm heq)
        · exact hx y hy

/-- A row filed under its key. -/
def set (t : Table V) (v : V) : Table V :=
  ⟨insertRow v t.rows, sorted_insertRow t.sorted⟩

@[simp] theorem mem_set {t : Table V} {v w : V} :
    w ∈ t.set v ↔ w = v ∨ (w ∈ t ∧ key w ≠ key v) := mem_insertRow t.sorted

@[simp] theorem mem_set_self (t : Table V) (v : V) : v ∈ t.set v := by simp

/-- Filing a row that is there changes nothing. -/
theorem set_of_mem {t : Table V} {v : V} (h : v ∈ t) : t.set v = t := by
  ext w
  rw [mem_set]
  constructor
  · rintro (rfl | ⟨hw, -⟩)
    · exact h
    · exact hw
  · intro hw
    by_cases hkey : key w = key v
    · exact .inl (eq_of_key_eq hw h hkey)
    · exact .inr ⟨hw, hkey⟩

theorem set_eq_self_iff {t : Table V} {v : V} : t.set v = t ↔ v ∈ t :=
  ⟨fun h => h ▸ mem_set_self t v, set_of_mem⟩

theorem eq_of_set_eq_set {t : Table V} {v w : V} (h : t.set v = t.set w) (hv : v ∉ t) :
    v = w := by
  have hmem : v ∈ t.set w := h ▸ mem_set_self t v
  rcases mem_set.mp hmem with hvw | ⟨hin, -⟩
  · exact hvw
  · exact absurd hin hv

theorem perm_set (t : Table V) (v : V) :
    (t.set v).rows.Perm (v :: t.rows.filter fun w => key w ≠ key v) := by
  refine (List.perm_ext_iff_of_nodup (t.set v).nodup ?_).mpr fun w => ?_
  · rw [List.nodup_cons]
    exact ⟨by simp, t.nodup.filter _⟩
  · rw [mem_rows, mem_set, List.mem_cons, List.mem_filter]
    simp [mem_rows]

theorem length_set_le (t : Table V) (v : V) : (t.set v).rows.length ≤ t.rows.length + 1 := by
  rw [(t.perm_set v).length_eq, List.length_cons]
  exact Nat.succ_le_succ (List.length_filter_le _ _)

/-- Filing a row under a new key adds one row. -/
theorem countP_set_of_new {t : Table V} {v : V} (hnew : ∀ w ∈ t, key w ≠ key v) (p : V → Bool) :
    (t.set v).rows.countP p = t.rows.countP p + if p v then 1 else 0 := by
  have hall : t.rows.filter (fun w => key w ≠ key v) = t.rows := by
    rw [List.filter_eq_self]
    exact fun w hw => decide_eq_true (hnew w hw)
  rw [(t.perm_set v).countP_eq, hall, List.countP_cons]

theorem length_set_of_new {t : Table V} {v : V} (hnew : ∀ w ∈ t, key w ≠ key v) :
    (t.set v).rows.length = t.rows.length + 1 := by
  simpa using countP_set_of_new hnew fun _ => true

/-- The rows before and after one of them, and what becomes of them when it is removed or
filed again. -/
theorem rows_split {t : Table V} {v : V} {before after : List V}
    (h : t.rows = before ++ v :: after) :
    (t.erase [key v]).rows = before ++ after ∧
      ∀ v', key v' = key v → (t.set v').rows = before ++ v' :: after := by
  have hsorted := t.sorted
  rw [h, List.pairwise_append, List.pairwise_cons] at hsorted
  obtain ⟨-, ⟨hafter, -⟩, hbefore⟩ := hsorted
  have hlt : ∀ w ∈ before, key w < key v := fun w hw => hbefore w hw v List.mem_cons_self
  constructor
  · have hkeep : ∀ ws : List V, (∀ w ∈ ws, key w ≠ key v) →
        ws.filter (fun w => decide (key w ∉ [key v])) = ws := by
      intro ws hws
      refine List.filter_eq_self.mpr fun w hw => decide_eq_true ?_
      simpa using hws w hw
    have hself : decide (key v ∉ [key v]) = false := by simp
    rw [erase, rows_filter, h, List.filter_append, List.filter_cons, hself,
      hkeep before fun w hw => (hlt w hw).ne, hkeep after fun w hw => (hafter w hw).ne']
    rfl
  · intro v' hkey
    change insertRow v' t.rows = _
    rw [h]
    clear h hbefore
    induction before with
    | nil =>
        rw [List.nil_append, insertRow, if_neg (by rw [hkey]; exact lt_irrefl _), if_pos hkey]
        rfl
    | cons w ws ih =>
        have hw : key w < key v' := hkey ▸ hlt w List.mem_cons_self
        rw [List.cons_append, insertRow, if_neg hw.asymm, if_neg hw.ne',
          ih fun x hx => hlt x (List.mem_cons_of_mem _ hx)]
        rfl

/-! ## Tables of other rows -/

section Other

variable {W : Type*} [Keyed W K]

/-- The rows rewritten under their keys. -/
def map (f : V → W) (hf : ∀ v, key (f v) = key v) (t : Table V) : Table W :=
  ⟨t.rows.map f, List.pairwise_map.mpr (t.sorted.imp fun h => by rwa [hf, hf])⟩

theorem mem_map {f : V → W} (hf : ∀ v, key (f v) = key v) {t : Table V} {w : W} :
    w ∈ t.map f hf ↔ ∃ v ∈ t, f v = w := List.mem_map

/-- Rows that agree on their keys are all filed. -/
theorem mem_foldl_set {vs : List V} {t : Table V}
    (h : ∀ v, v ∈ vs ∨ v ∈ t → ∀ w ∈ vs, key v = key w → v = w) {v : V} :
    v ∈ vs.foldl set t ↔ v ∈ vs ∨ v ∈ t := by
  induction vs generalizing t with
  | nil => simp
  | cons x xs ih =>
      have hstep : ∀ v, v ∈ xs ∨ v ∈ t.set x → v ∈ x :: xs ∨ v ∈ t := by
        rintro v (hv | hv)
        · exact .inl (List.mem_cons_of_mem _ hv)
        · rcases mem_set.mp hv with rfl | ⟨hv, -⟩
          · exact .inl List.mem_cons_self
          · exact .inr hv
      rw [List.foldl_cons, ih fun v hv w hw => h v (hstep v hv) w (List.mem_cons_of_mem _ hw)]
      refine ⟨hstep v, ?_⟩
      rintro (hv | hv)
      · rcases List.mem_cons.mp hv with rfl | hv
        · exact .inr (mem_set_self t v)
        · exact .inl hv
      · refine .inr (mem_set.mpr ?_)
        by_cases hkey : key v = key x
        · exact .inl (h v (.inr hv) x List.mem_cons_self hkey)
        · exact .inr ⟨hv, hkey⟩

end Other

/-! ## Listing something of each row -/

variable {β : Type*}

/-- What the rows list, when one of them is removed. -/
theorem perm_flatMap_erase {t : Table V} {v : V} (h : v ∈ t) (f : V → List β) :
    (t.rows.flatMap f).Perm (f v ++ (t.erase [key v]).rows.flatMap f) := by
  obtain ⟨before, after, hrows⟩ := List.append_of_mem (mem_rows.mpr h)
  rw [(rows_split hrows).1, hrows, List.flatMap_append, List.flatMap_append, List.flatMap_cons]
  exact List.perm_append_comm_assoc _ _ _

/-- A row that lists the same is filed in the place of another. -/
theorem flatMap_set {t : Table V} {v v' : V} (h : v ∈ t) (hkey : key v' = key v)
    {f : V → List β} (hf : f v' = f v) : (t.set v').rows.flatMap f = t.rows.flatMap f := by
  obtain ⟨before, after, hrows⟩ := List.append_of_mem (mem_rows.mpr h)
  rw [(rows_split hrows).2 v' hkey, hrows, List.flatMap_append, List.flatMap_append,
    List.flatMap_cons, List.flatMap_cons, hf]

/-- The rows of a table whose keys another table does not have. -/
def gone (t t' : Table V) : List V := t.rows.filter fun v => (t'.get? (key v)).isNone

theorem mem_gone {t t' : Table V} {v : V} : v ∈ gone t t' ↔ v ∈ t ∧ ∀ v' ∈ t', key v' ≠ key v := by
  rw [gone, List.mem_filter, Option.isNone_iff_eq_none, get?_eq_none_iff, mem_rows]

theorem gone_erase (t : Table V) (ks : List K) :
    gone t (t.erase ks) = t.rows.filter fun v => key v ∈ ks := by
  refine List.filter_congr fun v hv => ?_
  rw [Bool.eq_iff_iff, Option.isNone_iff_eq_none, get?_eq_none_iff, decide_eq_true_eq]
  constructor
  · intro hnone
    by_contra hks
    exact hnone v (mem_erase.mpr ⟨hv, hks⟩) rfl
  · intro hks w hw hkey
    exact (mem_erase.mp hw).2 (hkey ▸ hks)

/-- What the rows list is what the rows that are gone list, and what those that are left
list, if they are versions of earlier rows that list the same. -/
theorem perm_flatMap_gone {t t' : Table V} {f : V → List β}
    (h : ∀ v' ∈ t', ∃ v ∈ t, key v = key v' ∧ f v = f v') :
    (t.rows.flatMap f).Perm ((gone t t').flatMap f ++ t'.rows.flatMap f) := by
  have hkeyed : ∀ vs : List V, vs.flatMap f = (vs.map fun v => (key v, f v)).flatMap Prod.snd :=
    fun vs => by rw [List.flatMap_map]
  have hnodup : ∀ t₀ : Table V, (t₀.rows.map fun v => (key v, f v)).Nodup := fun t₀ =>
    List.Nodup.map_on (fun v hv w hw heq => eq_of_key_eq hv hw (congrArg Prod.fst heq)) t₀.nodup
  have hkept : ((t.rows.filter fun v => !(t'.get? (key v)).isNone).map fun v => (key v, f v)).Perm
      (t'.rows.map fun v => (key v, f v)) := by
    refine (List.perm_ext_iff_of_nodup ?_ (hnodup t')).mpr fun x => ?_
    · exact (hnodup t).sublist (List.filter_sublist.map _)
    · simp only [List.mem_map, List.mem_filter, Bool.not_eq_true', Option.isNone_eq_false_iff,
        Option.isSome_iff_exists, get?_eq_some_iff]
      constructor
      · rintro ⟨v, ⟨hv, v', hv', hkey⟩, rfl⟩
        obtain ⟨u, hu, hukey, huf⟩ := h v' hv'
        obtain rfl := eq_of_key_eq hu hv (hukey.trans hkey)
        exact ⟨v', hv', Prod.ext hkey huf.symm⟩
      · rintro ⟨v', hv', rfl⟩
        obtain ⟨v, hv, hkey, hf⟩ := h v' hv'
        exact ⟨v, ⟨hv, v', hv', hkey.symm⟩, Prod.ext hkey hf⟩
  have hsplit : t.rows.Perm (gone t t' ++ t.rows.filter fun v => !(t'.get? (key v)).isNone) :=
    (List.filter_append_perm _ _).symm
  refine (hsplit.flatMap_right f).trans ?_
  rw [List.flatMap_append]
  refine List.Perm.append_left _ ?_
  rw [hkeyed, hkeyed t'.rows]
  exact hkept.flatMap_right _

end Table
