import Mathlib.Data.List.Basic
import Mathlib.Order.Lattice

/-!
# Agendas

An agenda is a list of entries in the order of their times. An entry is filed after all the
entries of its time that are there, so the entries of one time stay in the order in which they
were filed. This is how a multimap keeps its pairs.
-/

namespace Agenda

variable {T F : Type*}

/-- The entries of a list that stand at one time. -/
def entriesAt [DecidableEq T] (t : T) (l : List (T × F)) : List (T × F) :=
  l.filter fun e => e.1 = t

section DecidableEq

variable [DecidableEq T] {t : T} {e : T × F} {l l' : List (T × F)}

@[simp] theorem entriesAt_nil : entriesAt t ([] : List (T × F)) = [] := rfl

@[simp] theorem entriesAt_append :
    entriesAt t (l ++ l') = entriesAt t l ++ entriesAt t l' := List.filter_append ..

theorem entriesAt_cons : entriesAt t (e :: l) = entriesAt t [e] ++ entriesAt t l :=
  List.filter_append [e] l

theorem entriesAt_singleton_of_ne (h : e.1 ≠ t) : entriesAt t [e] = [] := by
  simp [entriesAt, h]

theorem entriesAt_eq_nil_iff : entriesAt t l = [] ↔ ∀ e ∈ l, e.1 ≠ t := by
  simp [entriesAt, List.filter_eq_nil_iff]

/-- Two lists with the same entries at every time are permutations of each other. -/
theorem perm_of_entriesAt [DecidableEq F] (h : ∀ t, entriesAt t l = entriesAt t l') :
    l.Perm l' := by
  refine List.perm_iff_count.mpr fun e => ?_
  have hcount : ∀ l : List (T × F), l.count e = (entriesAt e.1 l).count e := fun l =>
    (List.count_filter (by simp)).symm
  rw [hcount l, hcount l', h]

end DecidableEq

variable [LinearOrder T]

/-- The entries stand in the order of their times. -/
def Sorted (l : List (T × F)) : Prop := l.Pairwise fun e e' => e.1 ≤ e'.1

/-- Files an entry after the entries of its time. -/
def insert (e : T × F) : List (T × F) → List (T × F)
  | [] => [e]
  | e' :: l => if e'.1 ≤ e.1 then e' :: insert e l else e :: e' :: l

theorem mem_insert {e e' : T × F} {l : List (T × F)} :
    e' ∈ insert e l ↔ e' = e ∨ e' ∈ l := by
  induction l with
  | nil => simp [insert]
  | cons a l ih =>
      rw [insert]
      split
      · rw [List.mem_cons, ih, List.mem_cons]
        exact or_left_comm
      · exact List.mem_cons

theorem Sorted.tail {e : T × F} {l : List (T × F)} (h : Sorted (e :: l)) : Sorted l :=
  (List.pairwise_cons.mp h).2

theorem Sorted.le {e e' : T × F} {l : List (T × F)} (h : Sorted (e :: l)) (he : e' ∈ l) :
    e.1 ≤ e'.1 :=
  (List.pairwise_cons.mp h).1 e' he

theorem Sorted.insert {e : T × F} {l : List (T × F)} (h : Sorted l) : Sorted (insert e l) := by
  induction l with
  | nil => exact List.pairwise_singleton _ _
  | cons a l ih =>
      rw [Agenda.insert]
      split
      · rename_i hle
        refine List.pairwise_cons.mpr ⟨fun b hb => ?_, ih h.tail⟩
        rcases mem_insert.mp hb with rfl | hb
        · exact hle
        · exact h.le hb
      · rename_i hlt
        have hle : e.1 ≤ a.1 := (not_le.mp hlt).le
        refine List.pairwise_cons.mpr ⟨fun b hb => ?_, h⟩
        rcases List.mem_cons.mp hb with rfl | hb
        · exact hle
        · exact hle.trans (h.le hb)

/-- Nothing stands before the first entry's time. -/
theorem Sorted.entriesAt_eq_nil {e : T × F} {l : List (T × F)} (h : Sorted (e :: l)) {t : T}
    (ht : t < e.1) : entriesAt t (e :: l) = [] := by
  refine entriesAt_eq_nil_iff.mpr fun b hb => ?_
  rcases List.mem_cons.mp hb with rfl | hb
  · exact ht.ne'
  · exact (ht.trans_le (h.le hb)).ne'

/-- Filing puts an entry last among those of its time. -/
theorem Sorted.entriesAt_insert {e : T × F} {l : List (T × F)} (h : Sorted l) (t : T) :
    entriesAt t (Agenda.insert e l) = entriesAt t l ++ entriesAt t [e] := by
  induction l with
  | nil => rfl
  | cons a l ih =>
      rw [Agenda.insert]
      split
      · rw [entriesAt_cons, ih h.tail, ← List.append_assoc, ← entriesAt_cons]
      · rename_i hlt
        rw [entriesAt_cons]
        by_cases ht : e.1 = t
        · rw [h.entriesAt_eq_nil (ht ▸ not_le.mp hlt), List.append_nil, List.nil_append]
        · rw [entriesAt_singleton_of_ne ht, List.nil_append, List.append_nil]

end Agenda
