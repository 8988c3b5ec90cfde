import Mathlib.Data.List.TakeWhile
import Mathlib.Data.Tree.Basic

/-!
# Searching a tree with a cut

A test cuts a list if it is passed by the elements up to some place and failed by those
after it. A binary tree whose elements are cut by a test can be searched from the root
down, whatever its shape: the search ends at the first element that fails the test.
-/

universe u

namespace Search

variable {α : Type u} {p : α → Bool}

/-- Who stands before an element that passes the test passes it too. -/
def Cuts (p : α → Bool) (l : List α) : Prop := l.Pairwise fun a b => p b = true → p a = true

/-- The first element that fails the test. -/
def first (p : α → Bool) (l : List α) : Option α := (l.dropWhile p).head?

theorem first_cons (a : α) (l : List α) :
    first p (a :: l) = if p a then first p l else some a := by
  rw [first, List.dropWhile_cons]
  split <;> rfl

theorem first_append (l l' : List α) : first p (l ++ l') = (first p l).or (first p l') := by
  induction l with
  | nil => rfl
  | cons a l ih =>
      rw [List.cons_append, first_cons, first_cons, ih]
      split <;> rfl

theorem first_eq_none_iff {l : List α} : first p l = none ↔ ∀ a ∈ l, p a = true := by
  rw [first, List.head?_eq_none_iff, List.dropWhile_eq_nil_iff]

/-- All who stand before the first element that fails pass, and after it all fail. -/
theorem Cuts.split {l : List α} (h : Cuts p l) :
    (∀ a ∈ l.takeWhile p, p a = true) ∧ ∀ a ∈ l.dropWhile p, p a = false := by
  refine ⟨fun a ha => List.mem_takeWhile_imp ha, ?_⟩
  induction l with
  | nil => simp
  | cons b l ih =>
      obtain ⟨hb, hl⟩ := List.pairwise_cons.mp h
      rw [List.dropWhile_cons]
      split
      · exact ih hl
      · rename_i hfails
        intro a ha
        rcases List.mem_cons.mp ha with rfl | ha
        · exact Bool.eq_false_iff.mpr hfails
        · exact Bool.eq_false_iff.mpr fun hpass => hfails (hb a ha hpass)

/-- The elements of a tree from left to right. -/
def inorder : BinaryTree α → List α
  | .nil => []
  | .node a l r => inorder l ++ a :: inorder r

/-- The search from the root down, with the last element seen that failed the test. -/
def lowerBound (p : α → Bool) : BinaryTree α → Option α → Option α
  | .nil, last => last
  | .node a l r, last => if p a then lowerBound p r last else lowerBound p l (some a)

/-- A search finds the first element that fails the test. -/
theorem lowerBound_eq {t : BinaryTree α} (h : Cuts p (inorder t)) (last : Option α) :
    lowerBound p t last = (first p (inorder t)).or last := by
  induction t generalizing last with
  | nil => rfl
  | node a l r ihl ihr =>
      obtain ⟨hl, har, hbetween⟩ := List.pairwise_append.mp h
      obtain ⟨ha, hr⟩ := List.pairwise_cons.mp har
      rw [lowerBound, inorder, first_append, first_cons]
      split
      · rename_i hpass
        have hnone : first p (inorder l) = none :=
          first_eq_none_iff.mpr fun b hb => hbetween b hb a List.mem_cons_self hpass
        rw [ihr hr, hnone, Option.none_or]
      · rw [ihl hl, Option.or_assoc, Option.some_or]

end Search
