import Mathlib.Data.List.Infix
import Mathlib.Data.Set.Operations

/-!
# Escaping

Some symbols of a string are written as texts, the others stand for themselves. If the
texts hold none of the symbols that they are written for, writing a string twice is writing
it once, and a string is the only one that is written as it is just when it has no symbol to
write and no text of one.
-/

universe u

namespace Escape

variable {α : Type u} {escaped : α → Bool} {text : α → List α}

def piece (escaped : α → Bool) (text : α → List α) (a : α) : List α :=
  if escaped a then text a else [a]

/-- The string with its escaped symbols written out. -/
def encode (escaped : α → Bool) (text : α → List α) (s : List α) : List α :=
  s.flatMap (piece escaped text)

theorem piece_escaped {a : α} (h : escaped a = true) : piece escaped text a = text a := if_pos h

theorem piece_plain {a : α} (h : escaped a = false) : piece escaped text a = [a] := by
  rw [piece, h, if_neg Bool.false_ne_true]

@[simp] theorem encode_nil : encode escaped text [] = [] := rfl

theorem encode_cons (a : α) (s : List α) :
    encode escaped text (a :: s) = piece escaped text a ++ encode escaped text s :=
  List.flatMap_cons

theorem encode_append (s t : List α) :
    encode escaped text (s ++ t) = encode escaped text s ++ encode escaped text t :=
  List.flatMap_append

/-- A string without escaped symbols is written as it is. -/
theorem encode_of_plain {s : List α} (h : ∀ a ∈ s, escaped a = false) :
    encode escaped text s = s := by
  induction s with
  | nil => rfl
  | cons a s ih =>
      rw [encode_cons, piece_plain (h a List.mem_cons_self),
        ih fun b hb => h b (List.mem_cons_of_mem a hb), List.singleton_append]

/-- An escaped symbol leaves its text in the string. -/
theorem text_infix_encode {s : List α} {a : α} (ha : a ∈ s) (hescaped : escaped a = true) :
    text a <:+: encode escaped text s := by
  obtain ⟨s, t, rfl⟩ := List.append_of_mem ha
  rw [encode_append, encode_cons, piece_escaped hescaped]
  exact ⟨_, _, List.append_assoc _ _ _⟩

section Plain

variable (htext : ∀ a, escaped a = true → ∀ b ∈ text a, escaped b = false)

include htext

theorem plain_of_mem_encode {s : List α} {b : α} (hb : b ∈ encode escaped text s) :
    escaped b = false := by
  obtain ⟨a, -, hb⟩ := List.mem_flatMap.mp hb
  rw [piece] at hb
  split at hb
  · rename_i ha
    exact htext a ha b hb
  · rename_i ha
    rw [List.mem_singleton.mp hb]
    exact Bool.eq_false_iff.mpr ha

theorem encode_encode (s : List α) :
    encode escaped text (encode escaped text s) = encode escaped text s :=
  encode_of_plain fun _ hb => plain_of_mem_encode htext hb

theorem encode_eq_self_iff {s : List α} :
    encode escaped text s = s ↔ ∀ a ∈ s, escaped a = false := by
  constructor
  · intro h a ha
    rw [← h] at ha
    exact plain_of_mem_encode htext ha
  · exact encode_of_plain

/-- The strings that no other string is written like. -/
theorem encode_unique_iff {s : List α} :
    (∀ t, encode escaped text t = encode escaped text s → t = s) ↔
      (∀ a ∈ s, escaped a = false) ∧ ∀ a, escaped a = true → ¬ text a <:+: s := by
  constructor
  · intro h
    -- the string written out is written alike, so it is the string itself
    have hplain : ∀ a ∈ s, escaped a = false :=
      (encode_eq_self_iff htext).mp (h _ (encode_encode htext s))
    refine ⟨hplain, fun a ha hinfix => ?_⟩
    obtain ⟨p, q, rfl⟩ := hinfix
    have hp : encode escaped text p = p :=
      encode_of_plain fun b hb => hplain b (by simp [hb])
    have hq : encode escaped text q = q :=
      encode_of_plain fun b hb => hplain b (by simp [hb])
    have hwritten : encode escaped text (p ++ a :: q) = p ++ text a ++ q := by
      rw [encode_append, encode_cons, piece_escaped ha, hp, hq, List.append_assoc]
    rw [encode_of_plain hplain] at h
    have hmem : a ∈ p ++ text a ++ q := by
      rw [← h _ hwritten]
      exact List.mem_append_right p List.mem_cons_self
    have hfalse := hplain a hmem
    rw [ha] at hfalse
    cases hfalse
  · rintro ⟨hplain, htexts⟩ t ht
    rw [encode_of_plain hplain] at ht
    have ht' : ∀ a ∈ t, escaped a = false := by
      intro a ha
      rw [Bool.eq_false_iff]
      intro hescaped
      apply htexts a hescaped
      rw [← ht]
      exact text_infix_encode ha hescaped
    rw [← ht, encode_of_plain ht']

end Plain

/-! ## Strings without the mark -/

theorem eq_nil_of_encode_eq_nil {s : List α} (hne : ∀ a, escaped a = true → text a ≠ [])
    (h : encode escaped text s = []) : s = [] := by
  cases s with
  | nil => rfl
  | cons a s =>
      rw [encode_cons, List.append_eq_nil_iff, piece] at h
      split at h
      · rename_i ha
        exact absurd h.1 (hne a ha)
      · exact absurd h.1 (List.cons_ne_nil a [])

/-- If each text begins with the same mark and none begins another, two strings without the
mark are never written alike. -/
theorem encode_injOn {mark : α} (hmark : ∀ a, escaped a = true → ∃ rest, text a = mark :: rest)
    (hbegins : ∀ a b, escaped a = true → escaped b = true → text a <+: text b → a = b) :
    Set.InjOn (encode escaped text) {s | mark ∉ s} := by
  have hne : ∀ a, escaped a = true → text a ≠ [] := by
    intro a ha
    obtain ⟨rest, hrest⟩ := hmark a ha
    rw [hrest]
    exact List.cons_ne_nil mark rest
  -- a symbol that stands for itself is no mark, so it does not begin a text
  have hmixed : ∀ a b s t, escaped a = true → escaped b = false → mark ∉ b :: t →
      encode escaped text (a :: s) ≠ encode escaped text (b :: t) := by
    intro a b s t ha hb hmem h
    obtain ⟨rest, hrest⟩ := hmark a ha
    rw [encode_cons, encode_cons, piece_escaped ha, piece_plain hb, hrest, List.cons_append,
      List.singleton_append] at h
    rw [(List.cons.inj h).1] at hmem
    exact hmem List.mem_cons_self
  intro s
  induction s with
  | nil => exact fun _ t _ h => (eq_nil_of_encode_eq_nil hne h.symm).symm
  | cons a s ih =>
      intro hs t ht h
      cases t with
      | nil => exact eq_nil_of_encode_eq_nil hne h
      | cons b t =>
          have hs' : mark ∉ s := fun hmem => hs (List.mem_cons_of_mem a hmem)
          have ht' : mark ∉ t := fun hmem => ht (List.mem_cons_of_mem b hmem)
          cases ha : escaped a with
          | true =>
              cases hb : escaped b with
              | true =>
                  rw [encode_cons, encode_cons, piece_escaped ha, piece_escaped hb] at h
                  have hab : a = b := by
                    have hpa := List.prefix_append (text a) (encode escaped text s)
                    have hpb := List.prefix_append (text b) (encode escaped text t)
                    rw [← h] at hpb
                    rcases List.prefix_or_prefix_of_prefix hpa hpb with hab | hba
                    · exact hbegins a b ha hb hab
                    · exact (hbegins b a hb ha hba).symm
                  rw [hab] at h ⊢
                  rw [ih hs' ht' (List.append_cancel_left h)]
              | false => exact absurd h (hmixed a b s t ha hb ht)
          | false =>
              cases hb : escaped b with
              | true => exact absurd h.symm (hmixed b a t s hb ha hs)
              | false =>
                  rw [encode_cons, encode_cons, piece_plain ha, piece_plain hb,
                    List.singleton_append, List.singleton_append] at h
                  obtain ⟨hab, h⟩ := List.cons.inj h
                  rw [hab, ih hs' ht' h]

end Escape
