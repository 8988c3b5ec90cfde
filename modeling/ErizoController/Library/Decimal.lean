import Mathlib.Data.List.TakeWhile
import Mathlib.Data.Nat.Digits.Defs

/-!
# Decimal numerals in byte strings

The numerals at the beginning of a byte string, as `std::stoi` reads them: white space, a
sign or none, and as many digits as there are.
-/

namespace Decimal

/-- `isspace` in the C locale. -/
def isSpace (b : UInt8) : Bool := b == 32 || (9 ≤ b && b ≤ 13)

def isDigit (b : UInt8) : Bool := 48 ≤ b && b ≤ 57

def digitValue (b : UInt8) : ℕ := b.toNat - 48

/-- The number that a list of digits stands for. -/
def value (digits : List UInt8) : ℕ := digits.foldl (fun n b => n * 10 + digitValue b) 0

/-- The signs, with the numbers that they make of a number. -/
inductive Sign : List UInt8 → (ℕ → ℤ) → Prop
  | none : Sign [] fun n => n
  | plus : Sign [43] fun n => n
  | minus : Sign [45] fun n => -n

/-- The string begins with the numeral of a number. -/
inductive Numeral : List UInt8 → ℤ → Prop
  | intro {spaces sign digits rest : List UInt8} {signed : ℕ → ℤ}
      (hspaces : ∀ b ∈ spaces, isSpace b = true) (hsign : Sign sign signed)
      (hdigits : ∀ b ∈ digits, isDigit b = true) (hne : digits ≠ [])
      (hrest : rest.takeWhile isDigit = []) :
      Numeral (spaces ++ (sign ++ (digits ++ rest))) (signed (value digits))

/-- The digits at the beginning, with their number. -/
def readDigits (s : List UInt8) : Option ℕ :=
  match s.takeWhile isDigit with
  | [] => none
  | digits => some (value digits)

/-- The numeral at the beginning. -/
def read (s : List UInt8) : Option ℤ :=
  match s.dropWhile isSpace with
  | 45 :: s => (readDigits s).map fun n : ℕ => -(n : ℤ)
  | 43 :: s => (readDigits s).map fun n : ℕ => (n : ℤ)
  | s => (readDigits s).map fun n : ℕ => (n : ℤ)

/-- The numeral of a number. -/
def dec (n : ℕ) : List UInt8 :=
  if n = 0 then [48] else (Nat.digits 10 n).reverse.map fun d => UInt8.ofNat (48 + d)

/-! ## Reading -/

theorem readDigits_append {digits rest : List UInt8} (hdigits : ∀ b ∈ digits, isDigit b = true)
    (hne : digits ≠ []) (hrest : rest.takeWhile isDigit = []) :
    readDigits (digits ++ rest) = some (value digits) := by
  rw [readDigits, List.takeWhile_append_of_pos hdigits, hrest, List.append_nil]
  cases digits with
  | nil => exact absurd rfl hne
  | cons b bs => rfl

theorem readDigits_eq_some {s : List UInt8} {n : ℕ} (h : readDigits s = some n) :
    ∃ digits rest, s = digits ++ rest ∧ (∀ b ∈ digits, isDigit b = true) ∧ digits ≠ [] ∧
      rest.takeWhile isDigit = [] ∧ n = value digits := by
  refine ⟨s.takeWhile isDigit, s.dropWhile isDigit, List.takeWhile_append_dropWhile.symm,
    fun b hb => List.mem_takeWhile_imp hb, ?_, ?_, ?_⟩
  · intro hnil
    rw [readDigits, hnil] at h
    cases h
  · cases hdrop : s.dropWhile isDigit with
    | nil => rfl
    | cons b bs =>
        have hb : ¬ isDigit b = true := by
          have hhead := List.dropWhile_get_zero_not isDigit s (by rw [hdrop]; exact Nat.succ_pos _)
          simpa [hdrop] using hhead
        exact List.takeWhile_cons_of_neg hb
  · rw [readDigits] at h
    split at h
    · cases h
    · exact (Option.some.inj h).symm

theorem isDigit_bounds {b : UInt8} (h : isDigit b = true) : 48 ≤ b.toNat ∧ b.toNat ≤ 57 := by
  rwa [isDigit, Bool.and_eq_true, decide_eq_true_eq, decide_eq_true_eq, UInt8.le_iff_toNat_le,
    UInt8.le_iff_toNat_le] at h

theorem isDigit_not_space {b : UInt8} (h : isDigit b = true) : isSpace b = false := by
  have hlow := (isDigit_bounds h).1
  have hne : b ≠ 32 := by
    rintro rfl
    exact absurd hlow (by decide)
  have hhigh : ¬ b ≤ 13 := by
    rw [UInt8.le_iff_toNat_le]
    have hmax : (13 : UInt8).toNat = 13 := rfl
    omega
  simp [isSpace, hne, hhigh]

theorem read_of_numeral {s : List UInt8} {v : ℤ} (h : Numeral s v) : read s = some v := by
  obtain @⟨spaces, sign, digits, rest, signed, hspaces, hsign, hdigits, hne, hrest⟩ := h
  have hread := readDigits_append hdigits hne hrest
  rw [read, List.dropWhile_append_of_pos hspaces]
  cases hsign with
  | minus =>
      rw [List.cons_append, List.nil_append, List.dropWhile_cons_of_neg (by decide)]
      simp only [hread, Option.map_some]
  | plus =>
      rw [List.cons_append, List.nil_append, List.dropWhile_cons_of_neg (by decide)]
      simp only [hread, Option.map_some]
  | none =>
      cases digits with
      | nil => exact absurd rfl hne
      | cons b bs =>
          have hb := hdigits b List.mem_cons_self
          have hspace : ¬ isSpace b = true := by
            rw [isDigit_not_space hb]
            exact Bool.false_ne_true
          rw [List.nil_append, List.cons_append, List.dropWhile_cons_of_neg hspace]
          rw [List.cons_append] at hread
          split
          · rename_i heq
            obtain ⟨rfl, -⟩ := List.cons.inj heq
            cases hb
          · rename_i heq
            obtain ⟨rfl, -⟩ := List.cons.inj heq
            cases hb
          · rw [hread]
            rfl

theorem numeral_of_read {s : List UInt8} {v : ℤ} (h : read s = some v) : Numeral s v := by
  have hsplit := List.takeWhile_append_dropWhile (p := isSpace) (l := s)
  have hspaces : ∀ b ∈ s.takeWhile isSpace, isSpace b = true :=
    fun b hb => List.mem_takeWhile_imp hb
  have hsign : ∀ {sign t : List UInt8} {signed : ℕ → ℤ}, Sign sign signed →
      s.dropWhile isSpace = sign ++ t → (readDigits t).map signed = some v → Numeral s v := by
    intro sign t signed hsign hdrop hread
    obtain ⟨n, hn, rfl⟩ := Option.map_eq_some_iff.mp hread
    obtain ⟨digits, rest, rfl, hdigits, hne, hrest, rfl⟩ := readDigits_eq_some hn
    rw [← hsplit, hdrop]
    exact .intro hspaces hsign hdigits hne hrest
  rw [read] at h
  split at h
  · rename_i t heq
    exact hsign .minus heq h
  · rename_i t heq
    exact hsign .plus heq h
  · exact hsign .none rfl h

/-- The reading finds the numeral at the beginning. -/
theorem read_eq_some_iff {s : List UInt8} {v : ℤ} : read s = some v ↔ Numeral s v :=
  ⟨numeral_of_read, read_of_numeral⟩

/-- A byte that is neither space, sign nor digit ends the numeral. -/
theorem read_append {b : UInt8} (hspace : isSpace b = false) (hdigit : isDigit b = false)
    (hplus : b ≠ 43) (hminus : b ≠ 45) (p q : List UInt8) : read (p ++ b :: q) = read p := by
  have hdigits : ∀ t : List UInt8, readDigits (t ++ b :: q) = readDigits t := by
    intro t
    have htake : (t ++ b :: q).takeWhile isDigit = t.takeWhile isDigit := by
      rw [List.takeWhile_append]
      split
      · rename_i hall
        rw [List.takeWhile_cons_of_neg (by rw [hdigit]; exact Bool.false_ne_true), List.append_nil]
        exact ((List.takeWhile_prefix _).eq_of_length hall).symm
      · rfl
    rw [readDigits, readDigits, htake]
  have hnone : (readDigits (b :: q)).map (fun n : ℕ => (n : ℤ)) = none := by
    rw [readDigits, List.takeWhile_cons_of_neg (by rw [hdigit]; exact Bool.false_ne_true)]
    rfl
  rw [read, read, List.dropWhile_append]
  cases hdrop : p.dropWhile isSpace with
  | nil =>
      rw [List.isEmpty_nil, if_pos rfl,
        List.dropWhile_cons_of_neg (by rw [hspace]; exact Bool.false_ne_true)]
      split
      · rename_i heq
        exact absurd (List.cons.inj heq).1 hminus
      · rename_i heq
        exact absurd (List.cons.inj heq).1 hplus
      · exact hnone
  | cons a t =>
      have hcons : (a :: t).isEmpty = false := rfl
      rw [hcons, if_neg Bool.false_ne_true]
      split
      · rename_i heq
        obtain ⟨rfl, rfl⟩ := List.cons.inj heq
        exact congrArg _ (hdigits t)
      · rename_i heq
        obtain ⟨rfl, rfl⟩ := List.cons.inj heq
        exact congrArg _ (hdigits t)
      · rename_i hm hp
        rw [hdigits]
        split
        · rename_i heq
          obtain ⟨rfl, rfl⟩ := List.cons.inj heq
          exact absurd rfl (hm _)
        · rename_i heq
          obtain ⟨rfl, rfl⟩ := List.cons.inj heq
          exact absurd rfl (hp _)
        · rfl

/-! ## The numeral of a number -/

theorem digit_of_lt : ∀ d < 10,
    isDigit (UInt8.ofNat (48 + d)) = true ∧ digitValue (UInt8.ofNat (48 + d)) = d := by
  decide

theorem dec_digits (n : ℕ) : ∀ b ∈ dec n, isDigit b = true := by
  intro b hb
  rw [dec] at hb
  split at hb
  · obtain rfl := List.mem_singleton.mp hb
    decide
  · obtain ⟨d, hd, rfl⟩ := List.mem_map.mp hb
    exact (digit_of_lt d (Nat.digits_lt_base (by decide) (List.mem_reverse.mp hd))).1

theorem dec_ne_nil (n : ℕ) : dec n ≠ [] := by
  rw [dec]
  split
  · exact List.cons_ne_nil _ _
  · rename_i h
    simpa using Nat.digits_ne_nil_iff_ne_zero.mpr h

theorem value_dec (n : ℕ) : value (dec n) = n := by
  rw [dec]
  split
  · rename_i h
    rw [h]
    decide
  · rename_i h
    have hfold : ∀ l : List ℕ, (∀ d ∈ l, d < 10) →
        l.foldr (fun d n => n * 10 + digitValue (UInt8.ofNat (48 + d))) 0 = Nat.ofDigits 10 l := by
      intro l hl
      induction l with
      | nil => rfl
      | cons d l ih =>
          rw [List.foldr_cons, ih fun d hd => hl d (List.mem_cons_of_mem _ hd), Nat.ofDigits_cons,
            (digit_of_lt d (hl d List.mem_cons_self)).2]
          omega
    rw [value, List.foldl_map, List.foldl_reverse,
      hfold _ fun d hd => Nat.digits_lt_base (by decide) hd, Nat.ofDigits_digits]

theorem dec_injective {n m : ℕ} (h : dec n = dec m) : n = m := by
  rw [← value_dec n, h, value_dec]

theorem read_dec (n : ℕ) : read (dec n) = some n := by
  refine read_of_numeral ?_
  have hnumeral : Numeral ([] ++ ([] ++ (dec n ++ []))) (value (dec n)) :=
    .intro (by simp) .none (dec_digits n) (dec_ne_nil n) rfl
  rwa [List.append_nil, List.nil_append, List.nil_append, value_dec] at hnumeral

end Decimal
