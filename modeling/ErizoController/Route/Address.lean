import Mathlib.Algebra.Group.Nat.Defs
import Mathlib.Data.UInt
import ErizoController.Library.Decimal

/-!
# IPv4 addresses

An address is four bytes in network order, its text the four numbers with dots between.
Which texts the C library takes for addresses is left open where only that matters.
-/

namespace Address

open Decimal

abbrev Bytes := List UInt8

/-- `c_str()`, as a function reads it that takes a C string. -/
def c_str (s : Bytes) : Bytes := s.takeWhile (· != 0)

theorem c_str_of_clean {s : Bytes} (h : 0 ∉ s) : c_str s = s := by
  rw [c_str, List.takeWhile_eq_self_iff]
  intro b hb
  rw [bne_iff_ne]
  rintro rfl
  exact h hb

theorem clean_c_str (s : Bytes) : 0 ∉ c_str s := by
  intro h
  have hne := List.mem_takeWhile_imp h
  simp at hne

/-- `struct in_addr`, its bytes in network order. -/
structure InAddr where
  a : UInt8
  b : UInt8
  c : UInt8
  d : UInt8
  deriving DecidableEq

/-- The address that stands for an error. -/
def INADDR_NONE : InAddr := ⟨255, 255, 255, 255⟩

namespace InAddr

def ntohl (addr : InAddr) : ℕ :=
  ((addr.a.toNat * 256 + addr.b.toNat) * 256 + addr.c.toNat) * 256 + addr.d.toNat

theorem ntohl_le (addr : InAddr) : addr.ntohl ≤ 0xffffffff := by
  have ha := addr.a.toNat_lt
  have hb := addr.b.toNat_lt
  have hc := addr.c.toNat_lt
  have hd := addr.d.toNat_lt
  rw [ntohl]
  omega

theorem ntohl_injective : Function.Injective ntohl := by
  intro x y h
  obtain ⟨a, b, c, d⟩ := x
  obtain ⟨a', b', c', d'⟩ := y
  simp only [ntohl] at h
  have hb := b.toNat_lt
  have hb' := b'.toNat_lt
  have hc := c.toNat_lt
  have hc' := c'.toNat_lt
  have hd := d.toNat_lt
  have hd' := d'.toNat_lt
  simp only [InAddr.mk.injEq, ← UInt8.toNat_inj]
  omega

/-- The text of an address. -/
def text (addr : InAddr) : Bytes :=
  dec addr.a.toNat ++ 46 :: (dec addr.b.toNat ++ 46 :: (dec addr.c.toNat ++ 46 :: dec addr.d.toNat))

end InAddr

/-- A function that reads addresses. It is given C strings. -/
structure Reader where
  read : Bytes → Option InAddr
  clean : ∀ {s addr}, read s = some addr → 0 ∉ s

/-! ## Dotted quads -/

/-- The address with the text, if there is one. -/
def dotted? (s : Bytes) : Option InAddr :=
  match s.splitOnP (· == 46) with
  | [a, b, c, d] =>
      let addr : InAddr :=
        ⟨.ofNat (value a), .ofNat (value b), .ofNat (value c), .ofNat (value d)⟩
      if addr.text = s then some addr else none
  | _ => none

theorem digit_ne_dot {b : UInt8} (h : isDigit b = true) : (b == 46) = false := by
  rw [beq_eq_false_iff_ne]
  rintro rfl
  exact absurd h (by decide)

theorem digit_ne_zero {b : UInt8} (h : isDigit b = true) : b ≠ 0 := by
  rintro rfl
  exact absurd h (by decide)

theorem splitOnP_dec_append (n : ℕ) (s : Bytes) :
    (dec n ++ 46 :: s).splitOnP (· == 46) = dec n :: s.splitOnP (· == 46) :=
  List.splitOnP_append_cons_of_forall_mem (fun b hb => digit_ne_dot (dec_digits n b hb)) 46 rfl s

theorem splitOnP_dec (n : ℕ) : (dec n).splitOnP (· == 46) = [dec n] :=
  List.splitOnP_eq_singleton fun b hb => digit_ne_dot (dec_digits n b hb)

theorem dotted?_text (addr : InAddr) : dotted? addr.text = some addr := by
  have hsplit : addr.text.splitOnP (· == 46) =
      [dec addr.a.toNat, dec addr.b.toNat, dec addr.c.toNat, dec addr.d.toNat] := by
    simp only [InAddr.text, splitOnP_dec_append, splitOnP_dec]
  rw [dotted?, hsplit]
  simp only [value_dec, UInt8.ofNat_toNat, if_true]

theorem dotted?_eq_some_iff {s : Bytes} {addr : InAddr} :
    dotted? s = some addr ↔ s = addr.text := by
  constructor
  · intro h
    rw [dotted?] at h
    split at h
    · simp only [Option.ite_none_right_eq_some, Option.some.injEq] at h
      obtain ⟨htext, rfl⟩ := h
      exact htext.symm
    · cases h
  · rintro rfl
    exact dotted?_text addr

theorem clean_text (addr : InAddr) : 0 ∉ addr.text := by
  have hdec : ∀ n, 0 ∉ dec n := fun n h => digit_ne_zero (dec_digits n 0 h) rfl
  simp [InAddr.text, hdec]

/-- A reader of dotted quads and nothing else. -/
def dotted : Reader where
  read := dotted?
  clean h := by
    rw [dotted?_eq_some_iff.mp h]
    exact clean_text _

end Address
