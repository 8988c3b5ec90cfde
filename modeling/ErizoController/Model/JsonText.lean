import Mathlib.Data.List.Sort
import ErizoController.Model.Codec

/-!
# JSON text of records

A writer and a reader of flat objects that fulfil what the records rely on. The text is that
of `FastWriter`: the members in the order of their names, without blanks, and a line feed at
the end.
-/

namespace Json.Text

def quote : Char := Char.ofNat 34

def backslash : Char := Char.ofNat 92

/-! ## Strings -/

/-- The characters with an escape of two characters. -/
def shortEscape (c : Char) : Option Char :=
  if c = quote ∨ c = backslash then some c
  else if c = '\x08' then some 'b'
  else if c = '\x0c' then some 'f'
  else if c = '\n' then some 'n'
  else if c = '\r' then some 'r'
  else if c = '\t' then some 't'
  else none

def unescape (e : Char) : Char :=
  if e = 'b' then '\x08'
  else if e = 'f' then '\x0c'
  else if e = 'n' then '\n'
  else if e = 'r' then '\r'
  else if e = 't' then '\t'
  else e

/-- The digits of a control character. -/
def hexDigit (n : ℕ) : Char := Nat.digitChar n

def hexValue (c : Char) : ℕ := if c.isDigit then c.toNat - 48 else c.toNat - 87

def writeChar (c : Char) : List Char :=
  match shortEscape c with
  | some e => [backslash, e]
  | none =>
      if c.toNat < 32 then [backslash, 'u', '0', '0', hexDigit (c.toNat / 16),
        hexDigit (c.toNat % 16)]
      else [c]

def writeString (s : List Char) : List Char := quote :: (s.flatMap writeChar ++ [quote])

/-- The text up to the closing quote, and what follows it. -/
def readString : List Char → Option (List Char × List Char)
  | [] => none
  | c :: cs =>
      if c = quote then some ([], cs)
      else if c = backslash then
        match cs with
        | 'u' :: _ :: _ :: a :: b :: cs =>
            (readString cs).map fun s => (Char.ofNat (hexValue a * 16 + hexValue b) :: s.1, s.2)
        | e :: cs => (readString cs).map fun s => (unescape e :: s.1, s.2)
        | [] => none
      else (readString cs).map fun s => (c :: s.1, s.2)

theorem hexValue_hexDigit : ∀ n < 32,
    hexValue (hexDigit (n / 16)) * 16 + hexValue (hexDigit (n % 16)) = n := by
  decide

theorem readString_quote (cs : List Char) : readString (quote :: cs) = some ([], cs) := by
  rw [readString.eq_def]
  simp only [if_true]

theorem readString_short {e : Char} (he : e ≠ 'u') (cs : List Char) :
    readString (backslash :: e :: cs) = (readString cs).map fun s => (unescape e :: s.1, s.2) := by
  rw [readString, if_neg (by decide), if_pos rfl]
  intro _ _ _ _ _ heq
  exact absurd heq he

theorem shortEscape_eq_some {c e : Char} (h : shortEscape c = some e) : e ≠ 'u' ∧
    unescape e = c := by
  rw [shortEscape] at h
  split_ifs at h with hself hb hf hn hr ht
  · obtain rfl := Option.some.inj h
    rcases hself with rfl | rfl <;> decide
  all_goals
    obtain rfl := Option.some.inj h
    subst c
    decide

theorem readString_writeChar (c : Char) (cs : List Char) :
    readString (writeChar c ++ cs) = (readString cs).map fun s => (c :: s.1, s.2) := by
  rw [writeChar]
  cases hshort : shortEscape c with
  | some e =>
      obtain ⟨he, hc⟩ := shortEscape_eq_some hshort
      rw [List.cons_append, List.cons_append, List.nil_append, readString_short he, hc]
  | none =>
      have hself : ¬ (c = quote ∨ c = backslash) := by
        intro hself
        rw [shortEscape, if_pos hself] at hshort
        cases hshort
      obtain ⟨hquote, hbackslash⟩ := not_or.mp hself
      split_ifs with hcontrol
      · rw [List.cons_append, List.cons_append, List.cons_append, List.cons_append,
          List.cons_append,
          List.cons_append, List.nil_append, readString.eq_def]
        simp only [if_neg (show backslash ≠ quote by decide), if_true, hexValue_hexDigit _ hcontrol,
          Char.ofNat_toNat]
      · rw [List.cons_append, List.nil_append, readString.eq_def]
        simp only [if_neg hquote, if_neg hbackslash]

theorem readString_writeString (s cs : List Char) :
    readString (s.flatMap writeChar ++ quote :: cs) = some (s, cs) := by
  induction s with
  | nil => exact readString_quote cs
  | cons c s ih =>
      rw [List.flatMap_cons, List.append_assoc, readString_writeChar, ih, Option.map_some]

theorem hexDigit_ne : ∀ n < 16, '\x00' ≠ hexDigit n := by
  decide

theorem not_mem_writeChar {c : Char} (hc : c ≠ '\x00') : '\x00' ∉ writeChar c := by
  rw [writeChar]
  cases hshort : shortEscape c with
  | some e =>
      obtain ⟨-, rfl⟩ := shortEscape_eq_some hshort
      have he : '\x00' ≠ e := by
        rintro rfl
        exact hc (by decide)
      rw [List.mem_cons, List.mem_singleton, not_or]
      exact ⟨by decide, he⟩
  | none =>
      dsimp only
      split_ifs with hcontrol
      · simp only [List.mem_cons, List.not_mem_nil, or_false, not_or]
        exact ⟨by decide, by decide, by decide, by decide, hexDigit_ne _ (by omega),
          hexDigit_ne _ (by omega)⟩
      · rw [List.mem_singleton]
        exact hc.symm

/-! ## Members -/

def writeNat (n : ℕ) : List Char := Nat.toDigits 10 n

def writeValue : Value → List Char
  | .stringValue s => writeString s.toList
  | .intValue i => if i < 0 then '-' :: writeNat i.natAbs else writeNat i.natAbs
  | .uintValue n => writeNat n
  | .booleanValue true => ['t', 'r', 'u', 'e']
  | .booleanValue false => ['f', 'a', 'l', 's', 'e']
  | _ => ['n', 'u', 'l', 'l']

/-- The number at the beginning, and what follows it. -/
def readNat (cs : List Char) : ℕ × List Char :=
  (Nat.ofDigitChars 10 (cs.takeWhile Char.isDigit) 0, cs.dropWhile Char.isDigit)

def readValue : List Char → Option (Value × List Char)
  | 't' :: 'r' :: 'u' :: 'e' :: cs => some (.booleanValue true, cs)
  | 'f' :: 'a' :: 'l' :: 's' :: 'e' :: cs => some (.booleanValue false, cs)
  | '-' :: cs => some (.ofLiteral (-(readNat cs).1), (readNat cs).2)
  | c :: cs =>
      if c = quote then (readString cs).map fun s => (.stringValue (String.ofList s.1), s.2)
      else if c.isDigit then some (.ofLiteral (readNat (c :: cs)).1, (readNat (c :: cs)).2)
      else none
  | [] => none

theorem readNat_writeNat (n : ℕ) {cs : List Char} (hcs : cs.takeWhile Char.isDigit = []) :
    readNat (writeNat n ++ cs) = (n, cs) := by
  have hdigits : ∀ c ∈ writeNat n, c.isDigit = true :=
    fun c hc => Nat.isDigit_of_mem_toDigits (by decide) (by decide) hc
  have hdrop : cs.dropWhile Char.isDigit = cs := by
    have happend := List.takeWhile_append_dropWhile (p := Char.isDigit) (l := cs)
    rwa [hcs, List.nil_append] at happend
  rw [readNat, List.takeWhile_append_of_pos hdigits, List.dropWhile_append_of_pos hdigits,
    hcs, hdrop,
    List.append_nil, writeNat, Nat.ofDigitChars_ten_toDigits]

theorem readValue_quote (cs : List Char) :
    readValue (quote :: cs) =
      (readString cs).map fun s => (.stringValue (String.ofList s.1), s.2) :=
  rfl

theorem readValue_writeNat (n : ℕ) {cs : List Char} (hcs : cs.takeWhile Char.isDigit = []) :
    readValue (writeNat n ++ cs) = some (.ofLiteral n, cs) := by
  have hread := readNat_writeNat n hcs
  cases hdigits : writeNat n with
  | nil => exact absurd hdigits Nat.toDigits_ne_nil
  | cons c ds =>
      have hc : c.isDigit = true :=
        Nat.isDigit_of_mem_toDigits (by decide) (by decide) (hdigits ▸ List.mem_cons_self)
      have hne : ∀ {c' : Char}, c'.isDigit = false → c ≠ c' := by
        rintro c' hc' rfl
        exact Bool.noConfusion (hc.symm.trans hc')
      rw [hdigits, List.cons_append] at hread
      rw [List.cons_append, readValue, if_neg (hne (by decide)), if_pos hc, hread]
      · exact fun _ heq => absurd heq (hne (by decide))
      · exact fun _ heq => absurd heq (hne (by decide))
      · exact hne (by decide)

theorem readValue_writeValue {v : Value} (hv : v.IsField) {cs : List Char}
    (hcs : cs.takeWhile Char.isDigit = []) :
    readValue (writeValue v ++ cs) = some (v.reread, cs) := by
  cases v with
  | stringValue s =>
      rw [writeValue, writeString, List.cons_append, List.append_assoc, readValue_quote,
        List.singleton_append, readString_writeString, Option.map_some, String.ofList_toList]
      rfl
  | intValue i =>
      rw [writeValue]
      split_ifs with hi
      · have hneg : -(i.natAbs : ℤ) = i := by omega
        rw [List.cons_append, readValue, readNat_writeNat _ hcs, hneg]
        rfl
      · have habs : (i.natAbs : ℤ) = i := by omega
        rw [readValue_writeNat _ hcs, habs]
        rfl
  | uintValue n => exact readValue_writeNat n hcs
  | booleanValue b => cases b <;> rfl
  | nullValue => exact hv.elim
  | realValue x => exact hv.elim
  | arrayValue xs => exact hv.elim
  | objectValue members => exact hv.elim

def writeMember (m : String × Value) : List Char := writeString m.1.toList ++ ':' :: writeValue m.2

/-- The members up to the closing brace. -/
def writeMembers : List (String × Value) → List Char
  | [] => [Char.ofNat 125]
  | [m] => writeMember m ++ [Char.ofNat 125]
  | m :: ms => writeMember m ++ ',' :: writeMembers ms

theorem writeMembers_cons_cons (m m' : String × Value) (ms : List (String × Value)) :
    writeMembers (m :: m' :: ms) = writeMember m ++ ',' :: writeMembers (m' :: ms) := rfl

def readMember : List Char → Option ((String × Value) × List Char)
  | c :: cs =>
      if c = quote then
        match readString cs with
        | some (name, ':' :: cs) => (readValue cs).map fun v => ((String.ofList name, v.1), v.2)
        | _ => none
      else none
  | [] => none

/-- At most `n` members, up to the closing brace, and what follows it. -/
def readMembers : ℕ → List Char → Option (List (String × Value) × List Char)
  | 0, _ => none
  | n + 1, cs =>
      match readMember cs with
      | some (m, c :: cs) =>
          if c = ',' then (readMembers n cs).map fun ms => (m :: ms.1, ms.2)
          else if c = Char.ofNat 125 then some ([m], cs)
          else none
      | _ => none

theorem readMember_writeMember {m : String × Value} (hm : m.2.IsField) {cs : List Char}
    (hcs : cs.takeWhile Char.isDigit = []) :
    readMember (writeMember m ++ cs) = some ((m.1, m.2.reread), cs) := by
  rw [writeMember, writeString, List.append_assoc, List.cons_append, List.append_assoc,
    List.singleton_append, readMember, if_pos rfl, List.cons_append, readString_writeString]
  change (readValue (writeValue m.2 ++ cs)).map (fun v => ((String.ofList m.1.toList, v.1), v.2)) =
    _
  rw [readValue_writeValue hm hcs, Option.map_some, String.ofList_toList]

theorem readMembers_writeMembers {ms : List (String × Value)} (hms : ∀ m ∈ ms, m.2.IsField)
    (hne : ms ≠ []) {n : ℕ} (hn : ms.length ≤ n) (cs : List Char) :
    readMembers n (writeMembers ms ++ cs) = some (ms.map fun m => (m.1, m.2.reread), cs) := by
  induction ms generalizing n with
  | nil => exact absurd rfl hne
  | cons m ms ih =>
      obtain ⟨n, rfl⟩ : ∃ n', n = n' + 1 :=
        Nat.exists_eq_add_one.mpr (Nat.lt_of_lt_of_le (by simp) hn)
      have hm := hms m List.mem_cons_self
      cases ms with
      | nil =>
          rw [writeMembers, List.append_assoc, readMembers, readMember_writeMember hm rfl]
          rfl
      | cons m' ms =>
          have hrest := ih (fun m hm => hms m (List.mem_cons_of_mem _ hm)) (List.cons_ne_nil _ _)
            (Nat.le_of_succ_le_succ hn)
          rw [writeMembers_cons_cons, List.append_assoc, readMembers, List.cons_append,
            readMember_writeMember hm rfl]
          dsimp only
          rw [if_pos rfl, hrest]
          rfl

theorem length_le_writeMembers (ms : List (String × Value)) : ms.length ≤
    (writeMembers ms).length := by
  induction ms with
  | nil => exact Nat.zero_le _
  | cons m ms ih =>
      cases ms with
      | nil =>
          rw [writeMembers, List.length_append]
          exact Nat.le_add_left _ _
      | cons m' ms =>
          simp only [writeMembers_cons_cons, List.length_append, List.length_cons] at ih ⊢
          omega

/-! ## Documents -/

/-- The members in the order of their names. -/
def sorted (members : List (String × Value)) : List (String × Value) :=
  members.insertionSort fun m m' => m.1 ≤ m'.1

def write : Value → String
  | .objectValue members =>
      String.ofList (Char.ofNat 123 :: (writeMembers (sorted members) ++ ['\n']))
  | v => String.ofList (writeValue v ++ ['\n'])

def parse (text : String) : Option Value :=
  match text.toList with
  | [] => none
  | c :: cs =>
      if c = Char.ofNat 123 then
        match if cs.head? =
          some (Char.ofNat 125) then some ([], cs.tail) else readMembers cs.length cs with
        | some (members, cs) =>
            if cs.all Char.isWhitespace then some (.objectValue members) else none
        | none => none
      else none

theorem parse_write {members : List (String × Value)} (h : Value.IsRecord members) :
    parse (write (.objectValue members)) =
      some (.objectValue ((sorted members).map fun m => (m.1, m.2.reread))) := by
  have hperm : (sorted members).Perm members := List.perm_insertionSort _ members
  have hfield : ∀ m ∈ sorted members, m.2.IsField := fun m hm => h.field m (hperm.mem_iff.mp hm)
  rw [write, parse, String.toList_ofList]
  generalize sorted members = ms at hfield ⊢
  dsimp only
  rw [if_pos rfl]
  cases ms with
  | nil => rfl
  | cons m ms =>
      have hlength : (m :: ms).length ≤ (writeMembers (m :: ms) ++ ['\n']).length :=
        (length_le_writeMembers _).trans (by rw [List.length_append]; exact Nat.le_add_right _ _)
      have hhead : (writeMembers (m :: ms) ++ ['\n']).head? ≠ some (Char.ofNat 125) := by
        cases ms <;> exact fun heq => absurd (Option.some.inj heq) (by decide)
      rw [if_neg hhead, readMembers_writeMembers hfield (List.cons_ne_nil _ _) hlength]
      rfl

theorem reread_sorted {members : List (String × Value)} (h : Value.IsRecord members) :
    Value.Reread (.objectValue members)
      (.objectValue ((sorted members).map fun m => (m.1, m.2.reread))) := by
  have hperm : (sorted members).Perm members := List.perm_insertionSort _ members
  have hnodup : (((sorted members).map fun m => (m.1, m.2.reread)).map Prod.fst).Nodup := by
    rw [List.map_map]
    exact (hperm.map Prod.fst).nodup_iff.mpr h.nodup
  refine ⟨rfl, fun key => Option.ext fun v => ?_⟩
  rw [Value.member?_eq_some_iff hnodup, List.mem_map, Option.map_eq_some_iff]
  constructor
  · rintro ⟨m, hm, heq⟩
    obtain ⟨rfl, rfl⟩ := Prod.mk.inj heq
    exact ⟨m.2, Value.member?_of_mem h.nodup (hperm.mem_iff.mp hm), rfl⟩
  · rintro ⟨v', hv', rfl⟩
    exact ⟨(key, v'), hperm.mem_iff.mpr ((Value.member?_eq_some_iff h.nodup).mp hv'), rfl⟩

theorem not_mem_writeString {s : String}
    (hs : '\x00' ∉ s.toList) : '\x00' ∉ writeString s.toList := by
  rw [writeString, List.mem_cons, List.mem_append, List.mem_flatMap, List.mem_singleton]
  rintro (heq | ⟨c, hc, hmem⟩ | heq)
  · exact absurd heq (by decide)
  · exact not_mem_writeChar (fun heq => hs (heq ▸ hc)) hmem
  · exact absurd heq (by decide)

theorem not_mem_writeNat (n : ℕ) : '\x00' ∉ writeNat n := fun hmem =>
  absurd (Nat.isDigit_of_mem_toDigits (by decide) (by decide) hmem) (by decide)

theorem not_mem_writeValue {v : Value} (hv : v.IsField) : '\x00' ∉ writeValue v := by
  cases v with
  | stringValue s => exact not_mem_writeString hv
  | intValue i =>
      rw [writeValue]
      split_ifs
      · rw [List.mem_cons, not_or]
        exact ⟨by decide, not_mem_writeNat _⟩
      · exact not_mem_writeNat _
  | uintValue n => exact not_mem_writeNat n
  | booleanValue b => cases b <;> decide
  | nullValue => exact hv.elim
  | realValue x => exact hv.elim
  | arrayValue xs => exact hv.elim
  | objectValue members => exact hv.elim

theorem not_mem_writeMember {m : String × Value} (hname : '\x00' ∉ m.1.toList) (hm : m.2.IsField) :
    '\x00' ∉ writeMember m := by
  rw [writeMember, List.mem_append, List.mem_cons, not_or, not_or]
  exact ⟨not_mem_writeString hname, by decide, not_mem_writeValue hm⟩

theorem not_mem_writeMembers {ms : List (String × Value)}
    (hms : ∀ m ∈ ms, '\x00' ∉ m.1.toList ∧ m.2.IsField) : '\x00' ∉ writeMembers ms := by
  induction ms with
  | nil => decide
  | cons m ms ih =>
      have hm := not_mem_writeMember (hms m List.mem_cons_self).1 (hms m List.mem_cons_self).2
      cases ms with
      | nil =>
          rw [writeMembers, List.mem_append, not_or]
          exact ⟨hm, by decide⟩
      | cons m' ms =>
          rw [writeMembers_cons_cons, List.mem_append, List.mem_cons, not_or, not_or]
          exact ⟨hm, by decide, ih fun m hm => hms m (List.mem_cons_of_mem _ hm)⟩

def jsoncpp : Jsoncpp := ⟨write, parse⟩

theorem jsoncpp_lawful : jsoncpp.Lawful where
  parse_write _ h := ⟨_, parse_write h, reread_sorted h⟩
  write_no_nul members h := by
    have hperm : (sorted members).Perm members := List.perm_insertionSort _ members
    have hmembers := @not_mem_writeMembers (sorted members)
      fun m hm => ⟨h.name m (hperm.mem_iff.mp hm), h.field m (hperm.mem_iff.mp hm)⟩
    change '\x00' ∉ (write (.objectValue members)).toList
    rw [write, String.toList_ofList, List.mem_cons, List.mem_append, List.mem_singleton]
    rintro (heq | hmem | heq)
    · exact absurd heq (by decide)
    · exact hmembers hmem
    · exact absurd heq (by decide)
  parse_empty := rfl

end Json.Text
