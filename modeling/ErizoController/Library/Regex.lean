import Mathlib.Data.List.Basic

/-!
# Regular expressions with preferences

Expressions of classes, sequences and alternatives, and the search for the leftmost match,
where of two alternatives the left one is preferred. The matches of an expression at a place
are listed with the preferred ones first, so a search takes the first one of the first place
that has any.
-/

universe u

inductive Regex (α : Type u)
  | cls (p : α → Bool)
  | alt (r s : Regex α)
  | seq (r s : Regex α)

namespace Regex

variable {α : Type u}

/-- The matches at the beginning of a text, each with what follows it. -/
def matchesAt : Regex α → List α → List (List α × List α)
  | cls _, [] => []
  | cls p, c :: text => if p c then [([c], text)] else []
  | alt r s, text => r.matchesAt text ++ s.matchesAt text
  | seq r s, text => (r.matchesAt text).flatMap fun m =>
      (s.matchesAt m.2).map fun m' => (m.1 ++ m'.1, m'.2)

/-- The preferred match of the first place that has one. -/
def search (r : Regex α) : List α → Option (List α)
  | [] => (r.matchesAt []).head?.map Prod.fst
  | c :: text =>
      match r.matchesAt (c :: text) with
      | m :: _ => some m.1
      | [] => r.search text

/-- A match may begin with the character. -/
def Starts (c : α) : Regex α → Prop
  | cls p => p c = true
  | alt r s => r.Starts c ∨ s.Starts c
  | seq r _ => r.Starts c

/-- Some class of the expression has the character. -/
def Reads (c : α) : Regex α → Prop
  | cls p => p c = true
  | alt r s => r.Reads c ∨ s.Reads c
  | seq r s => r.Reads c ∨ s.Reads c

instance decidableStarts (c : α) : (r : Regex α) → Decidable (r.Starts c)
  | cls p => inferInstanceAs (Decidable (p c = true))
  | alt r s =>
      have := decidableStarts c r
      have := decidableStarts c s
      inferInstanceAs (Decidable (r.Starts c ∨ s.Starts c))
  | seq r _ => decidableStarts c r

instance decidableReads (c : α) : (r : Regex α) → Decidable (r.Reads c)
  | cls p => inferInstanceAs (Decidable (p c = true))
  | alt r s =>
      have := decidableReads c r
      have := decidableReads c s
      inferInstanceAs (Decidable (r.Reads c ∨ s.Reads c))
  | seq r s =>
      have := decidableReads c r
      have := decidableReads c s
      inferInstanceAs (Decidable (r.Reads c ∨ s.Reads c))

/-! ## Matches at a place -/

/-- A match and what follows it are the text. -/
theorem append_of_mem_matchesAt {r : Regex α} {text : List α} {m : List α × List α}
    (h : m ∈ r.matchesAt text) : text = m.1 ++ m.2 := by
  induction r generalizing text m with
  | cls p =>
      cases text with
      | nil => cases h
      | cons c text =>
          rw [matchesAt] at h
          split at h
          · rw [List.mem_singleton.mp h]
            rfl
          · cases h
  | alt r s ihr ihs => exact (List.mem_append.mp h).elim ihr ihs
  | seq r s ihr ihs =>
      obtain ⟨m₁, hm₁, hm⟩ := List.mem_flatMap.mp h
      obtain ⟨m₂, hm₂, rfl⟩ := List.mem_map.mp hm
      rw [ihr hm₁, ihs hm₂, List.append_assoc]

theorem matchesAt_of_not_starts {r : Regex α} {c : α} (h : ¬ r.Starts c) (text : List α) :
    r.matchesAt (c :: text) = [] := by
  induction r with
  | cls p => exact if_neg h
  | alt r s ihr ihs =>
      rw [matchesAt, ihr fun hr => h (.inl hr), ihs fun hs => h (.inr hs), List.append_nil]
  | seq r s ihr _ => rw [matchesAt, ihr h, List.flatMap_nil]

/-- A character that the expression does not read ends the text for it. -/
theorem matchesAt_append {r : Regex α} {stop : α} (h : ¬ r.Reads stop) (text more : List α) :
    r.matchesAt (text ++ stop :: more) =
      (r.matchesAt text).map fun m => (m.1, m.2 ++ stop :: more) := by
  induction r generalizing text with
  | cls p =>
      cases text with
      | nil => exact if_neg h
      | cons c text =>
          rw [List.cons_append, matchesAt, matchesAt]
          split <;> rfl
  | alt r s ihr ihs =>
      rw [matchesAt, matchesAt, ihr fun hr => h (.inl hr), ihs fun hs => h (.inr hs),
        List.map_append]
  | seq r s ihr ihs =>
      rw [matchesAt, matchesAt, ihr fun hr => h (.inl hr), List.map_flatMap, List.flatMap_map]
      refine List.flatMap_congr fun m _ => ?_
      rw [ihs (fun hs => h (.inr hs)), List.map_map, List.map_map]
      rfl

/-- A part of the text up to a separator: what matters of the matches of the first expression
are those of the whole part. -/
theorem matchesAt_seq_sep {r s : Regex α} {sep : α → Bool} {stop : α} (h : ¬ r.Reads stop)
    (hstop : sep stop = true) {text : List α} (htext : ∀ c ∈ text, sep c = false)
    (more : List α) :
    (seq r (seq (cls sep) s)).matchesAt (text ++ stop :: more) =
      ((r.matchesAt text).filter fun m => m.2.isEmpty).flatMap fun m =>
        (s.matchesAt more).map fun m' => (m.1 ++ stop :: m'.1, m'.2) := by
  have hpart : ∀ m ∈ r.matchesAt text, ∀ c ∈ m.2, sep c = false := by
    intro m hm c hc
    apply htext
    rw [append_of_mem_matchesAt hm]
    exact List.mem_append_right _ hc
  rw [matchesAt, matchesAt_append h, List.flatMap_map]
  generalize r.matchesAt text = ms at hpart
  induction ms with
  | nil => rfl
  | cons m ms ih =>
      have hms := ih fun m' hm' => hpart m' (List.mem_cons_of_mem _ hm')
      rw [List.flatMap_cons, hms, List.filter_cons]
      obtain ⟨taken, left⟩ := m
      cases left with
      | nil =>
          rw [if_pos (by rfl), List.flatMap_cons]
          simp [matchesAt, hstop, List.map_map, Function.comp_def]
      | cons c left =>
          have hc : sep c = false := hpart _ List.mem_cons_self c List.mem_cons_self
          rw [if_neg (by simp)]
          simp [matchesAt, hc]

/-! ## The search -/

theorem search_of_matchesAt {r : Regex α} {text : List α} {m : List α × List α}
    {ms : List (List α × List α)} (h : r.matchesAt text = m :: ms) :
    r.search text = some m.1 := by
  cases text with
  | nil => rw [search, h, List.head?_cons, Option.map_some]
  | cons c text => rw [search, h]

theorem search_cons {r : Regex α} {c : α} {text : List α} (h : r.matchesAt (c :: text) = []) :
    r.search (c :: text) = r.search text := by
  rw [search, h]

/-- What is in front of a match and starts none is passed over. -/
theorem search_append {r : Regex α} {front : List α} (h : ∀ c ∈ front, ¬ r.Starts c)
    (text : List α) : r.search (front ++ text) = r.search text := by
  induction front with
  | nil => rfl
  | cons c front ih =>
      rw [List.cons_append, search_cons (matchesAt_of_not_starts (h c List.mem_cons_self) _)]
      exact ih fun c hc => h c (List.mem_cons_of_mem _ hc)

theorem length_le_of_search {r : Regex α} {text found : List α} (h : r.search text = some found) :
    found.length ≤ text.length := by
  have hat : ∀ {text : List α} {m : List α × List α}, m ∈ r.matchesAt text →
      m.1.length ≤ text.length := by
    intro text m hm
    rw [append_of_mem_matchesAt hm, List.length_append]
    exact Nat.le_add_right _ _
  induction text with
  | nil =>
      obtain ⟨m, hm, rfl⟩ := Option.map_eq_some_iff.mp h
      exact hat (List.mem_of_mem_head? hm)
  | cons c text ih =>
      rw [search] at h
      split at h
      · rename_i m ms hms
        cases h
        exact hat (hms ▸ List.mem_cons_self)
      · exact Nat.le_trans (ih h) (Nat.le_succ _)

/-- A text with no match at its beginning is not found as a whole. -/
theorem search_ne_self {r : Regex α} {text : List α} (hne : text ≠ [])
    (h : r.matchesAt text = []) : r.search text ≠ some text := by
  intro hfound
  cases text with
  | nil => exact hne rfl
  | cons c text =>
      rw [search_cons h] at hfound
      have hle := length_le_of_search hfound
      rw [List.length_cons] at hle
      omega

end Regex
