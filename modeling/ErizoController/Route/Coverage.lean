import Mathlib.Data.List.Induction
import ErizoController.Route.IpTable

/-!
# Which addresses are covered

A row is stored unless it is nested with a row stored before, whatever stands between
them. So a row that contains an earlier and narrower one is dropped, and its addresses
outside of the stored rows have no entry.
-/

namespace IP_TABLE

/-- What one call of `insert` is given. -/
abbrev Row := IP_TABLE_KEY × IpTableValue

/-- The rows that are nested with no row kept before them. -/
def kept (rows : List Row) : List Row :=
  rows.foldl (fun kept row => if kept.any (·.1.equal row.1) then kept else kept ++ [row]) []

/-- An entry for the address is found, and it is one of the rows. -/
def Answered (rows : List Row) (ip : ℕ) : Prop :=
  ∃ row ∈ rows, row.1.Contains ip ∧ find (insertAll rows) (.ofIp ip) = some row

/-- No row has lost an address. -/
def Covered (rows : List Row) : Prop :=
  ∀ ip, (∃ row ∈ rows, row.1.Contains ip) → Answered rows ip

/-- The range contains a narrower one. -/
def IP_TABLE_KEY.Surrounds (this data : IP_TABLE_KEY) : Prop :=
  this.from_ ≤ data.from_ ∧ data.to_ ≤ this.to_ ∧ this ≠ data

variable {rows rows' : List Row} {row : Row} {ip : ℕ}

theorem getValue_of_answered (h : Answered rows ip) :
    ∃ row ∈ rows, row.1.Contains ip ∧ getValue (insertAll rows) ip = row.2 := by
  obtain ⟨row, hrow, hcontains, hfind⟩ := h
  refine ⟨row, hrow, hcontains, ?_⟩
  rw [getValue, hfind]

/-! ## The rows stored -/

theorem insertAll_append_singleton :
    insertAll (rows ++ [row]) = insert (insertAll rows) row.1 row.2 := by
  rw [insertAll, List.foldl_append]
  rfl

theorem kept_append_singleton :
    kept (rows ++ [row]) =
      if (kept rows).any (·.1.equal row.1) then kept rows else kept rows ++ [row] := by
  rw [kept, List.foldl_append]
  rfl

theorem any_equal_iff {kept : List Row} :
    (kept.any (·.1.equal row.1)) = true ↔ ∃ it ∈ kept, it.1.Nested row.1 := by
  simp only [List.any_eq_true, IP_TABLE_KEY.equal_iff]

/-- The table holds the rows that are kept. -/
theorem mem_insertAll_iff (it : Row) : it ∈ insertAll rows ↔ it ∈ kept rows := by
  induction rows using List.reverseRecOn generalizing it with
  | nil => rfl
  | append_singleton rows row ih =>
      rw [insertAll_append_singleton, kept_append_singleton]
      rcases insert_cases (chain_insertAll rows) row.1 row.2 with
        ⟨⟨e, he, hnested⟩, heq⟩ | ⟨hnone, before, after, hsplit, heq, -⟩
      · rw [heq, if_pos (any_equal_iff.mpr ⟨e, (ih e).mp he, hnested⟩)]
        exact ih it
      · have hany : ¬ (kept rows).any (·.1.equal row.1) = true := by
          rw [any_equal_iff]
          exact fun ⟨e, he, hnested⟩ => hnone e ((ih e).mpr he) hnested
        rw [heq, if_neg hany, List.mem_append, List.mem_cons, List.mem_append, List.mem_singleton,
          ← ih it, hsplit, List.mem_append, or_left_comm, or_comm (a := it = row)]

theorem mem_of_mem_kept (h : row ∈ kept rows) : row ∈ rows := by
  induction rows using List.reverseRecOn with
  | nil => exact h
  | append_singleton rows last ih =>
      rw [kept_append_singleton] at h
      rw [List.mem_append]
      split at h
      · exact .inl (ih h)
      · exact (List.mem_append.mp h).imp ih id

/-- A kept row stays. -/
theorem kept_append (more : List Row) (h : row ∈ kept rows) : row ∈ kept (rows ++ more) := by
  induction more using List.reverseRecOn with
  | nil => rwa [List.append_nil]
  | append_singleton more last ih =>
      rw [← List.append_assoc, kept_append_singleton]
      split
      · exact ih
      · exact List.mem_append_left _ ih

/-- At its turn a row is kept or nested with a kept row. -/
theorem kept_or_nested (before after : List Row) (row : Row) :
    row ∈ kept (before ++ row :: after) ∨
      ∃ it ∈ kept before, it ∈ kept (before ++ row :: after) ∧ it.1.Nested row.1 := by
  have hsplit : before ++ row :: after = (before ++ [row]) ++ after := by simp
  by_cases hany : (kept before).any (·.1.equal row.1) = true
  · obtain ⟨it, hit, hnested⟩ := any_equal_iff.mp hany
    exact .inr ⟨it, hit, kept_append (row :: after) hit, hnested⟩
  · refine .inl ?_
    rw [hsplit]
    apply kept_append
    rw [kept_append_singleton, if_neg hany]
    exact List.mem_append_right _ (List.mem_singleton_self row)

/-! ## The addresses answered -/

/-- Exactly the addresses of kept rows are answered. -/
theorem answered_iff : Answered rows ip ↔ ∃ row ∈ kept rows, row.1.Contains ip := by
  have hcases := find_cases (chain_insertAll rows) (.ofIp ip)
  simp only [IP_TABLE_KEY.nested_ofIp] at hcases
  constructor
  · rintro ⟨row, -, hcontains, hfind⟩
    rcases hcases with ⟨hnone, -⟩ | ⟨it, hit, hsome, -, -⟩
    · rw [hfind] at hnone
      cases hnone
    · rw [hfind] at hsome
      cases hsome
      exact ⟨row, (mem_insertAll_iff row).mp hit, hcontains⟩
  · rintro ⟨row, hrow, hcontains⟩
    rcases hcases with ⟨-, hnone⟩ | ⟨it, hit, hsome, hcontains', -⟩
    · exact absurd hcontains (hnone row ((mem_insertAll_iff row).mpr hrow))
    · exact ⟨it, mem_of_mem_kept ((mem_insertAll_iff it).mp hit), hcontains', hsome⟩

theorem find_eq_none_iff :
    find (insertAll rows) (.ofIp ip) = none ↔ ∀ row ∈ kept rows, ¬ row.1.Contains ip := by
  simp only [((ip_table_sound rows).2.2.1 ip).1, mem_insertAll_iff]

/-- A row that surrounds no earlier one keeps its addresses. -/
theorem covered_of_not_surrounds {before after : List Row}
    (h : ∀ it ∈ before, ¬ row.1.Surrounds it.1) (hcontains : row.1.Contains ip) :
    ∃ it ∈ kept (before ++ row :: after), it.1.Contains ip := by
  rcases kept_or_nested before after row with hkept | ⟨it, hit, hkept, hnested⟩
  · exact ⟨row, hkept, hcontains⟩
  · refine ⟨it, hkept, ?_⟩
    rcases hnested with ⟨hfrom, hto⟩ | ⟨hfrom, hto⟩
    · exact ⟨hfrom.trans hcontains.1, hcontains.2.trans hto⟩
    · -- The kept range lies in the row, so it is the row's.
      have hsame : row.1 = it.1 := by
        by_contra hne
        exact h it (mem_of_mem_kept hit) ⟨hfrom, hto, hne⟩
      rwa [← hsame]

theorem covered_iff : Covered rows ↔ ∀ row ∈ rows, row ∉ kept rows → ∀ ip, row.1.Contains ip →
    ∃ it ∈ kept rows, it.1.Contains ip := by
  constructor
  · intro h row hrow _ ip hcontains
    exact answered_iff.mp (h ip ⟨row, hrow, hcontains⟩)
  · rintro h ip ⟨row, hrow, hcontains⟩
    rw [answered_iff]
    by_cases hkept : row ∈ kept rows
    · exact ⟨row, hkept, hcontains⟩
    · exact h row hrow hkept ip hcontains

theorem covered_of_pairwise (h : rows.Pairwise fun a b => ¬ b.1.Surrounds a.1) : Covered rows := by
  rw [covered_iff]
  intro row hrow _ ip hcontains
  obtain ⟨before, after, rfl⟩ := List.append_of_mem hrow
  refine covered_of_not_surrounds (fun it hit => ?_) hcontains
  exact (List.pairwise_append.mp h).2.2 it hit row List.mem_cons_self

/-- Where no row has lost an address, the answered ones do not depend on the order. -/
theorem answered_perm (hperm : rows.Perm rows') (h : Covered rows) (h' : Covered rows') :
    Answered rows ip ↔ Answered rows' ip := by
  have hall : ∀ {rows : List Row}, Covered rows →
      (Answered rows ip ↔ ∃ row ∈ rows, row.1.Contains ip) := by
    intro rows hcovered
    refine ⟨?_, hcovered ip⟩
    rintro ⟨row, hrow, hcontains, -⟩
    exact ⟨row, hrow, hcontains⟩
  rw [hall h, hall h']
  simp only [hperm.mem_iff]

/-- What is covered after any rows: an address of a kept row has the value of a row that
contains it and every other address the default; a row that surrounds no earlier one keeps
all its addresses; no address is lost if and only if those of the rows that are not kept
lie in kept ones, so if no row surrounds an earlier one; and if no row surrounds another,
the order of the rows does not matter. -/
theorem ip_table_coverage (rows : List Row) :
    (∀ ip, (∃ row ∈ kept rows, row.1.Contains ip) ↔ Answered rows ip) ∧
    (∀ ip, Answered rows ip →
      ∃ row ∈ rows, row.1.Contains ip ∧ getValue (insertAll rows) ip = row.2) ∧
    (∀ ip, ¬ Answered rows ip →
      find (insertAll rows) (.ofIp ip) = none ∧ getValue (insertAll rows) ip = {}) ∧
    (∀ before row after, rows = before ++ row :: after →
      (∀ it ∈ before, ¬ row.1.Surrounds it.1) → ∀ ip, row.1.Contains ip → Answered rows ip) ∧
    (Covered rows ↔ ∀ row ∈ rows, row ∉ kept rows → ∀ ip, row.1.Contains ip →
      ∃ it ∈ kept rows, it.1.Contains ip) ∧
    ((rows.Pairwise fun a b => ¬ b.1.Surrounds a.1) → Covered rows) ∧
    ((∀ a ∈ rows, ∀ b ∈ rows, ¬ a.1.Surrounds b.1) → ∀ rows', rows.Perm rows' →
      Covered rows' ∧ ∀ ip, Answered rows ip ↔ Answered rows' ip) := by
  refine ⟨fun ip => answered_iff.symm, fun ip => getValue_of_answered, fun ip hip => ?_, ?_,
    covered_iff, covered_of_pairwise, fun h rows' hperm => ?_⟩
  · have hnone : find (insertAll rows) (.ofIp ip) = none := by
      rw [find_eq_none_iff]
      exact fun row hrow hcontains => hip (answered_iff.mpr ⟨row, hrow, hcontains⟩)
    refine ⟨hnone, ?_⟩
    rw [getValue, hnone]
  · rintro before row after rfl h ip hcontains
    exact answered_iff.mpr (covered_of_not_surrounds h hcontains)
  · have hpairwise : ∀ {rows' : List Row}, rows.Perm rows' →
        rows'.Pairwise fun a b => ¬ b.1.Surrounds a.1 := by
      intro rows' hperm
      refine List.Pairwise.imp_of_mem (fun {a b} ha hb _ => ?_)
        (List.pairwise_of_forall fun _ _ => trivial)
      exact h b (hperm.mem_iff.mpr hb) a (hperm.mem_iff.mpr ha)
    have hcovered := covered_of_pairwise (hpairwise hperm)
    exact ⟨hcovered,
      fun ip => answered_perm hperm (covered_of_pairwise (hpairwise (.refl _))) hcovered⟩

/-- A narrow row and a wider one around it: in this order the wider one is lost, in the
other nothing is. -/
theorem ip_table_loses_coverage :
    ¬ ((∀ (rows : List Row) (ip : ℕ), (∃ row ∈ rows, row.1.Contains ip) →
        ∃ row ∈ rows, row.1.Contains ip ∧ getValue (insertAll rows) ip = row.2) ∨
      ∀ (rows rows' : List Row) (ip : ℕ), rows.Perm rows' →
        (find (insertAll rows) (.ofIp ip) = none ↔ find (insertAll rows') (.ofIp ip) = none)) := by
  let narrow : Row := (⟨5, 5, by decide⟩, ⟨.CTL, 16⟩)
  let wide : Row := (⟨0, 9, by decide⟩, ⟨.CNC, 32⟩)
  rintro (h | h)
  · obtain ⟨row, hrow, hcontains, hvalue⟩ :=
      h [narrow, wide] 0 ⟨wide, by decide, by decide, by decide⟩
    have hdefault : getValue (insertAll [narrow, wide]) 0 = {} := by decide
    rw [hdefault] at hvalue
    rcases List.mem_pair.mp hrow with rfl | rfl <;> cases hvalue
  · have hsame := h [narrow, wide] [wide, narrow] 0 (.swap _ _ _)
    exact absurd hsame (by decide)

end IP_TABLE
