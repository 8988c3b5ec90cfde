import ErizoController.Library.Search
import ErizoController.Model.Records

/-!
# The table of IP ranges

The keys of `IP_TABLE` are ranges, and two ranges count as equal where one contains the
other. That is no equivalence, so a map of arbitrary ranges would have no order. The
ranges that the map comes to hold are a chain, though, and on a chain any range has a
well-defined place. Addresses are only compared, so they are natural numbers here.
-/

namespace IP_TABLE

/-- A range of addresses, both ends included. -/
structure IP_TABLE_KEY where
  from_ : ℕ
  to_ : ℕ
  le : from_ ≤ to_
  deriving DecidableEq

namespace IP_TABLE_KEY

/-- `IP_TABLE_KEY( ip )`. -/
def ofIp (ip : ℕ) : IP_TABLE_KEY := ⟨ip, ip, le_rfl⟩

variable (this data : IP_TABLE_KEY)

/-- `operator==`: one of the ranges contains the other. -/
def equal : Bool :=
  if this.from_ ≤ data.from_ ∧ data.to_ ≤ this.to_ then true
  else if data.from_ ≤ this.from_ ∧ this.to_ ≤ data.to_ then true
  else false

/-- `operator<`. -/
def less : Bool :=
  if this.equal data then false else this.from_ < data.from_

/-- One of the ranges contains the other. -/
def Nested : Prop :=
  (this.from_ ≤ data.from_ ∧ data.to_ ≤ this.to_) ∨ (data.from_ ≤ this.from_ ∧ this.to_ ≤ data.to_)

/-- The range contains the address. -/
def Contains (ip : ℕ) : Prop := this.from_ ≤ ip ∧ ip ≤ this.to_

variable {this data}

theorem equal_iff : this.equal data = true ↔ this.Nested data := by
  rw [equal, Nested]
  split_ifs <;> simp_all

/-- A range is less than another where both its ends are. -/
theorem less_iff : this.less data = true ↔ this.from_ < data.from_ ∧ this.to_ < data.to_ := by
  rw [less]
  split
  · rename_i h
    have hnested := equal_iff.mp h
    rw [Nested] at hnested
    simp only [Bool.false_eq_true, false_iff]
    omega
  · rename_i h
    have hnested : ¬ this.Nested data := fun hnested => h (equal_iff.mpr hnested)
    rw [Nested] at hnested
    rw [decide_eq_true_eq]
    omega

theorem not_less_iff : this.less data = false ↔ data.from_ ≤ this.from_ ∨ data.to_ ≤ this.to_ := by
  rw [← Bool.not_eq_true, less_iff]
  omega

theorem nested_iff : this.Nested data ↔ this.less data = false ∧ data.less this = false := by
  rw [not_less_iff, not_less_iff, Nested]
  omega

/-- An address is nested with a range where it is in the range. -/
theorem nested_ofIp {ip : ℕ} : this.Nested (ofIp ip) ↔ this.Contains ip := by
  have hle := this.le
  change (this.from_ ≤ ip ∧ ip ≤ this.to_) ∨ (ip ≤ this.from_ ∧ this.to_ ≤ ip) ↔
    this.from_ ≤ ip ∧ ip ≤ this.to_
  omega

end IP_TABLE_KEY

/-! ## The map -/

/-- The entries of the map, in its order. -/
abbrev IP_TABLE_MAP := List (IP_TABLE_KEY × IpTableValue)

variable (m_table : IP_TABLE_MAP) (key : IP_TABLE_KEY) (value : IpTableValue)

/-- `std::map::insert`: before the first entry that is not less than the key, unless the key
is not less than that entry. -/
def insert : IP_TABLE_MAP :=
  match m_table.dropWhile fun it => it.1.less key with
  | [] => m_table ++ [(key, value)]
  | it :: its =>
      if key.less it.1 then
        (m_table.takeWhile fun it => it.1.less key) ++ (key, value) :: it :: its
      else m_table

/-- `std::map::find`. -/
def find : Option (IP_TABLE_KEY × IpTableValue) :=
  (Search.first (fun it => it.1.less key) m_table).filter fun it => !key.less it.1

def getValue (ip : ℕ) : IpTableValue :=
  match find m_table (.ofIp ip) with
  | some it => it.2
  | none => {}

/-- The table after a sequence of calls of `insert`. -/
def insertAll (inserts : List (IP_TABLE_KEY × IpTableValue)) : IP_TABLE_MAP :=
  inserts.foldl (fun m_table it => insert m_table it.1 it.2) []

/-! ## Chains of ranges -/

/-- The ranges increase at both ends. -/
def Chain (m_table : IP_TABLE_MAP) : Prop :=
  m_table.Pairwise fun a b => a.1.from_ < b.1.from_ ∧ a.1.to_ < b.1.to_

variable {m_table key value}

/-- The ranges of a chain that are less than a range are its first ones. -/
theorem Chain.cuts (h : Chain m_table) (key : IP_TABLE_KEY) :
    Search.Cuts (fun it => it.1.less key) m_table := by
  refine h.imp fun {a b} hab hb => ?_
  rw [IP_TABLE_KEY.less_iff] at hb ⊢
  omega

/-- A range that is not nested with the first entry not less than it, is less than all the
entries from there on. -/
theorem Chain.less_of_head {it : IP_TABLE_KEY × IpTableValue} {its : IP_TABLE_MAP}
    (h : Chain (it :: its)) (hless : key.less it.1 = true) :
    ∀ e ∈ it :: its, key.less e.1 = true := by
  intro e he
  rcases List.mem_cons.mp he with rfl | he
  · exact hless
  · have hlater := List.rel_of_pairwise_cons h he
    rw [IP_TABLE_KEY.less_iff] at hless ⊢
    omega

/-- What an insertion does: nothing to a table that holds a nested range, and otherwise it
puts the range between the lesser and the greater ones. -/
theorem insert_cases (h : Chain m_table) (key : IP_TABLE_KEY) (value : IpTableValue) :
    ((∃ it ∈ m_table, it.1.Nested key) ∧ insert m_table key value = m_table) ∨
      ((∀ it ∈ m_table, ¬ it.1.Nested key) ∧ ∃ before after, m_table = before ++ after ∧
        insert m_table key value = before ++ (key, value) :: after ∧
        (∀ it ∈ before, it.1.less key = true) ∧ ∀ it ∈ after, key.less it.1 = true) := by
  obtain ⟨hbefore, hafter⟩ := (h.cuts key).split
  have hsplit := List.takeWhile_append_dropWhile (p := fun it => it.1.less key) (l := m_table)
  have hdisjoint : ∀ before after, m_table = before ++ after →
      (∀ it ∈ before, it.1.less key = true) → (∀ it ∈ after, key.less it.1 = true) →
      ∀ it ∈ m_table, ¬ it.1.Nested key := by
    rintro before after rfl hbefore hafter it hit hnested
    obtain ⟨hless, hless'⟩ := IP_TABLE_KEY.nested_iff.mp hnested
    rcases List.mem_append.mp hit with hit | hit
    · rw [hbefore it hit] at hless
      cases hless
    · rw [hafter it hit] at hless'
      cases hless'
  rw [insert]
  split
  · rename_i hnil
    rw [hnil, List.append_nil] at hsplit
    refine .inr ⟨hdisjoint m_table [] (List.append_nil _).symm ?_ (by simp), m_table, [],
      (List.append_nil _).symm, rfl, ?_, by simp⟩
    · exact fun it hit => hbefore it (hsplit.symm ▸ hit)
    · exact fun it hit => hbefore it (hsplit.symm ▸ hit)
  · rename_i it its hcons
    rw [hcons] at hsplit hafter
    split
    · rename_i hless
      have hchain : Chain (it :: its) := by
        refine List.Pairwise.sublist ?_ h
        rw [← hcons]
        exact List.dropWhile_sublist _
      have hgreater := hchain.less_of_head hless
      exact .inr ⟨hdisjoint _ _ hsplit.symm hbefore hgreater, _, _, hsplit.symm, rfl, hbefore,
        hgreater⟩
    · rename_i hless
      have hmem : it ∈ m_table := hsplit ▸ List.mem_append_right _ List.mem_cons_self
      refine .inl ⟨⟨it, hmem, IP_TABLE_KEY.nested_iff.mpr ⟨hafter it List.mem_cons_self, ?_⟩⟩, rfl⟩
      exact Bool.eq_false_iff.mpr hless

/-- The table stays a chain. -/
theorem Chain.insert (h : Chain m_table) : Chain (insert m_table key value) := by
  rcases insert_cases h key value with ⟨-, heq⟩ | ⟨-, before, after, rfl, heq, hbefore, hafter⟩
  · rwa [heq]
  · rw [heq]
    obtain ⟨hb, ha, hba⟩ := List.pairwise_append.mp h
    refine List.pairwise_append.mpr ⟨hb, List.pairwise_cons.mpr ⟨fun it hit => ?_, ha⟩, ?_⟩
    · exact IP_TABLE_KEY.less_iff.mp (hafter it hit)
    · intro a ha b hb
      rcases List.mem_cons.mp hb with rfl | hb
      · exact IP_TABLE_KEY.less_iff.mp (hbefore a ha)
      · exact hba a ha b hb

theorem chain_insertAll (inserts : List (IP_TABLE_KEY × IpTableValue)) :
    Chain (insertAll inserts) := by
  have hall : ∀ m_table : IP_TABLE_MAP, Chain m_table →
      Chain (inserts.foldl (fun m_table it => IP_TABLE.insert m_table it.1 it.2) m_table) := by
    induction inserts with
    | nil => exact fun _ h => h
    | cons it inserts ih => exact fun m_table h => ih _ h.insert
  exact hall [] .nil

/-! ## Looking up an address -/

/-- The entry found is the first of those that are nested with the key. -/
theorem find_cases (h : Chain m_table) (key : IP_TABLE_KEY) :
    (find m_table key = none ∧ ∀ it ∈ m_table, ¬ it.1.Nested key) ∨
      ∃ it ∈ m_table, find m_table key = some it ∧ it.1.Nested key ∧
        ∀ e ∈ m_table, e.1.Nested key → it.1.from_ ≤ e.1.from_ := by
  obtain ⟨hbefore, hafter⟩ := (h.cuts key).split
  have hsplit := List.takeWhile_append_dropWhile (p := fun it => it.1.less key) (l := m_table)
  have hsmaller : ∀ it ∈ m_table.takeWhile (fun it => it.1.less key), ¬ it.1.Nested key := by
    intro it hit hnested
    have hless := (IP_TABLE_KEY.nested_iff.mp hnested).1
    rw [hbefore it hit] at hless
    cases hless
  rw [find, Search.first]
  cases hdrop : m_table.dropWhile (fun it => it.1.less key) with
  | nil =>
      rw [hdrop, List.append_nil] at hsplit
      exact .inl ⟨rfl, fun it hit => hsmaller it (hsplit.symm ▸ hit)⟩
  | cons it its =>
      rw [hdrop] at hsplit hafter
      have hchain : Chain (it :: its) := by
        refine List.Pairwise.sublist ?_ h
        rw [← hdrop]
        exact List.dropWhile_sublist _
      rw [List.head?_cons, Option.filter_some]
      by_cases hless : key.less it.1 = true
      · refine .inl ⟨by simp [hless], fun e he hnested => ?_⟩
        rw [← hsplit] at he
        rcases List.mem_append.mp he with he | he
        · exact hsmaller e he hnested
        · have hgreater := hchain.less_of_head hless e he
          rw [(IP_TABLE_KEY.nested_iff.mp hnested).2] at hgreater
          cases hgreater
      · have hfirst : key.less it.1 = false := Bool.eq_false_iff.mpr hless
        refine .inr ⟨it, hsplit ▸ List.mem_append_right _ List.mem_cons_self, by simp [hfirst],
          IP_TABLE_KEY.nested_iff.mpr ⟨hafter it List.mem_cons_self, hfirst⟩,
          fun e he hnested => ?_⟩
        rw [← hsplit] at he
        rcases List.mem_append.mp he with he | he
        · exact absurd hnested (hsmaller e he)
        · rcases List.mem_cons.mp he with rfl | he
          · exact le_rfl
          · exact (List.rel_of_pairwise_cons hchain he).1.le

/-- What `IP_TABLE` guarantees after any calls of `insert`: its ranges are a chain; a range
is stored unless it is nested with one that is there, which stays as it is; an address has
the value of the first range that contains it; and a search of a tree with these entries,
of whatever shape, finds the place of any key. -/
theorem ip_table_sound (inserts : List (IP_TABLE_KEY × IpTableValue)) :
    Chain (insertAll inserts) ∧
    (∀ key value, ((∃ it ∈ insertAll inserts, it.1.Nested key) →
        insert (insertAll inserts) key value = insertAll inserts) ∧
      ((∀ it ∈ insertAll inserts, ¬ it.1.Nested key) → ∃ before after,
        insertAll inserts = before ++ after ∧
        insert (insertAll inserts) key value = before ++ (key, value) :: after)) ∧
    (∀ ip, (find (insertAll inserts) (.ofIp ip) = none ↔
        ∀ it ∈ insertAll inserts, ¬ it.1.Contains ip) ∧
      ((∀ it ∈ insertAll inserts, ¬ it.1.Contains ip) → getValue (insertAll inserts) ip = {}) ∧
      ∀ it ∈ insertAll inserts, it.1.Contains ip →
        (∀ e ∈ insertAll inserts, e.1.Contains ip → it.1.from_ ≤ e.1.from_) →
        getValue (insertAll inserts) ip = it.2) ∧
    ∀ (t : BinaryTree (IP_TABLE_KEY × IpTableValue)) (key : IP_TABLE_KEY),
      Search.inorder t = insertAll inserts →
      Search.lowerBound (fun it => it.1.less key) t none =
        Search.first (fun it => it.1.less key) (insertAll inserts) := by
  have hchain := chain_insertAll inserts
  generalize insertAll inserts = m_table at hchain ⊢
  refine ⟨hchain, fun key value => ?_, fun ip => ?_, fun t key ht => ?_⟩
  · rcases insert_cases hchain key value with ⟨hnested, heq⟩ | ⟨hnone, before, after, hm, heq, -⟩
    · exact ⟨fun _ => heq,
        fun hnone => absurd hnested.choose_spec.2 (hnone _ hnested.choose_spec.1)⟩
    · exact ⟨fun ⟨it, hit, hnested⟩ => absurd hnested (hnone it hit),
        fun _ => ⟨before, after, hm, heq⟩⟩
  · have hcases := find_cases hchain (.ofIp ip)
    simp only [IP_TABLE_KEY.nested_ofIp] at hcases
    rw [getValue]
    rcases hcases with ⟨hfind, hnone⟩ | ⟨it, hit, hfind, hcontains, hfirst⟩
    · rw [hfind]
      exact ⟨iff_of_true rfl hnone, fun _ => rfl,
        fun it hit hcontains => absurd hcontains (hnone it hit)⟩
    · rw [hfind]
      refine ⟨iff_of_false (Option.some_ne_none _) fun hnone => hnone it hit hcontains,
        fun hnone => absurd hcontains (hnone it hit), fun it' hit' hcontains' hfirst' => ?_⟩
      -- Two entries of a chain with the same start are one.
      have hfrom : it.1.from_ = it'.1.from_ :=
        le_antisymm (hfirst it' hit' hcontains') (hfirst' it hit hcontains)
      have hsame : it = it' := by
        refine List.Pairwise.forall_of_forall_of_flip
          (R := fun a b : IP_TABLE_KEY × IpTableValue => a.1.from_ = b.1.from_ → a = b)
          (fun _ _ _ => rfl) ?_ ?_ hit hit' hfrom
        · exact hchain.imp fun hlt heq => absurd heq hlt.1.ne
        · exact hchain.imp fun hlt heq => absurd heq hlt.1.ne'
      rw [hsame]
  · have hcuts : Search.Cuts (fun it => it.1.less key) (Search.inorder t) := ht ▸ hchain.cuts key
    rw [Search.lowerBound_eq hcuts, Option.or_none, ht]

end IP_TABLE
