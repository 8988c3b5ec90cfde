import ErizoController.Route.Address
import ErizoController.Route.Coverage

/-!
# The file of IP ranges

Each line of the file that has two addresses, an ISP and an area becomes a call of
`insert`. A key asserts that its range is not turned round, and assertions are on.

A name is looked up as a C string and its value then taken by the whole string, which
makes an entry of its own for a name with a NUL in it.
-/

open Address

namespace StringUtil

open Decimal

/-- A string of blanks stays as it is. -/
def trimLeft (str : Bytes) : Bytes :=
  match str.dropWhile isSpace with
  | [] => str
  | t => t

def trimRight (str : Bytes) : Bytes := (str.reverse.dropWhile isSpace).reverse

def trim (str : Bytes) : Bytes := trimRight (trimLeft str)

/-- The last piece is always there: `index` is then `npos`, and `index - last` no zero. -/
def split (s delim : Bytes) : List Bytes := s.splitOnP fun b => delim.contains b

end StringUtil

namespace IpTable

open StringUtil IP_TABLE

/-! ## The loader -/

/-- A text of ASCII characters. -/
def name (s : String) : Bytes := s.toList.map fun c => UInt8.ofNat c.toNat

/-- What the constructor puts into `m_ispMap`. -/
def ispMap : List (Bytes × ISPType) :=
  [(name "AF", .AF), (name "BGP", .BGP), (name "CNC", .CNC), (name "CNII", .CNII),
    (name "CTL", .CTL), (name "EDU", .EDU), (name "EU", .EU), (name "MOB", .MOB),
    (name "NA", .NA), (name "OA", .OA), (name "TEST", .TEST), (name "WBN", .WBN)]

/-- What it puts into `m_areaMap`. -/
def areaMap : List (Bytes × ℤ) :=
  [(name "AF", 131072), (name "BRA", 4096), (name "CNC_EC", 37), (name "CNC_I", 35),
    (name "CNC_NC", 33), (name "CNC_NE", 32), (name "CNC_NW", 39), (name "CNC_SC", 34),
    (name "CNC_SW", 38), (name "CNC_X", 36), (name "CTL_EAST", 16), (name "CTL_NORTH", 19),
    (name "CTL_SOUTH", 18), (name "CTL_WEST", 17), (name "CTL_X", 20), (name "EDU", 128),
    (name "EU", 8192), (name "HK", 2048), (name "MOB", 512), (name "NA", 16384),
    (name "OA", 65536), (name "PH", 2049), (name "TEST", 32768), (name "TW", 2050),
    (name "WBN", 256)]

end IpTable

/-- `edu::iptable::IpTable`, with the rows that `insert` was called for. -/
structure IpTable where
  m_table : IP_TABLE.IP_TABLE_MAP := []
  m_ispMap : List (Bytes × ISPType) := IpTable.ispMap
  m_areaMap : List (Bytes × ℤ) := IpTable.areaMap
  inserted : List IP_TABLE.Row := []

namespace IpTable

open StringUtil IP_TABLE

/-- `std::map::operator[]`: a key that is not there gets a value. -/
def subscript {V : Type} (m : List (Bytes × V)) (key : Bytes) (value : V) :
    V × List (Bytes × V) :=
  match m.lookup key with
  | some v => (v, m)
  | none => (value, m ++ [(key, value)])

/-- `inet_addr`. -/
def inet_addr (reader : Reader) (s : Bytes) : InAddr := (reader.read (c_str s)).getD INADDR_NONE

/-- `insert`, `none` where the assertion of the key fails. -/
def insert (this : IpTable) (ipFrom ipTo : ℕ) (isp : ISPType) (area : ℤ) : Option IpTable :=
  if h : ipFrom ≤ ipTo then
    let key : IP_TABLE_KEY := ⟨ipFrom, ipTo, h⟩
    some { this with
      m_table := IP_TABLE.insert this.m_table key ⟨isp, area⟩
      inserted := this.inserted ++ [(key, ⟨isp, area⟩)] }
  else none

/-- The body of the loop, from where a line has its fields. -/
def loadFields (reader : Reader) (this : IpTable) (retVec0 retVec1 retVec2 retVec3 : Bytes) :
    Option IpTable :=
  let isp_str := trim retVec2
  let area_str := trim retVec3
  if this.m_ispMap.lookup (c_str isp_str) = none then some this
  else if this.m_areaMap.lookup (c_str area_str) = none then some this
  else
    let isp := subscript this.m_ispMap isp_str .AUTO_DETECT
    let area := subscript this.m_areaMap area_str 0
    let this := { this with m_ispMap := isp.2, m_areaMap := area.2 }
    let ipFrom := (inet_addr reader (trim retVec0)).ntohl
    let ipTo := (inet_addr reader (trim retVec1)).ntohl
    if ipFrom = 0xffffffff ∨ ipTo = 0xffffffff then some this
    else this.insert ipFrom ipTo isp.1 area.1

/-- The body of the loop, for one line. -/
def loadLine (reader : Reader) (delim : Bytes) (this : IpTable) (line : Bytes) : Option IpTable :=
  let line := trim line
  if line.isEmpty then some this
  else
    match split line delim with
    | retVec0 :: retVec1 :: retVec2 :: retVec3 :: _ =>
        loadFields reader this retVec0 retVec1 retVec2 retVec3
    | _ => some this

/-- A file: whether it exists and opens, and what is in it. -/
structure File where
  access : Bool
  good : Bool
  content : Bytes

/-- The lines that `getline` reads: what follows the last newline is one unless it is
empty. -/
def lines (content : Bytes) : List Bytes :=
  let pieces := content.splitOnP (· == 10)
  if pieces.getLast? = some [] then pieces.dropLast else pieces

/-- `none` where an assertion fails. The number of the line, which nothing reads, is left
out. -/
def loadIspIpDataFile (reader : Reader) (this : IpTable) (filename : File) (delim : Bytes) :
    Option (Bool × IpTable) :=
  if !filename.access then some (false, this)
  else if !filename.good then some (false, this)
  else ((lines filename.content).foldlM (loadLine reader delim) this).map fun this => (true, this)

/-! ## The rows of a file -/

variable (reader : Reader) (delim : Bytes)

/-- The first four fields of a line. -/
structure Fields where
  from_str : Bytes
  to_str : Bytes
  isp_str : Bytes
  area_str : Bytes

def fields? (line : Bytes) : Option Fields :=
  match split (trim line) delim with
  | retVec0 :: retVec1 :: retVec2 :: retVec3 :: _ =>
      some ⟨trim retVec0, trim retVec1, trim retVec2, trim retVec3⟩
  | _ => none

/-- The row that a line denotes: two known names, and two addresses in their order. -/
def Fields.row? (f : Fields) : Option Row :=
  match ispMap.lookup f.isp_str, areaMap.lookup f.area_str, reader.read f.from_str,
    reader.read f.to_str with
  | some isp, some area, some ipFrom, some ipTo =>
      if h : ipFrom.ntohl ≤ ipTo.ntohl then some (⟨ipFrom.ntohl, ipTo.ntohl, h⟩, ⟨isp, area⟩)
      else none
  | _, _, _, _ => none

def row? (line : Bytes) : Option Row := (fields? delim line).bind (·.row? reader)

/-- No field has a NUL in it. -/
def Fields.Clean (f : Fields) : Prop :=
  0 ∉ f.isp_str ∧ 0 ∉ f.area_str ∧ 0 ∉ f.from_str ∧ 0 ∉ f.to_str

/-- The fields up to their first NUL are two known names and two addresses. -/
def Fields.Reads (f : Fields) (isp : ISPType) (area : ℤ) (ipFrom ipTo : InAddr) : Prop :=
  ispMap.lookup (c_str f.isp_str) = some isp ∧ areaMap.lookup (c_str f.area_str) = some area ∧
    reader.read (c_str f.from_str) = some ipFrom ∧ reader.read (c_str f.to_str) = some ipTo

/-- Of fields that are read: if the upper address is 255.255.255.255, some field goes on
after a NUL, and otherwise the lower one is 255.255.255.255, or no field goes on and the
addresses are in their order. -/
def Fields.Exact (f : Fields) : Prop :=
  ∀ isp area ipFrom ipTo, f.Reads reader isp area ipFrom ipTo →
    if ipTo.ntohl = 0xffffffff then ¬ f.Clean
    else ipFrom.ntohl = 0xffffffff ∨ (f.Clean ∧ ipFrom.ntohl ≤ ipTo.ntohl)

def Exact (line : Bytes) : Prop := ∀ f, fields? delim line = some f → f.Exact reader

/-- What the loader makes of the fields: the row that it inserts, if it does, and `none` where
the assertion fails. -/
def Fields.call (f : Fields) : Option (Option Row) :=
  match ispMap.lookup (c_str f.isp_str), areaMap.lookup (c_str f.area_str),
    reader.read (c_str f.from_str), reader.read (c_str f.to_str) with
  | some isp, some area, some ipFrom, some ipTo =>
      if ipFrom.ntohl = 0xffffffff ∨ ipTo.ntohl = 0xffffffff then some none
      else if h : ipFrom.ntohl ≤ ipTo.ntohl then
        some (some (⟨ipFrom.ntohl, ipTo.ntohl, h⟩,
          ⟨if 0 ∈ f.isp_str then .AUTO_DETECT else isp, if 0 ∈ f.area_str then 0 else area⟩))
      else none
  | _, _, _, _ => some none

def call (line : Bytes) : Option (Option Row) :=
  match fields? delim line with
  | some f => f.call reader
  | none => some none

variable {reader delim}

/-! ### The maps of names -/

/-- The map has grown by names with a NUL in them only. -/
structure Grown {V : Type} (m₀ m : List (Bytes × V)) (value : V) : Prop where
  clean : ∀ key, 0 ∉ key → m.lookup key = m₀.lookup key
  other : ∀ key, 0 ∈ key → m.lookup key = none ∨ m.lookup key = some value

theorem lookup_append_singleton {V : Type} (m : List (Bytes × V)) (key k : Bytes) (v : V) :
    (m ++ [(key, v)]).lookup k = (m.lookup k).or (if k = key then some v else none) := by
  induction m with
  | nil =>
      rw [List.nil_append, List.lookup_cons]
      by_cases h : k = key
      · rw [if_pos h, beq_iff_eq.mpr h]
        rfl
      · rw [if_neg h, beq_eq_false_iff_ne.mpr h]
        rfl
  | cons e m ih =>
      rw [List.cons_append, List.lookup_cons, List.lookup_cons, ih]
      split <;> rfl

theorem lookup_of_nul {V : Type} {m : List (Bytes × V)} {key : Bytes} (h : ∀ e ∈ m, 0 ∉ e.1)
    (hkey : 0 ∈ key) : m.lookup key = none := by
  rw [List.lookup_eq_none_iff]
  intro e he
  rw [bne_iff_ne]
  rintro rfl
  exact h e he hkey

theorem Grown.refl {V : Type} {m : List (Bytes × V)} {value : V} (h : ∀ e ∈ m, 0 ∉ e.1) :
    Grown m m value :=
  ⟨fun _ _ => rfl, fun _ hkey => .inl (lookup_of_nul h hkey)⟩

/-- A known name has its value, and one with a NUL in it the value of a new entry. -/
theorem Grown.subscript {V : Type} {m₀ m : List (Bytes × V)} {value v : V} {key : Bytes}
    (h : Grown m₀ m value) (hknown : m₀.lookup (c_str key) = some v) :
    (subscript m key value).1 = (if 0 ∈ key then value else v) ∧
      Grown m₀ (subscript m key value).2 value := by
  by_cases hkey : 0 ∈ key
  · rw [if_pos hkey]
    rcases h.other key hkey with hnone | hsome
    · rw [IpTable.subscript, hnone]
      refine ⟨rfl, fun k hk => ?_, fun k hk => ?_⟩
      · have hne : k ≠ key := fun heq => hk (heq ▸ hkey)
        rw [lookup_append_singleton, if_neg hne, Option.or_none, h.clean k hk]
      · rw [lookup_append_singleton]
        rcases h.other k hk with hnone | hsome
        · rw [hnone, Option.none_or]
          split
          · exact .inr rfl
          · exact .inl rfl
        · rw [hsome]
          exact .inr rfl
    · rw [IpTable.subscript, hsome]
      exact ⟨rfl, h⟩
  · rw [if_neg hkey]
    have hlookup : m.lookup key = some v := by
      rw [h.clean key hkey, ← c_str_of_clean hkey]
      exact hknown
    rw [IpTable.subscript, hlookup]
    exact ⟨rfl, h⟩

theorem clean_of_lookup {V : Type} {m : List (Bytes × V)} {key : Bytes} {v : V}
    (h : ∀ e ∈ m, 0 ∉ e.1) (hlookup : m.lookup key = some v) : 0 ∉ key := by
  intro hkey
  rw [lookup_of_nul h hkey] at hlookup
  cases hlookup

theorem ispMap_clean : ∀ e ∈ ispMap, 0 ∉ e.1 := by decide

theorem areaMap_clean : ∀ e ∈ areaMap, 0 ∉ e.1 := by decide

/-! ### The loop -/

/-- The table has the rows inserted and the names of the constructor. -/
structure Loading (this : IpTable) : Prop where
  isps : Grown ispMap this.m_ispMap .AUTO_DETECT
  areas : Grown areaMap this.m_areaMap 0
  table : this.m_table = insertAll this.inserted

theorem loading_new : Loading {} := ⟨.refl ispMap_clean, .refl areaMap_clean, rfl⟩

/-- What a call leaves: the assertion has failed, or a row is inserted where it makes one. -/
def Leaves (this : IpTable) (call : Option (Option Row)) (after : Option IpTable) : Prop :=
  match call with
  | none => after = none
  | some row => ∃ this', after = some this' ∧ Loading this' ∧
      this'.inserted = this.inserted ++ row.toList

theorem leaves_skip {this : IpTable} (h : Loading this) : Leaves this (some none) (some this) :=
  ⟨this, rfl, h, (List.append_nil _).symm⟩

theorem Loading.insert {this : IpTable} (h : Loading this) {ipFrom ipTo : ℕ} (hle : ipFrom ≤ ipTo)
    (isp : ISPType) (area : ℤ) :
    Leaves this (some (some (⟨ipFrom, ipTo, hle⟩, ⟨isp, area⟩)))
      (this.insert ipFrom ipTo isp area) := by
  rw [IpTable.insert, dif_pos hle]
  refine ⟨_, rfl, ⟨h.isps, h.areas, ?_⟩, rfl⟩
  rw [insertAll_append_singleton, ← h.table]

theorem Loading.loadFields {this : IpTable} (h : Loading this)
    (retVec0 retVec1 retVec2 retVec3 : Bytes) :
    Leaves this (Fields.call reader ⟨trim retVec0, trim retVec1, trim retVec2, trim retVec3⟩)
      (loadFields reader this retVec0 retVec1 retVec2 retVec3) := by
  rw [IpTable.loadFields, Fields.call]
  dsimp only
  rw [h.isps.clean _ (clean_c_str _), h.areas.clean _ (clean_c_str _)]
  cases hisp : ispMap.lookup (c_str (trim retVec2)) with
  | none => exact leaves_skip h
  | some isp =>
      cases harea : areaMap.lookup (c_str (trim retVec3)) with
      | none => exact leaves_skip h
      | some area =>
          obtain ⟨hisp', hisps⟩ := h.isps.subscript hisp
          obtain ⟨harea', hareas⟩ := h.areas.subscript harea
          have hnamed : Loading { this with
              m_ispMap := (subscript this.m_ispMap (trim retVec2) .AUTO_DETECT).2
              m_areaMap := (subscript this.m_areaMap (trim retVec3) 0).2 } :=
            ⟨hisps, hareas, h.table⟩
          rw [if_neg (by simp), if_neg (by simp), hisp', harea', inet_addr, inet_addr]
          cases hfrom : reader.read (c_str (trim retVec0)) with
          | none =>
              rw [if_pos (.inl rfl)]
              exact ⟨_, rfl, hnamed, (List.append_nil _).symm⟩
          | some ipFrom =>
              cases hto : reader.read (c_str (trim retVec1)) with
              | none =>
                  rw [if_pos (.inr rfl)]
                  exact ⟨_, rfl, hnamed, (List.append_nil _).symm⟩
              | some ipTo =>
                  simp only [Option.getD_some]
                  by_cases hmax : ipFrom.ntohl = 0xffffffff ∨ ipTo.ntohl = 0xffffffff
                  · rw [if_pos hmax, if_pos hmax]
                    exact ⟨_, rfl, hnamed, (List.append_nil _).symm⟩
                  · rw [if_neg hmax, if_neg hmax]
                    by_cases hle : ipFrom.ntohl ≤ ipTo.ntohl
                    · rw [dif_pos hle]
                      exact hnamed.insert hle _ _
                    · rw [dif_neg hle]
                      exact dif_neg hle

/-- What one line does. -/
theorem Loading.loadLine {this : IpTable} (h : Loading this) (line : Bytes) :
    Leaves this (call reader delim line) (loadLine reader delim this line) := by
  rw [call, fields?, IpTable.loadLine]
  split_ifs with hempty
  · rw [List.isEmpty_iff.mp hempty]
    exact leaves_skip h
  · rcases split (trim line) delim with
      _ | ⟨retVec0, _ | ⟨retVec1, _ | ⟨retVec2, _ | ⟨retVec3, rest⟩⟩⟩⟩
    · exact leaves_skip h
    · exact leaves_skip h
    · exact leaves_skip h
    · exact leaves_skip h
    · exact h.loadFields retVec0 retVec1 retVec2 retVec3

/-- What all the lines do. -/
theorem Loading.lines {this : IpTable} (h : Loading this) (ls : List Bytes) :
    if ∀ line ∈ ls, call reader delim line ≠ none then
      ∃ this', ls.foldlM (IpTable.loadLine reader delim) this = some this' ∧ Loading this' ∧
        this'.inserted = this.inserted ++ ls.filterMap fun line => (call reader delim line).join
    else ls.foldlM (IpTable.loadLine reader delim) this = none := by
  induction ls generalizing this with
  | nil =>
      rw [if_pos (by simp)]
      exact ⟨this, rfl, h, (List.append_nil _).symm⟩
  | cons line ls ih =>
      have hline : Leaves this (call reader delim line) (IpTable.loadLine reader delim this line) :=
        h.loadLine line
      rw [List.foldlM_cons]
      cases hcall : call reader delim line with
      | none =>
          rw [hcall] at hline
          rw [if_neg (by simp [hcall]), show IpTable.loadLine reader delim this line =
            none from hline]
          rfl
      | some row =>
          rw [hcall] at hline
          obtain ⟨this', hload, hloading, hinserted⟩ := hline
          have hrest := ih hloading
          rw [hload, Option.bind_eq_bind, Option.bind_some]
          have hall : (∀ l ∈ line :: ls, call reader delim l ≠ none) ↔
              ∀ l ∈ ls, call reader delim l ≠ none := by simp [hcall]
          by_cases hok : ∀ l ∈ ls, call reader delim l ≠ none
          · rw [if_pos hok] at hrest
            rw [if_pos (hall.mpr hok)]
            obtain ⟨this'', hloads, hloading', hinserted'⟩ := hrest
            refine ⟨this'', hloads, hloading', ?_⟩
            rw [hinserted', hinserted, List.append_assoc]
            cases row <;> simp [hcall]
          · rw [if_neg hok] at hrest
            rwa [if_neg (mt hall.mp hok)]

/-! ## Which files are loaded as they stand -/

theorem Fields.row?_of_not_clean {f : Fields} (h : ¬ f.Clean) : f.row? reader = none := by
  rw [Fields.row?]
  split
  · rename_i hisp harea hfrom hto
    exact absurd ⟨clean_of_lookup ispMap_clean hisp, clean_of_lookup areaMap_clean harea,
      reader.clean hfrom, reader.clean hto⟩ h
  · rfl

theorem Fields.reads_of_row? {f : Fields} {row : Row} (h : f.row? reader = some row) :
    ∃ isp area ipFrom ipTo, f.Reads reader isp area ipFrom ipTo := by
  rw [Fields.row?] at h
  split at h
  · rename_i isp area ipFrom ipTo hisp harea hfrom hto
    refine ⟨isp, area, ipFrom, ipTo, ?_, ?_, ?_, ?_⟩
    · rwa [c_str_of_clean (clean_of_lookup ispMap_clean hisp)]
    · rwa [c_str_of_clean (clean_of_lookup areaMap_clean harea)]
    · rwa [c_str_of_clean (reader.clean hfrom)]
    · rwa [c_str_of_clean (reader.clean hto)]
  · cases h

section Reads

variable {f : Fields} {isp : ISPType} {area : ℤ} {ipFrom ipTo : InAddr}

/-- The row of a line without a NUL, from what the loader reads. -/
theorem Fields.Reads.row? (h : f.Reads reader isp area ipFrom ipTo) (hclean : f.Clean) :
    f.row? reader = if hle : ipFrom.ntohl ≤ ipTo.ntohl then
      some (⟨ipFrom.ntohl, ipTo.ntohl, hle⟩, ⟨isp, area⟩) else none := by
  obtain ⟨hisp, harea, hfrom, hto⟩ := h
  obtain ⟨hcleanIsp, hcleanArea, hcleanFrom, hcleanTo⟩ := hclean
  rw [c_str_of_clean hcleanIsp] at hisp
  rw [c_str_of_clean hcleanArea] at harea
  rw [c_str_of_clean hcleanFrom] at hfrom
  rw [c_str_of_clean hcleanTo] at hto
  rw [Fields.row?, hisp, harea, hfrom, hto]

theorem Fields.Reads.call (h : f.Reads reader isp area ipFrom ipTo) :
    f.call reader =
      if ipFrom.ntohl = 0xffffffff ∨ ipTo.ntohl = 0xffffffff then some none
      else if hle : ipFrom.ntohl ≤ ipTo.ntohl then
        some (some (⟨ipFrom.ntohl, ipTo.ntohl, hle⟩,
          ⟨if 0 ∈ f.isp_str then .AUTO_DETECT else isp, if 0 ∈ f.area_str then 0 else area⟩))
      else none := by
  obtain ⟨hisp, harea, hfrom, hto⟩ := h
  rw [Fields.call, hisp, harea, hfrom, hto]

theorem Fields.Reads.exact_iff (h : f.Reads reader isp area ipFrom ipTo) :
    f.Exact reader ↔ if ipTo.ntohl = 0xffffffff then ¬ f.Clean
      else ipFrom.ntohl = 0xffffffff ∨ (f.Clean ∧ ipFrom.ntohl ≤ ipTo.ntohl) := by
  constructor
  · intro hexact
    exact hexact isp area ipFrom ipTo h
  · intro hcond isp' area' ipFrom' ipTo' h'
    obtain rfl : ipFrom = ipFrom' := Option.some.inj (h.2.2.1.symm.trans h'.2.2.1)
    obtain rfl : ipTo = ipTo' := Option.some.inj (h.2.2.2.symm.trans h'.2.2.2)
    exact hcond

end Reads

theorem Fields.call_of_not_reads {f : Fields}
    (h : ¬ ∃ isp area ipFrom ipTo, f.Reads reader isp area ipFrom ipTo) :
    f.call reader = some none ∧ f.row? reader = none ∧ f.Exact reader := by
  refine ⟨?_, ?_, fun isp area ipFrom ipTo hreads => absurd ⟨isp, area, ipFrom, ipTo, hreads⟩ h⟩
  · rw [Fields.call]
    split
    · rename_i hisp harea hfrom hto
      exact absurd ⟨_, _, _, _, hisp, harea, hfrom, hto⟩ h
    · rfl
  · cases hrow : f.row? reader with
    | none => rfl
    | some row => exact absurd (Fields.reads_of_row? hrow) h

/-- The loader makes of the fields what they denote. -/
theorem Fields.call_eq_iff (f : Fields) :
    f.call reader = some (f.row? reader) ↔ f.Exact reader := by
  by_cases hreads : ∃ isp area ipFrom ipTo, f.Reads reader isp area ipFrom ipTo
  · obtain ⟨isp, area, ipFrom, ipTo, h⟩ := hreads
    have hfrom := ipFrom.ntohl_le
    have hto := ipTo.ntohl_le
    rw [h.call, h.exact_iff]
    by_cases hclean : f.Clean
    · rw [h.row? hclean, if_neg hclean.1, if_neg hclean.2.1]
      split_ifs <;> simp_all
      omega
    · rw [Fields.row?_of_not_clean hclean]
      split_ifs <;> simp_all
  · obtain ⟨hcall, hrow, hexact⟩ := Fields.call_of_not_reads hreads
    rw [hcall, hrow]
    exact iff_of_true rfl hexact

theorem call_eq_iff (line : Bytes) :
    call reader delim line = some (row? reader delim line) ↔ Exact reader delim line := by
  rw [call, row?, Exact]
  cases hfields : fields? delim line with
  | none => simp
  | some f =>
      rw [Option.bind_some, Fields.call_eq_iff]
      constructor
      · rintro h f' ⟨⟩
        exact h
      · intro h
        exact h f rfl

/-- A row that the loader does not make has 255.255.255.255 for its upper address. -/
theorem Fields.row?_or {f : Fields} {made : Option Row} (h : f.call reader = some made) :
    (f.row? reader = none ∨ f.row? reader = made) ∨
      ∃ row, f.row? reader = some row ∧ row.1.to_ = 0xffffffff := by
  by_cases hreads : ∃ isp area ipFrom ipTo, f.Reads reader isp area ipFrom ipTo
  · obtain ⟨isp, area, ipFrom, ipTo, hreads⟩ := hreads
    by_cases hclean : f.Clean
    · have hfrom := ipFrom.ntohl_le
      have hto := ipTo.ntohl_le
      rw [hreads.row? hclean]
      rw [hreads.call, if_neg hclean.1, if_neg hclean.2.1] at h
      by_cases hmax : ipTo.ntohl = 0xffffffff
      · rw [dif_pos (by omega)]
        exact .inr ⟨_, rfl, hmax⟩
      · refine .inl ?_
        by_cases hle : ipFrom.ntohl ≤ ipTo.ntohl
        · rw [if_neg (by omega), dif_pos hle] at h
          rw [dif_pos hle]
          exact .inr (Option.some.inj h)
        · rw [dif_neg hle]
          exact .inl rfl
    · exact .inl (.inl (Fields.row?_of_not_clean hclean))
  · exact .inl (.inl (Fields.call_of_not_reads hreads).2.1)

theorem Fields.to_of_call {f : Fields} {row : Row} (h : f.call reader = some (some row)) :
    row.1.to_ ≠ 0xffffffff := by
  rw [Fields.call] at h
  split at h
  · split at h
    · cases h
    · rename_i hmax
      split at h
      · cases h
        exact fun hto => hmax (.inr hto)
      · cases h
  · cases h

/-- Two partial functions, one of which goes beyond the other, agree on a list if their
values there are the same. -/
theorem eq_of_filterMap_eq {α β : Type} {f g : α → Option β} {l : List α}
    (h : ∀ a ∈ l, f a = none ∨ f a = g a) (heq : l.filterMap f = l.filterMap g) :
    ∀ a ∈ l, f a = g a := by
  have hlength : ∀ l : List α, (∀ a ∈ l, f a = none ∨ f a = g a) →
      (l.filterMap f).length ≤ (l.filterMap g).length := by
    intro l h
    induction l with
    | nil => exact le_rfl
    | cons a l ih =>
        have hl := ih fun b hb => h b (List.mem_cons_of_mem _ hb)
        cases hf : f a with
        | none =>
            rw [List.filterMap_cons_none hf]
            cases hg : g a with
            | none => rwa [List.filterMap_cons_none hg]
            | some b =>
                rw [List.filterMap_cons_some hg]
                exact hl.trans (Nat.le_succ _)
        | some b =>
            have hg : g a = some b := by
              rcases h a List.mem_cons_self with hnone | hsame
              · rw [hnone] at hf
                cases hf
              · rwa [← hsame]
            rw [List.filterMap_cons_some hf, List.filterMap_cons_some hg]
            exact Nat.succ_le_succ hl
  induction l with
  | nil => simp
  | cons a l ih =>
      have hl : ∀ b ∈ l, f b = none ∨ f b = g b := fun b hb => h b (List.mem_cons_of_mem _ hb)
      have hhead : f a = g a := by
        refine (h a List.mem_cons_self).elim (fun hnone => ?_) id
        cases hg : g a with
        | none => exact hnone
        | some b =>
            rw [List.filterMap_cons_none hnone, List.filterMap_cons_some hg] at heq
            have hle := hlength l hl
            rw [heq, List.length_cons] at hle
            omega
      have htail : l.filterMap f = l.filterMap g := by
        cases hg : g a with
        | none => rwa
              [List.filterMap_cons_none (hhead.trans hg), List.filterMap_cons_none hg] at heq
        | some b =>
            rw [List.filterMap_cons_some (hhead.trans hg), List.filterMap_cons_some hg] at heq
            exact (List.cons.inj heq).2
      exact List.forall_mem_cons.mpr ⟨hhead, ih hl htail⟩

/-- The rows that the loader makes are those of the lines only where it makes them of each
line. -/
theorem row?_eq_call {ls : List Bytes} (hok : ∀ line ∈ ls, call reader delim line ≠ none)
    (heq : ls.filterMap (row? reader delim) =
      ls.filterMap fun line => (call reader delim line).join) :
    ∀ line ∈ ls, row? reader delim line = (call reader delim line).join := by
  refine eq_of_filterMap_eq (fun line hline => ?_) heq
  cases hfields : fields? delim line with
  | none => exact .inl (by rw [row?, hfields, Option.bind_none])
  | some f =>
      have hcall : call reader delim line = f.call reader := by rw [call, hfields]
      have hrow : row? reader delim line = f.row? reader := by rw [row?, hfields, Option.bind_some]
      obtain ⟨made, hmade⟩ := Option.ne_none_iff_exists'.mp (hok line hline)
      rw [hmade, hrow, Option.join_some]
      rcases Fields.row?_or (hcall.symm.trans hmade) with hor | ⟨row, hmax, hto⟩
      · exact hor
      · -- A row up to 255.255.255.255 is never inserted, for no line.
        have hmem : row ∈ ls.filterMap (row? reader delim) :=
          List.mem_filterMap.mpr ⟨line, hline, hrow.trans hmax⟩
        rw [heq] at hmem
        obtain ⟨line', -, hmade'⟩ := List.mem_filterMap.mp hmem
        have hcall' := Option.join_eq_some_iff.mp hmade'
        cases hfields' : fields? delim line' with
        | none =>
            rw [call, hfields'] at hcall'
            cases hcall'
        | some f' =>
            rw [call, hfields'] at hcall'
            exact absurd hto (Fields.to_of_call hcall')

/-- The loader returns true and has inserted exactly the rows of the file, in its order, if
and only if each line of it is exact. -/
theorem load_accepts_iff (reader : Reader) (delim content : Bytes) :
    (∃ this, loadIspIpDataFile reader {} ⟨true, true, content⟩ delim = some (true, this) ∧
      this.inserted = (lines content).filterMap (row? reader delim) ∧
      this.m_table = insertAll this.inserted) ↔
    ∀ line ∈ lines content, Exact reader delim line := by
  have hlines := @Loading.lines reader delim _ loading_new (lines content)
  have hload : ∀ this, loadIspIpDataFile reader {} ⟨true, true, content⟩ delim = some (true, this) ↔
      (lines content).foldlM (loadLine reader delim) {} = some this := by
    intro this
    simp [loadIspIpDataFile]
  simp only [hload]
  by_cases hok : ∀ line ∈ lines content, call reader delim line ≠ none
  · rw [if_pos hok] at hlines
    obtain ⟨this, hthis, hloading, hinserted⟩ := hlines
    have hiff : (∃ this', (lines content).foldlM (loadLine reader delim) {} = some this' ∧
        this'.inserted = (lines content).filterMap (row? reader delim) ∧
        this'.m_table = insertAll this'.inserted) ↔
        this.inserted = (lines content).filterMap (row? reader delim) := by
      rw [hthis]
      constructor
      · rintro ⟨this', ⟨⟩, hrows, -⟩
        exact hrows
      · exact fun hrows => ⟨this, rfl, hrows, hloading.table⟩
    rw [hiff, hinserted, List.nil_append]
    constructor
    · intro heq line hline
      have hsame := row?_eq_call hok heq.symm line hline
      obtain ⟨made, hmade⟩ := Option.ne_none_iff_exists'.mp (hok line hline)
      rw [← call_eq_iff, hsame, hmade, Option.join_some]
    · intro hexact
      refine List.filterMap_congr fun line hline => ?_
      rw [(call_eq_iff line).mpr (hexact line hline), Option.join_some]
  · rw [if_neg hok] at hlines
    rw [hlines]
    refine iff_of_false (fun ⟨_, hnone, _⟩ => by cases hnone) fun hexact => hok ?_
    intro line hline hnone
    rw [(call_eq_iff line).mpr (hexact line hline)] at hnone
    cases hnone

/-- A range turned round stops the server, and the range of all addresses is skipped. -/
theorem load_not_exact :
    (¬ ∀ reader delim content, (loadIspIpDataFile reader {} ⟨true, true, content⟩ delim).isSome) ∧
    ¬ ∀ reader delim content this,
      loadIspIpDataFile reader {} ⟨true, true, content⟩ delim = some (true, this) →
      this.inserted = (lines content).filterMap (row? reader delim) := by
  constructor
  · intro h
    have hnone : loadIspIpDataFile dotted {}
        ⟨true, true, name "2.0.0.0 1.0.0.0 CTL CTL_EAST\n"⟩ (name " ") = none := rfl
    have hsome := h dotted (name " ") (name "2.0.0.0 1.0.0.0 CTL CTL_EAST\n")
    rw [hnone] at hsome
    cases hsome
  · intro h
    have hskip : loadIspIpDataFile dotted {}
        ⟨true, true, name "0.0.0.0 255.255.255.255 CTL CTL_EAST\n"⟩ (name " ") =
          some (true, {}) := rfl
    have hrows := h _ _ _ _ hskip
    have hlength : ((lines (name "0.0.0.0 255.255.255.255 CTL CTL_EAST\n")).filterMap
        (row? dotted (name " "))).length = 1 := by decide
    rw [← hrows] at hlength
    cases hlength

end IpTable
