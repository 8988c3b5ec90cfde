import ErizoController.Library.Regex
import ErizoController.Route.IpTableFile

/-!
# The address of a client

The address of a client that is not reported as IPv4 is searched for four numbers with dots
between. The expression is not anchored, and its first and last number leave out 0 and 255.
-/

open Address

namespace Utils

open Regex

def lit (b : UInt8) : Regex UInt8 := .cls (· == b)

def range (low high : UInt8) : Regex UInt8 := .cls fun b => low ≤ b && b ≤ high

/-- `25[0-high]|2[0-4][0-9]|1[0-9][0-9]|[1-9][0-9]|[low-9]`. -/
def number (high low : UInt8) : Regex UInt8 :=
  .alt (.seq (lit 50) (.seq (lit 53) (range 48 high)))
    (.alt (.seq (lit 50) (.seq (range 48 52) (range 48 57)))
      (.alt (.seq (lit 49) (.seq (range 48 57) (range 48 57)))
        (.alt (.seq (range 49 57) (range 48 57)) (range low 57))))

/-- The first and the last number, `25[0-4]` and `[1-9]`. -/
def outer : Regex UInt8 := number 52 49

/-- The numbers between, `25[0-5]` and `[0-9]`. -/
def inner : Regex UInt8 := number 53 48

/-- `[.]`. -/
def dot : Regex UInt8 := lit 46

def reg : Regex UInt8 :=
  .seq outer (.seq dot (.seq inner (.seq dot (.seq inner (.seq dot outer)))))

/-- The first match, `none` where the function returns false. -/
def searchAddress (str : Bytes) : Option Bytes := reg.search str

end Utils

/-! ## The client's place -/

/-- `getIpTableValue`, for an address in network order; the defaults are those of the
class. -/
def IpTable.getIpTableValue (m_table : IP_TABLE.IP_TABLE_MAP) (ip : InAddr) : IpTableValue :=
  let IP_T := IP_TABLE.getValue m_table ip.ntohl
  { isp := if IP_T.isp = .AUTO_DETECT then .CTL else IP_T.isp
    area := if IP_T.area = 0 then 16 else IP_T.area }

/-- `Route::processIP`; `in` is what the variable holds before, which it keeps where
`inet_pton` fails. -/
def Route.processIP (ip_table_ : IP_TABLE.IP_TABLE_MAP) (in_ : InAddr) (ip : Bytes) :
    IpTableValue :=
  IpTable.getIpTableValue ip_table_ ((dotted? ip).getD in_)

/-- What the constructor of `SocketIOClientHandler` makes of the address of the socket. -/
def SocketIOClientHandler.ip_info (ip_table_ : IP_TABLE.IP_TABLE_MAP) (in_ : InAddr)
    (family : String) (address : Address.Bytes) : IpTableValue :=
  if family = "IPv4" then Route.processIP ip_table_ in_ address
  else
    match Utils.searchAddress address with
    | some ipv4_addr => Route.processIP ip_table_ in_ ipv4_addr
    | none => {}

namespace Utils

open Regex Decimal

/-! ## The search -/

theorem outer_matches : ∀ n : Fin 256, (outer.matchesAt (dec n)).filter (fun m => m.2.isEmpty) =
    if n.val = 0 ∨ n.val = 255 then [] else [(dec n, [])] := by decide +kernel

theorem inner_matches : ∀ n : Fin 256, (inner.matchesAt (dec n)).filter (fun m => m.2.isEmpty) =
    [(dec n, [])] := by decide +kernel

/-- The whole number is the preferred match, except for the two that are left out. -/
theorem outer_head : ∀ n : Fin 256, ((outer.matchesAt (dec n)).head?.map Prod.fst = some (dec n)) ↔
    ¬ (n.val = 0 ∨ n.val = 255) := by decide +kernel

theorem not_reads_dot : ¬ outer.Reads 46 ∧ ¬ inner.Reads 46 := by decide

/-- A number that the expression leaves out at its ends. -/
def LeftOut (b : UInt8) : Prop := b.toNat = 0 ∨ b.toNat = 255

instance (b : UInt8) : Decidable (LeftOut b) :=
  inferInstanceAs (Decidable (b.toNat = 0 ∨ b.toNat = 255))

theorem outer_filter (b : UInt8) :
    (outer.matchesAt (dec b.toNat)).filter (fun m => m.2.isEmpty) =
      if LeftOut b then [] else [(dec b.toNat, [])] :=
  outer_matches ⟨b.toNat, b.toNat_lt⟩

theorem inner_filter (b : UInt8) :
    (inner.matchesAt (dec b.toNat)).filter (fun m => m.2.isEmpty) = [(dec b.toNat, [])] :=
  inner_matches ⟨b.toNat, b.toNat_lt⟩

theorem inner_dot (b : UInt8) (s : Regex UInt8) (more : Bytes) :
    (seq inner (seq dot s)).matchesAt (dec b.toNat ++ 46 :: more) =
      (s.matchesAt more).map fun m => (dec b.toNat ++ 46 :: m.1, m.2) := by
  have hsep := @matchesAt_seq_sep _ _ s (· == 46) _ not_reads_dot.2 rfl _
    (fun c hc => digit_ne_dot (dec_digits b.toNat c hc)) more
  rw [inner_filter, List.flatMap_singleton] at hsep
  exact hsep

theorem outer_dot (b : UInt8) (s : Regex UInt8) (more : Bytes) :
    (seq outer (seq dot s)).matchesAt (dec b.toNat ++ 46 :: more) =
      if LeftOut b then [] else (s.matchesAt more).map fun m => (dec b.toNat ++
        46 :: m.1, m.2) := by
  have hsep := @matchesAt_seq_sep _ _ s (· == 46) _ not_reads_dot.1 rfl _
    (fun c hc => digit_ne_dot (dec_digits b.toNat c hc)) more
  rw [outer_filter] at hsep
  refine Eq.trans hsep ?_
  split
  · exact List.flatMap_nil
  · exact List.flatMap_singleton _ _

/-- The matches at the beginning of an address. -/
theorem reg_matchesAt (addr : InAddr) : reg.matchesAt addr.text =
    if LeftOut addr.a then []
    else (outer.matchesAt (dec addr.d.toNat)).map fun m =>
      (dec addr.a.toNat ++ 46 :: (dec addr.b.toNat ++ 46 :: (dec addr.c.toNat ++ 46 :: m.1)),
        m.2) := by
  rw [reg, InAddr.text, outer_dot]
  split
  · rfl
  · rw [inner_dot, inner_dot, List.map_map, List.map_map]
    rfl

/-- The text of the IPv6 address that stands for an IPv4 address. -/
def mapped (addr : InAddr) : Bytes := [58, 58, 102, 102, 102, 102, 58] ++ addr.text

theorem text_ne_nil (addr : InAddr) : addr.text ≠ [] := by
  rw [InAddr.text]
  exact List.append_ne_nil_of_right_ne_nil _ (List.cons_ne_nil _ _)

theorem searchAddress_mapped (addr : InAddr) :
    searchAddress (mapped addr) = reg.search addr.text := by
  refine search_append (fun c hc => ?_) addr.text
  have hor : c = 58 ∨ c = 102 ∨ c = 58 := by simpa using hc
  rcases hor with rfl | rfl | rfl
  · decide
  · decide
  · decide

/-- The address is found as it is unless its first or last number is left out. -/
theorem searchAddress_eq_iff (addr : InAddr) :
    searchAddress (mapped addr) = some addr.text ↔ ¬ LeftOut addr.a ∧ ¬ LeftOut addr.d := by
  have hmatches := reg_matchesAt addr
  have hhead := outer_head ⟨addr.d.toNat, addr.d.toNat_lt⟩
  rw [searchAddress_mapped]
  by_cases ha : LeftOut addr.a
  · rw [if_pos ha] at hmatches
    exact iff_of_false (search_ne_self (text_ne_nil addr) hmatches) fun h => h.1 ha
  · rw [if_neg ha] at hmatches
    cases hlast : outer.matchesAt (dec addr.d.toNat) with
    | nil =>
        rw [hlast] at hhead hmatches
        refine iff_of_false (search_ne_self (text_ne_nil addr) hmatches) fun h => ?_
        have hnone := hhead.mpr h.2
        cases hnone
    | cons m ms =>
        rw [hlast] at hhead hmatches
        rw [search_of_matchesAt hmatches]
        rw [List.head?_cons, Option.map_some, Option.some.injEq] at hhead
        simp only [InAddr.text, Option.some.injEq, List.append_cancel_left_eq, List.cons.injEq,
          true_and, hhead]
        exact ⟨fun hd => ⟨ha, hd⟩, fun h => h.2⟩

/-! ## Alike -/

theorem leftOut_iff (b : UInt8) : LeftOut b ↔ b = 0 ∨ b = 255 := by
  rw [LeftOut, ← UInt8.toNat_inj, ← UInt8.toNat_inj]
  rfl

/-- A table with one address in it. -/
def tableOf (addr : InAddr) (value : IpTableValue) : IP_TABLE.IP_TABLE_MAP :=
  IP_TABLE.insertAll [(.ofIp addr.ntohl, value)]

theorem getValue_tableOf (addr : InAddr) (value : IpTableValue) (ip : ℕ) :
    IP_TABLE.getValue (tableOf addr value) ip = if ip = addr.ntohl then value else {} := by
  obtain ⟨-, hdefault, hvalue⟩ := (IP_TABLE.ip_table_sound [(.ofIp addr.ntohl, value)]).2.2.1 ip
  have hmem : ∀ it, it ∈ tableOf addr value ↔ it = (.ofIp addr.ntohl, value) :=
    fun it => List.mem_singleton
  split
  · rename_i heq
    have hcontains : (IP_TABLE.IP_TABLE_KEY.ofIp addr.ntohl).Contains ip := ⟨heq.ge, heq.le⟩
    refine hvalue _ ((hmem _).mpr rfl) hcontains fun it hit _ => ?_
    rw [(hmem it).mp hit]
  · rename_i hne
    refine hdefault fun it hit hcontains => hne ?_
    rw [(hmem it).mp hit] at hcontains
    exact le_antisymm hcontains.2 hcontains.1

theorem processIP_text (m_table : IP_TABLE.IP_TABLE_MAP) (in_ addr : InAddr) :
    Route.processIP m_table in_ addr.text = IpTable.getIpTableValue m_table addr := by
  rw [Route.processIP, dotted?_text, Option.getD_some]

theorem ip_info_IPv4 (m_table : IP_TABLE.IP_TABLE_MAP) (in_ addr : InAddr) :
    SocketIOClientHandler.ip_info m_table in_ "IPv4" addr.text =
      IpTable.getIpTableValue m_table addr := by
  rw [SocketIOClientHandler.ip_info, if_pos rfl, processIP_text]

/-- What is not found as it is gets another place in some table. -/
theorem ip_info_ne {addr : InAddr} (h : searchAddress (mapped addr) ≠ some addr.text) :
    ∃ m_table in_, SocketIOClientHandler.ip_info m_table in_ "IPv6" (mapped addr) ≠
      IpTable.getIpTableValue m_table addr := by
  have hother : ∃ other : InAddr, other ≠ addr := by
    by_cases hnone : addr = INADDR_NONE
    · exact ⟨⟨0, 0, 0, 0⟩, by rw [hnone]; decide⟩
    · exact ⟨INADDR_NONE, Ne.symm hnone⟩
  obtain ⟨other, hne⟩ := hother
  refine ⟨tableOf addr ⟨.CNC, 32⟩, other, ?_⟩
  have hfound : IpTable.getIpTableValue (tableOf addr ⟨.CNC, 32⟩) addr = ⟨.CNC, 32⟩ := by
    rw [IpTable.getIpTableValue, getValue_tableOf, if_pos rfl]
    rfl
  have hmissed : ∀ addr', addr' ≠ addr →
      IpTable.getIpTableValue (tableOf addr ⟨.CNC, 32⟩) addr' = ⟨.CTL, 16⟩ := by
    intro addr' hne'
    rw [IpTable.getIpTableValue, getValue_tableOf,
      if_neg fun heq => hne' (InAddr.ntohl_injective heq)]
    rfl
  rw [hfound, SocketIOClientHandler.ip_info, if_neg (by decide)]
  split
  · rename_i ipv4_addr hsearch
    have hdifferent : (dotted? ipv4_addr).getD other ≠ addr := by
      cases hdotted : dotted? ipv4_addr with
      | none => exact hne
      | some addr' =>
          rintro rfl
          rw [dotted?_eq_some_iff.mp hdotted] at hsearch
          exact h hsearch
    rw [Route.processIP, hmissed _ hdifferent]
    decide
  · decide

/-- A client with an IPv4 address mapped into IPv6 is routed as one with the IPv4 address,
and the search finds this address, if and only if its first and its last number are neither
0 nor 255. -/
theorem clients_routed_alike_iff (addr : InAddr) :
    ((searchAddress (mapped addr) = some addr.text ∧ ∀ m_table in_,
      SocketIOClientHandler.ip_info m_table in_ "IPv6" (mapped addr) =
        SocketIOClientHandler.ip_info m_table in_ "IPv4" addr.text) ↔
      (addr.a ≠ 0 ∧ addr.a ≠ 255) ∧ addr.d ≠ 0 ∧ addr.d ≠ 255) ∧
    ((∀ m_table in_, SocketIOClientHandler.ip_info m_table in_ "IPv6" (mapped addr) =
        SocketIOClientHandler.ip_info m_table in_ "IPv4" addr.text) ↔
      (addr.a ≠ 0 ∧ addr.a ≠ 255) ∧ addr.d ≠ 0 ∧ addr.d ≠ 255) := by
  have hsearch := searchAddress_eq_iff addr
  rw [leftOut_iff, leftOut_iff, not_or, not_or] at hsearch
  simp only [ip_info_IPv4]
  have halike : (∀ m_table in_, SocketIOClientHandler.ip_info m_table in_ "IPv6" (mapped addr) =
      IpTable.getIpTableValue m_table addr) ↔ searchAddress (mapped addr) = some addr.text := by
    constructor
    · intro h
      by_contra hnot
      obtain ⟨m_table, in_, hne⟩ := ip_info_ne hnot
      exact hne (h m_table in_)
    · intro h m_table in_
      rw [SocketIOClientHandler.ip_info, if_neg (by decide), h]
      exact processIP_text m_table in_ addr
  rw [halike, ← hsearch]
  exact ⟨and_iff_left_of_imp id, Iff.rfl⟩

/-- Of 10.0.0.255 the search finds 10.0.0.25, of 255.0.0.1 it finds 55.0.0.1, and of 10.0.0.0
nothing, so the client has no place at all. -/
theorem clients_not_routed_alike :
    searchAddress (mapped ⟨10, 0, 0, 255⟩) = some (InAddr.text ⟨10, 0, 0, 25⟩) ∧
    searchAddress (mapped ⟨255, 0, 0, 1⟩) = some (InAddr.text ⟨55, 0, 0, 1⟩) ∧
    ¬ ∀ addr m_table in_, SocketIOClientHandler.ip_info m_table in_ "IPv6" (mapped addr) =
      SocketIOClientHandler.ip_info m_table in_ "IPv4" addr.text := by
  refine ⟨by decide, by decide, fun h => ?_⟩
  have hsame := h ⟨10, 0, 0, 0⟩ [] INADDR_NONE
  exact absurd hsame (by decide)

end Utils
