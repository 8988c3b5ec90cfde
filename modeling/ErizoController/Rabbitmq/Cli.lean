import Mathlib.Algebra.Group.Nat.Defs
import Mathlib.Data.UInt
import ErizoController.Library.Decimal
import ErizoController.Library.Escape
import ErizoController.Route.Address

/-!
# AMQPCli

The connection of a recipient to the broker. `init` lets the broker name a queue, binds it
and keeps the name, as `stringifyBytes` writes it, for the senders to reply to. The digits
of the escapes are sums of a character and an `int`, hence `int`s themselves, and the stream
writes an `int` in decimal: an escape has two decimal digits where it means one octal digit.
-/

namespace AMQPCli

open Address Decimal

/-! ## The stream -/

/-- `oss << c` for a character. -/
def putChar (oss : Bytes) (c : UInt8) : Bytes := oss ++ [c]

/-- `oss << n` for an `int` that is not negative. -/
def putInt (oss : Bytes) (n : ℕ) : Bytes := oss ++ dec n

/-- The body of the loop, for one byte. -/
def stringifyByte (oss : Bytes) (data : UInt8) : Bytes :=
  if 32 ≤ data ∧ data ≠ 127 then putChar oss data
  else
    let oss := putChar oss 92
    let oss := putInt oss (48 + (data.toNat >>> 6))
    let oss := putInt oss (48 + (data.toNat >>> 3 &&& 0x7))
    putInt oss (48 + (data.toNat &&& 0x7))

def stringifyBytes (bytes : Bytes) : Bytes := bytes.foldl stringifyByte []

/-! ## What the escapes mean -/

/-- The bytes that are not written as they are. -/
def isControl (c : UInt8) : Bool := c < 32 || c == 127

/-- The three octal digits of a byte, as characters. -/
def octalDigits (c : UInt8) : Bytes := [48 + c / 64, 48 + c / 8 % 8, 48 + c % 8]

/-- A backslash and the octal digits of a byte. -/
def octalEscape (c : UInt8) : Bytes := 92 :: octalDigits c

/-- A backslash and the numbers of the characters of the octal digits. -/
def numberEscape (c : UInt8) : Bytes := 92 :: (octalDigits c).flatMap fun d => dec d.toNat

theorem isControl_eq_false_iff {c : UInt8} : isControl c = false ↔ 32 ≤ c ∧ c ≠ 127 := by
  rw [isControl, Bool.or_eq_false_iff, decide_eq_false_iff_not, UInt8.not_lt, beq_eq_false_iff_ne]

theorem mask_eq_mod (n : ℕ) : n &&& 0x7 = n % 8 := Nat.and_two_pow_sub_one_eq_mod n 3

/-- The characters of the digits, as the shifts and masks compute them. -/
theorem octalDigits_toNat (c : UInt8) : (octalDigits c).map UInt8.toNat =
    [48 + (c.toNat >>> 6), 48 + (c.toNat >>> 3 &&& 0x7), 48 + (c.toNat &&& 0x7)] := by
  have hc := c.toNat_lt
  simp only [octalDigits, List.map_cons, List.map_nil, mask_eq_mod, Nat.shiftRight_eq_div_pow,
    UInt8.toNat_add, UInt8.toNat_div, UInt8.toNat_mod, UInt8.reduceToNat, List.cons.injEq, and_true]
  omega

theorem stringifyByte_eq (oss : Bytes) (data : UInt8) :
    stringifyByte oss data = oss ++ Escape.piece isControl numberEscape data := by
  cases hdata : isControl data with
  | false =>
      rw [stringifyByte, if_pos (isControl_eq_false_iff.mp hdata),
        Escape.piece_plain hdata, putChar]
  | true =>
      have hnot : ¬ (32 ≤ data ∧ data ≠ 127) := by
        intro h
        rw [isControl_eq_false_iff.mpr h] at hdata
        cases hdata
      have hdigits : (octalDigits data).flatMap (fun d => dec d.toNat) =
          ((octalDigits data).map UInt8.toNat).flatMap dec := by
        rw [List.flatMap_map]
      rw [stringifyByte, if_neg hnot, Escape.piece_escaped hdata, numberEscape, hdigits,
        octalDigits_toNat]
      simp [putChar, putInt]

/-- One piece for each byte. -/
theorem stringifyBytes_eq (b : Bytes) :
    stringifyBytes b = Escape.encode isControl numberEscape b := by
  have hfold : ∀ oss, b.foldl stringifyByte oss = oss ++
    Escape.encode isControl numberEscape b := by
    induction b with
    | nil => exact fun oss => (List.append_nil oss).symm
    | cons data b ih =>
        intro oss
        rw [List.foldl_cons, ih, stringifyByte_eq, Escape.encode_cons, List.append_assoc]
  exact hfold []

/-! ## The escapes -/

/-- The number of the character of an octal digit has two digits, the first of them 4 or 5. -/
theorem dec_octal : ∀ d < 8, (dec (48 + d)).length = 2 ∧ 52 ≤ (dec (48 + d)).headD 0 := by
  decide

theorem octalDigits_lt {c d : UInt8} (h : d ∈ octalDigits c) : ∃ n < 8, d.toNat = 48 + n := by
  have hc := c.toNat_lt
  have hmem := List.mem_map_of_mem (f := UInt8.toNat) h
  rw [octalDigits_toNat] at hmem
  have hmask : ∀ n : ℕ, n &&& 0x7 < 8 := by
    intro n
    rw [mask_eq_mod]
    exact Nat.mod_lt n (by decide)
  simp only [List.mem_cons, List.not_mem_nil, or_false] at hmem
  rcases hmem with hd | hd | hd
  · refine ⟨_, ?_, hd⟩
    rw [Nat.shiftRight_eq_div_pow]
    omega
  · exact ⟨_, hmask _, hd⟩
  · exact ⟨_, hmask _, hd⟩

theorem isDigit_not_control {b : UInt8} (h : isDigit b = true) : isControl b = false := by
  have hbounds := isDigit_bounds h
  rw [isControl_eq_false_iff, UInt8.le_iff_toNat_le, Ne, ← UInt8.toNat_inj]
  simp only [UInt8.reduceToNat]
  omega

/-- An escape holds no byte that is escaped. -/
theorem numberEscape_plain (c : UInt8) : ∀ b ∈ numberEscape c, isControl b = false := by
  intro b hb
  rcases List.mem_cons.mp hb with rfl | hb
  · decide
  · obtain ⟨d, -, hb⟩ := List.mem_flatMap.mp hb
    exact isDigit_not_control (dec_digits _ b hb)

/-- The digits of a byte determine it. -/
theorem octalDigits_injective {c c' : UInt8} (h : octalDigits c = octalDigits c') : c = c' := by
  have hc := c.toNat_lt
  have hc' := c'.toNat_lt
  have hnat := congrArg (List.map UInt8.toNat) h
  simp only [octalDigits, List.map_cons, List.map_nil, UInt8.toNat_add, UInt8.toNat_div,
    UInt8.toNat_mod, UInt8.reduceToNat, List.cons.injEq, and_true] at hnat
  rw [← UInt8.toNat_inj]
  omega

/-- The numbers of octal digits are read off in pairs. -/
theorem octal_of_numbers {s t : Bytes} (hs : ∀ d ∈ s, ∃ n < 8, d.toNat = 48 + n)
    (ht : ∀ d ∈ t, ∃ n < 8, d.toNat = 48 + n)
    (h : s.flatMap (fun d => dec d.toNat) <+: t.flatMap (fun d => dec d.toNat)) : s <+: t := by
  induction s generalizing t with
  | nil => exact List.nil_prefix
  | cons d s ih =>
      obtain ⟨n, hn, hd⟩ := hs d List.mem_cons_self
      have hlen : (dec d.toNat).length = 2 := hd ▸ (dec_octal n hn).1
      cases t with
      | nil =>
          have hnil := List.prefix_nil.mp h
          rw [List.flatMap_cons, List.append_eq_nil_iff] at hnil
          exact absurd hnil.1 (dec_ne_nil _)
      | cons e t =>
          obtain ⟨m, hm, he⟩ := ht e List.mem_cons_self
          have hlen' : (dec e.toNat).length = 2 := he ▸ (dec_octal m hm).1
          obtain ⟨rest, hrest⟩ := h
          rw [List.flatMap_cons, List.flatMap_cons, List.append_assoc] at hrest
          obtain ⟨hhead, htail⟩ := List.append_inj hrest (hlen.trans hlen'.symm)
          have hde : d = e := UInt8.toNat_inj.mp (dec_injective hhead)
          rw [hde, List.prefix_cons_inj]
          exact ih (fun d hd => hs d (List.mem_cons_of_mem _ hd))
            (fun d hd => ht d (List.mem_cons_of_mem _ hd)) ⟨rest, htail⟩

/-- No escape begins another. -/
theorem numberEscape_prefix {c c' : UInt8} (h : numberEscape c <+: numberEscape c') : c = c' := by
  rw [numberEscape, numberEscape, List.prefix_cons_inj] at h
  have hdigits := octal_of_numbers (fun _ => octalDigits_lt) (fun _ => octalDigits_lt) h
  exact octalDigits_injective (hdigits.eq_of_length rfl)

/-- Behind the backslash stands a 4 or 5, and the first octal digit is at most 3. -/
theorem numberEscape_ne (c : UInt8) (s t : Bytes) : numberEscape c ++ s ≠ octalEscape c ++ t := by
  intro h
  have hlt := c.toNat_lt
  have hfirst : (48 + c / 64).toNat = 48 + c.toNat / 64 := by
    simp only [UInt8.toNat_add, UInt8.toNat_div, UInt8.reduceToNat]
    omega
  have hhead := (dec_octal (c.toNat / 64) (by omega)).2
  rw [← hfirst] at hhead
  rw [numberEscape, octalEscape, octalDigits, List.flatMap_cons] at h
  cases hdec : dec (48 + c / 64).toNat with
  | nil => exact dec_ne_nil _ hdec
  | cons a rest =>
      rw [hdec] at h hhead
      have ha : a = 48 + c / 64 := (List.cons.inj (List.cons.inj h).2).1
      rw [List.headD_cons, ha, UInt8.le_iff_toNat_le, hfirst] at hhead
      change 52 ≤ 48 + c.toNat / 64 at hhead
      omega

/-! ## The names -/

/-- The names that are written with octal escapes are those that need none. -/
theorem stringifyBytes_octal_iff {b : Bytes} :
    stringifyBytes b = Escape.encode isControl octalEscape b ↔ ∀ c ∈ b, isControl c = false := by
  rw [stringifyBytes_eq]
  constructor
  · intro h
    induction b with
    | nil => exact fun c hc => absurd hc List.not_mem_nil
    | cons c b ih =>
        rw [Escape.encode_cons, Escape.encode_cons] at h
        cases hc : isControl c with
        | false =>
            rw [Escape.piece_plain hc, Escape.piece_plain hc] at h
            exact List.forall_mem_cons.mpr ⟨hc, ih (List.append_cancel_left h)⟩
        | true =>
            rw [Escape.piece_escaped hc, Escape.piece_escaped hc] at h
            exact absurd h (numberEscape_ne c _ _)
  · intro h
    rw [Escape.encode_of_plain h, Escape.encode_of_plain h]

/-- The names that no other name is written like. -/
theorem stringifyBytes_unique_iff {b : Bytes} :
    (∀ b', stringifyBytes b' = stringifyBytes b → b' = b) ↔
      (∀ c ∈ b, isControl c = false) ∧ ∀ c, isControl c = true → ¬ numberEscape c <:+: b := by
  simp only [stringifyBytes_eq]
  exact Escape.encode_unique_iff fun c _ => numberEscape_plain c

/-- Different names without a backslash are written differently. -/
theorem stringifyBytes_injOn : Set.InjOn stringifyBytes {b | 92 ∉ b} := by
  intro b hb b' hb' h
  rw [stringifyBytes_eq, stringifyBytes_eq] at h
  exact Escape.encode_injOn (fun c _ => ⟨_, rfl⟩) (fun c c' _ _ => numberEscape_prefix) hb hb' h

/-! ## The client -/

/-- What `init` sends over the channel. -/
inductive Command where
  | exchangeDeclare (exchange type : Bytes)
  | queueDeclare
  | queueBind (queue exchange routing_key : Bytes)
  | basicConsume (queue : Bytes)

structure Client where
  reply_to_ : Bytes := []
  init_ : Bool := false
  sent : List Command := []

def Client.send (cli : Client) (command : Command) : Client :=
  { cli with sent := cli.sent ++ [command] }

/-- How the calls of one `init` come out. The broker names the queue. -/
structure Answers where
  tcp_socket_new : Bool
  socket_open : Bool
  login : Bool
  channel_open : Bool
  exchange_declare : Bool
  queue_declare : Option Bytes
  malloc_dup : Bool
  queue_bind : Bool
  basic_consume : Bool

/-- The end of `init`, once the queue has its name. -/
def bindQueue (answers : Answers) (exchange binding_key queuename : Bytes) (cli : Client) :
    ℕ × Client :=
  let cli :=
    if binding_key = [] then
      Client.send { cli with reply_to_ := stringifyBytes queuename }
        (.queueBind queuename (c_str exchange) queuename)
    else
      Client.send { cli with reply_to_ := binding_key }
        (.queueBind queuename (c_str exchange) (c_str binding_key))
  if !answers.queue_bind then (1, cli)
  else
    let cli := cli.send (.basicConsume queuename)
    if !answers.basic_consume then (1, cli) else (0, { cli with init_ := true })

/-- `init`, with the code it returns. -/
def init (answers : Answers) (exchange type binding_key : Bytes) (cli : Client) : ℕ × Client :=
  if cli.init_ then (0, cli)
  else if !answers.tcp_socket_new then (1, cli)
  else if !answers.socket_open then (1, cli)
  else if !answers.login then (1, cli)
  else if !answers.channel_open then (1, cli)
  else
    let cli := cli.send (.exchangeDeclare (c_str exchange) (c_str type))
    if !answers.exchange_declare then (1, cli)
    else
      let cli := cli.send .queueDeclare
      match answers.queue_declare with
      | none => (1, cli)
      | some queuename =>
        if !answers.malloc_dup then (1, cli)
        else bindQueue answers exchange binding_key queuename cli

/-- The calls succeed up to the point where `init` has the name of its queue. -/
structure Answers.Declare (answers : Answers) (queuename : Bytes) : Prop where
  tcp_socket_new : answers.tcp_socket_new = true
  socket_open : answers.socket_open = true
  login : answers.login = true
  channel_open : answers.channel_open = true
  exchange_declare : answers.exchange_declare = true
  queue_declare : answers.queue_declare = some queuename
  malloc_dup : answers.malloc_dup = true

/-- No two queues of different names have clients with the same `reply_to_`. -/
def NamesQueue (queuename : Bytes) : Prop :=
  ∀ (answers answers' : Answers) (exchange exchange' type type' queuename' : Bytes),
    answers.Declare queuename → answers'.Declare queuename' →
      (init answers' exchange' type' [] {}).2.reply_to_ =
        (init answers exchange type [] {}).2.reply_to_ →
      queuename' = queuename

section Client

variable {answers : Answers} {queuename : Bytes} (exchange type binding_key : Bytes)

theorem init_of_declare {cli : Client} (hcli : cli.init_ = false)
    (h : answers.Declare queuename) : init answers exchange type binding_key cli =
      bindQueue answers exchange binding_key queuename
        ((cli.send (.exchangeDeclare (c_str exchange) (c_str type))).send .queueDeclare) := by
  simp [init, hcli, h.tcp_socket_new, h.socket_open, h.login, h.channel_open, h.exchange_declare,
    h.queue_declare, h.malloc_dup]

/-- Without a binding key the name of the queue is written out for the senders. -/
theorem bindQueue_reply_to (cli : Client) :
    (bindQueue answers exchange [] queuename cli).2.reply_to_ = stringifyBytes queuename := by
  simp only [bindQueue, if_pos]
  split
  · rfl
  · split <;> rfl

theorem init_reply_to (h : answers.Declare queuename) :
    (init answers exchange type [] {}).2.reply_to_ = stringifyBytes queuename := by
  rw [init_of_declare exchange type [] rfl h, bindQueue_reply_to]

/-- The queue is bound under the name that the senders get if nothing in it is escaped. -/
theorem init_binds_reply_to_iff (h : answers.Declare queuename) :
    Command.queueBind queuename (c_str exchange) (init answers exchange type [] {}).2.reply_to_ ∈
        (init answers exchange type [] {}).2.sent ↔
      ∀ c ∈ queuename, isControl c = false := by
  have hbind : ∀ key, Command.queueBind queuename (c_str exchange) key ∈
      (init answers exchange type [] {}).2.sent ↔ key = queuename := by
    intro key
    rw [init_of_declare exchange type [] rfl h]
    simp only [bindQueue, if_pos, Client.send]
    split
    · simp
    · split <;> simp
  rw [hbind, init_reply_to exchange type h, stringifyBytes_eq]
  exact Escape.encode_eq_self_iff fun c _ => numberEscape_plain c

end Client

/-- A name is written with octal escapes, differently from all other names, if and only if no
byte of it is escaped and no text in it looks like what the stream writes for one. -/
theorem queueNames_faithful_iff (b : Bytes) :
    (stringifyBytes b = Escape.encode isControl octalEscape b ∧
      (∀ b', stringifyBytes b' = stringifyBytes b → b' = b) ∧ NamesQueue b) ↔
    (∀ c ∈ b, isControl c = false) ∧ ∀ c, isControl c = true → ¬ numberEscape c <:+: b := by
  constructor
  · rintro ⟨-, hunique, -⟩
    exact stringifyBytes_unique_iff.mp hunique
  · intro h
    have hunique := stringifyBytes_unique_iff.mpr h
    refine ⟨stringifyBytes_octal_iff.mpr h.1, hunique, ?_⟩
    intro answers answers' exchange exchange' type type' b' hdeclare hdeclare' hreply
    rw [init_reply_to exchange' type' hdeclare', init_reply_to exchange type hdeclare] at hreply
    exact hunique b' hreply

/-- The byte 0 is written `\484848`, and so is this text. -/
theorem queueNames_not_faithful :
    (¬ ∃ pieces : UInt8 → Bytes, (∀ c, isControl c = true → pieces c = octalEscape c) ∧
      ∀ b, stringifyBytes b = b.flatMap pieces) ∧
    stringifyBytes [0] = [92, 52, 56, 52, 56, 52, 56] ∧
    stringifyBytes [92, 52, 56, 52, 56, 52, 56] = [92, 52, 56, 52, 56, 52, 56] ∧
    ¬ NamesQueue [0] := by
  have hzero : stringifyBytes [0] = [92, 52, 56, 52, 56, 52, 56] := by decide
  have htext : stringifyBytes [92, 52, 56, 52, 56, 52, 56] = [92, 52, 56, 52, 56, 52, 56] := by
    decide
  refine ⟨?_, hzero, htext, ?_⟩
  · rintro ⟨pieces, hpieces, hall⟩
    have h := hall [0]
    rw [hzero, List.flatMap_singleton, hpieces 0 (by decide)] at h
    exact absurd h (by decide)
  · intro h
    have hdeclare : ∀ q, (Answers.mk true true true true true (some q) true true true).Declare q :=
      fun q => ⟨rfl, rfl, rfl, rfl, rfl, rfl, rfl⟩
    have hsame := h _ _ [] [] [] [] _ (hdeclare [0]) (hdeclare [92, 52, 56, 52, 56, 52, 56])
    rw [init_reply_to [] [] (hdeclare _), init_reply_to [] [] (hdeclare _), hzero, htext] at hsame
    exact absurd (hsame rfl) (by decide)

end AMQPCli
