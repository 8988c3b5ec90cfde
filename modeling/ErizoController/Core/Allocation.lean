import ErizoController.Core.Handlers

/-!
# Allocating an agent and an erizo

What `allocAgent`, `allocErizo` and `handleToken` do, over every store, every answer of the
agents and every pattern of failures. `allocAgent` takes the difference of two clocks as an
unsigned number, so an agent whose clock is ahead of the controller's is taken for dead.
`handleToken` writes to the client of its connection as it goes, and does not take back what
it wrote when a later step fails.
-/

open Json

namespace ErizoController

variable (self : ErizoController)

/-! ## The agent -/

/-- The area that a client is served in. -/
def areaOf (client : Client) : Option String :=
  (self.server_mapping.find? fun it => it.1 = client.ip_info.area).map Prod.snd

/-- The agents of an area that are listed. -/
def listedAgents (w : World) (area_name : String) : List ErizoAgent :=
  if w.oracle.readFault.head then []
  else (w.redis .erizo_agent area_name).rows.filter fun a => readsAsUint a.last_update

/-- The test for being alive, on unsigned numbers. -/
def passes (now : UInt64) (agent : ErizoAgent) : Bool :=
  now - agent.last_update < toUInt64 self.erizo_agent_timeout

/-- `agents_alive`. -/
def agentsAlive (client : Client) (w : World) : List ErizoAgent :=
  match self.areaOf client with
  | none => []
  | some area_name => (listedAgents w area_name).filter (self.passes w.oracle.systemMs.head)

def chosenAgent (client : Client) (w : World) : Option ErizoAgent :=
  (self.sort.sort (self.agentsAlive client w)).head?

theorem LoadSort.sort_nil (s : LoadSort) : s.sort [] = [] := (s.perm []).eq_nil

/-- `allocAgent` only reads. -/
theorem exec_allocAgent (client : Client) (w : World) :
    ∃ w', exec (self.allocAgent client) w =
        (match self.chosenAgent client w with
          | none => (1, client)
          | some agent => (0, { client with agent_id := agent.id }), w') ∧
      w'.redis = w.redis ∧ w'.oracle.rpcReply = w.oracle.rpcReply ∧
      w'.oracle.writeFault = w.oracle.writeFault := by
  rw [allocAgent, chosenAgent, agentsAlive, areaOf]
  cases self.server_mapping.find? fun it => it.1 = client.ip_info.area with
  | none =>
      refine ⟨w, ?_, rfl, rfl, rfl⟩
      rw [Option.map_none, LoadSort.sort_nil]
      rfl
  | some it =>
      dsimp only [Option.map_some]
      rw [RedisHelper.getAllErizoAgent, exec_bind, RedisHelper.exec_getAll]
      dsimp only
      rw [exec_bind, Utils.getSystemMs, exec_issue, perform]
      refine ⟨{ w.drawRead with oracle := { w.drawRead.oracle with
        systemMs := w.oracle.systemMs.tail } }, ?_, rfl, rfl, rfl⟩
      generalize hsort : self.sort.sort ((listedAgents w it.2).filter
        (self.passes w.oracle.systemMs.head)) = sorted
      split
      · rename_i heq
        obtain rfl : sorted = [] := hsort.symm.trans heq
        rfl
      · rename_i agent agents heq
        obtain rfl : sorted = agent :: agents := hsort.symm.trans heq
        rfl

/-! ## The least load -/

/-- An agent is alive when, in whole numbers, its last update is not too long ago. -/
def Alive (now : UInt64) (agent : ErizoAgent) : Prop :=
  (now.toNat : ℤ) - agent.last_update.toNat < self.erizo_agent_timeout.toInt

instance {now : UInt64} {agent : ErizoAgent} : Decidable (self.Alive now agent) :=
  inferInstanceAs (Decidable (_ < _))

/-- The agent is filed under the area of the client and alive at the time that is read. -/
def Live (client : Client) (w : World) (agent : ErizoAgent) : Prop :=
  ∃ area_name, self.areaOf client = some area_name ∧ agent ∈ w.redis .erizo_agent area_name ∧
    self.Alive w.oracle.systemMs.head agent

/-- No agent of the set has a smaller load. -/
def LeastLoad (agents : ErizoAgent → Prop) (agent : ErizoAgent) : Prop :=
  agents agent ∧ ∀ other, agents other → agent.erizo_process_num ≤ other.erizo_process_num

/-- The call fails, with the agent of the client unchanged, if and only if the area is not
served or has no agent that is alive, and otherwise takes one of the least load. -/
def AllocatesLeast (client : Client) (w : World) (outcome : ℤ × Client) : Prop :=
  (outcome.1 ≠ 0 ↔ self.areaOf client = none ∨ ∀ agent, ¬ self.Live client w agent) ∧
    (outcome.1 ≠ 0 → outcome.2.agent_id = client.agent_id) ∧
    (outcome.1 = 0 → ∃ agent, LeastLoad (self.Live client w) agent ∧
      outcome.2.agent_id = agent.id)

/-- The agent passes the test. -/
def Passing (client : Client) (w : World) (agent : ErizoAgent) : Prop :=
  agent ∈ self.agentsAlive client w

/-- Some agent passes the test when one is alive, and those of the least load that pass it are
the least of those that are alive. -/
def TestsWell (client : Client) (w : World) : Prop :=
  ((∃ agent, self.Live client w agent) → ∃ agent, self.Passing client w agent) ∧
    ∀ agent, LeastLoad (self.Passing client w) agent → LeastLoad (self.Live client w) agent

theorem passing_iff {client : Client} {w : World} {agent : ErizoAgent} :
    self.Passing client w agent ↔ ∃ area_name, self.areaOf client = some area_name ∧
      w.oracle.readFault.head = false ∧ agent ∈ w.redis .erizo_agent area_name ∧
      readsAsUint agent.last_update = true ∧ self.passes w.oracle.systemMs.head agent = true := by
  rw [Passing, agentsAlive]
  cases self.areaOf client with
  | none => simp
  | some area_name =>
      dsimp only
      rw [listedAgents]
      cases w.oracle.readFault.head with
      | true => simp
      | false => simpa [Table.mem_rows] using fun _ => and_comm

/-- The least of the load are at the head of a sorted list. -/
theorem leastLoad_of_head {sort : LoadSort} {agents rest : List ErizoAgent} {agent : ErizoAgent}
    (h : sort.sort agents = agent :: rest) : LeastLoad (· ∈ agents) agent := by
  have hperm := sort.perm agents
  have hsorted := sort.sorted agents
  rw [h] at hperm hsorted
  refine ⟨hperm.mem_iff.mp List.mem_cons_self, fun other hother => ?_⟩
  rcases List.mem_cons.mp (hperm.mem_iff.mpr hother) with rfl | hrest
  · exact Int32.le_refl _
  · exact (List.pairwise_cons.mp hsorted).1 other hrest

/-- A sort that puts an agent first where it may. -/
def LoadSort.preferring (agent : ErizoAgent) : LoadSort where
  sort agents :=
    if agent ∈ agents ∧ ∀ other ∈ agents, agent.erizo_process_num ≤ other.erizo_process_num then
      agent :: LoadSort.stable.sort (agents.erase agent)
    else LoadSort.stable.sort agents
  perm agents := by
    split
    · rename_i h
      exact ((LoadSort.stable.perm _).cons agent).trans (List.perm_cons_erase h.1).symm
    · exact LoadSort.stable.perm agents
  sorted agents := by
    split
    · rename_i h
      refine List.pairwise_cons.mpr ⟨fun other hother => ?_, LoadSort.stable.sorted _⟩
      exact h.2 other (List.mem_of_mem_erase ((LoadSort.stable.perm _).mem_iff.mp hother))
    · exact LoadSort.stable.sorted agents

theorem LoadSort.preferring_head {agents : List ErizoAgent} {agent : ErizoAgent}
    (h : LeastLoad (· ∈ agents) agent) :
    ((LoadSort.preferring agent).sort agents).head? = some agent := by
  rw [preferring]
  dsimp only
  rw [if_pos ⟨h.1, h.2⟩, List.head?_cons]

theorem Live.areaOf_ne {self : ErizoController} {client : Client} {w : World} {agent : ErizoAgent}
    (h : self.Live client w agent) : self.areaOf client ≠ none := by
  obtain ⟨area_name, harea, -⟩ := h
  rw [harea]
  exact Option.some_ne_none _

/-- Agents of one area are told apart by their ids. -/
theorem eq_of_live_of_passing {client : Client} {w : World} {agent other : ErizoAgent}
    (h : self.Live client w agent) (hother : self.Passing client w other)
    (hid : other.id = agent.id) : other = agent := by
  obtain ⟨area_name, harea, hagent, -⟩ := h
  obtain ⟨area_name', harea', -, hmem, -⟩ := (self.passing_iff).mp hother
  obtain rfl := Option.some.inj (harea.symm.trans harea')
  exact Table.eq_of_key_eq hmem hagent hid

/-- However equal loads are ordered, `allocAgent` takes a least loaded agent if and only if the
test does well. -/
theorem allocatesLeast_iff (client : Client) (w : World) :
    (∀ sort : LoadSort, self.AllocatesLeast client w
        (exec (ErizoController.allocAgent { self with sort } client) w).1) ↔
      self.TestsWell client w := by
  have hsplit : ∀ sort : LoadSort,
      (exec (ErizoController.allocAgent { self with sort } client) w).1 =
        match (sort.sort (self.agentsAlive client w)).head? with
        | none => (1, client)
        | some agent => (0, { client with agent_id := agent.id }) := by
    intro sort
    obtain ⟨w', hexec, -⟩ := exec_allocAgent { self with sort } client w
    exact congrArg Prod.fst hexec
  simp only [hsplit]
  constructor
  · intro h
    constructor
    · rintro ⟨agent, hlive⟩
      by_contra hnone
      have hempty : self.agentsAlive client w = [] :=
        List.eq_nil_iff_forall_not_mem.mpr fun other hother => hnone ⟨other, hother⟩
      have hstable := (h LoadSort.stable).1
      rw [hempty, LoadSort.sort_nil] at hstable
      rcases hstable.mp one_ne_zero with harea | hdead
      · exact hlive.areaOf_ne harea
      · exact hdead agent hlive
    · intro agent hleast
      have hpreferring := (h (LoadSort.preferring agent)).2.2
      rw [LoadSort.preferring_head hleast] at hpreferring
      obtain ⟨other, hother, hid⟩ := hpreferring rfl
      rwa [self.eq_of_live_of_passing hother.1 hleast.1 hid]
  · intro h sort
    cases hsorted : sort.sort (self.agentsAlive client w) with
    | nil =>
        have hperm := sort.perm (self.agentsAlive client w)
        rw [hsorted] at hperm
        have hempty : self.agentsAlive client w = [] := hperm.nil_eq.symm
        have hdead : ∀ agent, ¬ self.Live client w agent := by
          intro agent hlive
          obtain ⟨other, hother⟩ := h.1 ⟨agent, hlive⟩
          rw [Passing, hempty] at hother
          exact List.not_mem_nil hother
        exact ⟨iff_of_true one_ne_zero (.inr hdead), fun _ => rfl, fun h0 => absurd h0 one_ne_zero⟩
    | cons agent rest =>
        have hleast := h.2 agent (leastLoad_of_head hsorted)
        refine ⟨iff_of_false (fun h0 => h0 rfl) ?_, fun h0 => absurd rfl h0,
          fun _ => ⟨agent, hleast, rfl⟩⟩
        rintro (harea | hdead)
        · exact Live.areaOf_ne hleast.1 harea
        · exact hdead agent hleast.1

/-! ## The test -/

/-- A negative `int` is cast to a number near `2 ^ 64`. -/
theorem toNat_toUInt64 (n : Int32) : ((toUInt64 n).toNat : ℤ) = n.toInt % 2 ^ 64 := by
  have htoInt : n.toInt64.toInt = n.toInt := n.toInt_toInt64
  have hcond : n.toInt64.toInt = n.toInt64.toBitVec.toInt := rfl
  rw [BitVec.toInt_eq_toNat_cond] at hcond
  have hlt := n.toInt64.toBitVec.isLt
  have heq : (toUInt64 n).toNat = n.toInt64.toBitVec.toNat := rfl
  rw [heq, ← htoInt, hcond]
  split <;> omega

/-- The test compares remainders. -/
theorem passes_iff {now : UInt64} {agent : ErizoAgent} :
    self.passes now agent = true ↔
      ((now.toNat : ℤ) - agent.last_update.toNat) % 2 ^ 64 <
        self.erizo_agent_timeout.toInt % 2 ^ 64 := by
  have hnow := now.toNat_lt
  have hlast := agent.last_update.toNat_lt
  have hsub : ((now - agent.last_update).toNat : ℤ) =
      ((now.toNat : ℤ) - agent.last_update.toNat) % 2 ^ 64 := by
    rw [UInt64.toNat_sub]
    omega
  rw [passes, decide_eq_true_eq, UInt64.lt_iff_toNat_lt, ← Int.ofNat_lt, hsub, toNat_toUInt64]

/-- With a timeout that is not negative, those that pass the test are the agents that are alive
and whose clock is not ahead, or ahead by nearly `2 ^ 64`. -/
theorem passes_iff_of_nonneg (ht : 0 ≤ self.erizo_agent_timeout.toInt) {now : UInt64}
    {agent : ErizoAgent} :
    self.passes now agent = true ↔ self.Alive now agent ∧
      (agent.last_update ≤ now ∨
        (now.toNat : ℤ) + 2 ^ 64 - agent.last_update.toNat < self.erizo_agent_timeout.toInt) := by
  have hnow := now.toNat_lt
  have hlast := agent.last_update.toNat_lt
  have hlt := self.erizo_agent_timeout.toInt_lt
  rw [passes_iff, Alive, UInt64.le_iff_toNat_le]
  omega

/-- With a timeout that is not negative, the test does well if and only if it passes an agent of
the least load, or none is alive. -/
theorem testsWell_iff_of_nonneg (ht : 0 ≤ self.erizo_agent_timeout.toInt) {client : Client}
    {w : World} :
    self.TestsWell client w ↔ ((∃ agent, self.Live client w agent) →
      ∃ agent, self.Passing client w agent ∧ LeastLoad (self.Live client w) agent) := by
  have hlive : ∀ {agent}, self.Passing client w agent → self.Live client w agent := by
    intro agent hagent
    obtain ⟨area_name, harea, -, hmem, -, hpasses⟩ := (self.passing_iff).mp hagent
    exact ⟨area_name, harea, hmem, ((self.passes_iff_of_nonneg ht).mp hpasses).1⟩
  constructor
  · intro h hsome
    obtain ⟨agent, hagent⟩ := h.1 hsome
    cases hsorted : LoadSort.stable.sort (self.agentsAlive client w) with
    | nil =>
        have hperm := LoadSort.stable.perm (self.agentsAlive client w)
        rw [hsorted] at hperm
        rw [Passing, ← hperm.nil_eq] at hagent
        exact absurd hagent List.not_mem_nil
    | cons least rest =>
        have hleast := leastLoad_of_head hsorted
        exact ⟨least, hleast.1, h.2 least hleast⟩
  · intro h
    refine ⟨fun hsome => ?_, fun agent hleast => ⟨hlive hleast.1, fun other hother => ?_⟩⟩
    · obtain ⟨agent, hagent, -⟩ := h hsome
      exact ⟨agent, hagent⟩
    · obtain ⟨least, hpassing, -, hmin⟩ := h ⟨other, hother⟩
      exact Int32.le_trans (hleast.2 least hpassing) (hmin other hother)

/-- However equal loads are ordered, `allocAgent` takes a least loaded agent if and only if the
test does well. Those that pass it are the listed agents with a time from `2 ^ 31` on for which
the remainder of the age is below that of the timeout; and with a timeout that is not negative
the test does well exactly when it passes an agent of the least load, or none is alive. -/
theorem allocAgent_least_iff (client : Client) (w : World) :
    ((∀ sort : LoadSort, self.AllocatesLeast client w
        (exec (ErizoController.allocAgent { self with sort } client) w).1) ↔
      self.TestsWell client w) ∧
    (∀ agent, self.Passing client w agent ↔ ∃ area_name, self.areaOf client = some area_name ∧
      w.oracle.readFault.head = false ∧ agent ∈ w.redis .erizo_agent area_name ∧
      2 ^ 31 ≤ agent.last_update.toNat ∧
      ((w.oracle.systemMs.head.toNat : ℤ) - agent.last_update.toNat) % 2 ^ 64 <
        self.erizo_agent_timeout.toInt % 2 ^ 64) ∧
    (0 ≤ self.erizo_agent_timeout.toInt → (self.TestsWell client w ↔
      ((∃ agent, self.Live client w agent) →
        ∃ agent, self.Passing client w agent ∧ LeastLoad (self.Live client w) agent))) := by
  refine ⟨self.allocatesLeast_iff client w, fun agent => ?_,
    fun ht => self.testsWell_iff_of_nonneg ht⟩
  simp only [passing_iff, passes_iff, readsAsUint, decide_eq_true_eq]

/-- An agent whose clock is a millisecond ahead. -/
def agentAhead : ErizoAgent := ⟨"agent", 1099511627777, 0⟩

/-- The only agent of the area of the client, at a time when its clock is ahead. -/
def worldAhead : World :=
  .start (Redis.empty.update .erizo_agent "area" ((∅ : Table ErizoAgent).set agentAhead))
    { Oracle.quiet with systemMs := .const 1099511627776 }

/-- The same agent, a little later. -/
def worldAlone : World :=
  { worldAhead with oracle := { Oracle.quiet with systemMs := .const 1099511628000 } }

def areaController : ErizoController :=
  { ErizoController.ofId "ec" with server_mapping := [(0, "area")] }

theorem healthy_agent_dropped :
    ¬ areaController.AllocatesLeast { id := "c" } worldAhead
      (exec (areaController.allocAgent { id := "c" }) worldAhead).1 := by
  intro h
  rcases h.1.mp (by decide) with harea | hdead
  · exact absurd harea (by decide)
  · exact hdead agentAhead ⟨"area", rfl, by decide, by decide⟩

/-! ## The erizo -/

/-- What an agent answers: the erizo and where its bridges are reached. -/
structure Erizo where
  erizo_id : String
  bridge_ip : String
  bridge_port : UInt16
  deriving DecidableEq

/-- The erizo of an answer, none where the callback of `getErizo` sets `ret` to 1. -/
def erizoOf (root : Value) : Option Erizo :=
  match root.string? "erizoID", root.string? "bridgeIP",
    (root.int? "bridgePort").bind Value.asInt with
  | some erizoID, some bridgeIP, some bridgePort =>
      some ⟨erizoID, bridgeIP, UInt16.ofInt bridgePort⟩
  | _, _, _ => none

/-- The client on an erizo. -/
def placed (client : Client) (erizo : Erizo) : Client :=
  { client with
    erizo_id := erizo.erizo_id
    bridge_ip := erizo.bridge_ip
    bridge_port := erizo.bridge_port }

/-- The first of the next answers that names an erizo. -/
def firstErizo (replies : Stream' Value) : ℕ → Option Erizo
  | 0 => none
  | try_time + 1 => (erizoOf replies.head).or (firstErizo replies.tail try_time)

theorem onErizo_eq (client : Client) (root : Value) :
    onErizo client root = match erizoOf root with
      | none => (1, client)
      | some erizo => (0, placed client erizo) := by
  rw [onErizo, erizoOf]
  cases root.string? "erizoID" with
  | none => rfl
  | some erizoID =>
      cases root.string? "bridgeIP" with
      | none => rfl
      | some bridgeIP => cases (root.int? "bridgePort").bind Value.asInt <;> rfl

/-- `allocErizo` asks until an answer names an erizo. -/
theorem exec_allocErizoTries (client : Client) (try_time : ℕ) (w : World) :
    ∃ w', exec (allocErizoTries client try_time) w =
        (match firstErizo w.oracle.rpcReply try_time with
          | none => (1, client)
          | some erizo => (0, placed client erizo), w') ∧
      w'.redis = w.redis ∧ w'.oracle.writeFault = w.oracle.writeFault := by
  induction try_time generalizing w with
  | zero => exact ⟨w, rfl, rfl, rfl⟩
  | succ try_time ih =>
      rw [allocErizoTries, exec_bind, AMQP.rpc, exec_issue, perform, firstErizo]
      dsimp only
      rw [onErizo_eq]
      cases erizoOf w.oracle.rpcReply.head with
      | none =>
          rw [Option.none_or]
          exact ih _
      | some erizo => exact ⟨_, rfl, rfl, rfl⟩

/-! ## A token -/

/-- The client of a token before anything is allocated. -/
def entering (client : Client) : Client :=
  { client with room_id := "test_room_id", reply_to := self.getReplyTo }

theorem chosenAgent_entering {client : Client} {w : World} :
    self.chosenAgent (self.entering client) w = self.chosenAgent client w := rfl

/-- What a token comes to: where it fails, the client it leaves, its reply and the hashes. -/
inductive TokenOutcome (client : Client) (w : World) : Client × Value → Redis → Prop where
  | noAgent (hagent : self.chosenAgent client w = none) :
      TokenOutcome client w (self.entering client, .nullValue) w.redis
  | noErizo (agent : ErizoAgent) (hagent : self.chosenAgent client w = some agent)
      (herizo : firstErizo w.oracle.rpcReply 3 = none) :
      TokenOutcome client w ({ self.entering client with agent_id := agent.id }, .nullValue) w.redis
  | notFiled (agent : ErizoAgent) (erizo : Erizo) (hagent : self.chosenAgent client w = some agent)
      (herizo : firstErizo w.oracle.rpcReply 3 = some erizo)
      (hfault : w.oracle.writeFault.head = true) :
      TokenOutcome client w (placed { self.entering client with agent_id := agent.id } erizo,
        .nullValue) w.redis
  | halfFiled (agent : ErizoAgent) (erizo : Erizo) (c : Client)
      (hagent : self.chosenAgent client w = some agent)
      (herizo : firstErizo w.oracle.rpcReply 3 = some erizo)
      (hc : c = placed { self.entering client with agent_id := agent.id } erizo)
      (hwrite : w.oracle.writeFault.head = false) (hfault : w.oracle.writeFault.tail.head = true) :
      TokenOutcome client w (c, .nullValue) (w.redis.update .client "test_room_id"
        ((w.redis .client "test_room_id").set c.stored))
  | filed (agent : ErizoAgent) (erizo : Erizo) (c : Client) (publishers : List Publisher)
      (r : Redis)
      (hagent : self.chosenAgent client w = some agent)
      (herizo : firstErizo w.oracle.rpcReply 3 = some erizo)
      (hc : c = placed { self.entering client with agent_id := agent.id } erizo)
      (hwrite : w.oracle.writeFault.head = false)
      (hwrite' : w.oracle.writeFault.tail.head = false) :
      TokenOutcome client w (c, tokenReply c publishers) r

/-- The registration of a client that is placed. -/
theorem registerClient_outcome (c : Client) (w : World) :
    (w.oracle.writeFault.head = true ∧ (exec (self.registerClient c) w).1 = .nullValue ∧
        (exec (self.registerClient c) w).2.redis = w.redis) ∨
      (w.oracle.writeFault.head = false ∧ w.oracle.writeFault.tail.head = true ∧
        (exec (self.registerClient c) w).1 = .nullValue ∧
        (exec (self.registerClient c) w).2.redis =
          w.redis.update .client c.room_id ((w.redis .client c.room_id).set c.stored)) ∨
      (w.oracle.writeFault.head = false ∧ w.oracle.writeFault.tail.head = false ∧
        ∃ publishers, (exec (self.registerClient c) w).1 = tokenReply c publishers) := by
  rw [registerClient, exec_bind, RedisHelper.addClient]
  by_cases hfault : w.oracle.writeFault.head = true
  · rw [RedisHelper.exec_add_fault hfault]
    exact .inl ⟨hfault, rfl, rfl⟩
  · have hwrite := Bool.eq_false_of_not_eq_true hfault
    rw [RedisHelper.exec_add_write hwrite]
    dsimp only
    rw [if_neg (by decide), exec_bind, RedisHelper.addClientToEC]
    right
    by_cases hfault' : w.oracle.writeFault.tail.head = true
    · rw [RedisHelper.exec_add_fault hfault']
      exact .inl ⟨hwrite, hfault', rfl, rfl⟩
    · have hwrite' := Bool.eq_false_of_not_eq_true hfault'
      rw [RedisHelper.exec_add_write hwrite']
      dsimp only
      rw [if_neg (by decide), exec_bind, RedisHelper.getAllPublisher, RedisHelper.exec_getAll]
      exact .inr ⟨hwrite, hwrite', _, rfl⟩

theorem handleToken_outcome (client : Client) (w : World) :
    self.TokenOutcome client w (exec (self.handleToken client) w).1
      (exec (self.handleToken client) w).2.redis := by
  rw [handleToken, exec_bind]
  obtain ⟨w₁, hagent, hredis₁, hreply₁, hwrite₁⟩ := self.exec_allocAgent (self.entering client) w
  rw [chosenAgent_entering, entering] at hagent
  rw [hagent]
  cases hchosen : self.chosenAgent client w with
  | none =>
      dsimp only
      rw [if_pos (by decide), exec_pure, hredis₁]
      exact .noAgent hchosen
  | some agent =>
      dsimp only
      rw [if_neg (by decide), exec_bind, allocErizo]
      obtain ⟨w₂, herizo, hredis₂, hwrite₂⟩ :=
        exec_allocErizoTries { self.entering client with agent_id := agent.id } 3 w₁
      rw [entering] at herizo
      rw [herizo, hreply₁]
      cases hfirst : firstErizo w.oracle.rpcReply 3 with
      | none =>
          dsimp only
          rw [if_pos (by decide), exec_pure, hredis₂, hredis₁]
          exact .noErizo agent hchosen hfirst
      | some erizo =>
          dsimp only
          rw [if_neg (by decide), exec_bind, exec_pure]
          have houtcome := self.registerClient_outcome
            (placed { self.entering client with agent_id := agent.id } erizo) w₂
          rw [hwrite₂, hwrite₁, hredis₂, hredis₁] at houtcome
          rcases houtcome with ⟨hfault, hreply, hredis⟩ | ⟨hwrite, hfault, hreply, hredis⟩ |
            ⟨hwrite, hwrite', publishers, hreply⟩
          · rw [entering] at hreply hredis
            rw [hreply, hredis]
            exact .notFiled agent erizo hchosen hfirst hfault
          · rw [entering] at hreply hredis
            rw [hreply, hredis]
            exact .halfFiled agent erizo _ hchosen hfirst rfl hwrite hfault
          · rw [entering] at hreply
            rw [hreply]
            exact .filed agent erizo _ publishers _ hchosen hfirst rfl hwrite hwrite'

/-! ## Failing without a trace -/

attribute [ext] Client

/-- The fields and the hashes that a token writes are as before. -/
structure Unwritten (client client' : Client) (r r' : Redis) : Prop where
  room_id : client'.room_id = client.room_id
  reply_to : client'.reply_to = client.reply_to
  agent_id : client'.agent_id = client.agent_id
  erizo_id : client'.erizo_id = client.erizo_id
  bridge_ip : client'.bridge_ip = client.bridge_ip
  bridge_port : client'.bridge_port = client.bridge_port
  clients : r' .client = r .client
  controller_clients : r' .ec = r .ec

/-- The agent and the erizo of the client are those it had, or those of this token. -/
def SameAllocation (client : Client) (w : World) (client' : Client) : Prop :=
  (client'.agent_id = client.agent_id ∧ client'.erizo_id = client.erizo_id) ∨
    ∃ agent erizo, self.chosenAgent client w = some agent ∧
      firstErizo w.oracle.rpcReply 3 = some erizo ∧
      client'.agent_id = agent.id ∧ client'.erizo_id = erizo.erizo_id

/-- A token that is answered with null leaves everything as it was, and the agent and the erizo
always belong together. -/
def FailsCleanly (client : Client) (w : World) (outcome : (Client × Value) × World) : Prop :=
  (outcome.1.2 = .nullValue → Unwritten client outcome.1.1 w.redis outcome.2.redis) ∧
    self.SameAllocation client w outcome.1.1

/-- The agent answers, an erizo is named and both writes succeed. -/
def TokenSucceeds (client : Client) (w : World) : Prop :=
  self.chosenAgent client w ≠ none ∧ firstErizo w.oracle.rpcReply 3 ≠ none ∧
    w.oracle.writeFault.head = false ∧ w.oracle.writeFault.tail.head = false

/-- What a failing token gets to write is there already: the client has been in the room through
this controller, the agent that is chosen is its own, the erizo that is named is its own, and its
record is filed unless the first write fails. -/
def WritesNothingNew (client : Client) (w : World) : Prop :=
  client.room_id = "test_room_id" ∧ client.reply_to = self.getReplyTo ∧
    ∀ agent, self.chosenAgent client w = some agent → client.agent_id = agent.id ∧
      ∀ erizo, firstErizo w.oracle.rpcReply 3 = some erizo →
        client.erizo_id = erizo.erizo_id ∧ client.bridge_ip = erizo.bridge_ip ∧
          client.bridge_port = erizo.bridge_port ∧
          (w.oracle.writeFault.head = false → client.stored ∈ w.redis .client "test_room_id")

theorem update_kind_eq_iff {r : Redis} {k : Kind} {name : String} {t : Table k.Rec} :
    r.update k name t k = r k ↔ t = r k name := by
  constructor
  · intro heq
    have hname := congrFun heq name
    rwa [Redis.update_self] at hname
  · rintro rfl
    rw [Redis.update_eq_self]

section Allocated

variable {self : ErizoController} {client : Client} {w : World} {agent : ErizoAgent} {erizo : Erizo}

/-- Where the agent is chosen but no erizo is named. -/
theorem writesNothingNew_agent (hagent : self.chosenAgent client w = some agent)
    (herizo : firstErizo w.oracle.rpcReply 3 = none) :
    self.WritesNothingNew client w ↔ client.room_id = "test_room_id" ∧
      client.reply_to = self.getReplyTo ∧ client.agent_id = agent.id := by
  simp [WritesNothingNew, hagent, herizo]

/-- Where both are allocated. -/
theorem writesNothingNew_erizo (hagent : self.chosenAgent client w = some agent)
    (herizo : firstErizo w.oracle.rpcReply 3 = some erizo) :
    self.WritesNothingNew client w ↔
      client = placed { self.entering client with agent_id := agent.id } erizo ∧
        (w.oracle.writeFault.head = false → client.stored ∈ w.redis .client "test_room_id") := by
  rw [Client.ext_iff]
  simp only [WritesNothingNew, hagent, herizo, Option.some.injEq, forall_eq', placed, entering]
  tauto

/-- The fields of a client that is placed where it was. -/
theorem unwritten_placed {r : Redis} :
    Unwritten client (placed { self.entering client with agent_id := agent.id } erizo) w.redis r ↔
      client = placed { self.entering client with agent_id := agent.id } erizo ∧
        r .client = w.redis .client ∧ r .ec = w.redis .ec := by
  rw [Client.ext_iff]
  constructor
  · rintro ⟨hroom, hreply, hagent, herizo, hip, hport, hclients, hec⟩
    exact ⟨⟨rfl, hagent.symm, herizo.symm, hip.symm, hport.symm, hroom.symm, rfl, rfl, rfl,
      hreply.symm,
      rfl⟩, hclients, hec⟩
  · rintro ⟨⟨-, hagent, herizo, hip, hport, hroom, -, -, -, hreply, -⟩, hclients, hec⟩
    exact ⟨hroom.symm, hreply.symm, hagent.symm, herizo.symm, hip.symm, hport.symm, hclients, hec⟩

end Allocated

theorem handleToken_fails_cleanly_iff (client : Client) (w : World) :
    self.FailsCleanly client w (exec (self.handleToken client) w) ↔
      self.TokenSucceeds client w ∨ self.WritesNothingNew client w := by
  have houtcome := self.handleToken_outcome client w
  rw [FailsCleanly]
  generalize (exec (self.handleToken client) w).1 = result at houtcome ⊢
  generalize (exec (self.handleToken client) w).2.redis = r at houtcome ⊢
  cases houtcome with
  | noAgent hagent =>
      rw [or_iff_right fun h : self.TokenSucceeds client w => h.1 hagent]
      constructor
      · rintro ⟨h, -⟩
        exact ⟨(h rfl).room_id.symm, (h rfl).reply_to.symm, by simp [hagent]⟩
      · rintro ⟨hroom, hreply, -⟩
        exact ⟨fun _ => ⟨hroom.symm, hreply.symm, rfl, rfl, rfl, rfl, rfl, rfl⟩, .inl ⟨rfl, rfl⟩⟩
  | noErizo agent hagent herizo =>
      rw [or_iff_right fun h : self.TokenSucceeds client w => h.2.1 herizo,
        writesNothingNew_agent hagent herizo]
      constructor
      · rintro ⟨h, -⟩
        exact ⟨(h rfl).room_id.symm, (h rfl).reply_to.symm, (h rfl).agent_id.symm⟩
      · rintro ⟨hroom, hreply, hid⟩
        exact ⟨fun _ => ⟨hroom.symm, hreply.symm, hid.symm, rfl, rfl, rfl, rfl, rfl⟩,
          .inl ⟨hid.symm, rfl⟩⟩
  | notFiled agent erizo hagent herizo hfault =>
      have hsame : self.SameAllocation client w
          (placed { self.entering client with agent_id := agent.id } erizo) :=
        .inr ⟨agent, erizo, hagent, herizo, rfl, rfl⟩
      rw [and_iff_left hsame, forall_prop_of_true rfl, unwritten_placed,
        or_iff_right fun h : self.TokenSucceeds client w =>
          Bool.noConfusion (h.2.2.1.symm.trans hfault),
          writesNothingNew_erizo hagent herizo, hfault]
      simp
  | halfFiled agent erizo c hagent herizo hc hwrite hfault =>
      have hsame : self.SameAllocation client w c := by
        rw [hc]
        exact .inr ⟨agent, erizo, hagent, herizo, rfl, rfl⟩
      rw [and_iff_left hsame, forall_prop_of_true rfl,
        or_iff_right fun h : self.TokenSucceeds client w =>
          Bool.noConfusion (h.2.2.2.symm.trans hfault), writesNothingNew_erizo hagent herizo]
      subst hc
      have hec : ∀ t, w.redis.update .client "test_room_id" t .ec = w.redis .ec :=
        fun t => funext fun name => Redis.update_kind _ _ _ _ (by decide)
      rw [unwritten_placed, update_kind_eq_iff, Table.set_eq_self_iff, and_iff_left (hec _)]
      constructor
      · rintro ⟨hclient, hmem⟩
        rw [← hclient] at hmem
        exact ⟨hclient, fun _ => hmem⟩
      · rintro ⟨hclient, hmem⟩
        rw [← hclient]
        exact ⟨rfl, hmem hwrite⟩
  | filed agent erizo c publishers r hagent herizo hc hwrite hwrite' =>
      refine iff_of_true ⟨fun hnull => (by cases hnull),
        ?_⟩ (.inl ⟨by simp [hagent], by simp [herizo],
        hwrite, hwrite'⟩)
      rw [hc]
      exact .inr ⟨agent, erizo, hagent, herizo, rfl, rfl⟩

/-- A client on an erizo of an agent that is gone, and another agent that does not answer. -/
def sampleMoved : Client where
  id := "c"
  agent_id := "a1"
  erizo_id := "e1"
  bridge_ip := "10.0.0.1"
  bridge_port := 6000
  room_id := "test_room_id"
  reply_to := "ec"

/-- The second token of a client fails, and leaves it with the erizo of one agent and the name of
another. -/
theorem token_leaves_mixed_client :
    ¬ areaController.FailsCleanly sampleMoved worldAlone
        (exec (areaController.handleToken sampleMoved) worldAlone) ∧
      (exec (areaController.handleToken sampleMoved) worldAlone).1.1.agent_id = "agent" ∧
      (exec (areaController.handleToken sampleMoved) worldAlone).1.1.erizo_id = "e1" := by
  refine ⟨fun h => ?_, by decide, by decide⟩
  have hid := (h.1 rfl).agent_id
  exact absurd hid (by decide)

end ErizoController
