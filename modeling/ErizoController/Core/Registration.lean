import ErizoController.Core.SessionDiscipline
import ErizoController.Core.Teardown

/-!
# The registration of clients with their controllers

A token files the client under its room and, under the same id, in the hash of its controller,
whose name `removeClient` takes from the client's `reply_to`. Both hashes hold the same clients
at all times, so removing all clients of a controller's hash removes all clients that were
registered through it.
-/

namespace AMQPCli

/-- `reply_to_` after `init`, where the broker has named the queue. -/
def replyTo (binding_key queuename : String) : String :=
  if binding_key = "" then queuename else binding_key

end AMQPCli

namespace ErizoController

/-- The signaling queue is bound under the id of the controller, and answers come back there. -/
theorem replyTo_id (self : ErizoController) (hid : self.id_ ≠ "") (queuename : String) :
    AMQPCli.replyTo self.id_ queuename = self.getReplyTo := if_neg hid

/-! ## A token -/

/-- No Redis command fails. -/
def Faultless (w : World) : Prop := w.ReadsSucceed ∧ w.WritesSucceed

theorem Faultless.exec {α : Type} {p : Handler α} (hp : p.Each SilentCommand) {w : World}
    (h : Faultless w) : (exec p w).2.redis = w.redis ∧ Faultless (exec p w).2 := by
  refine hp.run (I := fun v => v.redis = w.redis ∧ Faultless v) (fun c v hc hv => ?_) ⟨rfl, h⟩
  cases c with
  | hset k name row => exact hc.elim
  | hdel k name fields => exact hc.elim
  | getStreamID => exact hc.elim
  | hget k name field =>
      rw [perform, hv.2.1.head, if_neg Bool.false_ne_true, hv.2.1.drawRead]
      exact hv
  | hvals k name =>
      rw [perform, hv.2.1.head, if_neg Bool.false_ne_true, hv.2.1.drawRead]
      exact hv
  | _ => exact hv

/-- The hashes after a registration. -/
def registered (self : ErizoController) (client : Client) (r : Redis) : Redis :=
  (r.update .client client.room_id ((r .client client.room_id).set client.stored)).update .ec
    self.id_ ((r .ec self.id_).set client.stored)

theorem exec_registerClient (self : ErizoController) (client : Client) {w : World}
    (h : Faultless w) :
    (exec (self.registerClient client) w).2.redis = self.registered client w.redis := by
  rw [registerClient, exec_bind, RedisHelper.addClient, RedisHelper.exec_add_ok h.2]
  dsimp only
  rw [if_neg (by decide), exec_bind, RedisHelper.addClientToEC,
    RedisHelper.exec_add_ok (w := w.effect _ _) h.2]
  dsimp only
  rw [if_neg (by decide), exec_bind, RedisHelper.getAllPublisher,
    RedisHelper.exec_getAll_ok (w := (w.effect _ _).effect _ _) h.1]
  simp [registered]

/-- A token without failures of Redis writes nothing, or files the client under its room and
its controller. -/
theorem exec_handleToken (self : ErizoController) (client : Client) {w : World}
    (h : Faultless w) :
    Enters self client (exec (self.handleToken client) w).1.1 ∧
      ((exec (self.handleToken client) w).2.redis = w.redis ∨
        (exec (self.handleToken client) w).2.redis =
          self.registered (exec (self.handleToken client) w).1.1 w.redis) := by
  refine ⟨(returns_handleToken self client).run perform w, ?_⟩
  rw [handleToken, exec_bind]
  obtain ⟨hagent, hfaultless⟩ := h.exec (each_allocAgent self
    { client with room_id := "test_room_id", reply_to := self.getReplyTo })
  generalize exec (self.allocAgent
    { client with room_id := "test_room_id", reply_to := self.getReplyTo }) w = allocated
    at hagent hfaultless ⊢
  obtain ⟨⟨ret, client₁⟩, w₁⟩ := allocated
  dsimp only at hagent hfaultless ⊢
  split
  · exact .inl hagent
  · rw [exec_bind, allocErizo]
    obtain ⟨herizo, hfaultless'⟩ := hfaultless.exec (each_allocErizoTries client₁ 3)
    generalize exec (allocErizoTries client₁ 3) w₁ = allocated at herizo hfaultless' ⊢
    obtain ⟨⟨ret', client₂⟩, w₂⟩ := allocated
    dsimp only at herizo hfaultless' ⊢
    split
    · exact .inl (herizo.trans hagent)
    · right
      rw [exec_bind]
      dsimp only [exec_pure]
      rw [exec_registerClient self client₂ hfaultless', herizo, hagent]

/-! ## The clients of a room and of a controller -/

section Members

variable {client row : Client} {r : Redis} {name : String}

theorem mem_removed_client :
    row ∈ removed client r .client name ↔
      row ∈ r .client name ∧ ¬ (name = client.room_id ∧ row.id = client.id) := by
  by_cases hname : name = client.room_id
  · subst hname
    rw [footprintGone_removed.clients]
    simp
  · rw [removed_other (fun h => hname h.2) fun h => by cases h.1]
    simp [hname]

theorem mem_removed_ec :
    row ∈ removed client r .ec name ↔
      row ∈ r .ec name ∧ ¬ (name = client.reply_to ∧ row.id = client.id) := by
  by_cases hname : name = client.reply_to
  · subst hname
    rw [footprintGone_removed.controller_clients]
    simp
  · rw [removed_other (fun h => by simp at h) fun h => hname h.2]
    simp [hname]

theorem mem_registered_client {self : ErizoController} :
    row ∈ self.registered client r .client name ↔ (name = client.room_id ∧ row = client.stored) ∨
      (row ∈ r .client name ∧ ¬ (name = client.room_id ∧ row.id = client.id)) := by
  rw [registered, Redis.update_kind _ _ _ _ (by decide)]
  by_cases hname : name = client.room_id
  · subst hname
    rw [Redis.update_self, Table.mem_set]
    simp [Client.stored]
  · rw [Redis.update_name _ _ _ hname]
    simp [hname]

theorem mem_registered_ec {self : ErizoController} :
    row ∈ self.registered client r .ec name ↔ (name = self.id_ ∧ row = client.stored) ∨
      (row ∈ r .ec name ∧ ¬ (name = self.id_ ∧ row.id = client.id)) := by
  rw [registered]
  by_cases hname : name = self.id_
  · subst hname
    rw [Redis.update_self, Table.mem_set]
    simp [Client.stored]
  · rw [Redis.update_name _ _ _ hname, Redis.update_kind _ _ _ _ (by decide)]
    simp [hname]

end Members

/-! ## Sequences of tokens and removals -/

/-- The answers of the outside, with no Redis command failing and every lock obtained. -/
def faultless (o : Oracle) : Oracle :=
  { o with lockTaken := .const true, readFault := .const false, writeFault := .const false }

/-- The store, and the `Client` of each connection by its id. -/
structure Registry where
  world : World
  conn : String → Client

/-- A completed `handleToken` of a connection; a completed `removeClient`, given the client of
the connection or the record stored in a room or in the hash of a controller; and other
changes of the store, which leave the clients alone. -/
inductive RegistryAction where
  | token (client_id : String) (o : Oracle)
  | close (client_id : String) (o : Oracle)
  | remove (k : Kind) (name : String) (row : Client) (o : Oracle)
  | others (redis : Redis)

section Runs

variable (home : String → ErizoController)

/-- The store after a `removeClient`. -/
def Registry.removing (client : Client) (o : Oracle) (s : Registry) : Registry :=
  { s with world := (execSession (removeClient client) (s.world.withOracle (faultless o))).2 }

def registryStep : RegistryAction → Registry → Option Registry
  | .token client_id o, s =>
      let ((client, _), world) := exec ((home client_id).handleToken (s.conn client_id))
        (s.world.withOracle (faultless o))
      some { world, conn := Function.update s.conn client_id client }
  | .close client_id o, s => some (s.removing (s.conn client_id) o)
  | .remove k name row o, s =>
      match k with
      | .client => if row ∈ s.world.redis .client name then some (s.removing row o) else none
      | .ec => if row ∈ s.world.redis .ec name then some (s.removing row o) else none
      | _ => none
  | .others redis, s => some { s with
      world := { s.world with redis := fun k name =>
        if k = .client ∨ k = .ec then s.world.redis k name else redis k name } }

/-- Each client id is that of one connection of one controller, and no client is stored. -/
def registry : Machine RegistryAction Registry where
  init s := (∀ client_id, (s.conn client_id).id = client_id) ∧
    ∀ name, s.world.redis .client name = ∅ ∧ s.world.redis .ec name = ∅
  step := registryStep home

/-- What every run keeps: a stored client is in its room and in the hash of its controller,
with the same record, and its connection has the same room and controller. -/
structure Indexed (s : Registry) : Prop where
  conn : ∀ client_id, (s.conn client_id).id = client_id
  clients : ∀ room_id, ∀ row ∈ s.world.redis .client room_id,
    row.room_id = room_id ∧ row.room_id = test_room_id ∧ row.reply_to = (home row.id).id_ ∧
      row ∈ s.world.redis .ec row.reply_to
  listed : ∀ name, ∀ row ∈ s.world.redis .ec name,
    row.reply_to = name ∧ row ∈ s.world.redis .client row.room_id
  same : ∀ room_id, ∀ row ∈ s.world.redis .client room_id,
    (s.conn row.id).room_id = row.room_id ∧ (s.conn row.id).reply_to = row.reply_to

variable {home}

theorem Registry.removing_redis (client : Client) (o : Oracle) (s : Registry) :
    (s.removing client o).world.redis = removed client s.world.redis := by
  rw [removing, execSession_removeClient_ok (w := s.world.withOracle (faultless o)) rfl rfl rfl]
  rfl

/-- A removal that names the room and the controller of the stored client keeps the index. -/
theorem Indexed.removing {s : Registry} (h : Indexed home s) {client : Client} (o : Oracle)
    (hclient : ∀ room_id, ∀ row ∈ s.world.redis .client room_id, row.id = client.id →
      row.room_id = client.room_id ∧ row.reply_to = client.reply_to) :
    Indexed home (s.removing client o) := by
  have hmem : ∀ {name row}, row ∈ (s.removing client o).world.redis .client name ↔
      row ∈ s.world.redis .client name ∧ ¬ (name = client.room_id ∧ row.id = client.id) := by
    intro name row
    rw [s.removing_redis]
    exact mem_removed_client
  have hlisted : ∀ {name row}, row ∈ (s.removing client o).world.redis .ec name ↔
      row ∈ s.world.redis .ec name ∧ ¬ (name = client.reply_to ∧ row.id = client.id) := by
    intro name row
    rw [s.removing_redis]
    exact mem_removed_ec
  refine ⟨h.conn, fun room_id row hrow => ?_, fun name row hrow => ?_, fun room_id row hrow =>
    h.same room_id row (hmem.mp hrow).1⟩
  · obtain ⟨hrow, hstays⟩ := hmem.mp hrow
    obtain ⟨hroom, htest, hreply, hec⟩ := h.clients room_id row hrow
    refine ⟨hroom, htest, hreply, hlisted.mpr ⟨hec, fun hgone => hstays ?_⟩⟩
    exact ⟨hroom.symm.trans (hclient room_id row hrow hgone.2).1, hgone.2⟩
  · obtain ⟨hrow, hstays⟩ := hlisted.mp hrow
    obtain ⟨hreply, hroom⟩ := h.listed name row hrow
    refine ⟨hreply, hmem.mpr ⟨hroom, fun hgone => hstays ?_⟩⟩
    exact ⟨hreply.symm.trans (hclient _ row hroom hgone.2).2, hgone.2⟩

/-- Filing the client of a connection under the room and the controller of its token keeps the
index. -/
theorem Indexed.registering {s : Registry} (h : Indexed home s) {client : Client} {w : World}
    (hroom : client.room_id = test_room_id) (hreply : client.reply_to = (home client.id).id_)
    (hw : w.redis = s.world.redis ∨ w.redis = (home client.id).registered client s.world.redis) :
    Indexed home { world := w, conn := Function.update s.conn client.id client } := by
  have hconn : ∀ client_id, (Function.update s.conn client.id client client_id).id = client_id := by
    intro client_id
    by_cases hid : client_id = client.id
    · subst hid
      rw [Function.update_self]
    · rw [Function.update_of_ne hid]
      exact h.conn client_id
  have hsame : ∀ row : Client, (row.id = client.id → row.room_id = test_room_id ∧
      row.reply_to = (home row.id).id_) → (row.id ≠ client.id →
      (s.conn row.id).room_id = row.room_id ∧ (s.conn row.id).reply_to = row.reply_to) →
      (Function.update s.conn client.id client row.id).room_id = row.room_id ∧
        (Function.update s.conn client.id client row.id).reply_to = row.reply_to := by
    intro row hnew hold
    by_cases hid : row.id = client.id
    · obtain ⟨htest, hhome⟩ := hnew hid
      rw [hid, Function.update_self, htest, hhome, hroom, hreply, hid]
      exact ⟨rfl, rfl⟩
    · rw [Function.update_of_ne hid]
      exact hold hid
  rcases hw with hw | hw
  · refine ⟨hconn, fun room_id row hrow => ?_, fun name row hrow => ?_, fun room_id row hrow => ?_⟩
    · dsimp only at hrow ⊢
      rw [hw] at hrow ⊢
      exact h.clients room_id row hrow
    · dsimp only at hrow ⊢
      rw [hw] at hrow ⊢
      exact h.listed name row hrow
    · dsimp only at hrow
      rw [hw] at hrow
      obtain ⟨-, htest, hhome, -⟩ := h.clients room_id row hrow
      exact hsame row (fun _ => ⟨htest, hhome⟩) fun _ => h.same room_id row hrow
  · refine ⟨hconn, fun room_id row hrow => ?_, fun name row hrow => ?_, fun room_id row hrow => ?_⟩
    · dsimp only at hrow ⊢
      rw [hw] at hrow ⊢
      rcases mem_registered_client.mp hrow with ⟨hname, rfl⟩ | ⟨hrow, hstays⟩
      · exact ⟨hname.symm, hroom, hreply, mem_registered_ec.mpr (.inl ⟨hreply, rfl⟩)⟩
      · obtain ⟨heq, htest, hhome, hec⟩ := h.clients room_id row hrow
        refine ⟨heq, htest, hhome, mem_registered_ec.mpr (.inr ⟨hec, fun hgone => hstays ?_⟩)⟩
        exact ⟨heq.symm.trans (htest.trans hroom.symm), hgone.2⟩
    · dsimp only at hrow ⊢
      rw [hw] at hrow ⊢
      rcases mem_registered_ec.mp hrow with ⟨hname, rfl⟩ | ⟨hrow, hstays⟩
      · exact ⟨hreply.trans hname.symm, mem_registered_client.mpr (.inl ⟨rfl, rfl⟩)⟩
      · obtain ⟨heq, hin⟩ := h.listed name row hrow
        refine ⟨heq, mem_registered_client.mpr (.inr ⟨hin, fun hgone => hstays ?_⟩)⟩
        obtain ⟨-, -, hhome, -⟩ := h.clients _ row hin
        exact ⟨heq.symm.trans (hgone.2 ▸ hhome), hgone.2⟩
    · dsimp only at hrow
      rw [hw] at hrow
      rcases mem_registered_client.mp hrow with ⟨-, rfl⟩ | ⟨hrow, -⟩
      · exact hsame _ (fun _ => ⟨hroom, hreply⟩) fun hid => absurd rfl hid
      · obtain ⟨-, htest, hhome, -⟩ := h.clients room_id row hrow
        exact hsame row (fun _ => ⟨htest, hhome⟩) fun _ => h.same room_id row hrow

theorem Indexed.step {a : RegistryAction} {s s' : Registry} (h : Indexed home s)
    (hstep : registryStep home a s = some s') : Indexed home s' := by
  cases a with
  | token client_id o =>
      obtain ⟨⟨hid, hroom, hreply⟩, hredis⟩ := exec_handleToken (home client_id) (s.conn client_id)
        (w := s.world.withOracle (faultless o)) ⟨rfl, rfl⟩
      rw [registryStep] at hstep
      generalize exec ((home client_id).handleToken (s.conn client_id))
        (s.world.withOracle (faultless o)) = result at hid hroom hreply hredis hstep
      obtain ⟨⟨client, reply⟩, w⟩ := result
      dsimp only at hid hroom hreply hredis hstep
      rw [h.conn client_id] at hid
      subst hid
      rw [← Option.some.inj hstep]
      exact h.registering hroom hreply hredis
  | close client_id o =>
      obtain rfl := Option.some.inj hstep
      refine h.removing o fun room_id row hrow hid => ?_
      rw [h.conn client_id] at hid
      subst hid
      obtain ⟨hroom, hreply⟩ := h.same room_id row hrow
      exact ⟨hroom.symm, hreply.symm⟩
  | remove k name row o =>
      have hstored : ∀ name, row ∈ s.world.redis .client name →
          Indexed home (s.removing row o) := by
        intro name hrow
        refine h.removing o fun room_id row' hrow' hid => ?_
        obtain ⟨hroom, htest, -, -⟩ := h.clients name row hrow
        obtain ⟨hroom', htest', -, -⟩ := h.clients room_id row' hrow'
        have hname : room_id = name := hroom'.symm.trans (htest'.trans (htest.symm.trans hroom))
        subst hname
        have heq : row' = row := Table.eq_of_key_eq hrow' hrow hid
        rw [heq]
        exact ⟨rfl, rfl⟩
      cases k with
      | client =>
          simp only [registryStep] at hstep
          split at hstep
          · rename_i hrow
            obtain rfl := Option.some.inj hstep
            exact hstored name hrow
          · cases hstep
      | ec =>
          simp only [registryStep] at hstep
          split at hstep
          · rename_i hrow
            obtain rfl := Option.some.inj hstep
            exact hstored _ (h.listed name row hrow).2
          · cases hstep
      | _ => cases hstep
  | others redis =>
      obtain rfl := Option.some.inj hstep
      exact ⟨h.conn, h.clients, h.listed, h.same⟩

theorem indexed_of_reachable {s : Registry} (hs : (registry home).Reachable s) :
    Indexed home s := by
  refine hs.invariant (fun s hinit => ?_) fun a s s' h _ hstep => h.step hstep
  obtain ⟨hconn, hempty⟩ := hinit
  refine ⟨hconn, fun room_id row hrow => ?_, fun name row hrow => ?_, fun room_id row hrow => ?_⟩
  · rw [(hempty room_id).1] at hrow
    exact absurd hrow (Table.not_mem_empty row)
  · rw [(hempty name).2] at hrow
    exact absurd hrow (Table.not_mem_empty row)
  · rw [(hempty room_id).1] at hrow
    exact absurd hrow (Table.not_mem_empty row)

end Runs

/-! ## The removal of a controller's clients -/

/-- The hashes after the removal of a list of clients. -/
def removedAll (clients : List Client) (r : Redis) : Redis :=
  clients.foldl (fun r client => removed client r) r

theorem execSession_removeClients_redis (clients : List Client) {w : World}
    (h : Faultless w) (hlock : w.oracle.lockTaken = .const true) :
    (execSession (removeClients clients) w).2.redis = removedAll clients w.redis := by
  induction clients generalizing w with
  | nil => rfl
  | cons client clients ih =>
      have htaken : (tryLock client.room_id w).1 = true := by
        rw [tryLock, hlock]
        rfl
      have htail : w.oracle.lockTaken.tail = .const true := by rw [hlock, Stream'.tail_const]
      rw [removeClients, execSession_bind, execSession_removeClient_ok h.1 h.2 htaken]
      dsimp only
      rw [ih (w := (tryLock client.room_id w).2.effect _ _) h htail]
      rfl

theorem execSession_removeExpire_redis (name : String) (w : World) (o : Oracle) :
    (execSession (removeExpireErizoController name) (w.withOracle (faultless o))).2.redis =
      removedAll (w.redis .ec name).rows w.redis := by
  rw [removeExpireErizoController, execSession_bind, execSession_lift,
    RedisHelper.getAllClientFromEC,
    RedisHelper.exec_getAll_ok (w := w.withOracle (faultless o)) rfl, List.filter_true]
  dsimp only
  rw [execSession_removeClients_redis _ (w := w.withOracle (faultless o)) ⟨rfl, rfl⟩ rfl]
  rfl

section RemovedAll

variable {clients : List Client} {r : Redis} {name : String}

theorem mem_removedAll_client {row : Client} :
    row ∈ removedAll clients r .client name ↔ row ∈ r .client name ∧
      ∀ client ∈ clients, ¬ (name = client.room_id ∧ row.id = client.id) := by
  induction clients generalizing r with
  | nil => simp [removedAll]
  | cons client clients ih =>
      rw [removedAll, List.foldl_cons, ← removedAll, ih, mem_removed_client, List.forall_mem_cons,
        and_assoc]

theorem mem_removedAll_ec {row : Client} :
    row ∈ removedAll clients r .ec name ↔ row ∈ r .ec name ∧
      ∀ client ∈ clients, ¬ (name = client.reply_to ∧ row.id = client.id) := by
  induction clients generalizing r with
  | nil => simp [removedAll]
  | cons client clients ih =>
      rw [removedAll, List.foldl_cons, ← removedAll, ih, mem_removed_ec, List.forall_mem_cons,
        and_assoc]

theorem mem_removed_publisher {client : Client} {p : Publisher} :
    p ∈ removed client r .publisher name ↔
      p ∈ r .publisher name ∧ ¬ (name = client.room_id ∧ p.client_id = client.id) := by
  by_cases hname : name = client.room_id
  · subst hname
    rw [footprintGone_removed.publishers]
    simp
  · rw [removed_other (fun h => hname h.2) fun h => by cases h.1]
    simp [hname]

theorem mem_removedAll_publisher {p : Publisher} :
    p ∈ removedAll clients r .publisher name ↔ p ∈ r .publisher name ∧
      ∀ client ∈ clients, ¬ (name = client.room_id ∧ p.client_id = client.id) := by
  induction clients generalizing r with
  | nil => simp [removedAll]
  | cons client clients ih =>
      rw [removedAll, List.foldl_cons, ← removedAll, ih, mem_removed_publisher,
        List.forall_mem_cons, and_assoc]

/-- A subscriber that a removal of the client takes out of a room. -/
def GoesWith (client : Client) (name : String) (r : Redis) (s : Subscriber) : Prop :=
  name = client.room_id ∧ (s.client_id = client.id ∨
    ∃ p ∈ r .publisher name, p.client_id = client.id ∧ s.subscribe_to = p.id)

theorem mem_removed_subscriber {client : Client} {s : Subscriber} :
    s ∈ removed client r .subscriber name ↔
      s ∈ r .subscriber name ∧ ¬ GoesWith client name r s := by
  by_cases hname : name = client.room_id
  · subst hname
    rw [footprintGone_removed.subscribers, GoesWith]
    simp
  · rw [removed_other (fun h => hname h.2) fun h => by cases h.1]
    exact (and_iff_left fun hgone => hname hgone.1).symm

theorem mem_removedAll_subscriber {s : Subscriber} :
    s ∈ removedAll clients r .subscriber name ↔
      s ∈ r .subscriber name ∧ ∀ client ∈ clients, ¬ GoesWith client name r s := by
  induction clients generalizing r with
  | nil => simp [removedAll]
  | cons client clients ih =>
      rw [removedAll, List.foldl_cons, ← removedAll, ih, mem_removed_subscriber,
        List.forall_mem_cons, and_assoc]
      refine and_congr_right fun _ => and_congr_right fun hfirst => ?_
      -- a publisher that the first removal has taken out has made the subscriber go before
      refine forall₂_congr fun c _ => not_congr ⟨?_, ?_⟩
      · rintro ⟨hname, hown | ⟨p, hp, hclient, hto⟩⟩
        · exact ⟨hname, .inl hown⟩
        · exact ⟨hname, .inr ⟨p, (mem_removed_publisher.mp hp).1, hclient, hto⟩⟩
      · rintro ⟨hname, hown | ⟨p, hp, hclient, hto⟩⟩
        · exact ⟨hname, .inl hown⟩
        · refine ⟨hname, .inr ⟨p, mem_removed_publisher.mpr ⟨hp, fun hgone => ?_⟩, hclient, hto⟩⟩
          exact hfirst ⟨hgone.1, .inr ⟨p, hp, hgone.2, hto⟩⟩

end RemovedAll

/-! ## The index -/

/-- The hash of a client's room and that of its controller index the same records: a record
is in its room exactly when it is in the hash that its `reply_to` names, no other hash has its
client, and `reply_to` is the name under which the client's controller receives signaling. -/
structure Index (home : String → ErizoController) (r : Redis) : Prop where
  exact : ∀ room_id row, row ∈ r .client room_id ↔
    row.room_id = room_id ∧ row ∈ r .ec row.reply_to
  unique : ∀ room_id, ∀ row ∈ r .client room_id, ∀ name, ∀ row' ∈ r .ec name, row'.id = row.id →
    name = row.reply_to ∧ row' = row
  reply_to : ∀ room_id, ∀ row ∈ r .client room_id, ∀ queuename,
    row.reply_to = AMQPCli.replyTo (home row.id).id_ queuename

/-- From `r` to `r'` exactly the clients of a controller are gone, with their publishers and
the subscribers that belong to them. -/
structure ExpiredGone (name : String) (r r' : Redis) : Prop where
  clients : ∀ room_id row, row ∈ r' .client room_id ↔
    row ∈ r .client room_id ∧ row.reply_to ≠ name
  listed : ∀ name' row, row ∈ r' .ec name' ↔ row ∈ r .ec name' ∧ name' ≠ name
  publishers : ∀ room_id p, p ∈ r' .publisher room_id ↔ p ∈ r .publisher room_id ∧
    ∀ row ∈ r .client room_id, row.reply_to = name → p.client_id ≠ row.id
  subscribers : ∀ room_id s, s ∈ r' .subscriber room_id ↔ s ∈ r .subscriber room_id ∧
    ∀ row ∈ r .client room_id, row.reply_to = name → ¬ GoesWith row room_id r s

variable {home : String → ErizoController}

theorem Indexed.index {s : Registry} (h : Indexed home s)
    (hids : ∀ client_id, (home client_id).id_ ≠ "") :
    Index home s.world.redis where
  exact room_id row := by
    constructor
    · intro hrow
      obtain ⟨hroom, -, -, hec⟩ := h.clients room_id row hrow
      exact ⟨hroom, hec⟩
    · rintro ⟨rfl, hec⟩
      exact (h.listed _ row hec).2
  unique room_id row hrow name row' hrow' hid := by
    obtain ⟨hname, hin⟩ := h.listed name row' hrow'
    obtain ⟨hroom, htest, -, -⟩ := h.clients room_id row hrow
    obtain ⟨-, htest', -, -⟩ := h.clients _ row' hin
    have hsame : row'.room_id = room_id := htest'.trans (htest.symm.trans hroom)
    rw [hsame] at hin
    have heq : row' = row := Table.eq_of_key_eq hin hrow hid
    exact ⟨by rw [← hname, heq], heq⟩
  reply_to room_id row hrow queuename := by
    obtain ⟨-, -, hhome, -⟩ := h.clients room_id row hrow
    rw [replyTo_id _ (hids row.id)]
    exact hhome

/-- The clients of a controller's hash are those stored in the rooms that were registered
through it. -/
theorem Indexed.mem_listed_iff {s : Registry} (h : Indexed home s) {name room_id : String}
    {row : Client} :
    (row ∈ s.world.redis .ec name ∧ room_id = row.room_id) ↔
      (row ∈ s.world.redis .client room_id ∧ row.reply_to = name) := by
  constructor
  · rintro ⟨hrow, rfl⟩
    obtain ⟨hname, hin⟩ := h.listed name row hrow
    exact ⟨hin, hname⟩
  · rintro ⟨hrow, rfl⟩
    obtain ⟨hroom, -, -, hec⟩ := h.clients room_id row hrow
    exact ⟨hec, hroom.symm⟩

theorem Indexed.expiredGone {s : Registry} (h : Indexed home s) (name : String) :
    ExpiredGone name s.world.redis
      (removedAll (s.world.redis .ec name).rows s.world.redis) where
  clients room_id row := by
    rw [mem_removedAll_client]
    refine and_congr_right fun hrow => ⟨fun hstays hname => ?_, fun hname c hc hgone => ?_⟩
    · obtain ⟨hec, hroom⟩ := h.mem_listed_iff.mpr ⟨hrow, hname⟩
      exact hstays row hec ⟨hroom, rfl⟩
    · obtain ⟨hin, hreply⟩ := h.mem_listed_iff.mp ⟨hc, hgone.1⟩
      have heq : row = c := Table.eq_of_key_eq hrow hin hgone.2
      exact hname (heq ▸ hreply)
  listed name' row := by
    rw [mem_removedAll_ec]
    refine and_congr_right fun hrow => ⟨fun hstays hname => ?_, fun hname c hc hgone => ?_⟩
    · subst hname
      exact hstays row hrow ⟨(h.listed name' row hrow).1.symm, rfl⟩
    · exact hname (hgone.1.trans (h.listed name c hc).1)
  publishers room_id p := by
    rw [mem_removedAll_publisher]
    refine and_congr_right fun hp => ⟨fun hstays row hrow hname hid => ?_,
      fun hother c hc hgone => ?_⟩
    · obtain ⟨hec, hroom⟩ := h.mem_listed_iff.mpr ⟨hrow, hname⟩
      exact hstays row hec ⟨hroom, hid⟩
    · obtain ⟨hin, hreply⟩ := h.mem_listed_iff.mp ⟨hc, hgone.1⟩
      exact hother c hin hreply hgone.2
  subscribers room_id s := by
    rw [mem_removedAll_subscriber]
    refine and_congr_right fun hs => ⟨fun hstays row hrow hname => ?_, fun hother c hc hgone => ?_⟩
    · exact hstays row (h.mem_listed_iff.mpr ⟨hrow, hname⟩).1
    · obtain ⟨hin, hreply⟩ := h.mem_listed_iff.mp ⟨hc, hgone.1⟩
      exact hother c hin hreply hgone

/-- In every state that tokens and removals lead to, the rooms and the hashes of the controllers
index the same clients, and removing the clients of an expired controller removes exactly those
that were registered through it. -/
theorem registration_indexed (hids : ∀ client_id, (home client_id).id_ ≠ "") {s : Registry}
    (hs : (registry home).Reachable s) :
    Index home s.world.redis ∧ ∀ name o, ExpiredGone name s.world.redis
      (execSession (removeExpireErizoController name)
        (s.world.withOracle (faultless o))).2.redis := by
  have h := indexed_of_reachable hs
  refine ⟨h.index hids, fun name o => ?_⟩
  rw [execSession_removeExpire_redis]
  exact h.expiredGone name

/-- A controller with one area, and every client its own. -/
def sampleHome : String → ErizoController := fun _ =>
  { ErizoController.ofId "ec" with server_mapping := [(0, "area")] }

def sampleRegistry : Registry where
  world := .start .empty .quiet
  conn client_id := { id := client_id }

/-- An agent comes up, the clients `a` and `b` enter, one of them twice, and `b` leaves. -/
def sampleRegistrations : List RegistryAction :=
  let erizo := { Oracle.quiet with
    rpcReply := .const (.objectValue [("erizoID", .stringValue "e"), ("bridgeIP", .stringValue ""),
      ("bridgePort", .intValue 1)])
    systemMs := .const 2147483648 }
  [.others (Redis.empty.update .erizo_agent "area" ((∅ : Table ErizoAgent).set
      { id := "agent", erizo_process_num := 0, last_update := 2147483648 })),
    .token "a" erizo, .token "b" erizo, .token "a" .quiet, .close "b" .quiet]

theorem registration_indexed_sample :
    ∃ s, (registry sampleHome).run sampleRegistrations sampleRegistry = some s ∧
      (s.world.redis .client "test_room_id").rows.map Client.id = ["a"] ∧
      Index sampleHome s.world.redis ∧ ExpiredGone "ec" s.world.redis (execSession
        (removeExpireErizoController "ec") (s.world.withOracle (faultless .quiet))).2.redis := by
  have hrun : ((registry sampleHome).run sampleRegistrations sampleRegistry).map
      (fun s => (s.world.redis .client "test_room_id").rows.map Client.id) = some ["a"] := by
    decide +kernel
  obtain ⟨s, hs, hclients⟩ := Option.map_eq_some_iff.mp hrun
  have hinit : (registry sampleHome).init sampleRegistry := ⟨fun _ => rfl, fun _ => ⟨rfl, rfl⟩⟩
  have hreach := Machine.Reaches.run (.init hinit) (fun _ _ => trivial) hs
  have hids : ∀ client_id, (sampleHome client_id).id_ ≠ "" := by
    intro client_id
    change "ec" ≠ ""
    decide
  obtain ⟨hindex, hgone⟩ := @registration_indexed sampleHome hids s hreach
  exact ⟨s, hs, hclients, hindex, hgone "ec" .quiet⟩

end ErizoController
