import ErizoController.Library.LockMonitor
import ErizoController.Core.Sections

/-!
# Following the calls of a handler

What a monitor has to allow, and which states it passes through, for the calls of
`RedisHelper` and for the allocation of an agent and an erizo, and what a command does to
the rows of a hash.
-/

open Json Locked Prog Room

namespace ErizoController

variable {M : Type}

/-! ## Rows after a command -/

section Rows

variable {w : World} {k : Kind} {name : String} {row : k.Rec}

/-- A row that is there after a command was there before, or is filed by it. -/
theorem mem_perform {command : Command}
    (h : row ∈ (perform command w).2.redis k name) :
    row ∈ w.redis k name ∨ command = .hset k name row := by
  by_cases hset : ∃ row, command = .hset k name row
  · obtain ⟨row', rfl⟩ := hset
    rw [perform] at h
    split at h
    · exact .inl h
    · simp only [World.store, Redis.update_self, World.drawWrite_redis] at h
      rcases Table.mem_set.mp h with rfl | ⟨h, -⟩
      · exact .inr rfl
      · exact .inl h
  · exact .inl (perform_subset (fun row heq => hset ⟨row, heq⟩) h)

/-- A row whose id is removed is gone. -/
theorem not_mem_of_hdel (hw : w.WritesSucceed) {k : Kind} {name : String} {fields : List String}
    {row : k.Rec} (h : row ∈ (perform (.hdel k name fields) w).2.redis k name) :
    Keyed.key row ∉ fields := by
  rw [perform, hw.head, if_neg Bool.false_ne_true] at h
  simp only [World.store, Redis.update_self, World.drawWrite_redis] at h
  exact (Table.mem_erase.mp h).2

/-- A row stays unless it is removed or another row is filed under its id. -/
theorem mem_perform_of_mem {command : Command} (h : row ∈ w.redis k name)
    (hdel : ∀ fields, command = .hdel k name fields → Keyed.key row ∉ fields)
    (hset : ∀ row', command = .hset k name row' → Keyed.key row' ≠ Keyed.key row) :
    row ∈ (perform command w).2.redis k name := by
  by_cases hcommand : ∃ row', command = .hset k name row'
  · obtain ⟨row', rfl⟩ := hcommand
    rw [perform]
    split
    · exact h
    · simp only [World.store, Redis.update_self, World.drawWrite_redis]
      exact Table.mem_set.mpr (.inr ⟨h, (hset row' rfl).symm⟩)
  by_cases hcommand' : ∃ fields, command = .hdel k name fields
  · obtain ⟨fields, rfl⟩ := hcommand'
    rw [perform]
    split
    · exact h
    · simp only [World.store, Redis.update_self, World.drawWrite_redis]
      exact Table.mem_erase.mpr ⟨h, hdel fields rfl⟩
  · rwa [perform_frame w (fun row' heq => hcommand ⟨row', heq⟩) fun fields heq =>
      hcommand' ⟨fields, heq⟩]

end Rows

/-! ## The calls of RedisHelper -/

section Calls

open Monitor

/-- A call is followed where each of its replies leads to a state that fits its result. -/
theorem follows_add {W : Monitor Command Command.Reply M} {Q : M → ℤ → Prop} {m : M} {k : Kind}
    {name : String} {row : k.Rec} (hallows : W.allows m (.hset k name row))
    (h : ∀ rc : ℤ, Q (W.next m (.hset k name row) rc) (if rc = -1 then 1 else 0)) :
    W.Follows Q m (RedisHelper.add k name row) := by
  refine ⟨hallows, fun rc => ?_⟩
  have hrc := h rc
  by_cases hfault : rc = -1
  · subst hfault
    exact hrc
  · rw [if_neg hfault] at hrc
    change W.Follows Q _ (if rc = -1 then (do return 1) else (do return 0))
    rw [if_neg hfault]
    exact hrc

theorem follows_get {W : Monitor Command Command.Reply M} {m : M} {k : Kind}
    {Q : M → Option k.Rec → Prop} {name field : String}
    (hallows : W.allows m (.hget k name (ACLRedis.c_str field)))
    (h : ∀ (rc : ℤ) row, Q (W.next m (.hget k name (ACLRedis.c_str field)) (rc, row))
      (if rc = -1 then none else row)) :
    W.Follows Q m (RedisHelper.get k name field) := by
  refine ⟨hallows, ?_⟩
  rintro ⟨rc, row⟩
  have hrc := h rc row
  change W.Follows Q _ (if rc = -1 then (do return none) else (do return row))
  split
  · rw [if_pos ‹_›] at hrc
    exact hrc
  · rw [if_neg ‹_›] at hrc
    exact hrc

theorem follows_getAll {W : Monitor Command Command.Reply M} {m : M} {k : Kind}
    {Q : M → Option (List k.Rec) → Prop} {accepted : k.Rec → Bool} {name : String}
    (hallows : W.allows m (.hvals k name))
    (h : ∀ (rc : ℤ) rows, Q (W.next m (.hvals k name) (rc, rows))
      (if rc = -1 then none else some (rows.filter accepted))) :
    W.Follows Q m (RedisHelper.getAll k accepted name) := by
  refine ⟨hallows, ?_⟩
  rintro ⟨rc, rows⟩
  have hrc := h rc rows
  change W.Follows Q _
    (if rc = -1 then (do return none) else (do return some (rows.filter accepted)))
  split
  · rw [if_pos ‹_›] at hrc
    exact hrc
  · rw [if_neg ‹_›] at hrc
    exact hrc

end Calls

/-! ## Calls that succeed -/

/-- The reply does not tell of a failure. -/
def Succeeds : (cmd : Command) → cmd.Reply → Prop
  | .hset .., rc => rc ≠ -1
  | .hdel .., rc => rc ≠ -1
  | .hget .., (rc, _) => rc ≠ -1
  | .hvals .., (rc, _) => rc ≠ -1
  | _, _ => True

theorem succeeds_perform {w : World} (hr : w.ReadsSucceed) (hw : w.WritesSucceed) (cmd : Command) :
    Succeeds cmd (perform cmd w).1 := by
  cases cmd with
  | hset k name row =>
      rw [perform, hw.head, if_neg Bool.false_ne_true]
      exact (by decide : (0 : ℤ) ≠ -1)
  | hdel k name fields =>
      rw [perform, hw.head, if_neg Bool.false_ne_true]
      exact (by decide : (0 : ℤ) ≠ -1)
  | hget k name field =>
      rw [perform, hr.head, if_neg Bool.false_ne_true]
      exact (by decide : (1 : ℤ) ≠ -1)
  | hvals k name =>
      rw [perform, hr.head, if_neg Bool.false_ne_true]
      exact (by decide : (1 : ℤ) ≠ -1)
  | _ => trivial

namespace LockMonitor

variable {W : LockMonitor Command Command.Reply String M} {r : Option String} {m : M} {k : Kind}
variable {name : String} (hW : ∀ cmd reply, W.occurs cmd reply → Succeeds cmd reply)
include hW

theorem follows_add {row : k.Rec} {Q : M → ℤ → Prop} (hallows : W.allows r m (.hset k name row))
    (h : ∀ rc, Q (W.next r m (.hset k name row) rc) 0) :
    W.Follows r Q m (RedisHelper.add k name row) := by
  refine ⟨hallows, fun rc hrc => ?_⟩
  change W.Follows r Q _ (if rc = -1 then (do return 1) else (do return 0))
  rw [if_neg (hW _ _ hrc)]
  exact h rc

theorem follows_remove {ids : List String} {Q : M → ℤ → Prop}
    (hallows : W.allows r m (.hdel k name ids))
    (h : ∀ rc, Q (W.next r m (.hdel k name ids) rc) 0) :
    W.Follows r Q m (RedisHelper.remove k name ids) := by
  refine ⟨hallows, fun rc hrc => ?_⟩
  change W.Follows r Q _ (if rc = -1 then (do return 1) else (do return 0))
  rw [if_neg (hW _ _ hrc)]
  exact h rc

theorem follows_get {field : String} {Q : M → Option k.Rec → Prop}
    (hallows : W.allows r m (.hget k name (ACLRedis.c_str field)))
    (h : ∀ rc row, Q (W.next r m (.hget k name (ACLRedis.c_str field)) (rc, row)) row) :
    W.Follows r Q m (RedisHelper.get k name field) := by
  refine ⟨hallows, ?_⟩
  rintro ⟨rc, row⟩ hrc
  change W.Follows r Q _ (if rc = -1 then (do return none) else (do return row))
  rw [if_neg (hW _ _ hrc)]
  exact h rc row

theorem follows_getAll {accepted : k.Rec → Bool} {Q : M → Option (List k.Rec) → Prop}
    (hallows : W.allows r m (.hvals k name))
    (h : ∀ rc rows, W.occurs (.hvals k name) (rc, rows) →
      Q (W.next r m (.hvals k name) (rc, rows)) (some (rows.filter accepted))) :
    W.Follows r Q m (RedisHelper.getAll k accepted name) := by
  refine ⟨hallows, ?_⟩
  rintro ⟨rc, rows⟩ hrc
  change W.Follows r Q _
    (if rc = -1 then (do return none) else (do return some (rows.filter accepted)))
  rw [if_neg (hW _ _ hrc)]
  exact h rc rows hrc

omit hW in
theorem follows_unlessEmpty {Q : M → Prop} {ids : List String} {remove : Handler ℤ}
    (hempty : ids = [] → Q m) (hremove : W.Follows r (fun m' _ => Q m') m remove) :
    W.Follows r (fun m' _ => Q m') m (unlessEmpty ids remove) := by
  rw [unlessEmpty]
  split
  · exact hempty ‹_›
  · exact LockMonitor.Follows.bind hremove fun m' _ hm' => hm'

/-- The commands on the bridges of a room. -/
def BridgeWork (room_id : String) : Command → Prop
  | .hset k name _ => k = .bridge_stream ∧ name = room_id
  | .hdel k name _ => k = .bridge_stream ∧ name = room_id
  | .hvals k name => k = .bridge_stream ∧ name = room_id
  | .rpcNotReply _ data => ∀ streamId clientId, data ≠ .remove_subscriber streamId clientId
  | _ => False

section Bridges

variable {room_id : String}
variable (hm : ∀ cmd, BridgeWork room_id cmd → W.Steady r m cmd)
include hm

theorem follows_removeBridgeStreamSub (subscribe_to erizo_id : String) :
    W.Follows r (fun m' rc => m' = m ∧ rc = 0) m
      (removeBridgeStreamSub room_id subscribe_to erizo_id) := by
  have hlist := hm (.hvals .bridge_stream room_id) ⟨rfl, rfl⟩
  refine LockMonitor.Follows.bind (follows_getAll hW (Q := fun m' b => m' = m ∧ b ≠ none) hlist.1
    fun rc rows _ => ⟨hlist.2 (rc, rows), Option.some_ne_none _⟩) fun m' b ⟨hm', hb⟩ => ?_
  subst hm'
  cases b with
  | none => exact absurd rfl hb
  | some bridge_streams =>
      dsimp only
      split
      · exact ⟨rfl, rfl⟩
      · rename_i it _
        split
        · have hsent :=
            hm (.rpcNotReply it.sender_erizo_id (.removeVirtualSubscriber it.id it.src_stream_id))
            fun _ _ => by simp
          have hreceived :=
            hm (.rpcNotReply it.recver_erizo_id (.removeVirtualPublisher it.src_stream_id))
            fun _ _ => by simp
          have hdel := hm (.hdel .bridge_stream room_id [it.id]) ⟨rfl, rfl⟩
          refine ⟨hsent.1, fun _ _ => ?_⟩
          rw [hsent.2]
          refine ⟨hreceived.1, fun _ _ => ?_⟩
          rw [hreceived.2]
          exact follows_remove hW hdel.1 fun rc => ⟨hdel.2 rc, rfl⟩
        · have hset := hm (.hset .bridge_stream room_id
            { it with subscribe_count := it.subscribe_count - 1 }) ⟨rfl, rfl⟩
          exact follows_add hW hset.1 fun rc => ⟨hset.2 rc, rfl⟩

theorem follows_removeBridgeStreamPub (stream_id erizo_id : String) :
    W.Follows r (fun m' rc => m' = m ∧ rc = 0) m
      (removeBridgeStreamPub room_id stream_id erizo_id) := by
  have hlist := hm (.hvals .bridge_stream room_id) ⟨rfl, rfl⟩
  refine LockMonitor.Follows.bind (follows_getAll hW (Q := fun m' b => m' = m ∧ b ≠ none) hlist.1
    fun rc rows _ => ⟨hlist.2 (rc, rows), Option.some_ne_none _⟩) fun m' b ⟨hm', hb⟩ => ?_
  subst hm'
  cases b with
  | none => exact absurd rfl hb
  | some bridge_streams =>
      dsimp only
      split
      · exact ⟨rfl, rfl⟩
      · rename_i it _
        have hsent :=
          hm (.rpcNotReply it.sender_erizo_id (.removeVirtualSubscriber it.id it.src_stream_id))
          fun _ _ => by simp
        have hreceived :=
          hm (.rpcNotReply it.recver_erizo_id (.removeVirtualPublisher it.src_stream_id))
          fun _ _ => by simp
        have hdel := hm (.hdel .bridge_stream room_id [it.id]) ⟨rfl, rfl⟩
        refine ⟨hsent.1, fun _ _ => ?_⟩
        rw [hsent.2]
        refine ⟨hreceived.1, fun _ _ => ?_⟩
        rw [hreceived.2]
        exact follows_remove hW hdel.1 fun rc => ⟨hdel.2 rc, rfl⟩

end Bridges

end LockMonitor

/-! ## Allocation -/

/-- What allocating leaves of a client. -/
def SameConnection (client client' : Client) : Prop :=
  client'.id = client.id ∧ client'.room_id = client.room_id ∧ client'.reply_to = client.reply_to

theorem sameConnection_onErizo (client : Client) (root : Value) :
    SameConnection client (onErizo client root).2 := by
  rw [onErizo]
  split <;> exact ⟨rfl, rfl, rfl⟩

theorem returns_allocAgent (self : ErizoController) (client : Client) :
    (self.allocAgent client).Returns fun r => SameConnection client r.2 := by
  rw [allocAgent]
  split
  · exact ⟨rfl, rfl, rfl⟩
  · refine Returns.bind (returns_true _) fun r _ => ?_
    cases r with
    | none => exact ⟨rfl, rfl, rfl⟩
    | some agents =>
        refine Returns.bind (returns_true _) fun now _ => ?_
        dsimp only
        split <;> exact ⟨rfl, rfl, rfl⟩

theorem returns_allocErizoTries (client : Client) (try_time : ℕ) :
    (allocErizoTries client try_time).Returns fun r => SameConnection client r.2 := by
  induction try_time with
  | zero => exact ⟨rfl, rfl, rfl⟩
  | succ try_time ih =>
      refine Returns.bind (returns_true _) fun root _ => ?_
      have hsame := sameConnection_onErizo client root
      split
      · rename_i client' heq
        rw [heq] at hsame
        exact hsame
      · exact ih

section Allocation

open Monitor

variable {W : Monitor Command Command.Reply M} {m : M}
variable (hm : ∀ cmd, SilentCommand cmd → W.allows m cmd ∧ ∀ reply, W.next m cmd reply = m)
include hm

theorem follows_silent {α : Type} {p : Handler α} (h : p.Each SilentCommand) :
    W.Follows (fun m' _ => m' = m) m p := follows_of_each h hm

theorem follows_allocAgent (self : ErizoController) (client : Client) :
    W.Follows (fun m' r => m' = m ∧ SameConnection client r.2) m (self.allocAgent client) :=
  (follows_silent hm (each_allocAgent self client)).returns (returns_allocAgent self client)

theorem follows_allocErizoTries (client : Client) (try_time : ℕ) :
    W.Follows (fun m' r => m' = m ∧
      SameConnection client r.2) m (allocErizoTries client try_time) :=
  (follows_silent hm (each_allocErizoTries client try_time)).returns
    (returns_allocErizoTries client try_time)

end Allocation

end ErizoController
