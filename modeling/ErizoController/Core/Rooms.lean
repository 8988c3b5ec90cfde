import ErizoController.Library.Locked
import ErizoController.Model.World

/-!
# What the room locks guard

The lock of a room guards its hashes of publishers, subscribers and bridges. The commands
of a section act on them as if the section ran alone, so what a section does in a run of
all threads is what it does when it is executed alone on a world that shows the room.
-/

open Locked

/-- The kinds of hashes that a room lock guards. -/
def Kind.Guarded : Kind → Prop
  | .publisher => True
  | .subscriber => True
  | .bridge_stream => True
  | _ => False

/-- An outside in which no Redis command fails and every id is new. -/
structure Oracle.Fits (o : Oracle) (used : List String) : Prop where
  reads : o.readFault = Stream'.const false
  writes : o.writeFault = Stream'.const false
  fresh : ∀ n, o.streamId.get n ∉ used
  injective : Function.Injective o.streamId.get

theorem Oracle.Fits.mono {o : Oracle} {used used' : List String} (h : o.Fits used')
    (hsub : used ⊆ used') : o.Fits used where
  reads := h.reads
  writes := h.writes
  fresh n hmem := h.fresh n (hsub hmem)
  injective := h.injective

namespace World

/-- The answers that are left to a world fit it. -/
def Fits (w : World) : Prop := w.oracle.Fits w.used

variable {w : World}

theorem Fits.readsSucceed (h : w.Fits) : w.ReadsSucceed := h.reads

theorem Fits.writesSucceed (h : w.Fits) : w.WritesSucceed := h.writes

theorem Fits.hset (h : w.Fits) (k : Kind) (name : String) (row : k.Rec) :
    perform (.hset k name row) w = (0, w.store k name ((w.redis k name).set row)) := by
  rw [perform, h.writesSucceed.head, h.writesSucceed.drawWrite, if_neg Bool.false_ne_true]

theorem Fits.hdel (h : w.Fits) (k : Kind) (name : String) (fields : List String) :
    perform (.hdel k name fields) w = (0, w.store k name ((w.redis k name).erase fields)) := by
  rw [perform, h.writesSucceed.head, h.writesSucceed.drawWrite, if_neg Bool.false_ne_true]

theorem Fits.hget (h : w.Fits) (k : Kind) (name field : String) :
    perform (.hget k name field) w = ((1, (w.redis k name).get? field), w) := by
  rw [perform, h.readsSucceed.head, h.readsSucceed.drawRead, if_neg Bool.false_ne_true]

theorem Fits.hvals (h : w.Fits) (k : Kind) (name : String) :
    perform (.hvals k name) w = ((1, (w.redis k name).rows), w) := by
  rw [perform, h.readsSucceed.head, h.readsSucceed.drawRead, if_neg Bool.false_ne_true]

/-- The answers that are left after a command fit. -/
theorem Fits.after (h : w.Fits) (c : Command) : (perform c w).2.Fits := by
  cases c with
  | getStreamID =>
      refine ⟨h.reads, h.writes, fun n hmem => ?_, fun m n hmn => ?_⟩
      · rcases List.mem_cons.mp hmem with heq | hmem
        · exact absurd (h.injective heq) (Nat.succ_ne_zero n)
        · exact h.fresh (n + 1) hmem
      · exact Nat.succ_injective (h.injective hmn)
  | hset k name row =>
      rw [h.hset]
      exact h
  | hdel k name fields =>
      rw [h.hdel]
      exact h
  | hget k name field =>
      rw [h.hget]
      exact h
  | hvals k name =>
      rw [h.hvals]
      exact h
  | _ => exact ⟨h.reads, h.writes, h.fresh, h.injective⟩

end World

/-! ## Rooms as seen by a section -/

namespace Room

/-- `v` shows the guarded hashes of the room, and no ids but those that are used. -/
structure Sees (room_id : String) (v w : World) : Prop where
  redis : ∀ k, k.Guarded → v.redis k room_id = w.redis k room_id
  used : v.used ⊆ w.used
  fits : v.Fits

/-- The meaning of a command on a room: it is performed with some answers that fit. -/
def sem (c : Command) (v : World) (reply : c.Reply) (v' : World) : Prop :=
  ∃ o : Oracle, (v.withOracle o).Fits ∧ perform c (v.withOracle o) = (reply, v')

/-- The commands in the sections of a room write no other room and read the guarded
hashes of their room only. -/
def Inside (room_id : String) : Command → Prop
  | .hset k name _ => k.Guarded → name = room_id
  | .hdel k name _ => k.Guarded → name = room_id
  | .hget k name _ => k.Guarded ∧ name = room_id
  | .hvals k name => k.Guarded ∧ name = room_id
  | _ => True

/-- The commands outside of the sections write no guarded hash. -/
def Outside : Command → Prop
  | .hset k _ _ => ¬ k.Guarded
  | .hdel k _ _ => ¬ k.Guarded
  | _ => True

theorem update_other {r : Redis} {k k' : Kind} {name room_id : String} {t : Table k.Rec}
    (h : k = k' → name ≠ room_id) : r.update k name t k' room_id = r k' room_id := by
  by_cases hk : k = k'
  · subst hk
    exact Redis.update_name r k t (h rfl).symm
  · exact Redis.update_kind r name room_id t (Ne.symm hk)

/-- The ids stay used. -/
theorem used_subset (c : Command) (w : World) : w.used ⊆ (perform c w).2.used := by
  cases c with
  | getStreamID => exact List.subset_cons_self _ _
  | hset k name row =>
      rw [perform]
      split <;> exact List.Subset.refl _
  | hdel k name fields =>
      rw [perform]
      split <;> exact List.Subset.refl _
  | hget k name field =>
      rw [perform]
      split <;> exact List.Subset.refl _
  | hvals k name =>
      rw [perform]
      split <;> exact List.Subset.refl _
  | _ => exact List.Subset.refl _

/-- A command changes a hash only by writing it. -/
theorem perform_frame {k : Kind} {name : String} {c : Command} (w : World)
    (hset : ∀ row, c ≠ .hset k name row) (hdel : ∀ fields, c ≠ .hdel k name fields) :
    (perform c w).2.redis k name = w.redis k name := by
  cases c with
  | hset k' name' row =>
      rw [perform]
      split
      · rfl
      · refine update_other fun hk hname => ?_
        subst hk hname
        exact hset row rfl
  | hdel k' name' fields =>
      rw [perform]
      split
      · rfl
      · refine update_other fun hk hname => ?_
        subst hk hname
        exact hdel fields rfl
  | hget k' name' field =>
      rw [perform]
      split <;> rfl
  | hvals k' name' =>
      rw [perform]
      split <;> rfl
  | _ => rfl

/-- A command that does not file rows in a hash adds none to it. -/
theorem perform_subset {k : Kind} {name : String} {c : Command} {w : World}
    (hset : ∀ row, c ≠ .hset k name row) {row : k.Rec}
    (h : row ∈ (perform c w).2.redis k name) : row ∈ w.redis k name := by
  by_cases hdel : ∃ fields, c = .hdel k name fields
  · obtain ⟨fields, rfl⟩ := hdel
    rw [perform] at h
    split at h
    · exact h
    · simp only [World.store, Redis.update_self, World.drawWrite_redis] at h
      exact (Table.mem_erase.mp h).1
  · rwa [perform_frame w hset fun fields heq => hdel ⟨fields, heq⟩] at h

theorem Sees.frame {room_id : String} {v w : World} {c : Command} (h : Sees room_id v w)
    (hredis : ∀ k, k.Guarded → (perform c w).2.redis k room_id = w.redis k room_id) :
    Sees room_id v (perform c w).2 where
  redis k hk := (h.redis k hk).trans (hredis k hk).symm
  used := List.Subset.trans h.used (used_subset c w)
  fits := h.fits

theorem Sees.withOracle {room_id : String} {v w : World} (h : Sees room_id v w) (hw : w.Fits) :
    (v.withOracle w.oracle).Fits := Oracle.Fits.mono hw h.used

/-- A command of a section answers the same on the view as in the world, and keeps the
view. -/
theorem Sees.inside {room_id : String} {v w : World} {c : Command} (h : Sees room_id v w)
    (hw : w.Fits) (hc : Inside room_id c) :
    (perform c (v.withOracle w.oracle)).1 = (perform c w).1 ∧
      Sees room_id (perform c (v.withOracle w.oracle)).2 (perform c w).2 := by
  have hv := h.withOracle hw
  suffices hstep : (perform c (v.withOracle w.oracle)).1 = (perform c w).1 ∧
      (∀ k, k.Guarded → (perform c (v.withOracle w.oracle)).2.redis k room_id =
        (perform c w).2.redis k room_id) ∧
      (perform c (v.withOracle w.oracle)).2.used ⊆ (perform c w).2.used from
    ⟨hstep.1, hstep.2.1, hstep.2.2, hv.after c⟩
  cases c with
  | getStreamID => exact ⟨rfl, h.redis, List.cons_subset_cons _ h.used⟩
  | hset k name row =>
      rw [hv.hset, hw.hset]
      refine ⟨rfl, fun k' hk' => ?_, h.used⟩
      by_cases hk : k = k'
      · subst hk
        obtain rfl := hc hk'
        simp only [World.store, Redis.update_self]
        exact congrArg (Table.set · row) (h.redis k hk')
      · simp only [World.store]
        rw [update_other fun heq => absurd heq hk, update_other fun heq => absurd heq hk]
        exact h.redis k' hk'
  | hdel k name fields =>
      rw [hv.hdel, hw.hdel]
      refine ⟨rfl, fun k' hk' => ?_, h.used⟩
      by_cases hk : k = k'
      · subst hk
        obtain rfl := hc hk'
        simp only [World.store, Redis.update_self]
        exact congrArg (Table.erase · fields) (h.redis k hk')
      · simp only [World.store]
        rw [update_other fun heq => absurd heq hk, update_other fun heq => absurd heq hk]
        exact h.redis k' hk'
  | hget k name field =>
      obtain ⟨hk, rfl⟩ := hc
      rw [hv.hget, hw.hget]
      refine ⟨?_, h.redis, h.used⟩
      exact congrArg (fun t : Table k.Rec => ((1 : ℤ), t.get? field)) (h.redis k hk)
  | hvals k name =>
      obtain ⟨hk, rfl⟩ := hc
      rw [hv.hvals, hw.hvals]
      refine ⟨?_, h.redis, h.used⟩
      exact congrArg (fun t : Table k.Rec => ((1 : ℤ), t.rows)) (h.redis k hk)
  | _ => exact ⟨rfl, h.redis, h.used⟩

/-- The room locks and what they guard. -/
def guard : Guard Command Command.Reply String World World perform where
  Inv := World.Fits
  Sees := Sees
  sem := sem
  Sec := Inside
  Out := Outside
  inv_step c w h := h.after c
  sees_out room_id v c w _ hc h := by
    refine h.frame fun k hk => perform_frame w ?_ ?_
    · rintro row rfl
      exact hc hk
    · rintro fields rfl
      exact hc hk
  sees_other room_id room_id' v c w _ hne hc h := by
    refine h.frame fun k hk => perform_frame w ?_ ?_
    · rintro row rfl
      exact hne (hc hk).symm
    · rintro fields rfl
      exact hne (hc hk).symm
  sees_sec room_id v c w hw hc h := by
    obtain ⟨hreply, hsees⟩ := h.inside hw hc
    exact ⟨(perform c (v.withOracle w.oracle)).2,
      ⟨w.oracle, h.withOracle hw, Prod.ext hreply rfl⟩, hsees⟩

/-! ## Sections run alone -/

/-- What every command of a program keeps, the program keeps. -/
theorem exec_of_each {α : Type} {P : Command → Prop} {I : World → Prop} {p : Handler α}
    (hp : p.Each P) (hstep : ∀ c w, P c → I w → I (perform c w).2) {w : World} (hw : I w) :
    I (exec p w).2 := by
  induction p generalizing w with
  | ret a => exact hw
  | cmd c k ih => exact ih _ (hp.2 _) (hstep c w hp.1 hw)

/-- Answers that give the first command what `o` has for it and the rest what `o'` has. -/
theorem exists_graft {c : Command} {v : World} {o o' : Oracle} (ho : (v.withOracle o).Fits)
    (ho' : ((perform c (v.withOracle o)).2.withOracle o').Fits) :
    ∃ o'', (v.withOracle o'').Fits ∧ perform c (v.withOracle o'') =
      ((perform c (v.withOracle o)).1, (perform c (v.withOracle o)).2.withOracle o') := by
  cases c with
  | getStreamID =>
      refine ⟨{ o' with streamId := .cons o.streamId.head o'.streamId },
        ⟨ho'.reads, ho'.writes, fun n => ?_, fun m n hmn => ?_⟩, rfl⟩
      · cases n with
        | zero => exact ho.fresh 0
        | succ n => exact fun hmem => ho'.fresh n (List.mem_cons_of_mem _ hmem)
      · have hnew : ∀ n, o'.streamId.get n ≠ o.streamId.head :=
          fun n heq => ho'.fresh n (heq ▸ List.mem_cons_self)
        cases m with
        | zero =>
            cases n with
            | zero => rfl
            | succ n => exact absurd hmn.symm (hnew n)
        | succ m =>
            cases n with
            | zero => exact absurd hmn (hnew m)
            | succ n => exact congrArg Nat.succ (ho'.injective hmn)
  | getSystemMs =>
      exact ⟨{ o' with systemMs := .cons o.systemMs.head o'.systemMs },
        ⟨ho'.reads, ho'.writes, ho'.fresh, ho'.injective⟩, rfl⟩
  | uninitialized =>
      exact ⟨{ o' with uninitialized := .cons o.uninitialized.head o'.uninitialized },
        ⟨ho'.reads, ho'.writes, ho'.fresh, ho'.injective⟩, rfl⟩
  | rpc queuename data =>
      exact ⟨{ o' with rpcReply := .cons o.rpcReply.head o'.rpcReply },
        ⟨ho'.reads, ho'.writes, ho'.fresh, ho'.injective⟩, rfl⟩
  | hset k name row =>
      rw [ho.hset] at ho' ⊢
      have hfits : (v.withOracle o').Fits := ho'
      exact ⟨o', hfits, hfits.hset k name row⟩
  | hdel k name fields =>
      rw [ho.hdel] at ho' ⊢
      have hfits : (v.withOracle o').Fits := ho'
      exact ⟨o', hfits, hfits.hdel k name fields⟩
  | hget k name field =>
      rw [ho.hget] at ho' ⊢
      have hfits : (v.withOracle o').Fits := ho'
      exact ⟨o', hfits, hfits.hget k name field⟩
  | hvals k name =>
      rw [ho.hvals] at ho' ⊢
      have hfits : (v.withOracle o').Fits := ho'
      exact ⟨o', hfits, hfits.hvals k name⟩
  | _ => exact ⟨o', ho', rfl⟩

/-- What holds of every run alone from a view that fits holds of the section. -/
theorem wlp_of_exec {α : Type} {p : Handler α} {Q : α → World → Prop} {v : World}
    (hv : v.Fits)
    (h : ∀ o, (v.withOracle o).Fits → Q (exec p (v.withOracle o)).1 (exec p (v.withOracle o)).2) :
    p.Wlp sem Q v := by
  induction p generalizing v with
  | ret a => exact h v.oracle hv
  | cmd c k ih =>
      rintro reply v' ⟨o, ho, hperform⟩
      obtain ⟨rfl, rfl⟩ := Prod.ext_iff.mp hperform
      refine ih _ (ho.after c) fun o' ho' => ?_
      obtain ⟨o'', ho'', hgraft⟩ := exists_graft ho ho'
      have hexec := h o'' ho''
      change Q (exec (k (perform c (v.withOracle o'')).1) (perform c (v.withOracle o'')).2).1
        (exec (k (perform c (v.withOracle o'')).1) (perform c (v.withOracle o'')).2).2 at hexec
      rw [hgraft] at hexec
      exact hexec

end Room
