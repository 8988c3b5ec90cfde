import ErizoController.Library.Serial
import ErizoController.Core.Counts

/-!
# The sections of a room are serializable

Handlers of any number of clients and controllers run side by side, and the commands of a
section come between the commands of all others. For the streams of its room, and for the
messages it sends and the answer it gives, each section nevertheless does what it does when
it is executed alone, at one stroke, after the sections of the room that were entered before.
-/

open Locked Prog Room

/-! ## A section that is run part by part -/

namespace Room

/-- Whatever a section does part by part it does at one stroke, with some answers that
fit. -/
theorem exec_of_runs {α : Type} {p q : Handler α} {v v' : World} {cs : List Command} {a : α}
    (h : p.Runs sem v cs q v') (hq : q = .ret a) (hv : v.Fits) :
    ∃ o : Oracle, (v.withOracle o).Fits ∧ exec p (v.withOracle o) = (a, v') ∧
      p.issued perform (v.withOracle o) = cs := by
  induction h with
  | refl p v =>
      subst hq
      exact ⟨v.oracle, hv, rfl, rfl⟩
  | @cmd c k q v v' v'' reply cs hsem h ih =>
      obtain ⟨o, ho, hperform⟩ := hsem
      obtain ⟨rfl, rfl⟩ := Prod.ext_iff.mp hperform
      obtain ⟨o', ho', hexec, hissued⟩ := ih hq (ho.after c)
      obtain ⟨o'', ho'', hgraft⟩ := exists_graft ho ho'
      refine ⟨o'', ho'', ?_, ?_⟩
      · change exec (k (perform c (v.withOracle o'')).1) (perform c (v.withOracle o'')).2 = _
        rw [hgraft]
        exact hexec
      · change c :: (k (perform c (v.withOracle o'')).1).issued perform
          (perform c (v.withOracle o'')).2 = _
        rw [hgraft]
        exact congrArg (c :: ·) hissued

end Room

namespace ErizoController

/-- The sections of a room, each executed at one stroke on the store that the one before it
has left, with answers of the outside that fit. -/
inductive SerialSections {T : Type} (room_id : String) (w₀ : World) :
    List (Event Command Command.Reply T) → World → Prop
  | nil : SerialSections room_id w₀ [] w₀
  | snoc {l : List (Event Command Command.Reply T)} {w : World} {β : Type} {body : Handler β}
      (h : SerialSections room_id w₀ l w) (t : T) (hsection : IsSection room_id body)
      (o : Oracle) (ho : (w.withOracle o).Fits) :
      SerialSections room_id w₀
        (l ++ whole t β body (body.issued perform (w.withOracle o))
          (exec body (w.withOracle o)).1)
        (exec body (w.withOracle o)).2

variable {T : Type} {room_id : String} {w₀ w : World}

theorem serialSections_of_serial {l : List (Event Command Command.Reply T)}
    (h : Serial Room.guard.sem (fun _ => IsSection room_id) w₀ l w) (hw₀ : w₀.Fits) :
    SerialSections room_id w₀ l w ∧ w.Fits := by
  induction h with
  | nil => exact ⟨.nil, hw₀⟩
  | snoc h t hB hruns ih =>
      obtain ⟨hserial, hfits⟩ := ih
      obtain ⟨o, ho, hexec, rfl⟩ := exec_of_runs hruns rfl hfits
      obtain ⟨rfl, rfl⟩ := Prod.ext_iff.mp hexec
      refine ⟨hserial.snoc t hB o ho, ?_⟩
      exact exec_of_each (I := World.Fits) hB.each (fun c w _ hw => hw.after c) ho

variable [DecidableEq T]

theorem fits_of_reaches {P : Action T Job → Pool Command Command.Reply String T World → Prop}
    {s : Pool Command Command.Reply String T World} (hs : (threads T).Reaches P s) :
    s.shared.Fits := by
  refine hs.invariant (I := fun s => s.shared.Fits) (fun s h => ?_) fun a s s' h _ hstep => ?_
  · exact h.1.1
  · rcases poolStep_shared hstep with heq | ⟨c, heq⟩
    · exact heq ▸ h
    · exact heq ▸ h.after c

theorem exists_serialSections {as : List (Action T Job)}
    {s s' : Pool Command Command.Reply String T World} (hs : (threads T).Reachable s)
    (room_id : String) (hstart : s.owner room_id = none) (hrun : (threads T).run as s = some s')
    (hfree : s'.owner room_id = none) :
    ∃ w, SerialSections room_id s.shared ((threads T).outputs (events room_id) as s) w ∧
      ∀ k, k.Guarded → s'.shared.redis k room_id = w.redis k room_id := by
  have hsees : ∀ w : World, w.Fits → ∀ room_id, Room.guard.Sees room_id w w :=
    fun w hw room_id => ⟨fun _ _ => rfl, List.Subset.refl _, hw⟩
  have hfits : s.shared.Fits := fits_of_reaches hs
  obtain ⟨w, hw, hserial⟩ := Guard.serial_of_free Job.all_script (fun _ _ h => h.each)
    (fun w hw => ⟨hw.1, fun room_id => ⟨w, hsees w hw.1 room_id⟩⟩) hs hstart
    (hsees s.shared hfits room_id) hrun hfree
  exact ⟨w, (serialSections_of_serial hserial hfits).1, fun k hk => (hw.redis k hk).symm⟩

/-- Between two states in which the lock of a room is free, everything that has happened in
its sections is what happens when they are executed one after the other, each at one stroke,
in the order in which they were entered: the commands they issued, the answers they gave and
the streams they left. -/
theorem sections_serial {as : List (Action T Job)}
    {s s' : Pool Command Command.Reply String T World} (hs : (threads T).Reachable s)
    (room_id : String) (hstart : s.owner room_id = none) (hrun : (threads T).run as s = some s')
    (hfree : s'.owner room_id = none) :
    ∃ w, SerialSections room_id s.shared ((threads T).outputs (events room_id) as s) w ∧
      ∀ k, k.Guarded → s'.shared.redis k room_id = w.redis k room_id :=
  exists_serialSections hs room_id hstart hrun hfree

/-- The subscription of `b` is asked for while the answer of the erizo of `a` is stored, and
that of `c` while the one of `b` is under way. -/
theorem sections_serial_two_viewers : ∃ s w, (threads Bool).run twoViewers startPool = some s ∧
    SerialSections "room" startPool.shared
      ((threads Bool).outputs (events "room") twoViewers startPool) w ∧
    ∀ k, k.Guarded → s.shared.redis k "room" = w.redis k "room" := by
  have hrun : ((threads Bool).run twoViewers startPool).any (fun s => s.owner "room" = none) =
      true := by
    decide
  obtain ⟨s, hs, hend⟩ := (Option.any_eq_true _ _).mp hrun
  obtain ⟨w, hserial, hredis⟩ := sections_serial (.init startPool_init) "room" rfl hs
    (of_decide_eq_true hend)
  exact ⟨s, w, hs, hserial, hredis⟩

end ErizoController
