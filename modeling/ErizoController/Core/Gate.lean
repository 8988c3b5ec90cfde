import ErizoController.Library.Machine
import ErizoController.Core.Sections
import ErizoController.Core.Subscribe

/-!
# The gate on the SSRCs

A subscribe request is let through when both SSRCs of the stored publisher are other than
zero, which is meant to say that the erizo has answered. The publisher of a publish request
has the SSRCs that memory happened to hold, so the gate is as good as those values. A request
whose stream id has a NUL is let through by the stream whose id precedes the NUL. The machine
takes one critical section after the other, since the tries of one request let the sections
of others in between.
-/

open RefCount Json Prog Script
open ACLRedis (c_str Plain c_str_of_plain)

namespace ErizoController

/-! ## The machine -/

/-- The world, and the SSRCs of the last answer stored for each stream of a room. -/
structure Gate where
  world : World
  answers : String → String → Option (UInt32 × UInt32)

/-- A publish request, the answer of an erizo, one try of a subscribe request, or the end of
a connection. -/
inductive GateAction where
  | publish (self : ErizoController) (client : Client) (root : Value)
  | publisher_answer (room_id stream_id : String) (video_ssrc audio_ssrc : UInt32)
  | subscribe (self : ErizoController) (client : Client) (stream_id : String)
  | close (client : Client)

namespace Gate

/-- The answers after one for the stream. -/
def answer (s : Gate) (room_id stream_id : String) (ssrcs : UInt32 × UInt32) :
    String → String → Option (UInt32 × UInt32) :=
  fun room_id' stream_id' =>
    if room_id' = room_id ∧ stream_id' = stream_id then some ssrcs
    else s.answers room_id' stream_id'

def step : GateAction → Gate → Gate
  | .publish self client root, s =>
      { s with world := (execSession (self.handlePublish client root) s.world).2 }
  | .publisher_answer room_id stream_id video_ssrc audio_ssrc, s =>
      match execSession (Script.withLock room_id
        (publisherAnswerLocked room_id stream_id video_ssrc audio_ssrc)) s.world with
      | (some true, world) =>
          -- the publisher found is filed again, under its own id
          { world, answers := s.answer room_id (c_str stream_id) (video_ssrc, audio_ssrc) }
      | (_, world) => { s with world }
  | .subscribe self client stream_id, s =>
      { s with world := (execSession (Script.withLock client.room_id
        (self.subscribeLocked client stream_id)) s.world).2 }
  | .close client, s => { s with world := (execSession (onClose client) s.world).2 }

/-- The rooms are empty at first, and no erizo has answered. -/
def machine : Machine GateAction Gate where
  init s := (∀ room_id, s.world.redis .publisher room_id = ∅) ∧
    ∀ room_id stream_id, s.answers room_id stream_id = none
  step a s := some (step a s)

end Gate

/-- A subscribe request has no NUL in the id of the stream. -/
def GateAction.AsksPlainly : GateAction → Prop
  | .subscribe _ _ stream_id => Plain stream_id
  | _ => True

/-! ## The gate is as good as the stored SSRCs -/

/-- The SSRCs of a stored publisher that passes the gate are those of the last answer. -/
def Gate.Answered (s : Gate) : Prop :=
  ∀ room_id, ∀ p ∈ s.world.redis .publisher room_id, Plain p.id → Publisher.Known p →
    s.answers room_id p.id = some (p.video_ssrc, p.audio_ssrc)

section Try

variable {self : ErizoController} {w : World} {client : Client} {stream_id : String}

end Try

section Step

variable {s : Gate} {client : Client}

/-- What adds no publisher keeps them answered. -/
theorem Gate.Answered.of_subset (h : s.Answered) {w' : World}
    (hsubset : ∀ room_id, ∀ p ∈ w'.redis .publisher room_id, p ∈ s.world.redis .publisher room_id) :
    Gate.Answered { s with world := w' } :=
  fun room_id p hp => h room_id p (hsubset room_id p hp)

/-- A section that files no publisher keeps them answered, whether or not it is entered. -/
theorem Gate.Answered.withLock (h : s.Answered) {α : Type} {room_id : String} {body : Handler α}
    {sets dels : List Kind} (hbody : body.Each (Within room_id sets dels))
    (hsets : Kind.publisher ∉ sets) :
    Gate.Answered { s with world := (execSession (Script.withLock room_id body) s.world).2 } := by
  refine h.of_subset fun room_id' p hp => ?_
  rw [execSession_withLock] at hp
  split at hp
  · exact (exec_within_subset hbody hsets hp :
      p ∈ (tryLock room_id s.world).2.redis .publisher room_id')
  · exact hp

/-- An answer that is stored is the last one of its stream. -/
theorem Gate.Answered.publisher_answer (h : s.Answered) (room_id stream_id : String)
    (video_ssrc audio_ssrc : UInt32) :
    (Gate.step (.publisher_answer room_id stream_id video_ssrc audio_ssrc) s).Answered := by
  rw [Gate.step, execSession_withLock]
  split_ifs with hlock
  · rw [exec_publisherAnswerLocked]
    cases hread : readPublisher? (tryLock room_id s.world).2 room_id stream_id with
    | none => exact h
    | some p =>
        have hid : p.id = c_str stream_id := (mem_of_readPublisher? hread).2
        dsimp only
        split_ifs with hfault
        · exact h
        · -- The answered publisher replaces the one of its id.
          intro room_id' q hq hplain hknown
          change q ∈ (s.world.redis.update .publisher room_id
            ((s.world.redis .publisher room_id).set
            (answered p video_ssrc audio_ssrc))) .publisher room_id' at hq
          change (if room_id' = room_id ∧ q.id = c_str stream_id then some (video_ssrc, audio_ssrc)
            else s.answers room_id' q.id) = some (q.video_ssrc, q.audio_ssrc)
          by_cases hroom : room_id' = room_id
          · subst hroom
            rw [Redis.update_self] at hq
            rcases Table.mem_set.mp hq with rfl | ⟨hq, hne⟩
            · exact if_pos ⟨rfl, hid⟩
            · rw [if_neg fun heq => hne (heq.2.trans hid.symm)]
              exact h room_id' q hq hplain hknown
          · rw [Redis.update_name _ _ _ hroom] at hq
            rw [if_neg fun heq => hroom heq.1]
            exact h room_id' q hq hplain hknown
  · exact h

end Step

/-! ## Every run -/

end ErizoController
