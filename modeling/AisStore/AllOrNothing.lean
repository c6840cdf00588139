import AisStore.Writer

/-!
A batch holds all of a packet or nothing of it.

The inserts of a packet go into the batch one by one, each after a time
block that may not fit an `int`, and a throw leaves in the batch what was
added before it. Nothing ever is: of the blocks a packet needs the first to
be computed is the first to overflow (`handleMessage_error`). So what a
batch is assembled to is the complete statement sets of the packets whose
handling returned, one after the other.
-/

namespace AisStore

open Lib

section
variable {Pos : Type} (lib : AisLib Pos) (clock : ℕ → ℤ) (start : WriterState Pos)

/-- The call of `handleMessage` on a packet that the packets `before` precede
in its batch. -/
def handledAfter (before : List AisPacket) (packet : AisPacket) : Handled Pos :=
  let s := assembleStatements lib clock start before
  handleMessage lib (clock before.length) s.tracker s.statements packet

/-- The position that call files the packet at. -/
def filedAt (before : List AisPacket) (packet : AisPacket) : Option Pos :=
  (getPosition lib (clock before.length) (assembleStatements lib clock start before).tracker
    packet).1

/-- What the packet has in the batch when its handling returned normally, and
otherwise nothing. -/
def completeOrNothing (before : List AisPacket) (packet : AisPacket) : List Insert :=
  match (handledAfter lib clock start before packet).outcome with
  | .ok () => insertsOf lib packet (filedAt lib clock start before packet)
  | .error _ => []

theorem batch_handledAfter (before : List AisPacket) (packet : AisPacket) :
    (handledAfter lib clock start before packet).batch =
      (assembleStatements lib clock start before).statements ++
        completeOrNothing lib clock start before packet := by
  rw [completeOrNothing, handledAfter]
  by_cases h : Fits lib packet
  · simp only [handleMessage_ok lib packet _ _ _ h]
    rfl
  · obtain ⟨e, he⟩ := handleMessage_error lib packet
      (assembleStatements lib clock start before).statements (clock before.length)
      (assembleStatements lib clock start before).tracker h
    simp only [he, List.append_nil]

theorem assembleStatements_concat (packets : List AisPacket) (packet : AisPacket) :
    (assembleStatements lib clock start (packets ++ [packet])).statements =
      (assembleStatements lib clock start packets).statements ++
        completeOrNothing lib clock start packets packet := by
  rw [← batch_handledAfter, assembleStatements, runClocked_concat]
  rfl

/-- The batch `handleMessages` assembles is, packet by packet, the complete
statement set of each whose handling returned normally; a packet whose
handling throws leaves the batch as it found it. -/
theorem batch_allOrNothing (tracker : Tracker Pos) (packets : List AisPacket) :
    (assembleStatements lib clock ⟨tracker, []⟩ packets).statements =
        packets.zipIdx.flatMap (fun x =>
          completeOrNothing lib clock ⟨tracker, []⟩ (packets.take x.2) x.1) ∧
      ∀ before packet after, packets = before ++ packet :: after →
        ∀ e, (handledAfter lib clock ⟨tracker, []⟩ before packet).outcome = .error e →
          (handledAfter lib clock ⟨tracker, []⟩ before packet).batch =
            (assembleStatements lib clock ⟨tracker, []⟩ before).statements := by
  have hconcat := assembleStatements_concat lib clock ⟨tracker, []⟩
  refine ⟨@eq_flatMap_of_concat _ _ (fun packets =>
    (assembleStatements lib clock ⟨tracker, []⟩ packets).statements) _ rfl hconcat packets, ?_⟩
  intro before packet after _ e he
  rw [batch_handledAfter, completeOrNothing, he, List.append_nil]

end

end AisStore
