import AisStore.Bulk

/-!
Whether the bulk passes divide the packets among the area tables.

A packet that carries no position is filed by cell while the tracker still
knows its vessel, and among the packets of unknown area after that. The
passes that decide so are separate runs, each with a tracker whose entries
expire on that run's own clock, so nothing makes them decide alike. What a
pass decides depends on its clock only through `Located`, and the passes
divide a packet properly exactly when they agree on that.
-/

namespace AisStore

open Lib

section
variable {Pos : Type} (lib : AisLib Pos) (cell1 cell10 unknown : ℕ → ℤ)

/-- The pass of a table gives the packet a row. -/
def GetsRow (table : Table) (clock : ℕ → ℤ) (before : List AisPacket) (packet : AisPacket) : Prop :=
  ∃ r, r ∈ added lib clock table before packet

/-- The packet has a row in exactly one of the two area tables, and one by
large cells just when it has one by small cells. The three clocks are those
of the three passes. -/
def Partitioned (before : List AisPacket) (packet : AisPacket) : Prop :=
  Xor (GetsRow lib .packetsAreaCell1 cell1 before packet)
      (GetsRow lib .packetsAreaUnknown unknown before packet) ∧
    (GetsRow lib .packetsAreaCell10 cell10 before packet ↔
      GetsRow lib .packetsAreaCell1 cell1 before packet)

/-- The packets the tables are meant for: a positive best timestamp, and a
message with a user id that is not negative. -/
def Storable (packet : AisPacket) : Prop :=
  (lib.getBestTimestamp packet).1 > 0 ∧
    ∃ message, lib.tryGetAisMessage packet = some message ∧ 0 ≤ message.userId

/-- The three passes agree on whether the packet is located. When its time
has no ten-minute block, it is the last pass alone that can file it. -/
def PassesAgree (before : List AisPacket) (packet : AisPacket) : Prop :=
  let located (clock : ℕ → ℤ) := Located lib positionTimeoutNanos clock before packet
  let timestamp := Instant.ofEpochMilli (lib.getBestTimestamp packet)
  if IsInt (block .packetsAreaCell1 timestamp) then
    (located cell1 ↔ located unknown) ∧ (located cell10 ↔ located cell1)
  else IsInt (block .packetsAreaUnknown timestamp) ∧ ¬ located unknown

variable (clock : ℕ → ℤ) {before : List AisPacket} {packet : AisPacket}

theorem isSome_positionAt : (positionAt lib clock before packet).isSome = true ↔
    Located lib positionTimeoutNanos clock before packet :=
  isSome_trackPosition lib positionTimeoutNanos clock before packet

/-- A writer by cell files the located packets whose block is an `int`. -/
theorem getsRow_of_cell {table : Table} {size : ℕ}
    (hadded : ∀ r, r ∈ added lib clock table before packet ↔
      ∃ p, positionAt lib clock before packet = some p ∧
        r ∈ rowAdded (writeByCell lib table size packet p)) (h : Storable lib packet) :
    GetsRow lib table clock before packet ↔
      Located lib positionTimeoutNanos clock before packet ∧
        IsInt (block table (.ofEpochMilli (lib.getBestTimestamp packet))) := by
  simp only [GetsRow, hadded, mem_rowAdded_writeByCell, ← isSome_positionAt,
    Option.isSome_iff_exists]
  constructor
  · rintro ⟨r, p, hp, -, hint, -⟩
    exact ⟨⟨p, hp⟩, hint⟩
  · rintro ⟨⟨p, hp⟩, hint⟩
    exact ⟨_, p, hp, h.1, hint, rfl⟩

theorem getsRow_packetsAreaCell1 (hlib : lib.ValidPositions) (h : Storable lib packet) :
    GetsRow lib .packetsAreaCell1 clock before packet ↔
      Located lib positionTimeoutNanos clock before packet ∧
        IsInt (block .packetsAreaCell1 (.ofEpochMilli (lib.getBestTimestamp packet))) :=
  getsRow_of_cell lib clock (fun _ => mem_added_packetsAreaCell1 lib clock hlib) h

/-- The blocks of the two tables are of the same length. -/
theorem getsRow_packetsAreaCell10 (hlib : lib.ValidPositions) (h : Storable lib packet) :
    GetsRow lib .packetsAreaCell10 clock before packet ↔
      Located lib positionTimeoutNanos clock before packet ∧
        IsInt (block .packetsAreaCell1 (.ofEpochMilli (lib.getBestTimestamp packet))) :=
  getsRow_of_cell lib clock (fun _ => mem_added_packetsAreaCell10 lib clock hlib) h

theorem getsRow_packetsAreaUnknown (hlib : lib.ValidPositions) (h : Storable lib packet) :
    GetsRow lib .packetsAreaUnknown clock before packet ↔
      ¬ Located lib positionTimeoutNanos clock before packet ∧
        IsInt (block .packetsAreaUnknown (.ofEpochMilli (lib.getBestTimestamp packet))) := by
  obtain ⟨h0, message, hmsg, hm⟩ := h
  simp only [GetsRow, mem_added_packetsAreaUnknown lib clock hlib, mem_rowAdded_writeByMmsi,
    ← isSome_positionAt, Option.not_isSome_iff_eq_none]
  constructor
  · rintro ⟨r, hp, -, hint, -⟩
    exact ⟨hp, hint⟩
  · rintro ⟨hp, hint⟩
    exact ⟨_, hp, h0, hint, message, hmsg, hm, rfl⟩

/-- A storable packet is divided properly exactly when the passes agree. -/
theorem partitioned_iff (hlib : lib.ValidPositions) (h : Storable lib packet) :
    Partitioned lib cell1 cell10 unknown before packet ↔
      PassesAgree lib cell1 cell10 unknown before packet := by
  rw [Partitioned, PassesAgree, getsRow_packetsAreaCell1 lib cell1 hlib h,
    getsRow_packetsAreaCell10 lib cell10 hlib h, getsRow_packetsAreaUnknown lib unknown hlib h]
  by_cases h10 : IsInt (block .packetsAreaCell1 (.ofEpochMilli (lib.getBestTimestamp packet)))
  · have h30 : IsInt (block .packetsAreaUnknown (.ofEpochMilli (lib.getBestTimestamp packet))) :=
      isInt_block_of_packetsTime h10
    simp only [h10, h30, and_true, if_true, xor_not_right]
  · simp only [h10, and_false, if_false, xor_false, id_eq, and_true]
    exact and_comm

/-- The bulk passes divide the storable packets of an input properly exactly
when they agree, packet by packet, on which are located. -/
theorem areaPartition_iff (hlib : lib.ValidPositions) (packets : List AisPacket) :
    (∀ before packet after, packets = before ++ packet :: after → Storable lib packet →
        Partitioned lib cell1 cell10 unknown before packet) ↔
      ∀ before packet after, packets = before ++ packet :: after → Storable lib packet →
        PassesAgree lib cell1 cell10 unknown before packet := by
  constructor
  · intro h before packet after hsplit hstorable
    exact (partitioned_iff lib cell1 cell10 unknown hlib hstorable).mp
      (h before packet after hsplit hstorable)
  · intro h before packet after hsplit hstorable
    exact (partitioned_iff lib cell1 cell10 unknown hlib hstorable).mpr
      (h before packet after hsplit hstorable)

end

/-- A vessel reports its position and then sends its name. -/
def positionThenName : List Decoded :=
  [positionReport, staticReport]

theorem validPositions_ofDecoded (messages : List Decoded) :
    (AisLib.ofDecoded messages).ValidPositions := fun _ _ _ _ _ => rfl

/-- Passes with the same clock agree. -/
theorem areaPartition_iff_positionThenName :
    let lib := AisLib.ofDecoded positionThenName
    let first : AisPacket := ⟨"!AIVDM,1,1,,A,13"⟩
    let second : AisPacket := ⟨"!AIVDM,1,1,,A,55"⟩
    Storable lib second ∧
      Partitioned lib (fun _ => 0) (fun _ => 0) (fun _ => 0) [first] second := by
  intro lib first second
  have hint : ∀ p ∈ [first, second], IsInt (block .packetsAreaCell1
      (.ofEpochMilli (lib.getBestTimestamp p))) := by decide
  have hstorable : Storable lib second := ⟨by decide, ⟨219000001, none⟩, rfl, by decide⟩
  refine ⟨hstorable, (areaPartition_iff lib _ _ _ (validPositions_ofDecoded _)
    [first, second]).mpr ?_ [first] second [] rfl hstorable⟩
  intro before packet after hsplit _
  have hmem : packet ∈ [first, second] := by
    rw [hsplit]
    simp
  rw [PassesAgree, if_pos (hint packet hmem)]
  exact ⟨Iff.rfl, Iff.rfl⟩

/-- The pass of the last table takes twenty minutes from one packet to the
next and the others none: the second packet gets a row in both tables. -/
theorem areaPartition_slowPass :
    let lib := AisLib.ofDecoded positionThenName
    let slow : ℕ → ℤ := fun n => n * 1200000000000
    let first : AisPacket := ⟨"!AIVDM,1,1,,A,13"⟩
    let second : AisPacket := ⟨"!AIVDM,1,1,,A,55"⟩
    (∀ n, slow n ≤ slow (n + 1)) ∧ lib.ValidPositions ∧ Storable lib second ∧
      GetsRow lib .packetsAreaCell1 (fun _ => 0) [first] second ∧
      GetsRow lib .packetsAreaUnknown slow [first] second ∧
      ¬ Partitioned lib (fun _ => 0) (fun _ => 0) slow [first] second := by
  intro lib slow first second
  have hslow (n : ℕ) : slow n ≤ slow (n + 1) := by
    simp only [slow, Nat.cast_add, Nat.cast_one]
    omega
  have hlib : lib.ValidPositions := validPositions_ofDecoded _
  have hstorable : Storable lib second := ⟨by decide, ⟨219000001, none⟩, rfl, by decide⟩
  have hcell : GetsRow lib .packetsAreaCell1 (fun _ => 0) [first] second := by
    rw [getsRow_packetsAreaCell1 lib _ hlib hstorable, ← isSome_positionAt]
    exact ⟨by decide, by decide⟩
  have hunknown : GetsRow lib .packetsAreaUnknown slow [first] second := by
    rw [getsRow_packetsAreaUnknown lib _ hlib hstorable, ← isSome_positionAt]
    exact ⟨by decide, by decide⟩
  refine ⟨hslow, hlib, hstorable, hcell, hunknown, ?_⟩
  rintro ⟨hxor, -⟩
  rcases hxor with ⟨-, hnot⟩ | ⟨-, hnot⟩
  · exact hnot hunknown
  · exact hnot hcell

end AisStore
