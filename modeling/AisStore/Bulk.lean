import AisStore.Writer

/-!
The SSTable writers of the bulk converter.

There is one writer per table. `FileSSTableConverter` reads the input once
for each of them, so the three that track positions have a tracker each,
fed from the same packets but at different wall-clock times. A call of
`accept` either adds the packet's row, or logs that it cannot, or throws
when the packet's time block is no `int`; the throw ends that call, and the
next packet is a call of its own.

Both kinds of writer end up in `added`, the row one call adds given the
packets before it, and `mem_streamAllAisPacketsTo` says that a pass adds
just these.
-/

namespace AisStore

open Lib

section
variable {Pos : Type} (lib : AisLib Pos)

/-- `writer().addRow(..)` with the block, time, digest and message of the
packet. -/
def addRow (table : Table) (cellid mmsi : Option ℤ) (packet : AisPacket) :
    Except Failure (Option Row) := do
  let ts := lib.getBestTimestamp packet
  let timeblock ← timeBlock table (.ofEpochMilli ts)
  return some ⟨cellid, mmsi, timeblock, ts, digest lib packet, packet.stringMessage⟩

/-- The row of a writer that files by cell. -/
def writeByCell (table : Table) (size : ℕ) (packet : AisPacket) (position : Pos) :
    Except Failure (Option Row) :=
  if (lib.getBestTimestamp packet).1 > 0 then
    addRow lib table (some (lib.getCellInt position size)) none packet
  else .ok none

/-- The row of a writer that files by vessel. -/
def writeByMmsi (table : Table) (packet : AisPacket) : Except Failure (Option Row) :=
  if (lib.getBestTimestamp packet).1 > 0 then
    match lib.tryGetAisMessage packet with
    | none => .ok none
    | some message =>
      if message.userId ≥ 0 then addRow lib table none (some message.userId) packet
      else .ok none
  else .ok none

def targetPosition (now : ℤ) (tracker : Tracker Pos) (packet : AisPacket) :
    Option Pos × Tracker Pos :=
  trackPosition lib positionTimeoutNanos now tracker packet

/-- `isValid(position)`, for a position that may be null. -/
def isValid (position : Option Pos) : Bool := position.any lib.isValid

def PacketsTimeSSTableWriter.accept (packet : AisPacket) : Except Failure (Option Row) :=
  if (lib.getBestTimestamp packet).1 > 0 then addRow lib .packetsTime none none packet
  else .ok none

def PacketsMmsiSSTableWriter.accept (packet : AisPacket) : Except Failure (Option Row) :=
  writeByMmsi lib .packetsMmsi packet

/-- `accept` of a writer that files by cell, with its table and cell size. -/
def acceptByCell (table : Table) (size : ℕ) (now : ℤ) (tracker : Tracker Pos)
    (packet : AisPacket) : Except Failure (Option Row) × Tracker Pos :=
  let (position, tracker) := targetPosition lib now tracker packet
  match position with
  | none => (.ok none, tracker)
  | some p =>
    if isValid lib (some p) then (writeByCell lib table size packet p, tracker)
    else (.ok none, tracker)

def PacketsAreaCell1SSTableWriter.accept (now : ℤ) (tracker : Tracker Pos) (packet : AisPacket) :
    Except Failure (Option Row) × Tracker Pos :=
  acceptByCell lib .packetsAreaCell1 1 now tracker packet

def PacketsAreaCell10SSTableWriter.accept (now : ℤ) (tracker : Tracker Pos) (packet : AisPacket) :
    Except Failure (Option Row) × Tracker Pos :=
  acceptByCell lib .packetsAreaCell10 10 now tracker packet

def PacketsAreaUnknownSSTableWriter.accept (now : ℤ) (tracker : Tracker Pos)
    (packet : AisPacket) : Except Failure (Option Row) × Tracker Pos :=
  let (position, tracker) := targetPosition lib now tracker packet
  if isValid lib position = false then (writeByMmsi lib .packetsAreaUnknown packet, tracker)
  else (.ok none, tracker)

/-- `accept` of the writer of a table. Two of the writers have no tracker. -/
def accept (table : Table) (now : ℤ) (tracker : Tracker Pos) (packet : AisPacket) :
    Except Failure (Option Row) × Tracker Pos :=
  match table with
  | .packetsTime => (PacketsTimeSSTableWriter.accept lib packet, tracker)
  | .packetsMmsi => (PacketsMmsiSSTableWriter.accept lib packet, tracker)
  | .packetsAreaCell1 => PacketsAreaCell1SSTableWriter.accept lib now tracker packet
  | .packetsAreaCell10 => PacketsAreaCell10SSTableWriter.accept lib now tracker packet
  | .packetsAreaUnknown => PacketsAreaUnknownSSTableWriter.accept lib now tracker packet

/-- The state of a writer: what it has counted, tracked and added. -/
structure SSTableWriter (Pos : Type) where
  numberOfPacketsProcessed : ℕ
  tracker : Tracker Pos
  rows : List Row

/-- The row a call of `accept` added, if it did. -/
def rowAdded : Except Failure (Option Row) → List Row
  | .ok (some r) => [r]
  | .ok none => []
  | .error _ => []

def acceptPacket (table : Table) (now : ℤ) (w : SSTableWriter Pos) (packet : AisPacket) :
    SSTableWriter Pos :=
  let (outcome, tracker) := accept lib table now w.tracker packet
  ⟨w.numberOfPacketsProcessed + 1, tracker, w.rows ++ rowAdded outcome⟩

/-- One pass over the input: a fresh writer and all packets. -/
def streamAllAisPacketsTo (table : Table) (clock : ℕ → ℤ) (packets : List AisPacket) :
    SSTableWriter Pos :=
  runClocked (acceptPacket lib table) clock ⟨0, Cache.empty, []⟩ packets

/-! ### The row of one call -/

variable (clock : ℕ → ℤ)

/-- The tables whose writers track positions. -/
def Table.Tracks : Table → Prop
  | .packetsTime => False
  | .packetsMmsi => False
  | .packetsAreaCell1 => True
  | .packetsAreaCell10 => True
  | .packetsAreaUnknown => True

/-- What the writer of a table adds for a packet after the packets before it. -/
def added (table : Table) (before : List AisPacket) (packet : AisPacket) : List Row :=
  rowAdded (accept lib table (clock before.length)
    (streamAllAisPacketsTo lib table clock before).tracker packet).1

theorem tracker_accept {table : Table} (h : table.Tracks) (now : ℤ) (tracker : Tracker Pos)
    (packet : AisPacket) :
    (accept lib table now tracker packet).2 = (targetPosition lib now tracker packet).2 := by
  have hcell : ∀ table size, (acceptByCell lib table size now tracker packet).2 =
      (targetPosition lib now tracker packet).2 := by
    intro table size
    simp only [acceptByCell]
    cases (targetPosition lib now tracker packet).1 with
    | none => rfl
    | some p =>
      show (if isValid lib (some p) then _ else _ : Except Failure (Option Row) × _).2 = _
      split <;> rfl
  cases table with
  | packetsTime => exact h.elim
  | packetsMmsi => exact h.elim
  | packetsAreaCell1 => exact hcell _ _
  | packetsAreaCell10 => exact hcell _ _
  | packetsAreaUnknown =>
    simp only [accept, PacketsAreaUnknownSSTableWriter.accept]
    split <;> rfl

theorem streamAllAisPacketsTo_concat (table : Table) (packets : List AisPacket)
    (packet : AisPacket) :
    streamAllAisPacketsTo lib table clock (packets ++ [packet]) =
      acceptPacket lib table (clock packets.length)
        (streamAllAisPacketsTo lib table clock packets) packet :=
  runClocked_concat ..

/-- Each pass that tracks positions tracks them as any other run does. -/
theorem tracker_streamAllAisPacketsTo {table : Table} (h : table.Tracks)
    (packets : List AisPacket) :
    (streamAllAisPacketsTo lib table clock packets).tracker =
      trackAll lib positionTimeoutNanos clock packets := by
  induction packets using List.reverseRecOn with
  | nil => rfl
  | append_singleton packets packet ih =>
    rw [streamAllAisPacketsTo_concat, trackAll_concat, ← ih]
    exact tracker_accept lib h _ _ _

/-- The rows of a pass are the rows of its calls. -/
theorem mem_streamAllAisPacketsTo {table : Table} {packets : List AisPacket} {r : Row} :
    r ∈ (streamAllAisPacketsTo lib table clock packets).rows ↔
      ∃ before packet after, packets = before ++ packet :: after ∧
        r ∈ added lib clock table before packet := by
  have hconcat : ∀ packets packet,
      (streamAllAisPacketsTo lib table clock (packets ++ [packet])).rows =
        (streamAllAisPacketsTo lib table clock packets).rows ++
          added lib clock table packets packet := by
    intro packets packet
    rw [streamAllAisPacketsTo_concat]
    rfl
  exact @mem_iff_of_concat _ _ (fun packets => (streamAllAisPacketsTo lib table clock packets).rows)
    (added lib clock table) rfl hconcat packets r

/-! ### The row of each writer -/

theorem mem_rowAdded_addRow {table : Table} {cellid mmsi : Option ℤ} {packet : AisPacket}
    {r : Row} :
    r ∈ rowAdded (addRow lib table cellid mmsi packet) ↔
      IsInt (block table (.ofEpochMilli (lib.getBestTimestamp packet))) ∧
        r = rowOf lib table cellid mmsi packet := by
  rw [addRow]
  cases hblock : timeBlock table (.ofEpochMilli (lib.getBestTimestamp packet)) with
  | error e =>
    have hnot : ¬ IsInt (block table (.ofEpochMilli (lib.getBestTimestamp packet))) := by
      intro h
      rw [timeBlock_of_isInt h] at hblock
      cases hblock
    simp [bind, Except.bind, rowAdded, hnot]
  | ok b =>
    obtain ⟨hint, rfl⟩ := timeBlock_eq_ok.mp hblock
    simp [bind, Except.bind, pure, Except.pure, rowAdded, hint, rowOf]

theorem mem_rowAdded_writeByCell {table : Table} {size : ℕ} {packet : AisPacket} {p : Pos}
    {r : Row} :
    r ∈ rowAdded (writeByCell lib table size packet p) ↔
      (lib.getBestTimestamp packet).1 > 0 ∧
        IsInt (block table (.ofEpochMilli (lib.getBestTimestamp packet))) ∧
        r = rowOf lib table (some (lib.getCellInt p size)) none packet := by
  by_cases h0 : (lib.getBestTimestamp packet).1 > 0
  · simp only [writeByCell, h0, if_true, true_and, mem_rowAdded_addRow]
  · simp [writeByCell, h0, rowAdded]

theorem mem_rowAdded_writeByMmsi {table : Table} {packet : AisPacket} {r : Row} :
    r ∈ rowAdded (writeByMmsi lib table packet) ↔
      (lib.getBestTimestamp packet).1 > 0 ∧
        IsInt (block table (.ofEpochMilli (lib.getBestTimestamp packet))) ∧
        ∃ message, lib.tryGetAisMessage packet = some message ∧ 0 ≤ message.userId ∧
          r = rowOf lib table none (some message.userId) packet := by
  by_cases h0 : (lib.getBestTimestamp packet).1 > 0
  · cases hmsg : lib.tryGetAisMessage packet with
    | none => simp [writeByMmsi, h0, hmsg, rowAdded]
    | some message =>
      by_cases hm : message.userId ≥ 0
      · simp [writeByMmsi, h0, hmsg, hm, mem_rowAdded_addRow]
      · simp [writeByMmsi, h0, hmsg, hm, rowAdded]
  · simp [writeByMmsi, h0, rowAdded]

/-- The position a tracking writer files a packet at is the one any run over
the same packets with the same clock would. -/
theorem targetPosition_eq {table : Table} (h : table.Tracks) (before : List AisPacket)
    (packet : AisPacket) :
    (targetPosition lib (clock before.length)
      (streamAllAisPacketsTo lib table clock before).tracker packet).1 =
        positionAt lib clock before packet := by
  rw [tracker_streamAllAisPacketsTo lib clock h]
  rfl

theorem isValid_positionAt (hlib : lib.ValidPositions) (before : List AisPacket)
    (packet : AisPacket) :
    isValid lib (positionAt lib clock before packet) =
      (positionAt lib clock before packet).isSome := by
  cases h : positionAt lib clock before packet with
  | none => rfl
  | some p => exact isValid_of_trackPosition lib positionTimeoutNanos clock hlib h

theorem mem_added_packetsTime {before : List AisPacket} {packet : AisPacket} {r : Row} :
    r ∈ added lib clock .packetsTime before packet ↔
      (lib.getBestTimestamp packet).1 > 0 ∧
        IsInt (block .packetsTime (.ofEpochMilli (lib.getBestTimestamp packet))) ∧
        r = rowOf lib .packetsTime none none packet := by
  show r ∈ rowAdded (PacketsTimeSSTableWriter.accept lib packet) ↔ _
  by_cases h0 : (lib.getBestTimestamp packet).1 > 0
  · simp only [PacketsTimeSSTableWriter.accept, h0, if_true, true_and, mem_rowAdded_addRow]
  · simp [PacketsTimeSSTableWriter.accept, h0, rowAdded]

theorem mem_added_packetsMmsi {before : List AisPacket} {packet : AisPacket} {r : Row} :
    r ∈ added lib clock .packetsMmsi before packet ↔
      r ∈ rowAdded (writeByMmsi lib .packetsMmsi packet) := Iff.rfl

/-- A writer that files by cell adds no packet that has no position. -/
theorem position_of_acceptByCell {table : Table} (htable : table.Tracks) {size : ℕ}
    {before : List AisPacket} {packet : AisPacket} {r : Row}
    (h : r ∈ rowAdded (acceptByCell lib table size (clock before.length)
      (streamAllAisPacketsTo lib table clock before).tracker packet).1) :
    ∃ p, positionAt lib clock before packet = some p ∧
      r ∈ rowAdded (writeByCell lib table size packet p) := by
  rw [← targetPosition_eq lib clock htable]
  simp only [acceptByCell] at h
  cases hp : (targetPosition lib (clock before.length)
      (streamAllAisPacketsTo lib table clock before).tracker packet).1 with
  | none =>
    rw [hp] at h
    cases h
  | some p =>
    simp only [hp] at h
    split at h
    · exact ⟨p, rfl, h⟩
    · cases h

/-- It adds those that have one. -/
theorem mem_rowAdded_acceptByCell (hlib : lib.ValidPositions) {table : Table}
    (htable : table.Tracks) {size : ℕ} {before : List AisPacket} {packet : AisPacket} {r : Row} :
    r ∈ rowAdded (acceptByCell lib table size (clock before.length)
        (streamAllAisPacketsTo lib table clock before).tracker packet).1 ↔
      ∃ p, positionAt lib clock before packet = some p ∧
        r ∈ rowAdded (writeByCell lib table size packet p) := by
  constructor
  · exact position_of_acceptByCell lib clock htable
  · rintro ⟨p, hp, hr⟩
    have hvalid := isValid_positionAt lib clock hlib before packet
    rw [← targetPosition_eq lib clock htable] at hvalid hp
    rw [hp] at hvalid
    simpa [acceptByCell, hp, hvalid] using hr

theorem mem_added_packetsAreaCell1 (hlib : lib.ValidPositions) {before : List AisPacket}
    {packet : AisPacket} {r : Row} :
    r ∈ added lib clock .packetsAreaCell1 before packet ↔
      ∃ p, positionAt lib clock before packet = some p ∧
        r ∈ rowAdded (writeByCell lib .packetsAreaCell1 1 packet p) :=
  @mem_rowAdded_acceptByCell _ lib clock hlib .packetsAreaCell1 trivial 1 before packet r

theorem mem_added_packetsAreaCell10 (hlib : lib.ValidPositions) {before : List AisPacket}
    {packet : AisPacket} {r : Row} :
    r ∈ added lib clock .packetsAreaCell10 before packet ↔
      ∃ p, positionAt lib clock before packet = some p ∧
        r ∈ rowAdded (writeByCell lib .packetsAreaCell10 10 packet p) :=
  @mem_rowAdded_acceptByCell _ lib clock hlib .packetsAreaCell10 trivial 10 before packet r

/-- The writer of the last table adds the packets that have none. -/
theorem mem_added_packetsAreaUnknown (hlib : lib.ValidPositions) {before : List AisPacket}
    {packet : AisPacket} {r : Row} :
    r ∈ added lib clock .packetsAreaUnknown before packet ↔
      positionAt lib clock before packet = none ∧
        r ∈ rowAdded (writeByMmsi lib .packetsAreaUnknown packet) := by
  have hvalid := isValid_positionAt lib clock hlib before packet
  have htracks : Table.Tracks .packetsAreaUnknown := trivial
  rw [← targetPosition_eq lib clock htracks] at hvalid ⊢
  simp only [added, accept, PacketsAreaUnknownSSTableWriter.accept]
  cases hp : (targetPosition lib (clock before.length)
      (streamAllAisPacketsTo lib .packetsAreaUnknown clock before).tracker packet).1 with
  | none =>
    rw [hp] at hvalid
    simp [hvalid]
  | some p =>
    rw [hp] at hvalid
    simp [hvalid, rowAdded]

end

end AisStore
