import AisStore.AreaPartition
import AisStore.Redelivery

/-!
How fresh an estimated position is.

A position is valid for `POSITION_TIMEOUT_MS` from when it is received, on
the clock on the wall; the timestamps of packets decide only which of two
positions is the newer. So a packet without a position is filed at one its
vessel reported earlier in the sequence, and is filed nowhere once the
vessel has been silent for that long. How far the timestamps of the two are
apart, and which of them is the greater, the tracker does not ask.
-/

namespace AisStore

open Lib

section
variable {Pos : Type} (lib : AisLib Pos) (clock : ℕ → ℤ)

/-- Less than the timeout has passed since vessel `m` was last received with
a position. -/
def Recent (m : ℤ) (before : List AisPacket) : Prop :=
  ∃ t, lastReportTime lib clock m before = some t ∧
    clock before.length - t < positionTimeoutNanos

/-- The live writer, or the bulk writer of the table, files the packet under
a cell of `size` degrees. -/
inductive FiledInCell (before : List AisPacket) (packet : AisPacket) : ℕ → ℤ → Prop where
  | live {i : Insert} {c : ℤ} (h : i ∈ contributed lib clock before packet)
      (htable : i.table = .packetsAreaCell1) (hc : i.row.cellid = some c) :
      FiledInCell before packet 1 c
  | bulkCell1 {r : Row} {c : ℤ} (h : r ∈ added lib clock .packetsAreaCell1 before packet)
      (hc : r.cellid = some c) : FiledInCell before packet 1 c
  | bulkCell10 {r : Row} {c : ℤ} (h : r ∈ added lib clock .packetsAreaCell10 before packet)
      (hc : r.cellid = some c) : FiledInCell before packet 10 c

/-- The live writer files the packet as area unknown. -/
def FiledUnknown (before : List AisPacket) (packet : AisPacket) : Prop :=
  ∃ i ∈ contributed lib clock before packet, i.table = .packetsAreaUnknown

/-- The cell is that of a position its vessel reported earlier, at most the
timeout before the packet by the timestamps of the two, and not after it. -/
def FreshCell (before : List AisPacket) (packet : AisPacket) (m : ℤ) (size : ℕ) (c : ℤ) : Prop :=
  ∃ p ∈ before, ∃ r, reportOf lib m p = some r ∧
    r.time.1 ≤ (lib.getBestTimestamp packet).1 ∧
    (lib.getBestTimestamp packet).1 - r.time.1 ≤ positionTimeoutMs ∧
    c = lib.getCellInt r.position size

variable {lib clock}

theorem mem_contributed_cell1 {before : List AisPacket} {packet : AisPacket} {i : Insert}
    (h : i ∈ contributed lib clock before packet) (htable : i.table = .packetsAreaCell1) :
    ∃ p, positionAt lib clock before packet = some p ∧
      i.row.cellid = some (lib.getCellInt p 1) := by
  rw [contributed] at h
  split at h
  · rcases (mem_insertsOf lib).mp h with ⟨-, rfl⟩ | ⟨-, rfl⟩ | ⟨-, rfl⟩
    · cases htable
    · cases htable
    · cases hp : positionAt lib clock before packet with
      | none =>
        rw [hp] at htable
        cases htable
      | some p => exact ⟨p, rfl, rfl⟩
  · cases h

/-- A packet is filed under no other cell than that of the position the
tracker has for it. -/
theorem cell_of_filedInCell {before : List AisPacket} {packet : AisPacket} {size : ℕ} {c : ℤ}
    (h : FiledInCell lib clock before packet size c) :
    ∃ p, positionAt lib clock before packet = some p ∧ c = lib.getCellInt p size := by
  have hbulk : ∀ {table : Table} {size : ℕ} {r : Row} {c : ℤ}, table.Tracks →
      r ∈ rowAdded (acceptByCell lib table size (clock before.length)
        (streamAllAisPacketsTo lib table clock before).tracker packet).1 → r.cellid = some c →
        ∃ p, positionAt lib clock before packet = some p ∧ c = lib.getCellInt p size := by
    intro table size r c htracks hr hc
    obtain ⟨p, hp, hrow⟩ := position_of_acceptByCell lib clock htracks hr
    obtain ⟨-, -, rfl⟩ := (mem_rowAdded_writeByCell lib).mp hrow
    exact ⟨p, hp, (Option.some.inj hc).symm⟩
  cases h with
  | live h htable hc =>
    obtain ⟨p, hp, hcell⟩ := mem_contributed_cell1 h htable
    exact ⟨p, hp, Option.some.inj (hc.symm.trans hcell)⟩
  | bulkCell1 h hc => exact @hbulk .packetsAreaCell1 1 _ _ trivial h hc
  | bulkCell10 h hc => exact @hbulk .packetsAreaCell10 10 _ _ trivial h hc

/-- The position of a packet that carries none: a recent one of its vessel
that outlasts the packets before it, or none when the vessel has been silent. -/
theorem positionAt_estimated {before : List AisPacket} {packet : AisPacket}
    {message : AisMessage Pos} (hmsg : lib.tryGetAisMessage packet = some message)
    (hpos : message.validPosition = none) :
    (∀ p, positionAt lib clock before packet = some p →
      Recent lib clock message.userId before ∧
        ∃ r, Outlasts lib message.userId before r ∧ r.position = p) ∧
      (¬ Recent lib clock message.userId before → positionAt lib clock before packet = none) := by
  have hat : positionAt lib clock before packet =
      ((trackAll lib positionTimeoutNanos clock before).get positionTimeoutNanos
        (clock before.length) message.userId).map PositionTime.position := by
    simp only [positionAt, getPosition, trackPosition, hmsg, hpos]
  have hrecent := isSome_get_trackAll lib positionTimeoutNanos clock message.userId
    (clock before.length) before
  rw [hat]
  constructor
  · intro p hp
    obtain ⟨r, hget, rfl⟩ := Option.map_eq_some_iff.mp hp
    obtain ⟨e, he, rfl⟩ := Cache.exists_of_get hget
    refine ⟨hrecent.mp ?_, e.value, outlasts_of_trackAll lib positionTimeoutNanos clock he, rfl⟩
    rw [hget]
    rfl
  · intro hsilent
    rw [Option.map_eq_none_iff, ← Option.not_isSome_iff_eq_none]
    exact fun h => hsilent (hrecent.mp h)

/-- A packet without a position of its own is filed under a cell only if its
vessel was received with a position less than the timeout ago, and then under
that of such a position, received earlier, that no later one is as new as.
Otherwise it is filed as area unknown, provided it is filed by area at all. -/
theorem estimate_wallClock {before : List AisPacket} {packet : AisPacket}
    {message : AisMessage Pos} (hmsg : lib.tryGetAisMessage packet = some message)
    (hpos : message.validPosition = none) :
    (∀ size c, FiledInCell lib clock before packet size c →
      Recent lib clock message.userId before ∧
        ∃ r, Outlasts lib message.userId before r ∧ c = lib.getCellInt r.position size) ∧
      (¬ Recent lib clock message.userId before →
        (Fits lib packet → (lib.getBestTimestamp packet).1 > 0 → message.userId > 0 →
          FiledUnknown lib clock before packet) ∧
        (IsInt (block .packetsAreaUnknown (.ofEpochMilli (lib.getBestTimestamp packet))) →
          Storable lib packet → GetsRow lib .packetsAreaUnknown clock before packet)) := by
  obtain ⟨hsome, hnone⟩ := @positionAt_estimated _ lib clock before packet message hmsg hpos
  refine ⟨?_, ?_⟩
  · intro size c hfiled
    obtain ⟨p, hp, rfl⟩ := cell_of_filedInCell hfiled
    obtain ⟨hrecent, r, houtlasts, rfl⟩ := hsome p hp
    exact ⟨hrecent, r, houtlasts, rfl⟩
  · intro hsilent
    have hat := hnone hsilent
    refine ⟨?_, ?_⟩
    · intro hfits h0 hm
      have hmmsi : mmsiOf lib packet > 0 := by
        simpa only [mmsiOf, hmsg] using hm
      refine ⟨areaInsert lib packet none, ?_, rfl⟩
      rw [contributed, if_pos hfits, mem_insertsOf, hat]
      exact .inr (.inr ⟨⟨h0, hmmsi⟩, rfl⟩)
    · rintro hint ⟨h0, message', hmsg', hm⟩
      have hadded : added lib clock .packetsAreaUnknown before packet =
          rowAdded (writeByMmsi lib .packetsAreaUnknown packet) := by
        have htracks : Table.Tracks .packetsAreaUnknown := trivial
        rw [← targetPosition_eq lib clock htracks] at hat
        simp [added, accept, PacketsAreaUnknownSSTableWriter.accept, hat, isValid]
      refine ⟨rowOf lib .packetsAreaUnknown none (some message'.userId) packet, ?_⟩
      rw [hadded, mem_rowAdded_writeByMmsi]
      exact ⟨h0, hint, message', hmsg', hm, rfl⟩

end

/-- A vessel's position and its name a second later, its name again twenty-one
minutes after the position, and a later position. -/
def slowVessel : List Decoded :=
  [positionReport, staticReport,
    ⟨"!AIVDM,1,1,,A,57", toLong 1860000, some 219000001, none, [6]⟩,
    ⟨"!AIVDM,1,1,,A,17", toLong 700000, some 219000001, some 43, [7]⟩]

theorem estimate_wallClock_slowVessel :
    let lib := AisLib.ofDecoded slowVessel
    let position : AisPacket := ⟨"!AIVDM,1,1,,A,13"⟩
    Recent lib (fun _ => 0) 219000001 [position] ∧
      ∃ r, Outlasts lib 219000001 [position] r ∧ 42 = lib.getCellInt r.position 1 := by
  intro lib position
  let name : AisPacket := ⟨"!AIVDM,1,1,,A,55"⟩
  let message : AisMessage ℤ := ⟨219000001, none⟩
  have hmsg : lib.tryGetAisMessage name = some message := rfl
  have hfiled : FiledInCell lib (fun _ => 0) [position] name 1 42 := by
    have hmem : areaInsert lib name (some 42) ∈ contributed lib (fun _ => 0) [position] name := by
      decide
    exact .live hmem rfl rfl
  exact (estimate_wallClock hmsg rfl).1 1 42 hfiled

/-- Packets that pass quickly are filed at a position twenty-one minutes
older than themselves, and at one a minute and a half younger. -/
theorem estimate_neitherFreshNorPast :
    let lib := AisLib.ofDecoded slowVessel
    let position : AisPacket := ⟨"!AIVDM,1,1,,A,13"⟩
    let lateName : AisPacket := ⟨"!AIVDM,1,1,,A,57"⟩
    let latePosition : AisPacket := ⟨"!AIVDM,1,1,,A,17"⟩
    let name : AisPacket := ⟨"!AIVDM,1,1,,A,55"⟩
    FiledInCell lib (fun _ => 0) [position] lateName 1 42 ∧
      ¬ FreshCell lib [position] lateName 219000001 1 42 ∧
      FiledInCell lib (fun _ => 0) [latePosition] name 1 43 ∧
      ¬ FreshCell lib [latePosition] name 219000001 1 43 ∧
      ¬ ∀ clock before packet message, lib.tryGetAisMessage packet = some message →
        message.validPosition = none → (lib.getBestTimestamp packet).1 > 0 →
        ∀ size c, FiledInCell lib clock before packet size c →
          FreshCell lib before packet message.userId size c := by
  intro lib position lateName latePosition name
  have hlate : areaInsert lib lateName (some 42) ∈
      contributed lib (fun _ => 0) [position] lateName := by decide
  have hearly : areaInsert lib name (some 43) ∈
      contributed lib (fun _ => 0) [latePosition] name := by decide
  have hstale : ¬ FreshCell lib [position] lateName 219000001 1 42 := by
    rintro ⟨p, hp, r, hr, -, hage, -⟩
    rw [List.mem_singleton.mp hp] at hr
    rw [time_of_reportOf lib hr] at hage
    exact absurd hage (by decide)
  have hfuture : ¬ FreshCell lib [latePosition] name 219000001 1 43 := by
    rintro ⟨p, hp, r, hr, hpast, -⟩
    rw [List.mem_singleton.mp hp] at hr
    rw [time_of_reportOf lib hr] at hpast
    exact absurd hpast (by decide)
  refine ⟨.live hlate rfl rfl, hstale, .live hearly rfl rfl, hfuture, ?_⟩
  intro h
  exact hstale (h (fun _ => 0) [position] lateName ⟨219000001, none⟩ rfl rfl (by decide) 1 42
    (.live hlate rfl rfl))

end AisStore
