import AisStore.Bulk

/-!
The live writer against the bulk writers.

Both are given the same packets. Where nothing expires they file a packet
at the same position, and what is left to compare is their guards. They
differ in two: the live writer asks for a positive mmsi number where the
bulk writers ask for one that is not negative, and it stores packets
without a timestamp by mmsi where they do not. A packet makes no difference
when its timestamp is positive exactly if its mmsi number is, and every
other packet shows up in one mmsi table and not in the other.
-/

namespace AisStore

open Lib

section
variable {Pos : Type} (lib : AisLib Pos) (clock : ℕ → ℤ)

/-- The packet is stored alike by both: its timestamp is positive exactly if
its mmsi number is. -/
def GuardsAgree (packet : AisPacket) : Prop :=
  ∀ message, lib.tryGetAisMessage packet = some message →
    ((lib.getBestTimestamp packet).1 > 0 ↔ message.userId > 0)

theorem mmsiOf_pos {packet : AisPacket} :
    mmsiOf lib packet > 0 ↔ ∃ message, lib.tryGetAisMessage packet = some message ∧
      0 < message.userId ∧ mmsiOf lib packet = message.userId := by
  rw [mmsiOf]
  cases lib.tryGetAisMessage packet <;> simp

theorem tryGetAisMessage_of_positionAt {before : List AisPacket} {packet : AisPacket} {p : Pos}
    (h : positionAt lib clock before packet = some p) :
    ∃ message, lib.tryGetAisMessage packet = some message := by
  cases hmsg : lib.tryGetAisMessage packet with
  | some message => exact ⟨message, rfl⟩
  | none => simp [positionAt, getPosition, trackPosition, hmsg] at h

theorem fits_of_returns {packet : AisPacket}
    (h : ∀ table, Returns (timeBlock table (.ofEpochMilli (lib.getBestTimestamp packet)))) :
    Fits lib packet :=
  ⟨fun _ => returns_timeBlock.mp (h .packetsTime), fun _ => returns_timeBlock.mp (h .packetsMmsi)⟩

/-- For a packet whose guards agree, filed at the same position, the live
writer and the bulk writer of a table add the same rows. -/
theorem contributed_iff_added (hlib : lib.ValidPositions) {live : ℕ → ℤ}
    {before : List AisPacket} {packet : AisPacket} (hagree : GuardsAgree lib packet)
    (hblocks : ∀ table, Returns (timeBlock table (.ofEpochMilli (lib.getBestTimestamp packet))))
    {table : Table} (htable : table ≠ .packetsAreaCell10)
    (hposition : table.Tracks →
      positionAt lib live before packet = positionAt lib clock before packet)
    {r : Row} :
    ⟨table, r⟩ ∈ contributed lib live before packet ↔ r ∈ added lib clock table before packet := by
  have hint : ∀ table, IsInt (block table (.ofEpochMilli (lib.getBestTimestamp packet))) :=
    fun table => returns_timeBlock.mp (hblocks table)
  -- both files by vessel under the same guard
  have hguard : mmsiOf lib packet > 0 ↔ (lib.getBestTimestamp packet).1 > 0 ∧
      ∃ message, lib.tryGetAisMessage packet = some message ∧ 0 ≤ message.userId ∧
        mmsiOf lib packet = message.userId := by
    rw [mmsiOf_pos]
    constructor
    · rintro ⟨message, hmsg, hpos, heq⟩
      exact ⟨(hagree message hmsg).mpr hpos, message, hmsg, hpos.le, heq⟩
    · rintro ⟨h0, message, hmsg, -, heq⟩
      exact ⟨message, hmsg, (hagree message hmsg).mp h0, heq⟩
  have hmmsi : ∀ table, r ∈ rowAdded (writeByMmsi lib table packet) ↔
      mmsiOf lib packet > 0 ∧ r = rowOf lib table none (some (mmsiOf lib packet)) packet := by
    intro table
    rw [mem_rowAdded_writeByMmsi, hguard]
    constructor
    · rintro ⟨h0, -, message, hmsg, hm, hr⟩
      have heq : mmsiOf lib packet = message.userId := by rw [mmsiOf, hmsg]
      exact ⟨⟨h0, message, hmsg, hm, heq⟩, heq ▸ hr⟩
    · rintro ⟨⟨h0, message, hmsg, hm, heq⟩, hr⟩
      exact ⟨h0, hint table, message, hmsg, hm, heq ▸ hr⟩
  rw [contributed, if_pos (fits_of_returns lib hblocks), mem_insertsOf]
  cases table with
  | packetsTime =>
    rw [mem_added_packetsTime]
    cases positionAt lib live before packet <;> simp [areaInsert, hint]
  | packetsMmsi =>
    rw [mem_added_packetsMmsi, hmmsi]
    cases positionAt lib live before packet <;> simp [areaInsert]
  | packetsAreaCell1 =>
    rw [mem_added_packetsAreaCell1 lib clock hlib, ← hposition trivial]
    cases hp : positionAt lib live before packet with
    | none => simp [areaInsert]
    | some p =>
      have hpos : (lib.getBestTimestamp packet).1 > 0 → mmsiOf lib packet > 0 := by
        intro h0
        obtain ⟨message, hmsg⟩ := tryGetAisMessage_of_positionAt lib live hp
        rw [mmsiOf, hmsg]
        exact (hagree message hmsg).mp h0
      simp only [areaInsert, mem_rowAdded_writeByCell, Insert.mk.injEq, reduceCtorEq, false_and,
        and_false, false_or, true_and, hint, Option.some.injEq, exists_eq_left']
      exact and_congr_left fun _ => ⟨fun h => h.1, fun h0 => ⟨h0, hpos h0⟩⟩
  | packetsAreaCell10 => exact absurd rfl htable
  | packetsAreaUnknown =>
    rw [mem_added_packetsAreaUnknown lib clock hlib, ← hposition trivial, hmmsi]
    cases positionAt lib live before packet with
    | none =>
      simp only [areaInsert, Insert.mk.injEq, reduceCtorEq, false_and, and_false, false_or,
        true_and]
      exact and_congr_left fun _ => ⟨fun h => h.2, fun hm => ⟨(hguard.mp hm).1, hm⟩⟩
    | some p => simp [areaInsert]

/-- The live writer stores by vessel only under a positive mmsi number. -/
theorem mmsi_pos_of_contributed {before : List AisPacket} {packet : AisPacket} {r : Row}
    (h : ⟨.packetsMmsi, r⟩ ∈ contributed lib clock before packet) :
    r.mmsi = some (mmsiOf lib packet) ∧ mmsiOf lib packet > 0 := by
  by_cases hfits : Fits lib packet
  · rw [contributed, if_pos hfits, mem_insertsOf] at h
    rcases h with ⟨-, hr⟩ | ⟨hm, hr⟩ | ⟨-, hr⟩
    · cases congrArg Insert.table hr
    · exact ⟨congrArg (fun i => i.row.mmsi) hr, hm⟩
    · cases hp : positionAt lib clock before packet <;> rw [hp] at hr <;>
        cases congrArg Insert.table hr
  · simp [contributed, hfits] at h

/-- A bulk writer stores by vessel only with a positive timestamp. -/
theorem time_pos_of_added {before : List AisPacket} {packet : AisPacket} {r : Row}
    (h : r ∈ added lib clock .packetsMmsi before packet) : r.time.1 > 0 := by
  rw [mem_added_packetsMmsi, mem_rowAdded_writeByMmsi] at h
  obtain ⟨h0, -, message, -, -, rfl⟩ := h
  exact h0

/-- For every table both sides fill, the rows are the same. -/
def SameRows (live : ℕ → ℤ) (bulk : Table → ℕ → ℤ) (packets : List AisPacket) : Prop :=
  ∀ table, table ≠ .packetsAreaCell10 → ∀ r,
    r ∈ rowsFor table (statementsOf lib live packets) ↔
      r ∈ (streamAllAisPacketsTo lib table (bulk table) packets).rows

/-- Given the same packets, each with a block in every table and a user id
that is not negative, the live writer and the bulk writers produce the same
rows exactly when every decodable packet has a positive timestamp just if
it has a positive user id. -/
theorem sameRows_iff (hlib : lib.ValidPositions) {live : ℕ → ℤ} {bulk : Table → ℕ → ℤ}
    {packets : List AisPacket}
    (hblocks : ∀ packet ∈ packets, ∀ table,
      Returns (timeBlock table (.ofEpochMilli (lib.getBestTimestamp packet))))
    (hids : ∀ packet ∈ packets, ∀ message, lib.tryGetAisMessage packet = some message →
      0 ≤ message.userId)
    (hlive : NoExpiry lib positionTimeoutNanos live packets)
    (hbulk : ∀ table, table.Tracks → NoExpiry lib positionTimeoutNanos (bulk table) packets) :
    SameRows lib live bulk packets ↔ ∀ packet ∈ packets, GuardsAgree lib packet := by
  have hmem : ∀ {before packet after}, packets = before ++ packet :: after → packet ∈ packets :=
    fun hsplit => hsplit ▸ by simp
  simp only [SameRows, mem_rowsFor, mem_statementsOf, mem_streamAllAisPacketsTo]
  constructor
  · -- a packet whose guards differ has a row in one of the mmsi tables only
    intro h packet hpacket message hmsg
    obtain ⟨before, after, hsplit⟩ := List.append_of_mem hpacket
    have hrows := h .packetsMmsi nofun (rowOf lib .packetsMmsi none (some message.userId) packet)
    have heq : mmsiOf lib packet = message.userId := by rw [mmsiOf, hmsg]
    have hfits := fits_of_returns lib (hblocks packet hpacket)
    constructor
    · intro h0
      have hin : rowOf lib .packetsMmsi none (some message.userId) packet ∈
          added lib (bulk .packetsMmsi) .packetsMmsi before packet := by
        rw [mem_added_packetsMmsi, mem_rowAdded_writeByMmsi]
        exact ⟨h0, returns_timeBlock.mp (hblocks packet hpacket _), message, hmsg,
          hids packet hpacket message hmsg, rfl⟩
      obtain ⟨before', packet', after', -, hstored⟩ :=
        hrows.mpr ⟨before, packet, after, hsplit, hin⟩
      obtain ⟨hkey, hm⟩ := mmsi_pos_of_contributed lib live hstored
      rw [Option.some.inj hkey]
      exact hm
    · intro hm
      have hin : ⟨.packetsMmsi, rowOf lib .packetsMmsi none (some message.userId) packet⟩ ∈
          contributed lib live before packet := by
        rw [contributed, if_pos hfits, mem_insertsOf, heq]
        exact .inr (.inl ⟨hm, rfl⟩)
      obtain ⟨before', packet', after', -, hadded⟩ := hrows.mp ⟨before, packet, after, hsplit, hin⟩
      exact time_pos_of_added lib (bulk .packetsMmsi) hadded
  · intro hagree table htable r
    have hcall : ∀ before packet after, packets = before ++ packet :: after →
        (⟨table, r⟩ ∈ contributed lib live before packet ↔
          r ∈ added lib (bulk table) table before packet) := by
      intro before packet after hsplit
      refine contributed_iff_added lib (bulk table) hlib (hagree packet (hmem hsplit))
        (hblocks packet (hmem hsplit)) htable ?_
      intro htracks
      calc positionAt lib live before packet
          = bestPosition lib before packet :=
            position_of_noExpiry _ _ _ (hlive.upTo _ _ _ hsplit)
        _ = positionAt lib (bulk table) before packet :=
            (position_of_noExpiry _ _ _ ((hbulk table htracks).upTo _ _ _ hsplit)).symm
    constructor
    · rintro ⟨before, packet, after, hsplit, hrow⟩
      exact ⟨before, packet, after, hsplit, (hcall before packet after hsplit).mp hrow⟩
    · rintro ⟨before, packet, after, hsplit, hrow⟩
      exact ⟨before, packet, after, hsplit, (hcall before packet after hsplit).mpr hrow⟩

end

/-- A position report of a vessel, its name, and a message without a vessel. -/
def mixedTraffic : List Decoded :=
  [positionReport, staticReport, ⟨"!AIVDM,1,1,,A,00", toLong 602000, none, none, [3]⟩]

theorem sameRows_iff_mixedTraffic :
    SameRows (.ofDecoded mixedTraffic) (fun _ => 0) (fun _ _ => 0)
      (mixedTraffic.map fun d => .fromString d.stringMessage) := by
  have hints : ∀ packet ∈ mixedTraffic.map fun d => AisPacket.fromString d.stringMessage,
      ∀ table ∈ [Table.packetsTime, .packetsMmsi, .packetsAreaCell1, .packetsAreaCell10,
        .packetsAreaUnknown], IsInt (block table
          (.ofEpochMilli ((AisLib.ofDecoded mixedTraffic).getBestTimestamp packet))) := by decide
  have hmessages : ∀ packet ∈ mixedTraffic.map fun d => AisPacket.fromString d.stringMessage,
      ∀ message ∈ (AisLib.ofDecoded mixedTraffic).tryGetAisMessage packet, 0 ≤ message.userId ∧
        (((AisLib.ofDecoded mixedTraffic).getBestTimestamp packet).1 > 0 ↔ message.userId > 0) := by
    decide
  refine (sameRows_iff _ (fun _ _ _ _ _ => rfl) ?_ ?_ (noExpiry_const _ _ _ (by decide) _)
    fun _ _ => noExpiry_const _ _ _ (by decide) _).mpr ?_
  · intro packet hpacket table
    exact returns_timeBlock.mpr (hints packet hpacket table (by cases table <;> simp))
  · exact fun packet hpacket message hmsg => (hmessages packet hpacket message hmsg).1
  · exact fun packet hpacket message hmsg => (hmessages packet hpacket message hmsg).2

/-- A message from user id 0. -/
def idZero : List Decoded :=
  [⟨"!AIVDM,1,1,,A,10", toLong 600000, some 0, some 42, [1]⟩]

/-- The bulk writers store the packet by mmsi, and the live writer does not. -/
theorem sameRows_idZero :
    let packets := idZero.map fun d => AisPacket.fromString d.stringMessage
    let row : Row := ⟨none, some 0, 0, ⟨600000, by decide⟩, [1], "!AIVDM,1,1,,A,10"⟩
    rowsFor .packetsMmsi (statementsOf (.ofDecoded idZero) (fun _ => 0) packets) = [] ∧
      (streamAllAisPacketsTo (.ofDecoded idZero) .packetsMmsi (fun _ => 0) packets).rows = [row] ∧
      ¬ SameRows (.ofDecoded idZero) (fun _ => 0) (fun _ _ => 0) packets := by
  intro packets row
  have hlive : rowsFor .packetsMmsi (statementsOf (.ofDecoded idZero) (fun _ => 0) packets) = [] :=
    rfl
  have hbulk : (streamAllAisPacketsTo (.ofDecoded idZero) .packetsMmsi (fun _ => 0) packets).rows =
      [row] := rfl
  refine ⟨hlive, hbulk, ?_⟩
  intro h
  have hrow := h .packetsMmsi nofun row
  rw [hlive, hbulk] at hrow
  exact List.not_mem_nil (hrow.mpr (List.mem_singleton.mpr rfl))

end AisStore
