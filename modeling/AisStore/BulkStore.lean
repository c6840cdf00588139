import AisStore.Agreement
import AisStore.Interval

/-!
A store that was loaded in bulk answers as the live store does.

Where no packet tells the two sides apart, they write not only the same rows
of each table but write them in the same order (`rows_eq`): a call of a
writer adds one row or none, so that rows that are the same as a set are the
same as a list. Rows that share a key then replace each other alike on both
sides, and the tables are equal. Only `packets_area_cell10` differs, which
the live writer leaves empty, and no query reads it.
-/

namespace AisStore

open Lib

/-- Lists of at most one element are told apart by what they hold. -/
theorem eq_of_mem_iff {α : Type} {l l' : List α} (hl : l.length ≤ 1) (hl' : l'.length ≤ 1)
    (h : ∀ x, x ∈ l ↔ x ∈ l') : l = l' := by
  rcases l with _ | ⟨a, _ | ⟨b, l⟩⟩
  · exact (List.eq_nil_iff_forall_not_mem.mpr fun x hx => List.not_mem_nil ((h x).mpr hx)).symm
  · have ha : a ∈ l' := (h a).mp (List.mem_singleton_self a)
    obtain ⟨c, rfl⟩ := List.length_eq_one_iff.mp
      (le_antisymm hl' (List.length_pos_of_mem ha))
    rw [List.mem_singleton.mp ha]
  · simp at hl

section
variable {Pos : Type} (lib : AisLib Pos)

/-- The rows of each writer, loaded into its table. -/
def bulkStore (clock : Table → ℕ → ℤ) (packets : List AisPacket) : Store :=
  fun table => KeyedTable.ofInserts (streamAllAisPacketsTo lib table (clock table) packets).rows

theorem length_rowAdded (outcome : Except Failure (Option Row)) :
    (rowAdded outcome).length ≤ 1 := by
  rcases outcome with e | _ | r
  · exact Nat.zero_le 1
  · exact Nat.zero_le 1
  · exact le_refl 1

/-- A packet has a row in a table, or none. -/
theorem length_rowsFor_contributed (clock : ℕ → ℤ) (before : List AisPacket) (packet : AisPacket)
    (table : Table) : (rowsFor table (contributed lib clock before packet)).length ≤ 1 := by
  have htime : ∀ (p : Prop) [Decidable p] (i : Insert),
      (rowsFor table (if p then [i] else [])).length = if p ∧ i.table = table then 1 else 0 := by
    intro p _ i
    by_cases hp : p
    · by_cases hi : i.table = table <;> simp [rowsFor, hp, hi]
    · simp [rowsFor, hp]
  by_cases hfits : Fits lib packet
  · rw [contributed, if_pos hfits, insertsOf, rowsFor_append, rowsFor_append, List.length_append,
      List.length_append, htime, htime, htime]
    cases positionAt lib clock before packet <;> cases table <;>
      simp [areaInsert, apply_ite] <;> split_ifs <;> omega
  · simp [contributed, hfits, rowsFor]

/-- Where the guards agree and nothing expires, both sides write the rows of a
table in the same order. -/
theorem rows_eq (hlib : lib.ValidPositions) {live : ℕ → ℤ} {bulk : Table → ℕ → ℤ}
    {packets : List AisPacket}
    (hblocks : ∀ packet ∈ packets, ∀ table,
      Returns (timeBlock table (.ofEpochMilli (lib.getBestTimestamp packet))))
    (hagree : ∀ packet ∈ packets, GuardsAgree lib packet)
    (hlive : NoExpiry lib positionTimeoutNanos live packets)
    (hbulk : ∀ table, table.Tracks → NoExpiry lib positionTimeoutNanos (bulk table) packets)
    {table : Table} (htable : table ≠ .packetsAreaCell10) :
    rowsFor table (statementsOf lib live packets) =
      (streamAllAisPacketsTo lib table (bulk table) packets).rows := by
  induction packets using List.reverseRecOn with
  | nil => rfl
  | append_singleton packets packet ih =>
      have hmem : packet ∈ packets ++ [packet] := List.mem_append_right _ (by simp)
      have hrows := ih (fun p hp => hblocks p (List.mem_append_left _ hp))
        (fun p hp => hagree p (List.mem_append_left _ hp)) hlive.left
        fun table htracks => (hbulk table htracks).left
      have hposition : table.Tracks →
          positionAt lib live packets packet = positionAt lib (bulk table) packets packet := by
        intro htracks
        calc positionAt lib live packets packet
            = bestPosition lib packets packet := position_of_noExpiry _ _ _ hlive
          _ = positionAt lib (bulk table) packets packet :=
              (position_of_noExpiry _ _ _ (hbulk table htracks)).symm
      have hone : rowsFor table (contributed lib live packets packet) =
          added lib (bulk table) table packets packet := by
        refine eq_of_mem_iff (length_rowsFor_contributed ..) (length_rowAdded _) fun r => ?_
        rw [mem_rowsFor]
        exact contributed_iff_added lib (bulk table) hlib (hagree packet hmem)
          (hblocks packet hmem) htable hposition
      rw [statementsOf_concat, rowsFor_append, hrows, hone, streamAllAisPacketsTo_concat]
      rfl

/-- A bulk writer adds no row that is not in its block. -/
theorem inBlock_of_added (hlib : lib.ValidPositions) {clock : ℕ → ℤ} {table : Table}
    {before : List AisPacket} {packet : AisPacket} {r : Row}
    (h : r ∈ added lib clock table before packet) : r.InBlock table := by
  have hrow : ∃ cellid mmsi, IsInt (block table (.ofEpochMilli (lib.getBestTimestamp packet))) ∧
      r = rowOf lib table cellid mmsi packet := by
    cases table with
    | packetsTime =>
        rw [mem_added_packetsTime] at h
        exact ⟨none, none, h.2⟩
    | packetsMmsi =>
        rw [mem_added_packetsMmsi, mem_rowAdded_writeByMmsi] at h
        obtain ⟨-, hint, message, -, -, rfl⟩ := h
        exact ⟨none, some message.userId, hint, rfl⟩
    | packetsAreaCell1 =>
        rw [mem_added_packetsAreaCell1 lib clock hlib] at h
        obtain ⟨p, -, h⟩ := h
        exact ⟨_, none, ((mem_rowAdded_writeByCell lib).mp h).2⟩
    | packetsAreaCell10 =>
        rw [mem_added_packetsAreaCell10 lib clock hlib] at h
        obtain ⟨p, -, h⟩ := h
        exact ⟨_, none, ((mem_rowAdded_writeByCell lib).mp h).2⟩
    | packetsAreaUnknown =>
        rw [mem_added_packetsAreaUnknown lib clock hlib, mem_rowAdded_writeByMmsi] at h
        obtain ⟨-, -, hint, message, -, -, rfl⟩ := h
        exact ⟨none, some message.userId, hint, rfl⟩
  obtain ⟨cellid, mmsi, hint, rfl⟩ := hrow
  exact timeBlock_of_isInt hint

theorem bulkStore_inBlocks (hlib : lib.ValidPositions) (clock : Table → ℕ → ℤ)
    (packets : List AisPacket) : (bulkStore lib clock packets).InBlocks := by
  intro table r hr
  obtain ⟨before, packet, after, -, hadded⟩ :=
    (mem_streamAllAisPacketsTo lib (clock table)).mp (KeyedTable.mem_of_mem_ofInserts hr)
  exact inBlock_of_added lib hlib hadded

end

/-- Packets that both sides store alike, written live and loaded in bulk:
every query is answered over both stores or over neither, whatever the fetch
sizes, and with the same packets. -/
theorem bulkStore_answers {Pos Area : Type} {lib : AisLib Pos} (hlib : lib.ValidPositions)
    {live : ℕ → ℤ} {bulk : Table → ℕ → ℤ} {packets : List AisPacket}
    (hblocks : ∀ packet ∈ packets, ∀ table,
      Returns (timeBlock table (.ofEpochMilli (lib.getBestTimestamp packet))))
    (hagree : ∀ packet ∈ packets, GuardsAgree lib packet)
    (hlive : NoExpiry lib positionTimeoutNanos live packets)
    (hbulk : ∀ table, table.Tracks → NoExpiry lib positionTimeoutNanos (bulk table) packets)
    {session session' : Session} (hsession : session.EvaluatesWhere (written lib live packets))
    (hsession' : session'.EvaluatesWhere (bulkStore lib bulk packets)) {grid : Grid Area}
    {combine : List (List AisPacket) → List AisPacket} (hcombine : CombineUnion combine)
    {kind : QueryKind Area} (hkind : kind.Proper) {fetchSize fetchSize' : ℤ}
    (hsize : 0 < fetchSize) (hsize' : 0 < fetchSize') {start stop : Instant} (hle : start ≤ stop) :
    (Returns (kind.query grid session combine fetchSize start stop) ↔
        Returns (kind.query grid session' combine fetchSize' start stop)) ∧
      ∀ answer answer', kind.query grid session combine fetchSize start stop = .ok answer →
        kind.query grid session' combine fetchSize' start stop = .ok answer' →
          answer.Perm answer' := by
  have htables : ∀ table, table ≠ .packetsAreaCell10 →
      written lib live packets table = bulkStore lib bulk packets table := fun table htable =>
    congrArg KeyedTable.ofInserts (rows_eq lib hlib hblocks hagree hlive hbulk htable)
  have htable : kind.table ≠ .packetsAreaCell10 := by cases kind <;> exact nofun
  have hlive := fun hfits => @query_perm _ grid _ _ _ kind _ _ (written_inBlocks lib live packets)
    hsession hcombine hkind _ hsize hle hfits
  have hbulk := fun hfits => @query_perm _ grid _ _ _ kind _ _
    (bulkStore_inBlocks lib hlib bulk packets) hsession' hcombine hkind _ hsize' hle hfits
  rw [← htables _ htable] at hbulk
  refine ⟨⟨fun h => ?_, fun h => ?_⟩, fun answer answer' h h' => ?_⟩
  · obtain ⟨answer, hanswer, -⟩ := hbulk (fits_of_returns_query hkind hle h)
    exact ⟨answer, hanswer⟩
  · obtain ⟨answer, hanswer, -⟩ := hlive (fits_of_returns_query hkind hle h)
    exact ⟨answer, hanswer⟩
  · have hfits := fits_of_returns_query hkind hle ⟨answer, h⟩
    obtain ⟨rows, hrows, hperm⟩ := hlive hfits
    obtain ⟨rows', hrows', hperm'⟩ := hbulk hfits
    obtain rfl : answer = rows := Except.ok.inj (h.symm.trans hrows)
    obtain rfl : answer' = rows' := Except.ok.inj (h'.symm.trans hrows')
    exact hperm.trans hperm'.symm

/-- What a vessel sent in the second after its position report, out of a store
loaded in bulk. -/
theorem bulkStore_answers_mixedTraffic :
    ∃ answer, QueryKind.forTime.query noCells (.ofStore (bulkStore (.ofDecoded mixedTraffic)
        (fun _ _ => 0) (mixedTraffic.map fun d => .fromString d.stringMessage)))
          (combineByTime (.ofDecoded mixedTraffic)) 2 (.ofEpochMilli ⟨600000, by decide⟩)
            (.ofEpochMilli ⟨602000, by decide⟩) = .ok answer ∧
      [.fromString staticReport.stringMessage].Perm answer := by
  let packets := mixedTraffic.map fun d => AisPacket.fromString d.stringMessage
  let lib := AisLib.ofDecoded mixedTraffic
  have hints : ∀ packet ∈ packets, ∀ table ∈ [Table.packetsTime, .packetsMmsi,
      .packetsAreaCell1, .packetsAreaCell10, .packetsAreaUnknown],
        IsInt (block table (.ofEpochMilli (lib.getBestTimestamp packet))) := by decide
  have hblocks : ∀ packet ∈ packets, ∀ table,
      Returns (timeBlock table (.ofEpochMilli (lib.getBestTimestamp packet))) :=
    fun packet hpacket table =>
      returns_timeBlock.mpr (hints packet hpacket table (by cases table <;> simp))
  have hagree : ∀ packet ∈ packets, ∀ message ∈ lib.tryGetAisMessage packet,
      ((lib.getBestTimestamp packet).1 > 0 ↔ message.userId > 0) := by decide
  have hlive : QueryKind.forTime.query noCells (.ofStore (written lib (fun _ => 0) packets))
      (combineByTime lib) 1 (.ofEpochMilli ⟨600000, by decide⟩)
        (.ofEpochMilli ⟨602000, by decide⟩) = .ok [.fromString staticReport.stringMessage] := by
    decide
  have hkind : (QueryKind.forTime : QueryKind Unit).Proper := trivial
  have hle : Instant.ofEpochMilli ⟨600000, by decide⟩ ≤ .ofEpochMilli ⟨602000, by decide⟩ :=
    Instant.ofEpochMilli_le (by decide)
  have htwo : (0 : ℤ) < 2 := by decide
  obtain ⟨hreturns, hperm⟩ := bulkStore_answers (fun _ _ _ _ _ => rfl) hblocks hagree
    (noExpiry_const _ _ _ (by decide) _) (fun _ _ => noExpiry_const _ _ _ (by decide) _)
    (Session.returnsInOrder_ofStore (written lib (fun _ => 0) packets)).evaluatesWhere
    (Session.returnsInOrder_ofStore (bulkStore lib (fun _ _ => 0) packets)).evaluatesWhere
    (combineUnion_combineByTime lib) hkind Int.one_pos htwo hle
  obtain ⟨answer, hanswer⟩ := hreturns.mp ⟨_, hlive⟩
  exact ⟨answer, hanswer, hperm _ _ hlive hanswer⟩

end AisStore
