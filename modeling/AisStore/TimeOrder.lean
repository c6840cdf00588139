import AisStore.QueryBuilder
import AisStore.Writer

/-!
Query results come out in the order of time.

Inside one query the database returns the rows block by block, in the order
of the block list, and the list is increasing. A later block holds later
times, so the sequence of one query is sorted across the borders of blocks
as well as inside them, and the buffer between the database and the caller
keeps its order. Sorted sequences are what the merge of several queries
needs to be sorted itself.
-/

namespace AisStore

open Lib

/-- Places in a strictly increasing list follow values. -/
theorem le_of_idxOf_le {bs : List ℤ} (hbs : bs.Pairwise (· < ·)) {a b : ℤ} (ha : a ∈ bs)
    (hb : b ∈ bs) (h : bs.idxOf a ≤ bs.idxOf b) : a ≤ b := by
  have ha' := List.idxOf_lt_length_of_mem ha
  have hb' := List.idxOf_lt_length_of_mem hb
  rcases h.lt_or_eq with hlt | heq
  · have hpair := List.pairwise_iff_getElem.mp hbs _ _ ha' hb' hlt
    rw [List.getElem_idxOf, List.getElem_idxOf] at hpair
    exact hpair.le
  · exact ((List.idxOf_inj ha).mp heq).le

/-- Rows of different blocks have different times, in the order of the blocks. -/
theorem time_le_of_timeblock_lt {table : Table} {a b : Row} (ha : a.InBlock table)
    (hb : b.InBlock table) (h : a.timeblock < b.timeblock) : a.time.1 ≤ b.time.1 := by
  by_contra hlt
  have hle : b.time.1 / 1000 ≤ a.time.1 / 1000 :=
    Int.ediv_le_ediv (by decide) (not_le.mp hlt).le
  have hblock : b.timeblock ≤ a.timeblock := by
    rw [(timeBlock_eq_ok.mp ha).2, (timeBlock_eq_ok.mp hb).2]
    exact block_mono table hle
  exact absurd h (not_lt.mpr hblock)

/-- Rows of one key that are in one block are in one partition. -/
theorem partitionKey_eq {table : Table} {rowName : Column} {row : ℤ} {a b : Row}
    (hcolumn : AisStoreQueryBuilder.KeyColumn table rowName)
    (ha : table = .packetsTime ∨ a.column rowName = some row)
    (hb : table = .packetsTime ∨ b.column rowName = some row)
    (h : a.timeblock = b.timeblock) : a.partitionKey table = b.partitionKey table := by
  cases table with
  | packetsTime => exact congrArg (none, ·) h
  | _ =>
    obtain rfl := hcolumn
    have hab := (ha.resolve_left nofun).trans (hb.resolve_left nofun).symm
    exact Prod.ext hab h

theorem timeblocks_statement {batchLimit : ℤ} {table : Table} {rowName : Column} {row : ℤ}
    {timeBlocks : List ℤ} {start stop : Long} :
    (AisStoreQuery.statement batchLimit table rowName row timeBlocks start stop).timeblocks =
      timeBlocks := by
  cases table <;> rfl

/-- The rows of one statement, listed partition by partition, are in the
order of time. -/
theorem pairwise_time {store : Store} (hstore : store.InBlocks) {batchLimit : ℤ} {table : Table}
    {rowName : Column} {row : ℤ} {lo hi : ℤ} {start stop : Long} {rows : List Row}
    (hcolumn : AisStoreQueryBuilder.KeyColumn table rowName)
    (hrows : rows.Perm ((AisStoreQuery.statement batchLimit table rowName row (Int.range lo hi)
      start stop).matching store))
    (horder : rows.Pairwise
      (AisStoreQuery.statement batchLimit table rowName row (Int.range lo hi) start stop).InOrder) :
    rows.Pairwise fun a b => a.time.1 ≤ b.time.1 := by
  have hscan : ∀ r ∈ rows, r.InBlock table ∧ r.timeblock ∈ Int.range lo hi ∧
      (table = .packetsTime ∨ r.column rowName = some row) := by
    intro r hr
    have hmem := hrows.mem_iff.mp hr
    rw [AisStoreQuery.matching_statement] at hmem
    obtain ⟨hmem, hblock⟩ := List.mem_filter.mp hmem
    obtain ⟨hmem, hcond⟩ := List.mem_filter.mp hmem
    exact ⟨hstore table r hmem, of_decide_eq_true hblock, (of_decide_eq_true hcond).1⟩
  refine horder.imp_of_mem ?_
  intro a b ha hb hab
  obtain ⟨hablock, hain, hakey⟩ := hscan a ha
  obtain ⟨hbblock, hbin, hbkey⟩ := hscan b hb
  obtain ⟨hplace, htime⟩ := hab
  rw [timeblocks_statement] at hplace
  have hle := le_of_idxOf_le (pairwise_range lo hi) hain hbin hplace
  rcases hle.lt_or_eq with hlt | heq
  · exact time_le_of_timeblock_lt hablock hbblock hlt
  · apply htime
    cases table <;> exact partitionKey_eq hcolumn hakey hbkey heq

section
variable {Area Pos : Type} {lib : AisLib Pos} {store : Store} {session : Session}

/-- The sequence of one query is sorted. -/
theorem pending_sorted (hstore : store.InBlocks) (hsession : session.ReturnsInOrder store)
    (htime : ∀ table, ∀ r ∈ (store table).rows, lib.getBestTimestamp r.packet = r.time)
    {batchLimit : ℤ} (hlimit : 0 < batchLimit) {table : Table} {rowName : Column}
    (hcolumn : AisStoreQueryBuilder.KeyColumn table rowName) {rowStart rowStop : ℤ}
    {timeStart timeStop : Instant}
    (hrows : AisStoreQuery.Rows table timeStart timeStop rowStart rowStop) {q : AisStoreQuery}
    (h : AisStoreQuery.create session batchLimit table rowName rowStart rowStop timeStart timeStop =
      .ok q) :
    q.Live ∧ q.pending.Pairwise fun p r =>
      (lib.getBestTimestamp p).1 ≤ (lib.getBestTimestamp r).1 := by
  obtain ⟨timeBlocks, hblocks⟩ : Returns (AisStore.timeBlocks table timeStart timeStop) := by
    obtain ⟨statement, hselect, -⟩ := bind_eq_ok.mp h
    obtain ⟨timeBlocks, hblocks, -⟩ := bind_eq_ok.mp hselect
    exact ⟨timeBlocks, hblocks⟩
  obtain ⟨q', statement, hcreate, hlive, hpending, hselect, -⟩ :=
    AisStoreQuery.create_live hstore hsession.evaluatesWhere hlimit hrows hblocks
  obtain rfl : q' = q := Except.ok.inj (hcreate.symm.trans h)
  refine ⟨hlive, ?_⟩
  obtain ⟨start, stop, -, -, hselect'⟩ :=
    AisStoreQuery.select_eq batchLimit table rowName rowStart hblocks
  obtain rfl := Except.ok.inj (hselect.symm.trans hselect')
  obtain ⟨-, -, -, -, rfl⟩ := timeBlocks_eq_ok.mp hblocks
  obtain ⟨rows, hresult, hperm, horder⟩ := hsession (AisStoreQuery.statement batchLimit table
    rowName rowStart (Int.range (block table timeStart) (block table timeStop + 1)) start stop)
  have hsorted := pairwise_time hstore hcolumn hperm horder
  rw [hpending, hresult, List.map_map, List.pairwise_map]
  refine hsorted.imp_of_mem ?_
  -- a packet of the result has the time of its row
  have hrow : ∀ r ∈ rows, lib.getBestTimestamp r.selected.packet = r.time := by
    intro r hr
    have hmem : r ∈ (store table).rows := by
      have := hperm.mem_iff.mp hr
      rw [AisStoreQuery.matching_statement] at this
      exact List.mem_of_mem_filter (List.mem_of_mem_filter this)
    exact htime table r hmem
  intro r r' hr hr' hle
  rw [Function.comp_apply, Function.comp_apply, hrow r hr, hrow r' hr']
  exact hle

/-- Whatever is asked, the iterator returns packets in the order of their
best timestamps. -/
theorem drained_inTimeOrder {combine : List (List AisPacket) → List AisPacket}
    (hstore : store.InBlocks) (hsession : session.ReturnsInOrder store)
    (hcombine : CombineSorted lib combine)
    (htime : ∀ table, ∀ r ∈ (store table).rows, lib.getBestTimestamp r.packet = r.time)
    (grid : Grid Area) (b : AisStoreQueryBuilder Area) (hlimit : 0 < b.batchLimit)
    {queries : List AisStoreQuery} (h : b.execute grid session = .ok queries) :
    ∃ packets, AisStoreQueryResult.drained combine queries = .ok packets ∧
      packets.Pairwise fun p r => (lib.getBestTimestamp p).1 ≤ (lib.getBestTimestamp r).1 := by
  have hquery : ∀ q ∈ queries, q.Live ∧ q.pending.Pairwise fun p r =>
      (lib.getBestTimestamp p).1 ≤ (lib.getBestTimestamp r).1 := by
    intro q hq
    obtain ⟨table, rowName, rowStart, rowStop, start, stop, -, hcolumn, hrows, hcreate⟩ :=
      AisStoreQueryBuilder.mem_execute h hq
    exact pending_sorted hstore hsession htime hlimit hcolumn hrows hcreate
  exact AisStoreQueryResult.drained_sorted hcombine (fun q hq => (hquery q hq).1)
    fun q hq => (hquery q hq).2

end

/-- In a written store the packet in a row has the time of the row. -/
theorem bestTimestamp_written {Pos : Type} (lib : AisLib Pos) (clock : ℕ → ℤ)
    (packets : List AisPacket) (table : Table) :
    ∀ r ∈ (written lib clock packets table).rows, lib.getBestTimestamp r.packet = r.time := by
  intro r h
  obtain ⟨packet, -, -, htime, -, hdata⟩ := row_of_written lib clock h
  rw [htime, Row.packet, hdata]
  rfl

/-- Two vessels, one of them heard in two blocks of the mmsi table. -/
def twoVessels : List Decoded :=
  [⟨"!AIVDM,1,1,,A,13", toLong 2592000500, some 219000001, none, [1]⟩,
   ⟨"!AIVDM,1,1,,A,15", toLong 1500, some 219000001, none, [2]⟩,
   ⟨"!AIVDM,1,1,,B,19", toLong 1000, some 219000002, none, [3]⟩]

theorem drained_inTimeOrder_twoVessels :
    let lib := AisLib.ofDecoded twoVessels
    let store := written lib (fun _ => 0) (twoVessels.map fun d => .fromString d.stringMessage)
    let grid : Grid Unit := ⟨fun _ _ => [], by simp, by simp⟩
    let b : AisStoreQueryBuilder Unit :=
      { area := none, mmsi := some [219000001, 219000002], batchLimit := 1,
        interval := some (.ofEpochMilli ⟨0, by decide⟩, .ofEpochMilli ⟨2592001000, by decide⟩) }
    ∃ queries, b.execute grid (.ofStore store) = .ok queries ∧
      ∃ packets, AisStoreQueryResult.drained (combineByTime lib) queries = .ok packets ∧
        packets.Pairwise fun p r => (lib.getBestTimestamp p).1 ≤ (lib.getBestTimestamp r).1 := by
  intro lib store grid b
  obtain ⟨queries, hexecute⟩ : ∃ queries, b.execute grid (.ofStore store) = .ok queries :=
    ⟨_, rfl⟩
  exact ⟨queries, hexecute, drained_inTimeOrder (written_inBlocks lib _ _)
    (Session.returnsInOrder_ofStore store) (combineSorted_combineByTime lib)
    (bestTimestamp_written lib _ _) grid b (by decide) hexecute⟩

end AisStore
