import AisStore.Query

/-!
Partition pruning: the condition on the time block loses no row.

A statement names the blocks its interval touches so that the database need
not look at the other partitions. In a store where every row lies in the
block of its time, the rows with the right time are all in those blocks,
and the statement selects what it would select without the condition. The
argument is that both ends of the interval and the time of the row are
taken to blocks by one monotone map.
-/

namespace AisStore

open Lib

/-- A statement without its condition on the time block. -/
def Select.fullScan (select : Select) : Select :=
  { select with
    whereClauses := select.whereClauses.filter fun
      | .inList .timeblock _ => false
      | _ => true }

/-- The rows of a store with a given key and a time strictly between two
bounds. The time table has no key besides the block. -/
def Store.scan (store : Store) (table : Table) (rowName : Column) (currentRow start stop : ℤ) :
    List Row :=
  (store table).rows.filter fun r =>
    (table = .packetsTime ∨ r.column rowName = some currentRow) ∧
      start < r.time.1 ∧ r.time.1 < stop

@[simp] theorem Row.column_timeblock (r : Row) : r.column .timeblock = some r.timeblock := rfl

@[simp] theorem Row.column_timestamp (r : Row) : r.column .timestamp = some r.time.1 := rfl

namespace AisStoreQuery

variable (store : Store) (batchLimit : ℤ) (table : Table) (rowName : Column) (currentRow : ℤ)

theorem matching_fullScan (timeBlocks : List ℤ) (start stop : Long) :
    (statement batchLimit table rowName currentRow timeBlocks start stop).fullScan.matching store =
      store.scan table rowName currentRow start.1 stop.1 := by
  cases table <;>
    simp [statement, Select.fullScan, Select.matching, Store.scan, Clause.holds]

theorem matching_statement (timeBlocks : List ℤ) (start stop : Long) :
    (statement batchLimit table rowName currentRow timeBlocks start stop).matching store =
      (store.scan table rowName currentRow start.1 stop.1).filter (·.timeblock ∈ timeBlocks) := by
  cases table <;>
    simp [statement, Select.matching, Store.scan, Clause.holds, List.filter_filter,
      Bool.and_comm, Bool.and_left_comm, Bool.and_assoc]

/-- Once the blocks of the interval are known, nothing else in `execute`
can fail: an instant with a block has milliseconds. -/
theorem select_eq {timeBlocks : List ℤ} {timeStart timeStop : Instant}
    (h : AisStore.timeBlocks table timeStart timeStop = .ok timeBlocks) :
    ∃ start stop : Long, start.1 = timeStart.millis ∧ stop.1 = timeStop.millis ∧
      select batchLimit table rowName currentRow timeStart timeStop =
        .ok (statement batchLimit table rowName currentRow timeBlocks start stop) := by
  obtain ⟨hlo, hhi, -⟩ := timeBlocks_eq_ok.mp h
  let start : Long := ⟨timeStart.millis, (isLong_seconds_of_isInt hlo).2⟩
  let stop : Long := ⟨timeStop.millis, (isLong_seconds_of_isInt hhi).2⟩
  have hstart : timeStart.toEpochMilli = .ok start := toEpochMilli_of_isInt hlo rfl
  have hstop : timeStop.toEpochMilli = .ok stop := toEpochMilli_of_isInt hhi rfl
  refine ⟨start, stop, rfl, rfl, ?_⟩
  simp only [select, h, hstart, hstop, bind, Except.bind, pure, Except.pure]

end AisStoreQuery

/-- A row whose time lies in an interval lies in one of its blocks. -/
theorem block_of_between {table : Table} {r : Row} {start stop : Instant}
    (hr : r.InBlock table) (hstart : start.millis ≤ r.time.1) (hstop : r.time.1 ≤ stop.millis) :
    block table start ≤ r.timeblock ∧ r.timeblock ≤ block table stop := by
  obtain ⟨-, hblock⟩ := timeBlock_eq_ok.mp hr
  rw [hblock]
  exact block_between table hstart hstop

/-- The condition on the block is implied by the one on the time. -/
theorem scan_filter_block {store : Store} (hstore : store.InBlocks) (table : Table)
    (rowName : Column) (currentRow : ℤ) {start stop : Instant} :
    (store.scan table rowName currentRow start.millis stop.millis).filter
        (·.timeblock ∈ Int.range (block table start) (block table stop + 1)) =
      store.scan table rowName currentRow start.millis stop.millis := by
  rw [List.filter_eq_self]
  intro r hr
  obtain ⟨hmem, hcond⟩ := List.mem_filter.mp hr
  obtain ⟨-, hlow, hhigh⟩ := of_decide_eq_true hcond
  obtain ⟨hmin, hmax⟩ := block_of_between (hstore table r hmem) hlow.le hhigh.le
  rw [decide_eq_true_eq, Int.mem_range_iff]
  exact ⟨hmin, Int.lt_add_one_of_le hmax⟩

/-- The rows a statement selects are those of the full scan. -/
theorem matching_of_timeBlocks {store : Store} (hstore : store.InBlocks) {table : Table}
    {timeStart timeStop : Instant} {timeBlocks : List ℤ}
    (h : AisStore.timeBlocks table timeStart timeStop = .ok timeBlocks)
    (batchLimit : ℤ) (rowName : Column) (currentRow : ℤ) :
    ∃ statement, AisStoreQuery.select batchLimit table rowName currentRow timeStart timeStop =
        .ok statement ∧
      statement.matching store = statement.fullScan.matching store ∧
      statement.matching store =
        store.scan table rowName currentRow timeStart.millis timeStop.millis := by
  obtain ⟨start, stop, hstart, hstop, hselect⟩ :=
    AisStoreQuery.select_eq batchLimit table rowName currentRow h
  obtain ⟨-, -, -, -, rfl⟩ := timeBlocks_eq_ok.mp h
  refine ⟨_, hselect, ?_, ?_⟩
  all_goals
    simp only [AisStoreQuery.matching_statement, AisStoreQuery.matching_fullScan]
    rw [hstart, hstop, scan_filter_block hstore]

/-! ### The interval's blocks -/

/-- An interval that does not run backwards, and whose blocks are below the
largest `int` and no more than it in number, is listed completely, and the
list loses no row of any key. -/
theorem partitionPruning_exact {store : Store} (hstore : store.InBlocks) (table : Table)
    {start stop : Instant} (hle : start ≤ stop) {lo hi : ℤ}
    (hlo : timeBlock table start = .ok lo) (hhi : timeBlock table stop = .ok hi)
    (hlomax : lo < maxInt) (hhimax : hi < maxInt) (hcount : hi - lo + 1 ≤ maxInt) :
    timeBlocks table start stop = .ok (Int.range lo (hi + 1)) ∧
      (Int.range lo (hi + 1)).Pairwise (· < ·) ∧
      (∀ b, b ∈ Int.range lo (hi + 1) ↔ lo ≤ b ∧ b ≤ hi) ∧
      ∀ batchLimit rowName currentRow, ∃ statement,
        AisStoreQuery.select batchLimit table rowName currentRow start stop = .ok statement ∧
          statement.matching store = statement.fullScan.matching store := by
  obtain ⟨hloInt, rfl⟩ := timeBlock_eq_ok.mp hlo
  obtain ⟨hhiInt, rfl⟩ := timeBlock_eq_ok.mp hhi
  have hmono : block table start ≤ block table stop := block_mono table (Instant.seconds_le hle)
  have hblocks : timeBlocks table start stop =
      .ok (Int.range (block table start) (block table stop + 1)) := by
    have hcapacity := (wrapInt_count_nonneg hloInt hhimax hmono).mpr hcount
    exact timeBlocks_eq_ok.mpr ⟨hloInt, hhiInt, hhimax, hcapacity, rfl⟩
  refine ⟨hblocks, pairwise_range _ _, ?_, ?_⟩
  · intro b
    rw [Int.mem_range_iff, Int.lt_add_one_iff]
  · intro batchLimit rowName currentRow
    obtain ⟨statement, hselect, hscan, -⟩ :=
      matching_of_timeBlocks hstore hblocks batchLimit rowName currentRow
    exact ⟨statement, hselect, hscan⟩

/-- A vessel heard a second before the epoch. The thirty days on either side
of the epoch are one block. -/
def beforeEpoch : Store :=
  Store.ofInserts [⟨.packetsMmsi, ⟨none, some 219000001, 0, ⟨-1000, by decide⟩, [], ""⟩⟩]

theorem beforeEpoch_inBlocks : beforeEpoch.InBlocks := Store.inBlocks_ofInserts (by decide)

theorem partitionPruning_exact_beforeEpoch :
    timeBlocks .packetsMmsi ⟨-2592001, 999999999, by decide, by decide, by decide⟩
        ⟨2592000, 1, by decide, by decide, by decide⟩ = .ok (Int.range (-1) 2) ∧
      (Int.range (-1) 2).Pairwise (· < ·) ∧
      (∀ b, b ∈ Int.range (-1) 2 ↔ -1 ≤ b ∧ b ≤ 1) ∧
      ∀ batchLimit rowName currentRow, ∃ statement,
        AisStoreQuery.select batchLimit .packetsMmsi rowName currentRow
            ⟨-2592001, 999999999, by decide, by decide, by decide⟩
            ⟨2592000, 1, by decide, by decide, by decide⟩ = .ok statement ∧
          statement.matching beforeEpoch = statement.fullScan.matching beforeEpoch := by
  have hle : (⟨-2592001, 999999999, by decide, by decide, by decide⟩ : Instant) ≤
      ⟨2592000, 1, by decide, by decide, by decide⟩ := by decide
  exact @partitionPruning_exact _ beforeEpoch_inBlocks .packetsMmsi _ _ hle (-1) 1 (by decide)
    (by decide) (by decide) (by decide) (by decide)

/-- An interval with more blocks than an array can have elements is refused,
though both its ends have a block below the largest `int`. -/
theorem partitionPruning_refused :
    ∃ start stop : Instant, start ≤ stop ∧
      timeBlock .packetsTime start = .ok (-2147483648) ∧ timeBlock .packetsTime stop = .ok 0 ∧
      timeBlocks .packetsTime start stop =
        .error (.illegalArgument "Illegal Capacity: -2147483647") ∧
      ∀ batchLimit rowName currentRow,
        AisStoreQuery.select batchLimit .packetsTime rowName currentRow start stop =
          .error (.illegalArgument "Illegal Capacity: -2147483647") := by
  refine ⟨⟨-1288490188800, 0, by decide, by decide, by decide⟩,
    ⟨0, 0, by decide, by decide, by decide⟩, by decide, by decide, by decide, by decide, ?_⟩
  intro batchLimit rowName currentRow
  rfl

end AisStore
