import AisStore.Pruning

/-!
`AisStoreQueryBuilder` and `AisStoreQueryResult`.

The builder turns a request into queries over one key each: one per cell of
an area, one per mmsi number, or a single one for everything. The result
returns the sequence of its only query as it is and merges the sequences of
several with `Iterators.combine`, a library function given here as the
parameter `combine`.

The section at the end says what one of these queries returns
(`create_live`): the packets of the rows of its key strictly between the
two ends of the interval, in the order the session lists them.
-/

namespace AisStore

open Lib

/-- The grid library: the ids of the cells of `size` degrees an area meets.
They come as a set, and each fits an `int`. -/
structure Grid (Area : Type) where
  getCells : ℕ → Area → List ℤ
  nodup_getCells : ∀ size area, (getCells size area).Nodup
  isInt_getCells : ∀ size area, ∀ id ∈ getCells size area, IsInt id

/-- A grid of which no area meets any cell. -/
def noCells : Grid Unit := ⟨fun _ _ => [], by simp, by simp⟩

structure AisStoreQueryBuilder (Area : Type) where
  area : Option Area
  mmsi : Option (List ℤ)
  batchLimit : ℤ := 3000
  /-- `startTimeInclusive` and `stopTimeExclusive`, which are set together. -/
  interval : Option (Instant × Instant) := none
  cell10Enabled : Bool := tablePacketsAreaCell10Enabled

namespace AisStoreQueryBuilder

variable {Area : Type}

def forArea (area : Area) : AisStoreQueryBuilder Area := { area := some area, mmsi := none }

def forMmsi (mmsi : List ℤ) : Except Failure (AisStoreQueryBuilder Area) :=
  if mmsi.length = 0 then .error (.illegalArgument "Must request at least 1 mmsi number")
  else .ok { area := none, mmsi := some mmsi }

def forTime : AisStoreQueryBuilder Area := { area := none, mmsi := none }

def setFetchSize (b : AisStoreQueryBuilder Area) (limit : ℤ) : AisStoreQueryBuilder Area :=
  { b with batchLimit := limit }

def setCell10Enabled (b : AisStoreQueryBuilder Area) (cell10Enabled : Bool) :
    AisStoreQueryBuilder Area :=
  { b with cell10Enabled := cell10Enabled }

def setInterval (b : AisStoreQueryBuilder Area) (startMillies stopMillies : Instant) :
    AisStoreQueryBuilder Area :=
  { b with interval := some (startMillies, stopMillies) }

/-- `new AisStoreQuery(..)` with the builder's own fetch size and interval. -/
def newQuery (b : AisStoreQueryBuilder Area) (session : Session) (table : Table)
    (rowName : Column) (rowStart rowStop : ℤ) : Except Failure AisStoreQuery := do
  let (start, stop) ← requireNonNull b.interval
  AisStoreQuery.create session b.batchLimit table rowName rowStart rowStop start stop

/-- The cells an area query asks for, and the table it asks. -/
def cellsOf (b : AisStoreQueryBuilder Area) (grid : Grid Area) (area : Area) : List ℤ × Table :=
  let cells := grid.getCells 1 area
  if b.cell10Enabled then
    let cells10 := grid.getCells 10 area
    if cells10.length * 10 > cells.length then (cells, .packetsAreaCell1)
    else (cells10, .packetsAreaCell10)
  else (cells, .packetsAreaCell1)

def execute (b : AisStoreQueryBuilder Area) (grid : Grid Area) (session : Session) :
    Except Failure (List AisStoreQuery) :=
  match b.area with
  | some area =>
    let (cells, table) := b.cellsOf grid area
    cells.mapM fun c => b.newQuery session table .cellid (wrapInt c) (wrapInt c)
  | none =>
    match b.mmsi with
    | some mmsi => mmsi.mapM fun m => b.newQuery session .packetsMmsi .mmsi m m
    | none => do
      let (startTimeInclusive, stopTimeExclusive) ← requireNonNull b.interval
      let start ← timeBlock .packetsTime startTimeInclusive
      let stop ← timeBlock .packetsTime (← stopTimeExclusive.minusMillis 1)
      let query ← b.newQuery session .packetsTime .timeblock start stop
      return [query]

end AisStoreQueryBuilder

/-- The sequence a result's iterator returns. -/
def AisStoreQueryResult.drained (combine : List (List AisPacket) → List AisPacket)
    (queries : List AisStoreQuery) : Except Failure (List AisPacket) :=
  match queries with
  | [query] => query.drained
  | queries => do return combine (← queries.mapM AisStoreQuery.drained)

/-- `Iterators.combine` returns what its inputs return, in some order. -/
def CombineUnion (combine : List (List AisPacket) → List AisPacket) : Prop :=
  ∀ inputs, (combine inputs).Perm inputs.flatten

/-- `Iterators.combine` keeps a sorted order its inputs share. -/
def CombineSorted {Pos : Type} (lib : AisLib Pos)
    (combine : List (List AisPacket) → List AisPacket) : Prop :=
  ∀ inputs, (∀ input ∈ inputs,
      input.Pairwise fun p q => (lib.getBestTimestamp p).1 ≤ (lib.getBestTimestamp q).1) →
    (combine inputs).Pairwise fun p q => (lib.getBestTimestamp p).1 ≤ (lib.getBestTimestamp q).1

/-- A merge: everything, sorted by timestamp. -/
def combineByTime {Pos : Type} (lib : AisLib Pos) (inputs : List (List AisPacket)) :
    List AisPacket :=
  inputs.flatten.insertionSort fun p q => (lib.getBestTimestamp p).1 ≤ (lib.getBestTimestamp q).1

theorem combineUnion_combineByTime {Pos : Type} (lib : AisLib Pos) :
    CombineUnion (combineByTime lib) := fun _ => List.perm_insertionSort _ _

theorem combineSorted_combineByTime {Pos : Type} (lib : AisLib Pos) :
    CombineSorted lib (combineByTime lib) := by
  intro inputs _
  let r := fun p q => (lib.getBestTimestamp p).1 ≤ (lib.getBestTimestamp q).1
  have htotal : Std.Total r := ⟨fun p q => le_total (lib.getBestTimestamp p).1 _⟩
  have htrans : IsTrans AisPacket r := ⟨fun _ _ _ hpq hqr => le_trans hpq hqr⟩
  exact List.pairwise_insertionSort r inputs.flatten

/-! ### What one query returns -/

namespace AisStoreQuery

/-- The rows a new query goes through: as many for one key, or from the
first block to the block of the last millisecond. -/
inductive Rows (table : Table) (timeStart timeStop : Instant) : ℤ → ℤ → Prop where
  | key (row : ℤ) : Rows table timeStart timeStop row row
  | blocks {last : Instant} {start stop : ℤ} (hlast : timeStop.minusMillis 1 = .ok last)
      (hstart : timeBlock table timeStart = .ok start) (hstop : timeBlock table last = .ok stop) :
      Rows table timeStart timeStop start stop

variable {store : Store} {session : Session} {batchLimit : ℤ} {table : Table} {rowName : Column}
  {rowStart rowStop : ℤ} {timeStart timeStop : Instant}

/-- A new query whose rows lie within its interval is live: none of them lies
behind its last row. -/
theorem live_of_create (hlimit : 0 < batchLimit)
    (hrows : Rows table timeStart timeStop rowStart rowStop) {q : AisStoreQuery}
    (hcreate : create session batchLimit table rowName rowStart rowStop timeStart timeStop = .ok q)
    (hbetween : ∀ row ∈ q.rs.rows,
      timeStart.millis < row.time.1 ∧ row.time.1 < timeStop.millis) :
    q.Live ∧ q.packets = [] ∧ q.retrievedPackets = 0 ∧
      (timeStart.millis < timeStop.millis → q.currentRow ≤ q.lastRow) := by
  obtain ⟨statement, -, hq⟩ := bind_eq_ok.mp hcreate
  cases hq
  cases hrows with
  | key => exact ⟨⟨hlimit, fun _ => le_rfl, fun _ _ => .inl rfl⟩, rfl, rfl, fun _ => le_rfl⟩
  | @blocks last _ _ hlast hstart hstop =>
    obtain ⟨hstartInt, rfl⟩ := timeBlock_eq_ok.mp hstart
    obtain ⟨hstopInt, rfl⟩ := timeBlock_eq_ok.mp hstop
    have hmillis := Instant.minusMillis_millis hlast
    have hle : timeStart.millis < timeStop.millis → block table timeStart ≤ block table last := by
      intro hlt
      apply block_mono
      rw [Instant.seconds_eq, Instant.seconds_eq last]
      omega
    refine ⟨⟨hlimit, ?_, ?_⟩, rfl, rfl, hle⟩
    · intro hne
      obtain ⟨row, hmem⟩ := List.exists_mem_of_ne_nil _ hne
      have hrow := hbetween row hmem
      exact hle (hrow.1.trans hrow.2)
    · intro row hmem
      obtain ⟨hlow, hhigh⟩ := hbetween row hmem
      obtain ⟨hmin, hmax⟩ := @block_between table timeStart last row.time (by omega) (by omega)
      have hint : IsInt (block table (.ofEpochMilli row.time)) :=
        ⟨hstartInt.1.trans hmin, hmax.trans hstopInt.2⟩
      exact .inr ⟨_, hmax, timeBlock_of_isInt hint⟩

/-- A new query over a store is live, and its rows are those of its key
within the interval. -/
theorem create_live (hstore : store.InBlocks) (hsession : session.EvaluatesWhere store)
    (hlimit : 0 < batchLimit) (hrows : Rows table timeStart timeStop rowStart rowStop)
    {timeBlocks : List ℤ}
    (hblocks : AisStore.timeBlocks table timeStart timeStop = .ok timeBlocks) :
    ∃ q statement, create session batchLimit table rowName rowStart rowStop timeStart timeStop =
        .ok q ∧ q.Live ∧ q.pending = (session statement).rows.map ResultRow.packet ∧
      select batchLimit table rowName rowStart timeStart timeStop = .ok statement ∧
      statement.matching store =
        store.scan table rowName rowStart timeStart.millis timeStop.millis := by
  obtain ⟨statement, hselect, -, hscan⟩ :=
    matching_of_timeBlocks hstore hblocks batchLimit rowName rowStart
  obtain ⟨q, hq, hrs⟩ : ∃ q, create session batchLimit table rowName rowStart rowStop timeStart
      timeStop = .ok q ∧ q.rs = session statement := by
    simp only [create, hselect, bind, Except.bind]
    exact ⟨_, rfl, rfl⟩
  -- every row of the result is a row of the store within the interval
  have hbetween : ∀ row ∈ q.rs.rows,
      timeStart.millis < row.time.1 ∧ row.time.1 < timeStop.millis := by
    rw [hrs]
    intro row hrow
    obtain ⟨r, hr, rfl⟩ := List.mem_map.mp ((hsession statement).mem_iff.mp hrow)
    rw [hscan] at hr
    exact (of_decide_eq_true (List.mem_filter.mp hr).2).2
  obtain ⟨hlive, hpackets, -⟩ := live_of_create hlimit hrows hq hbetween
  exact ⟨q, statement, hq, hlive, by rw [pending, hpackets, hrs, List.nil_append], hselect, hscan⟩

end AisStoreQuery

namespace AisStoreQueryBuilder

variable {Area : Type} {b : AisStoreQueryBuilder Area}

theorem newQuery_eq_ok {session : Session} {table : Table} {rowName : Column}
    {rowStart rowStop : ℤ} {q : AisStoreQuery} :
    b.newQuery session table rowName rowStart rowStop = .ok q ↔
      ∃ start stop, b.interval = some (start, stop) ∧
        AisStoreQuery.create session b.batchLimit table rowName rowStart rowStop start stop =
          .ok q := by
  rw [newQuery]
  cases b.interval with
  | none => simp [requireNonNull, bind, Except.bind]
  | some interval => simp [requireNonNull, bind, Except.bind, Prod.ext_iff]

/-- The column a table is queried by, for the tables that have one. -/
def KeyColumn : Table → Column → Prop
  | .packetsTime, _ => True
  | .packetsMmsi, column => column = .mmsi
  | .packetsAreaCell1, column => column = .cellid
  | .packetsAreaCell10, column => column = .cellid
  | .packetsAreaUnknown, column => column = .mmsi

/-- Every query the builder makes goes through the rows of one key of its
table, or through all blocks of the interval. -/
theorem mem_execute {grid : Grid Area} {session : Session} {queries : List AisStoreQuery}
    (h : b.execute grid session = .ok queries) {q : AisStoreQuery} (hq : q ∈ queries) :
    ∃ table rowName rowStart rowStop start stop, b.interval = some (start, stop) ∧
      KeyColumn table rowName ∧ AisStoreQuery.Rows table start stop rowStart rowStop ∧
      AisStoreQuery.create session b.batchLimit table rowName rowStart rowStop start stop =
        .ok q := by
  rw [execute] at h
  cases harea : b.area with
  | some area =>
    rw [harea] at h
    obtain ⟨c, -, hc⟩ := mem_of_mapM_eq_ok h hq
    obtain ⟨start, stop, hinterval, hcreate⟩ := newQuery_eq_ok.mp hc
    have hkey : KeyColumn (b.cellsOf grid area).2 .cellid := by
      simp only [cellsOf]
      split
      · split <;> rfl
      · rfl
    exact ⟨_, _, _, _, start, stop, hinterval, hkey, .key _, hcreate⟩
  | none =>
    rw [harea] at h
    cases hmmsi : b.mmsi with
    | some mmsi =>
      rw [hmmsi] at h
      obtain ⟨m, -, hm⟩ := mem_of_mapM_eq_ok h hq
      obtain ⟨start, stop, hinterval, hcreate⟩ := newQuery_eq_ok.mp hm
      exact ⟨.packetsMmsi, .mmsi, m, m, start, stop, hinterval, rfl, .key m, hcreate⟩
    | none =>
      simp only [hmmsi] at h
      obtain ⟨⟨start, stop⟩, hinterval, h⟩ := bind_eq_ok.mp h
      obtain ⟨first, hfirst, h⟩ := bind_eq_ok.mp h
      obtain ⟨last, hlast, h⟩ := bind_eq_ok.mp h
      obtain ⟨final, hfinal, h⟩ := bind_eq_ok.mp h
      obtain ⟨query, hquery, h⟩ := bind_eq_ok.mp h
      cases h
      obtain rfl := List.mem_singleton.mp hq
      obtain ⟨start', stop', hinterval', hcreate⟩ := newQuery_eq_ok.mp hquery
      rw [hinterval'] at hinterval
      cases hinterval
      exact ⟨.packetsTime, .timeblock, first, final, start, stop, hinterval', trivial,
        .blocks hlast hfirst hfinal, hcreate⟩

end AisStoreQueryBuilder

/-! ### What a result returns -/

namespace AisStoreQueryResult

variable {combine : List (List AisPacket) → List AisPacket} {queries : List AisStoreQuery}

/-- The sequences of the queries put together: the only one, or a merge. -/
def merged (combine : List (List AisPacket) → List AisPacket) :
    List (List AisPacket) → List AisPacket
  | [input] => input
  | inputs => combine inputs

theorem merged_perm (hcombine : CombineUnion combine) (inputs : List (List AisPacket)) :
    (merged combine inputs).Perm inputs.flatten := by
  match inputs with
  | [] => exact hcombine []
  | [input] => simp [merged]
  | input :: input' :: rest => exact hcombine _

theorem merged_sorted {Pos : Type} {lib : AisLib Pos} (hcombine : CombineSorted lib combine)
    {inputs : List (List AisPacket)}
    (hsorted : ∀ input ∈ inputs, input.Pairwise fun p r =>
      (lib.getBestTimestamp p).1 ≤ (lib.getBestTimestamp r).1) :
    (merged combine inputs).Pairwise fun p r =>
      (lib.getBestTimestamp p).1 ≤ (lib.getBestTimestamp r).1 := by
  match inputs with
  | [] => exact hcombine [] hsorted
  | [input] => exact hsorted input (List.mem_singleton_self input)
  | input :: input' :: rest => exact hcombine _ hsorted

/-- The result returns what its queries do, put together. -/
theorem drained_eq_merged {returned : AisStoreQuery → List AisPacket}
    (h : ∀ q ∈ queries, q.drained = .ok (returned q)) :
    drained combine queries = .ok (merged combine (queries.map returned)) := by
  have hall : queries.mapM AisStoreQuery.drained = .ok (queries.map returned) := mapM_eq_ok_map h
  match queries with
  | [] => rfl
  | [q] => exact h q (List.mem_singleton_self q)
  | q :: r :: rest =>
    simp only [drained, hall, bind, Except.bind, pure, Except.pure]
    rfl

theorem drained_perm (hcombine : CombineUnion combine) (h : ∀ q ∈ queries, q.Live) :
    ∃ packets, drained combine queries = .ok packets ∧
      packets.Perm (queries.flatMap AisStoreQuery.pending) := by
  refine ⟨_, drained_eq_merged fun q hq => AisStoreQuery.drained_eq (h q hq), ?_⟩
  rw [List.flatMap_def]
  exact merged_perm hcombine _

theorem drained_sorted {Pos : Type} {lib : AisLib Pos} (hcombine : CombineSorted lib combine)
    (h : ∀ q ∈ queries, q.Live)
    (hsorted : ∀ q ∈ queries, q.pending.Pairwise fun p r =>
      (lib.getBestTimestamp p).1 ≤ (lib.getBestTimestamp r).1) :
    ∃ packets, drained combine queries = .ok packets ∧
      packets.Pairwise fun p r => (lib.getBestTimestamp p).1 ≤ (lib.getBestTimestamp r).1 := by
  refine ⟨_, drained_eq_merged fun q hq => AisStoreQuery.drained_eq (h q hq), ?_⟩
  apply merged_sorted hcombine
  intro input hinput
  obtain ⟨q, hq, rfl⟩ := List.mem_map.mp hinput
  exact hsorted q hq

end AisStoreQueryResult

end AisStore
