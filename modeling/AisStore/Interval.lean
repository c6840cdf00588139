import AisStore.QueryBuilder
import AisStore.Writer
import Mathlib.Data.List.Perm.Basic

/-!
What a query returns, against what the builder promises.

The builder documents its interval as `[start, stop)`. `wanted` is that
promise: the stored rows of the keys asked for whose time is in the
interval. The statement asks for times strictly greater than the start, so
what is returned is `wanted` without the rows at the start itself
(`query_perm`), and a request is answered as promised exactly when there is
no such row and the blocks of the interval can be computed.
-/

namespace AisStore

open Lib

/-- The ways to ask for packets. -/
inductive QueryKind (Area : Type) where
  | forTime
  | forMmsi (mmsi : List ℤ)
  | forArea (area : Area)

namespace QueryKind

variable {Area : Type} (grid : Grid Area)

def builder : QueryKind Area → Except Failure (AisStoreQueryBuilder Area)
  | forTime => .ok .forTime
  | forMmsi mmsi => AisStoreQueryBuilder.forMmsi mmsi
  | forArea area => .ok (.forArea area)

def table : QueryKind Area → Table
  | forTime => .packetsTime
  | forMmsi _ => .packetsMmsi
  | forArea _ => .packetsAreaCell1

/-- The row belongs to one of the keys asked for. -/
def Selects (r : Row) : QueryKind Area → Prop
  | forTime => True
  | forMmsi mmsi => ∃ m ∈ mmsi, r.mmsi = some m
  | forArea area => ∃ c ∈ grid.getCells 1 area, r.cellid = some c

instance (r : Row) (kind : QueryKind Area) : Decidable (kind.Selects grid r) := by
  cases kind <;> simp only [Selects] <;> infer_instance

/-- The mmsi numbers are distinct, and there is at least one. -/
def Proper : QueryKind Area → Prop
  | forTime => True
  | forMmsi mmsi => mmsi ≠ [] ∧ mmsi.Nodup
  | forArea _ => True

/-- Ask, and read the iterator to its end. -/
def query (kind : QueryKind Area) (session : Session)
    (combine : List (List AisPacket) → List AisPacket) (fetchSize : ℤ) (start stop : Instant) :
    Except Failure (List AisPacket) := do
  let b ← kind.builder
  let queries ← ((b.setInterval start stop).setFetchSize fetchSize).execute grid session
  AisStoreQueryResult.drained combine queries

/-- The stored rows of the keys asked for with a time in `[start, stop)`. -/
def wanted (kind : QueryKind Area) (store : Store) (start stop : ℤ) : List Row :=
  (store kind.table).rows.filter fun r =>
    kind.Selects grid r ∧ start ≤ r.time.1 ∧ r.time.1 < stop

/-- The iterator returns the packets of the wanted rows, each once. -/
def Exact (kind : QueryKind Area) (store : Store) (session : Session)
    (combine : List (List AisPacket) → List AisPacket) (fetchSize : ℤ) (start stop : Long) : Prop :=
  ∃ packets,
    kind.query grid session combine fetchSize (.ofEpochMilli start) (.ofEpochMilli stop) =
      .ok packets ∧
    packets.Perm ((kind.wanted grid store start.1 stop.1).map Row.packet)

end QueryKind

/-- The blocks of both ends are `int`s, the last is not the largest, and
there are no more of them than that. -/
def BlocksFit (table : Table) (start stop : Instant) : Prop :=
  IsInt (block table start) ∧ IsInt (block table stop) ∧ block table stop < maxInt ∧
    block table stop - block table start + 1 ≤ maxInt

theorem returns_timeBlocks {table : Table} {start stop : Instant} (h : start ≤ stop) :
    Returns (timeBlocks table start stop) ↔ BlocksFit table start stop := by
  have hmono : block table start ≤ block table stop := block_mono table (Instant.seconds_le h)
  constructor
  · rintro ⟨bs, hbs⟩
    obtain ⟨hlo, hhi, hmax, hcount, -⟩ := timeBlocks_eq_ok.mp hbs
    exact ⟨hlo, hhi, hmax, (wrapInt_count_nonneg hlo hmax hmono).mp hcount⟩
  · rintro ⟨hlo, hhi, hmax, hcount⟩
    exact ⟨_, timeBlocks_eq_ok.mpr
      ⟨hlo, hhi, hmax, (wrapInt_count_nonneg hlo hmax hmono).mpr hcount, rfl⟩⟩

/-! ### One query and several -/

section
variable {store : Store} {session : Session} {table : Table} {start stop : Instant}

/-- A new query holds the packets of the rows of its key, strictly between
the two times. -/
theorem create_perm (hstore : store.InBlocks) (hsession : session.EvaluatesWhere store)
    {batchLimit : ℤ} (hlimit : 0 < batchLimit) {rowName : Column} {rowStart rowStop : ℤ}
    (hrows : AisStoreQuery.Rows table start stop rowStart rowStop)
    (hblocks : Returns (timeBlocks table start stop)) :
    ∃ q, AisStoreQuery.create session batchLimit table rowName rowStart rowStop start stop =
        .ok q ∧ q.Live ∧
      q.pending.Perm ((store.scan table rowName rowStart start.millis stop.millis).map
        Row.packet) := by
  obtain ⟨timeBlocks, hblocks⟩ := hblocks
  obtain ⟨q, statement, hcreate, hlive, hpending, -, hscan⟩ :=
    AisStoreQuery.create_live hstore hsession hlimit hrows hblocks
  refine ⟨q, hcreate, hlive, ?_⟩
  have hperm := (hsession statement).map ResultRow.packet
  rw [hscan, List.map_map] at hperm
  rw [hpending]
  exact hperm

/-- The rows of several keys, one key after the other, are the rows that
have one of the keys. -/
theorem flatMap_scan_perm (htable : table ≠ .packetsTime) {keys : List ℤ} (hkeys : keys.Nodup)
    (rowName : Column) (lo hi : ℤ) :
    (keys.flatMap fun k => store.scan table rowName k lo hi).Perm
      ((store table).rows.filter fun r =>
        (∃ k ∈ keys, r.column rowName = some k) ∧ lo < r.time.1 ∧ r.time.1 < hi) := by
  have hmem : ∀ k r, r ∈ store.scan table rowName k lo hi ↔
      r ∈ (store table).rows ∧ r.column rowName = some k ∧ lo < r.time.1 ∧ r.time.1 < hi := by
    intro k r
    simp [Store.scan, htable]
  have hrows : (store table).rows.Nodup := (store table).rows_nodup
  rw [List.perm_ext_iff_of_nodup]
  · intro r
    simp only [List.mem_flatMap, hmem, List.mem_filter, decide_eq_true_eq]
    constructor
    · rintro ⟨k, hk, hr, hkey, htime⟩
      exact ⟨hr, ⟨k, hk, hkey⟩, htime⟩
    · rintro ⟨hr, ⟨k, hk, hkey⟩, htime⟩
      exact ⟨k, hk, hr, hkey, htime⟩
  · rw [List.nodup_flatMap]
    refine ⟨fun k _ => hrows.filter _, ?_⟩
    refine hkeys.imp ?_
    -- a row has one key only
    intro k k' hne r hr hr'
    have hkey := ((hmem k r).mp hr).2.1
    have hkey' := ((hmem k' r).mp hr').2.1
    exact hne (Option.some.inj (hkey.symm.trans hkey'))
  · exact hrows.filter _

/-- Queries for distinct keys hold, together, the packets of the rows that
have one of the keys. -/
theorem mapM_create_perm (hstore : store.InBlocks) (hsession : session.EvaluatesWhere store)
    {batchLimit : ℤ} (hlimit : 0 < batchLimit) (htable : table ≠ .packetsTime) {keys : List ℤ}
    (hkeys : keys.Nodup) {rowName : Column} {f : ℤ → Except Failure AisStoreQuery}
    (hf : ∀ k ∈ keys, f k = AisStoreQuery.create session batchLimit table rowName k k start stop)
    (hblocks : keys ≠ [] → Returns (timeBlocks table start stop)) :
    ∃ queries, keys.mapM f = .ok queries ∧ (∀ q ∈ queries, q.Live) ∧
      (queries.flatMap AisStoreQuery.pending).Perm
        (((store table).rows.filter fun r => (∃ k ∈ keys, r.column rowName = some k) ∧
          start.millis < r.time.1 ∧ r.time.1 < stop.millis).map Row.packet) := by
  rcases eq_or_ne keys [] with rfl | hne
  · exact ⟨[], rfl, fun _ hq => absurd hq List.not_mem_nil, by simp⟩
  have hcreate : ∀ k, ∃ q,
      AisStoreQuery.create session batchLimit table rowName k k start stop = .ok q ∧ q.Live ∧
        q.pending.Perm ((store.scan table rowName k start.millis stop.millis).map Row.packet) :=
    fun k => create_perm hstore hsession hlimit (.key k) (hblocks hne)
  choose g hg hlive hperm using hcreate
  refine ⟨keys.map g, mapM_eq_ok_map fun k hk => (hf k hk).trans (hg k), ?_, ?_⟩
  · intro q hq
    obtain ⟨k, -, rfl⟩ := List.mem_map.mp hq
    exact hlive k
  · have hrows := (@flatMap_scan_perm store table htable keys hkeys rowName start.millis
      stop.millis).map Row.packet
    rw [List.map_flatMap] at hrows
    rw [List.flatMap_map]
    exact (List.Perm.flatMap_left keys fun k _ => hperm k).trans hrows

end

/-! ### What is returned -/

section
variable {Area : Type} {grid : Grid Area} {store : Store} {session : Session}
  {combine : List (List AisPacket) → List AisPacket} {kind : QueryKind Area} {start stop : Instant}

/-- The blocks the request needs can be computed. A request for an area that
meets no cell needs none; one for everything needs that of its last
millisecond too. -/
def QueryKind.Fits (kind : QueryKind Area) (grid : Grid Area) (start stop : Instant) : Prop :=
  match kind with
  | .forTime => BlocksFit .packetsTime start stop ∧
      ∃ last, stop.minusMillis 1 = .ok last ∧ IsInt (block .packetsTime last)
  | .forMmsi _ => BlocksFit .packetsMmsi start stop
  | .forArea area => grid.getCells 1 area ≠ [] → BlocksFit .packetsAreaCell1 start stop

/-- A request whose blocks can be computed returns the rows of its keys
strictly between the two times. -/
theorem query_perm (hstore : store.InBlocks) (hsession : session.EvaluatesWhere store)
    (hcombine : CombineUnion combine) (hkind : kind.Proper) {fetchSize : ℤ} (hsize : 0 < fetchSize)
    (hle : start ≤ stop) (hfits : kind.Fits grid start stop) :
    ∃ packets, kind.query grid session combine fetchSize start stop = .ok packets ∧
      packets.Perm (((store kind.table).rows.filter fun r =>
        kind.Selects grid r ∧ start.millis < r.time.1 ∧ r.time.1 < stop.millis).map
          Row.packet) := by
  cases kind with
  | forTime =>
    obtain ⟨hblocks, last, hlast, hint⟩ := hfits
    have hrows : AisStoreQuery.Rows .packetsTime start stop (block .packetsTime start)
        (block .packetsTime last) :=
      .blocks hlast (timeBlock_of_isInt hblocks.1) (timeBlock_of_isInt hint)
    obtain ⟨q, hcreate, hlive, hperm⟩ :=
      @create_perm store session _ _ _ hstore hsession fetchSize hsize .timeblock _ _ hrows
        ((returns_timeBlocks hle).mpr hblocks)
    refine ⟨q.pending, ?_, ?_⟩
    · have hdrained := AisStoreQuery.drained_eq hlive
      simp only [QueryKind.query, QueryKind.builder, AisStoreQueryBuilder.forTime,
        AisStoreQueryBuilder.setInterval, AisStoreQueryBuilder.setFetchSize,
        AisStoreQueryBuilder.execute, AisStoreQueryBuilder.newQuery, requireNonNull, bind,
        Except.bind, pure, Except.pure, timeBlock_of_isInt hblocks.1, hlast,
        timeBlock_of_isInt hint, hcreate, AisStoreQueryResult.drained, hdrained]
    · simpa [Store.scan, QueryKind.Selects, QueryKind.table] using hperm
  | forMmsi mmsi =>
    obtain ⟨hne, hnodup⟩ := hkind
    have hlength : mmsi.length ≠ 0 := fun h => hne (List.length_eq_zero_iff.mp h)
    obtain ⟨queries, hqueries, hlive, hperm⟩ :=
      @mapM_create_perm store session .packetsMmsi start stop hstore hsession fetchSize hsize
        (by decide) mmsi hnodup .mmsi _ (fun _ _ => rfl) fun _ => (returns_timeBlocks hle).mpr hfits
    obtain ⟨packets, hdrained, hunion⟩ := AisStoreQueryResult.drained_perm hcombine hlive
    refine ⟨packets, ?_, hunion.trans hperm⟩
    simp only [QueryKind.query, QueryKind.builder, AisStoreQueryBuilder.forMmsi, hlength, if_false,
      AisStoreQueryBuilder.setInterval, AisStoreQueryBuilder.setFetchSize,
      AisStoreQueryBuilder.execute, AisStoreQueryBuilder.newQuery, requireNonNull, bind,
      Except.bind, hqueries, hdrained]
  | forArea area =>
    have hid : ∀ c ∈ grid.getCells 1 area, wrapInt c = c :=
      fun c hc => wrapInt_eq (grid.isInt_getCells 1 area c hc)
    obtain ⟨queries, hqueries, hlive, hperm⟩ :=
      @mapM_create_perm store session .packetsAreaCell1 start stop hstore hsession fetchSize hsize
        (by decide) (grid.getCells 1 area) (grid.nodup_getCells 1 area) .cellid
        (fun c => AisStoreQuery.create session fetchSize .packetsAreaCell1 .cellid (wrapInt c)
          (wrapInt c) start stop)
        (fun c hc => by rw [hid c hc]) fun hne => (returns_timeBlocks hle).mpr (hfits hne)
    obtain ⟨packets, hdrained, hunion⟩ := AisStoreQueryResult.drained_perm hcombine hlive
    refine ⟨packets, ?_, hunion.trans hperm⟩
    simp only [QueryKind.query, QueryKind.builder, AisStoreQueryBuilder.forArea,
      AisStoreQueryBuilder.setInterval, AisStoreQueryBuilder.setFetchSize,
      AisStoreQueryBuilder.execute, AisStoreQueryBuilder.newQuery, AisStoreQueryBuilder.cellsOf,
      tablePacketsAreaCell10Enabled, Bool.false_eq_true, if_false, requireNonNull, bind,
      Except.bind, hqueries, hdrained]

/-- A query that was made has computed its blocks. -/
theorem returns_timeBlocks_of_create {session : Session} {batchLimit : ℤ} {table : Table}
    {rowName : Column} {rowStart rowStop : ℤ}
    (h : Returns (AisStoreQuery.create session batchLimit table rowName rowStart rowStop start
      stop)) : Returns (timeBlocks table start stop) := by
  obtain ⟨q, hq⟩ := h
  obtain ⟨statement, hselect, -⟩ := bind_eq_ok.mp hq
  obtain ⟨timeBlocks, hblocks, -⟩ := bind_eq_ok.mp hselect
  exact ⟨timeBlocks, hblocks⟩

/-- A request that is answered at all is one whose blocks can be computed. -/
theorem fits_of_returns_query (hkind : kind.Proper) {fetchSize : ℤ} (hle : start ≤ stop)
    (h : Returns (kind.query grid session combine fetchSize start stop)) :
    kind.Fits grid start stop := by
  obtain ⟨packets, h⟩ := h
  obtain ⟨b, hb, h⟩ := bind_eq_ok.mp h
  obtain ⟨queries, hqueries, -⟩ := bind_eq_ok.mp h
  cases kind with
  | forTime =>
    cases hb
    obtain ⟨interval, hinterval, hqueries⟩ := bind_eq_ok.mp hqueries
    cases hinterval
    obtain ⟨first, hfirst, hqueries⟩ := bind_eq_ok.mp hqueries
    obtain ⟨last, hlast, hqueries⟩ := bind_eq_ok.mp hqueries
    obtain ⟨final, hfinal, hqueries⟩ := bind_eq_ok.mp hqueries
    obtain ⟨query, hquery, -⟩ := bind_eq_ok.mp hqueries
    have hblocks := returns_timeBlocks_of_create ⟨query, hquery⟩
    exact ⟨(returns_timeBlocks hle).mp hblocks, last, hlast, (timeBlock_eq_ok.mp hfinal).1⟩
  | forMmsi mmsi =>
    obtain ⟨hne, -⟩ := hkind
    rw [QueryKind.builder, AisStoreQueryBuilder.forMmsi,
      if_neg fun h => hne (List.length_eq_zero_iff.mp h)] at hb
    cases hb
    obtain ⟨m, hm⟩ := List.exists_mem_of_ne_nil mmsi hne
    have hcreate := returns_of_returns_mapM ⟨queries, hqueries⟩ m hm
    exact (returns_timeBlocks hle).mp (returns_timeBlocks_of_create hcreate)
  | forArea area =>
    cases hb
    intro hne
    obtain ⟨c, hc⟩ := List.exists_mem_of_ne_nil _ hne
    have hcreate := returns_of_returns_mapM ⟨queries, hqueries⟩ c hc
    exact (returns_timeBlocks hle).mp (returns_timeBlocks_of_create hcreate)

/-- The rows strictly after the start, among those wanted. -/
theorem filter_wanted (lo hi : ℤ) :
    (kind.wanted grid store lo hi).filter (·.time.1 ≠ lo) =
      (store kind.table).rows.filter fun r =>
        kind.Selects grid r ∧ lo < r.time.1 ∧ r.time.1 < hi := by
  rw [QueryKind.wanted, List.filter_filter]
  refine List.filter_congr fun r _ => ?_
  rw [Bool.eq_iff_iff]
  simp only [Bool.and_eq_true, decide_eq_true_eq]
  constructor
  · rintro ⟨hne, hkey, hlow, hhigh⟩
    exact ⟨hkey, by omega, hhigh⟩
  · rintro ⟨hkey, hlow, hhigh⟩
    exact ⟨by omega, hkey, by omega, hhigh⟩

/-- No wanted row is at the start of an interval unless the interval has a
row there to give. -/
theorem wanted_ne_start {lo hi : ℤ} :
    (∀ r ∈ kind.wanted grid store lo hi, r.time.1 ≠ lo) ↔
      (lo < hi → ∀ r ∈ (store kind.table).rows, kind.Selects grid r → r.time.1 ≠ lo) := by
  constructor
  · intro h hlt r hr hkey htime
    have hwanted : r ∈ kind.wanted grid store lo hi := by
      rw [QueryKind.wanted, List.mem_filter, decide_eq_true_eq]
      exact ⟨hr, hkey, htime.ge, htime ▸ hlt⟩
    exact h r hwanted htime
  · intro h r hr htime
    rw [QueryKind.wanted, List.mem_filter, decide_eq_true_eq] at hr
    obtain ⟨hmem, hkey, hlow, hhigh⟩ := hr
    exact h (hlow.trans_lt hhigh) r hmem hkey htime

/-- In any store whose rows are in their blocks, a request is answered as
the builder documents it exactly when its blocks can be computed and no row
it asks for lies at the very start of the interval. -/
theorem query_perm_wanted_iff (hstore : store.InBlocks) (hsession : session.EvaluatesWhere store)
    (hcombine : CombineUnion combine) (hkind : kind.Proper) {fetchSize : ℤ} (hsize : 0 < fetchSize)
    {start stop : Long} (hle : start.1 ≤ stop.1) :
    kind.Exact grid store session combine fetchSize start stop ↔
      kind.Fits grid (.ofEpochMilli start) (.ofEpochMilli stop) ∧
        (start.1 < stop.1 →
          ∀ r ∈ (store kind.table).rows, kind.Selects grid r → r.time.1 ≠ start.1) := by
  have hle' : Instant.ofEpochMilli start ≤ Instant.ofEpochMilli stop :=
    Instant.ofEpochMilli_le hle
  -- what comes back is `wanted` without the rows at `start`
  have hreturned : kind.Fits grid (.ofEpochMilli start) (.ofEpochMilli stop) →
      ∃ packets, kind.query grid session combine fetchSize (.ofEpochMilli start)
        (.ofEpochMilli stop) = .ok packets ∧
      packets.Perm (((kind.wanted grid store start.1 stop.1).filter
        (·.time.1 ≠ start.1)).map Row.packet) := by
    intro hfits
    rw [filter_wanted]
    have hquery := query_perm hstore hsession hcombine hkind hsize hle' hfits
    simp only [Instant.ofEpochMilli_millis] at hquery
    exact hquery
  rw [← wanted_ne_start]
  constructor
  · rintro ⟨packets, hquery, hperm⟩
    have hfits := fits_of_returns_query hkind hle' ⟨packets, hquery⟩
    refine ⟨hfits, ?_⟩
    obtain ⟨packets', hquery', hperm'⟩ := hreturned hfits
    obtain rfl : packets = packets' := Except.ok.inj (hquery.symm.trans hquery')
    -- the two lists of rows have the same length, so the filter drops nothing
    have hlength := (hperm.symm.trans hperm').length_eq
    rw [List.length_map, List.length_map] at hlength
    intro r hr
    exact of_decide_eq_true (List.length_filter_eq_length_iff.mp hlength.symm r hr)
  · rintro ⟨hfits, hne⟩
    obtain ⟨packets, hquery, hperm⟩ := hreturned hfits
    rw [List.filter_eq_self.mpr fun r hr => decide_eq_true (hne r hr)] at hperm
    exact ⟨packets, hquery, hperm⟩

/-! ### Over a written store -/

/-- Over what the writer has stored, a request is answered as documented
exactly when its blocks can be computed and no packet it asks for has the
start of the interval as its time. -/
theorem intervalExact_iff {Pos : Type} (lib : AisLib Pos) (clock : ℕ → ℤ)
    (packets : List AisPacket) (hsession : session.EvaluatesWhere (written lib clock packets))
    (hcombine : CombineUnion combine) (hkind : kind.Proper) {fetchSize : ℤ} (hsize : 0 < fetchSize)
    {start stop : Long} (hle : start.1 ≤ stop.1) :
    kind.Exact grid (written lib clock packets) session combine fetchSize start stop ↔
      kind.Fits grid (.ofEpochMilli start) (.ofEpochMilli stop) ∧
        (start.1 < stop.1 → ∀ r ∈ (written lib clock packets kind.table).rows,
          kind.Selects grid r → r.time.1 ≠ start.1) :=
  query_perm_wanted_iff (written_inBlocks lib clock packets) hsession hcombine hkind hsize hle

end

/-- One packet, ten minutes after the epoch. -/
def tenPast : List Decoded :=
  [⟨"!AIVDM,1,1,,A,13", toLong 600000, some 219000001, none, [1]⟩]

def tenPastStore : Store :=
  written (.ofDecoded tenPast) (fun _ => 0) (tenPast.map fun d => .fromString d.stringMessage)

theorem intervalExact_iff_tenPast :
    QueryKind.forTime.Exact noCells tenPastStore (.ofStore tenPastStore)
      (combineByTime (.ofDecoded tenPast)) 1 ⟨599999, by decide⟩ ⟨600001, by decide⟩ := by
  have hsession := (Session.returnsInOrder_ofStore tenPastStore).evaluatesWhere
  have hkind : (QueryKind.forTime : QueryKind Unit).Proper := trivial
  have hfits : QueryKind.forTime.Fits noCells (.ofEpochMilli ⟨599999, by decide⟩)
      (.ofEpochMilli ⟨600001, by decide⟩) :=
    ⟨⟨by decide, by decide, by decide, by decide⟩, _, rfl, by decide⟩
  have hstart : ∀ r ∈ (tenPastStore .packetsTime).rows, r.time.1 ≠ 599999 := by decide
  exact (intervalExact_iff _ _ _ hsession (combineUnion_combineByTime _) hkind (by decide)
    (by decide)).mpr ⟨hfits, fun _ r hr _ => hstart r hr⟩

/-- Asked for ten past and the ten minutes after, the store keeps the packet
of ten past to itself. -/
theorem intervalExact_dropsStart :
    let session := Session.ofStore tenPastStore
    let combine := combineByTime (AisLib.ofDecoded tenPast)
    session.EvaluatesWhere tenPastStore ∧ CombineUnion combine ∧
      QueryKind.forTime.query noCells session combine 3000 (.ofEpochMilli ⟨600000, by decide⟩)
        (.ofEpochMilli ⟨1200000, by decide⟩) = .ok [] ∧
      (QueryKind.forTime.wanted noCells tenPastStore 600000 1200000).map Row.packet =
        [⟨"!AIVDM,1,1,,A,13"⟩] ∧
      ¬ QueryKind.forTime.Exact noCells tenPastStore session combine 3000 ⟨600000, by decide⟩
        ⟨1200000, by decide⟩ := by
  intro session combine
  have hquery : QueryKind.forTime.query noCells session combine 3000
      (.ofEpochMilli ⟨600000, by decide⟩) (.ofEpochMilli ⟨1200000, by decide⟩) = .ok [] := rfl
  have hwanted : (QueryKind.forTime.wanted noCells tenPastStore 600000 1200000).map Row.packet =
      [⟨"!AIVDM,1,1,,A,13"⟩] := rfl
  refine ⟨(Session.returnsInOrder_ofStore tenPastStore).evaluatesWhere,
    combineUnion_combineByTime _, hquery, hwanted, ?_⟩
  rintro ⟨packets, hpackets, hperm⟩
  cases hquery.symm.trans hpackets
  rw [hwanted] at hperm
  exact absurd hperm.length_eq (by decide)

end AisStore
