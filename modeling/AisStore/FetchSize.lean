import AisStore.Interval

/-!
What the fetch size changes.

The number given to `setFetchSize` is used twice. The driver takes it as the
size of its pages, and for it a number that is not positive means the
default. The iterator takes the same number as the bound of the loop that
fills its buffer, and there it means that nothing is moved at all, which the
iterator takes for the end of the data. So a request is answered alike with
every positive size, and with any other size it is answered with nothing.

To compare two runs of one request the queries are written as `Opening`s,
all of a query but its fetch size.
-/

namespace AisStore

open Lib

/-- The fetch size decides how a result is split into pages, and nothing
about its rows. -/
def Session.IgnoresFetchSize (session : Session) : Prop :=
  ∀ select n, (session { select with fetchSize := n }).rows = (session select).rows

theorem Session.ignoresFetchSize_ofStore (store : Store) :
    (Session.ofStore store).IgnoresFetchSize := by
  intro select n
  show (Paged.ofRows _ _).rows = (Paged.ofRows _ _).rows
  rw [Paged.rows_ofRows, Paged.rows_ofRows]
  rfl

/-- Some stored row of the keys asked for lies strictly between the two
times, in one of the blocks of the interval. -/
def QueryKind.Finds {Area : Type} (kind : QueryKind Area) (grid : Grid Area) (store : Store)
    (start stop : Instant) : Prop :=
  ∃ blocks, timeBlocks kind.table start stop = .ok blocks ∧
    ∃ r ∈ (store kind.table).rows, kind.Selects grid r ∧ start.millis < r.time.1 ∧
      r.time.1 < stop.millis ∧ r.timeblock ∈ blocks

namespace AisStoreQuery

/-- A new query with a fetch size that is not positive ends at once. -/
theorem drained_of_nonpos {q : AisStoreQuery} (hlimit : q.batchLimit ≤ 0)
    (hpackets : q.packets = []) (hdone : q.futureIsDone = true) : q.drained = .ok [] := by
  have hend : ∃ q', q.computeNext = .ok (none, q') := by
    rw [computeNext, hpackets]
    by_cases hle : q.currentRow ≤ q.lastRow
    · simp only [hle, if_true, receive]
      cases hav : (Paged.prepareNext q.rs.available q.rs.pages).available with
      | nil =>
        simp [bind, Except.bind, noteReceived, hpackets, hdone, pure, Except.pure]
      | cons next rest =>
        have hnot : ¬ 0 < q.batchLimit := by omega
        simp [bind, Except.bind, noteReceived, hpackets, hdone, hnot, pure, Except.pure]
    · exact ⟨q, by simp [hle]⟩
  obtain ⟨q', hend⟩ := hend
  simp [drained, drain, hend, bind, Except.bind, pure, Except.pure]

/-- All of a query but its fetch size. -/
structure Opening where
  table : Table
  rowStart : ℤ
  rowStop : ℤ
  statement : Select

/-- The query as it is made, with a fetch size. -/
def Opening.query (session : Session) (fetchSize : ℤ) (p : Opening) : AisStoreQuery where
  batchLimit := fetchSize
  table := p.table
  currentRow := p.rowStart
  lastRow := p.rowStop
  rs := session { p.statement with fetchSize := fetchSize }
  futureIsDone := true
  packets := []
  retrievedPackets := 0
  latestDateReceived := none

variable {store : Store} {session : Session} {table : Table} {rowName : Column}
  {rowStart rowStop : ℤ} {start stop : Instant} {blocks : List ℤ}

/-- Where the blocks of the interval are known, a query is made, and its
opening does not depend on the fetch size. -/
theorem create_eq_opening (session : Session) (rowName : Column) (rowStart rowStop : ℤ)
    (hblocks : AisStore.timeBlocks table start stop = .ok blocks) :
    ∃ lo hi : Long, lo.1 = start.millis ∧ hi.1 = stop.millis ∧ ∀ fetchSize,
      create session fetchSize table rowName rowStart rowStop start stop =
        .ok (Opening.query session fetchSize
          ⟨table, rowStart, rowStop, statement 0 table rowName rowStart blocks lo hi⟩) := by
  obtain ⟨lo, hi, hlo, hhi, -⟩ := select_eq 0 table rowName rowStart hblocks
  refine ⟨lo, hi, hlo, hhi, ?_⟩
  intro fetchSize
  obtain ⟨lo', hi', hlo', hhi', hselect⟩ := select_eq fetchSize table rowName rowStart hblocks
  obtain rfl : lo' = lo := Subtype.ext (hlo'.trans hlo.symm)
  obtain rfl : hi' = hi := Subtype.ext (hhi'.trans hhi.symm)
  simp only [create, hselect, bind, Except.bind, pure, Except.pure, Opening.query]
  cases table <;> rfl

/-- A query over a store is live with every positive fetch size, and has a
row just when the store has one for it. -/
theorem live_of_opening (hsession : session.EvaluatesWhere store)
    (hpaging : session.IgnoresFetchSize) (hrows : Rows table start stop rowStart rowStop)
    {lo hi : Long} (hlo : lo.1 = start.millis) (hhi : hi.1 = stop.millis)
    (hcreate : ∀ fetchSize, create session fetchSize table rowName rowStart rowStop start stop =
      .ok (Opening.query session fetchSize
        ⟨table, rowStart, rowStop, statement 0 table rowName rowStart blocks lo hi⟩)) :
    (∀ fetchSize, 0 < fetchSize → (Opening.query session fetchSize
      ⟨table, rowStart, rowStop, statement 0 table rowName rowStart blocks lo hi⟩).Live) ∧
      ((session (statement 0 table rowName rowStart blocks lo hi)).rows ≠ [] ↔
        ∃ r ∈ (store table).rows, (table = .packetsTime ∨ r.column rowName = some rowStart) ∧
          start.millis < r.time.1 ∧ r.time.1 < stop.millis ∧ r.timeblock ∈ blocks) := by
  have hperm := hsession (statement 0 table rowName rowStart blocks lo hi)
  have hmem : ∀ r, r ∈ (statement 0 table rowName rowStart blocks lo hi).matching store ↔
      r ∈ (store table).rows ∧ (table = .packetsTime ∨ r.column rowName = some rowStart) ∧
        start.millis < r.time.1 ∧ r.time.1 < stop.millis ∧ r.timeblock ∈ blocks := by
    intro r
    rw [matching_statement, hlo, hhi, List.mem_filter, Store.scan, List.mem_filter]
    simp only [decide_eq_true_eq, and_assoc]
  refine ⟨?_, ?_⟩
  · intro fetchSize hpos
    refine (live_of_create hpos hrows (hcreate fetchSize) ?_).1
    intro row hrow
    have hrow' : row ∈ (session (statement 0 table rowName rowStart blocks lo hi)).rows := by
      rw [← hpaging _ fetchSize]
      exact hrow
    obtain ⟨r, hr, rfl⟩ := List.mem_map.mp (hperm.mem_iff.mp hrow')
    obtain ⟨-, -, hlow, hhigh, -⟩ := (hmem r).mp hr
    exact ⟨hlow, hhigh⟩
  · rw [← List.length_pos_iff, hperm.length_eq, List.length_map, List.length_pos_iff_exists_mem]
    simp only [hmem]

end AisStoreQuery

/-! ### Two runs of the same queries -/

section
variable {session : Session} {combine : List (List AisPacket) → List AisPacket}
  {openings : List AisStoreQuery.Opening}

/-- The packets of the rows a statement selects. -/
def AisStoreQuery.Opening.packets (session : Session) (p : Opening) : List AisPacket :=
  (session p.statement).rows.map ResultRow.packet

/-- The result returns what its queries select, or nothing. -/
theorem drained_openings (hpaging : session.IgnoresFetchSize)
    (hlive : ∀ p ∈ openings, ∀ fetchSize, 0 < fetchSize → (p.query session fetchSize).Live)
    (fetchSize : ℤ) :
    AisStoreQueryResult.drained combine (openings.map (·.query session fetchSize)) =
      .ok (AisStoreQueryResult.merged combine
        (openings.map fun p => if 0 < fetchSize then p.packets session else [])) := by
  have hpending : ∀ p : AisStoreQuery.Opening,
      (p.query session fetchSize).pending = p.packets session := by
    intro p
    show [] ++ (session { p.statement with fetchSize := fetchSize }).rows.map _ = _
    rw [hpaging]
    rfl
  have hdrained : ∀ q ∈ openings.map (·.query session fetchSize),
      q.drained = .ok (if 0 < fetchSize then q.pending else []) := by
    intro q hq
    obtain ⟨p, hp, rfl⟩ := List.mem_map.mp hq
    split
    · rename_i hpos
      exact AisStoreQuery.drained_eq (hlive p hp fetchSize hpos)
    · rename_i hnot
      exact AisStoreQuery.drained_of_nonpos (not_lt.mp hnot) rfl rfl
  rw [AisStoreQueryResult.drained_eq_merged hdrained, List.map_map]
  simp only [Function.comp_def, hpending]

/-- Whether the fetch size changes what the queries return. -/
theorem drained_openings_iff (hpaging : session.IgnoresFetchSize) (hcombine : CombineUnion combine)
    (hlive : ∀ p ∈ openings, ∀ fetchSize, 0 < fetchSize → (p.query session fetchSize).Live)
    (f g : ℤ) :
    AisStoreQueryResult.drained combine (openings.map (·.query session f)) =
        AisStoreQueryResult.drained combine (openings.map (·.query session g)) ↔
      ((0 < f ↔ 0 < g) ∨ ¬ ∃ p ∈ openings, (session p.statement).rows ≠ []) := by
  -- a merge is empty just when there is nothing to merge
  have hempty : ∀ inputs, AisStoreQueryResult.merged combine inputs = [] ↔
      ∀ input ∈ inputs, input = [] := by
    intro inputs
    have hperm := AisStoreQueryResult.merged_perm hcombine inputs
    rw [← List.flatten_eq_nil_iff, ← List.length_eq_zero_iff, hperm.length_eq,
      List.length_eq_zero_iff]
  have hnothing : AisStoreQueryResult.merged combine (openings.map fun _ => []) = [] := by
    rw [hempty]
    simp
  have hpackets : AisStoreQueryResult.merged combine (openings.map (·.packets session)) = [] ↔
      ¬ ∃ p ∈ openings, (session p.statement).rows ≠ [] := by
    rw [hempty]
    simp [AisStoreQuery.Opening.packets]
  rw [drained_openings hpaging hlive, drained_openings hpaging hlive, Except.ok.injEq]
  by_cases hf : 0 < f <;> by_cases hg : 0 < g
  · simp [hf, hg]
  · simp only [hf, hg, if_true, if_false, hnothing, hpackets, iff_false, not_true, false_or]
  · simp only [hf, hg, if_true, if_false, hnothing, false_iff, not_true, false_or]
    rw [eq_comm, hpackets]
  · simp [hf, hg]

end

/-! ### Requests -/

section
variable {Area : Type} {grid : Grid Area} {store : Store} {session : Session}
  {combine : List (List AisPacket) → List AisPacket} {start stop : Instant}

/-- The last millisecond of an interval that has one has a block as soon as
both ends do. -/
theorem exists_last {table : Table} (hstart : IsInt (block table start))
    (hstop : IsInt (block table stop)) (hlt : start.millis < stop.millis) :
    ∃ last, stop.minusMillis 1 = .ok last ∧ IsInt (block table last) := by
  have hbounds := seconds_of_isInt hstop
  obtain ⟨last, hlast⟩ := Instant.exists_minusMillis (t := stop) (by omega)
  have hmillis := Instant.minusMillis_millis hlast
  have hlow : block table start ≤ block table last := by
    apply block_mono
    rw [Instant.seconds_eq, Instant.seconds_eq last]
    omega
  have hhigh : block table last ≤ block table stop := by
    apply block_mono
    rw [Instant.seconds_eq, Instant.seconds_eq stop]
    omega
  exact ⟨last, hlast, hstart.1.trans hlow, hhigh.trans hstop.2⟩

/-- The request is refused whatever its fetch size, or it is a list of
queries that depend on the fetch size only as openings do. -/
def QueryKind.OpensAlike (kind : QueryKind Area) (grid : Grid Area) (store : Store)
    (session : Session) (combine : List (List AisPacket) → List AisPacket)
    (start stop : Instant) : Prop :=
  ((∃ e, ∀ fetchSize, kind.query grid session combine fetchSize start stop = .error e) ∧
      ¬ kind.Finds grid store start stop) ∨
    ∃ openings : List AisStoreQuery.Opening,
      (∀ fetchSize, kind.query grid session combine fetchSize start stop =
        AisStoreQueryResult.drained combine (openings.map (·.query session fetchSize))) ∧
      (∀ p ∈ openings, ∀ fetchSize, 0 < fetchSize → (p.query session fetchSize).Live) ∧
      ((∃ p ∈ openings, (session p.statement).rows ≠ []) ↔ kind.Finds grid store start stop)

/-- A request for the rows of some keys of a table. -/
theorem opensAlike_keys (hsession : session.EvaluatesWhere store)
    (hpaging : session.IgnoresFetchSize) {kind : QueryKind Area}
    (htable : kind.table ≠ .packetsTime) {rowName : Column} {keys : List ℤ}
    (hselects : ∀ r, kind.Selects grid r ↔ ∃ k ∈ keys, r.column rowName = some k)
    {new : ℤ → ℤ → Except Failure AisStoreQuery}
    (hnew : ∀ fetchSize, ∀ k ∈ keys, new fetchSize k =
      AisStoreQuery.create session fetchSize kind.table rowName k k start stop)
    (hquery : ∀ fetchSize, kind.query grid session combine fetchSize start stop =
      keys.mapM (new fetchSize) >>= AisStoreQueryResult.drained combine) :
    kind.OpensAlike grid store session combine start stop := by
  simp only [QueryKind.OpensAlike, hquery, QueryKind.Finds, hselects]
  cases hblocks : timeBlocks kind.table start stop with
  | error e =>
    cases keys with
    | nil => exact .inr ⟨[], fun _ => rfl, by simp, by simp⟩
    | cons k rest =>
      refine .inl ⟨⟨e, ?_⟩, by simp⟩
      intro fetchSize
      rw [List.mapM_cons, hnew fetchSize k (List.mem_cons_self ..)]
      simp only [AisStoreQuery.create, AisStoreQuery.select, hblocks, bind, Except.bind]
  | ok blocks =>
    have hcreate := fun k => AisStoreQuery.create_eq_opening session rowName k k hblocks
    choose lo hi hlo hhi hcreate using hcreate
    let opening : ℤ → AisStoreQuery.Opening := fun k =>
      ⟨kind.table, k, k, AisStoreQuery.statement 0 kind.table rowName k blocks (lo k) (hi k)⟩
    have hfacts := fun k => AisStoreQuery.live_of_opening hsession hpaging (.key k) (hlo k) (hhi k)
      (hcreate k)
    refine .inr ⟨keys.map opening, ?_, ?_, ?_⟩
    · intro fetchSize
      have hall : keys.mapM (new fetchSize) = .ok (keys.map fun k => (opening k).query session
          fetchSize) := mapM_eq_ok_map fun k hk => (hnew fetchSize k hk).trans (hcreate k fetchSize)
      rw [hall, List.map_map]
      rfl
    · intro p hp
      obtain ⟨k, -, rfl⟩ := List.mem_map.mp hp
      exact (hfacts k).1
    · simp only [List.mem_map, exists_exists_and_eq_and, opening, (hfacts _).2, htable, false_or,
        Except.ok.injEq, exists_eq_left']
      constructor
      · rintro ⟨k, hk, r, hr, hkey, hrest⟩
        exact ⟨r, hr, ⟨k, hk, hkey⟩, hrest⟩
      · rintro ⟨r, hr, ⟨k, hk, hkey⟩, hrest⟩
        exact ⟨k, hk, r, hr, hkey, hrest⟩

/-- The request for everything. -/
theorem opensAlike_forTime (hsession : session.EvaluatesWhere store)
    (hpaging : session.IgnoresFetchSize) :
    QueryKind.forTime.OpensAlike grid store session combine start stop := by
  have hquery : ∀ fetchSize, QueryKind.forTime.query grid session combine fetchSize start stop =
      (do
        let first ← timeBlock .packetsTime start
        let last ← stop.minusMillis 1
        let final ← timeBlock .packetsTime last
        let q ←
          AisStoreQuery.create session fetchSize .packetsTime .timeblock first final start stop
        AisStoreQueryResult.drained combine [q]) := by
    intro fetchSize
    show (do
      let first ← timeBlock .packetsTime start
      let last ← stop.minusMillis 1
      let final ← timeBlock .packetsTime last
      let q ← AisStoreQuery.create session fetchSize .packetsTime .timeblock first final start stop
      pure [q]) >>= AisStoreQueryResult.drained combine = _
    simp only [bind_assoc, pure_bind]
  -- what the query needs before it can find anything
  have hready : QueryKind.forTime.Finds grid store start stop →
      (∃ blocks, timeBlocks .packetsTime start stop = .ok blocks) ∧
        ∃ last, stop.minusMillis 1 = .ok last ∧ IsInt (block .packetsTime last) := by
    rintro ⟨blocks, hblocks, r, -, -, hlow, hhigh, -⟩
    obtain ⟨hlo, hhi, -⟩ := timeBlocks_eq_ok.mp hblocks
    exact ⟨⟨blocks, hblocks⟩, exists_last hlo hhi (hlow.trans hhigh)⟩
  by_cases hall : (∃ blocks, timeBlocks .packetsTime start stop = .ok blocks) ∧
      ∃ last, stop.minusMillis 1 = .ok last ∧ IsInt (block .packetsTime last)
  · obtain ⟨⟨blocks, hblocks⟩, last, hlast, hint⟩ := hall
    have hfirst := (timeBlocks_eq_ok.mp hblocks).1
    obtain ⟨lo, hi, hlo, hhi, hcreate⟩ := AisStoreQuery.create_eq_opening session .timeblock
      (block .packetsTime start) (block .packetsTime last) hblocks
    obtain ⟨hlive, hfinds⟩ := AisStoreQuery.live_of_opening hsession hpaging
      (.blocks hlast (timeBlock_of_isInt hfirst) (timeBlock_of_isInt hint)) hlo hhi hcreate
    refine .inr ⟨[_], ?_, List.forall_mem_singleton.mpr hlive, ?_⟩
    · intro fetchSize
      simp only [hquery, timeBlock_of_isInt hfirst, hlast, timeBlock_of_isInt hint, hcreate, bind,
        Except.bind]
      rfl
    · simp only [List.mem_singleton, exists_eq_left, hfinds, QueryKind.Finds, QueryKind.table,
        QueryKind.Selects, hblocks, Except.ok.injEq, exists_eq_left', true_or, true_and]
  · refine .inl ⟨?_, fun hfinds => hall (hready hfinds)⟩
    simp only [hquery]
    cases hfirst : timeBlock .packetsTime start with
    | error e => exact ⟨e, fun _ => rfl⟩
    | ok first =>
      cases hlast : stop.minusMillis 1 with
      | error e => exact ⟨e, fun _ => rfl⟩
      | ok last =>
        cases hfinal : timeBlock .packetsTime last with
        | error e =>
          refine ⟨e, fun _ => ?_⟩
          simp only [bind, Except.bind, hfinal]
        | ok final =>
          cases hblocks : timeBlocks .packetsTime start stop with
          | error e =>
            refine ⟨e, fun _ => ?_⟩
            simp only [AisStoreQuery.create, AisStoreQuery.select, hblocks, bind, Except.bind,
              hfinal]
          | ok blocks =>
            exact absurd ⟨⟨blocks, hblocks⟩, last, hlast, (timeBlock_eq_ok.mp hfinal).1⟩ hall

theorem opensAlike (kind : QueryKind Area) (hsession : session.EvaluatesWhere store)
    (hpaging : session.IgnoresFetchSize) :
    kind.OpensAlike grid store session combine start stop := by
  cases kind with
  | forTime => exact opensAlike_forTime hsession hpaging
  | forMmsi mmsi =>
    cases mmsi with
    | nil =>
      refine .inl ⟨⟨_, fun _ => rfl⟩, ?_⟩
      rintro ⟨-, -, r, -, ⟨m, hm, -⟩, -⟩
      cases hm
    | cons m rest =>
      have htable : (QueryKind.forMmsi (m :: rest) : QueryKind Area).table ≠ .packetsTime := by
        intro h
        cases h
      exact opensAlike_keys hsession hpaging htable (fun r => Iff.rfl) (fun _ _ _ => rfl)
        fun _ => rfl
  | forArea area =>
    have htable : (QueryKind.forArea area).table ≠ .packetsTime := by
      intro h
      cases h
    have hnew : ∀ fetchSize, ∀ c ∈ grid.getCells 1 area,
        AisStoreQuery.create session fetchSize .packetsAreaCell1 .cellid (wrapInt c) (wrapInt c)
          start stop = AisStoreQuery.create session fetchSize .packetsAreaCell1 .cellid c c start
            stop := by
      intro fetchSize c hc
      rw [wrapInt_eq (grid.isInt_getCells 1 area c hc)]
    exact opensAlike_keys hsession hpaging htable (fun r => Iff.rfl) hnew fun _ => rfl

/-- Two fetch sizes give the same answer to every request that has one
exactly when both are positive or neither is. -/
theorem fetchSize_iff (kind : QueryKind Area) (hsession : session.EvaluatesWhere store)
    (hpaging : session.IgnoresFetchSize) (hcombine : CombineUnion combine) (f g : ℤ) :
    kind.query grid session combine f start stop = kind.query grid session combine g start stop ↔
      ((0 < f ↔ 0 < g) ∨ ¬ kind.Finds grid store start stop) := by
  have halike : kind.OpensAlike grid store session combine start stop :=
    opensAlike kind hsession hpaging
  rcases halike with ⟨⟨e, he⟩, hnot⟩ | ⟨openings, hquery, hlive, hfinds⟩
  · simp [he, hnot]
  · rw [hquery, hquery, drained_openings_iff hpaging hcombine hlive, hfinds]

end

/-- The minute around ten past, asked for with two positive sizes. -/
theorem fetchSize_iff_positive :
    let session := Session.ofStore tenPastStore
    let combine := combineByTime (AisLib.ofDecoded tenPast)
    let start := Instant.ofEpochMilli (toLong 599999)
    let stop := Instant.ofEpochMilli (toLong 600001)
    QueryKind.forTime.query noCells session combine 1 start stop =
      QueryKind.forTime.query noCells session combine 3000 start stop := by
  intro session combine start stop
  have hsession := (Session.returnsInOrder_ofStore tenPastStore).evaluatesWhere
  exact (fetchSize_iff .forTime hsession (Session.ignoresFetchSize_ofStore _)
    (combineUnion_combineByTime _) 1 3000).mpr (.inl (by decide))

/-- With size 0, or the -1 that another tool of the repository uses for no
size at all, the packet that is there is not returned. -/
theorem fetchSize_zero :
    let session := Session.ofStore tenPastStore
    let combine := combineByTime (AisLib.ofDecoded tenPast)
    let start := Instant.ofEpochMilli (toLong 599999)
    let stop := Instant.ofEpochMilli (toLong 600001)
    session.EvaluatesWhere tenPastStore ∧ session.IgnoresFetchSize ∧ CombineUnion combine ∧
      QueryKind.forTime.query noCells session combine 3000 start stop =
        .ok [⟨"!AIVDM,1,1,,A,13"⟩] ∧
      QueryKind.forTime.query noCells session combine 0 start stop = .ok [] ∧
      QueryKind.forTime.query noCells session combine (-1) start stop = .ok [] ∧
      ¬ ∀ f g, IsInt f → IsInt g → QueryKind.forTime.query noCells session combine f start stop =
        QueryKind.forTime.query noCells session combine g start stop := by
  intro session combine start stop
  have hsession := (Session.returnsInOrder_ofStore tenPastStore).evaluatesWhere
  have hcombine : CombineUnion combine := combineUnion_combineByTime _
  have hdefault : QueryKind.forTime.query noCells session combine 3000 start stop =
      .ok [⟨"!AIVDM,1,1,,A,13"⟩] := by
    have hkind : (QueryKind.forTime : QueryKind Unit).Proper := trivial
    have hfits : QueryKind.forTime.Fits noCells start stop :=
      ⟨⟨by decide, by decide, by decide, by decide⟩,
        exists_last (by decide : IsInt (block .packetsTime start)) (by decide) (by decide)⟩
    obtain ⟨packets, hquery, hperm⟩ := query_perm (written_inBlocks _ _ _) hsession hcombine hkind
      (by decide : (0 : ℤ) < 3000) (by decide) hfits
    have hrow : ((tenPastStore .packetsTime).rows.filter fun r =>
        QueryKind.forTime.Selects noCells r ∧ start.millis < r.time.1 ∧
          r.time.1 < stop.millis).map Row.packet = [⟨"!AIVDM,1,1,,A,13"⟩] := by decide
    have honly := hperm.trans (List.Perm.of_eq hrow)
    rw [hquery, List.perm_singleton.mp honly]
  have hzero : QueryKind.forTime.query noCells session combine 0 start stop = .ok [] := by
    decide
  have hminus : QueryKind.forTime.query noCells session combine (-1) start stop = .ok [] := by
    decide
  refine ⟨hsession, Session.ignoresFetchSize_ofStore _, hcombine, hdefault, hzero, hminus, ?_⟩
  intro h
  have heq := h 3000 0 (by decide) (by decide)
  rw [hdefault, hzero] at heq
  cases heq

end AisStore
