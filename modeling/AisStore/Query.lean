import AisStore.Cassandra

/-!
`AisStoreQuery`: one select statement, read through a packet buffer.

The iterator refills its buffer with at most `batchLimit` rows at a time.
Between two refills it keeps `currentRow`, the time block it has reached,
and it stops looking for rows once that has passed `lastRow`. Nothing is
lost by this as long as no row lies in a later block than `lastRow`, which
is the last clause of the invariant `Live`. Under it a call of `computeNext`
takes the head off `pending`, the buffer followed by what is left of the
result, and `drained_eq` reads the whole result off.
-/

namespace AisStore

open Lib

/-- `AisPacket.from(row.getString(1))`. -/
def ResultRow.packet (row : ResultRow) : AisPacket := AisPacket.fromString row.aisdata

structure AisStoreQuery where
  batchLimit : ℤ
  table : Table
  currentRow : ℤ
  lastRow : ℤ
  rs : Paged ResultRow
  /-- `future.isDone()`. -/
  futureIsDone : Bool
  packets : List AisPacket
  retrievedPackets : ℕ
  latestDateReceived : Option Instant

namespace AisStoreQuery

/-- The statement of `execute`; the time table is queried by block alone. -/
def statement (batchLimit : ℤ) (table : Table) (rowName : Column) (currentRow : ℤ)
    (timeBlocks : List ℤ) (start stop : Long) : Select :=
  match table with
  | .packetsTime =>
    { columns := [.timestamp, .aisdata]
      table := .packetsTime
      whereClauses := [.inList .timeblock timeBlocks, .gt .timestamp start.1,
        .lt .timestamp stop.1]
      fetchSize := batchLimit }
  | table =>
    { columns := [.timestamp, .aisdata]
      table := table
      whereClauses := [.eq rowName currentRow, .inList .timeblock timeBlocks,
        .gt .timestamp start.1, .lt .timestamp stop.1]
      fetchSize := batchLimit }

def select (batchLimit : ℤ) (table : Table) (rowName : Column) (currentRow : ℤ)
    (timeStart timeStop : Instant) : Except Failure Select := do
  let timeBlocks ← timeBlocks table timeStart timeStop
  let start ← timeStart.toEpochMilli
  let stop ← timeStop.toEpochMilli
  return statement batchLimit table rowName currentRow timeBlocks start stop

/-- The constructor. It waits for the first page, so its future is done. -/
def create (session : Session) (batchLimit : ℤ) (table : Table) (rowName : Column)
    (rowStart rowStop : ℤ) (timeStartInclusive timeStopExclusive : Instant) :
    Except Failure AisStoreQuery := do
  let statement ← select batchLimit table rowName rowStart timeStartInclusive timeStopExclusive
  return {
    batchLimit := batchLimit
    table := table
    currentRow := rowStart
    lastRow := rowStop
    rs := session statement
    futureIsDone := true
    packets := []
    retrievedPackets := 0
    latestDateReceived := none }

/-- `rs.fetchMoreResults()` ahead of need, when the page at hand runs low. -/
def prefetch (rs : Paged ResultRow) : Paged ResultRow :=
  if rs.available.length = 100 ∧ rs.isFullyFetched = false then rs.fetchMoreResults else rs

/-- The loop that fills the buffer, with the query, the number of rows
received and the last of them; running out of the first argument stands for
not returning. -/
def receive : ℕ → AisStoreQuery → ℤ → Option ResultRow →
    Except Failure (AisStoreQuery × Option ResultRow)
  | 0, _, _, _ => .error .noReturn
  | fuel + 1, q, innerReceived, row =>
      -- `it.hasNext()` fetches whether or not the limit is reached
      let rs := Paged.prepareNext q.rs.available q.rs.pages
      match rs.available with
      | [] => .ok ({ q with rs := rs }, row)
      | next :: _ =>
          if innerReceived < q.batchLimit then
            let rs := prefetch rs
            receive fuel
              { q with
                rs := { rs with available := rs.available.tail }
                packets := q.packets ++ [next.packet]
                retrievedPackets := q.retrievedPackets + 1 }
              (innerReceived + 1) (some next)
          else .ok ({ q with rs := rs }, row)

/-- What follows the loop when a row was received. -/
def noteReceived (q : AisStoreQuery) : Option ResultRow → Except Failure AisStoreQuery
  | none => .ok q
  | some row => do
      let latest := Instant.ofEpochMilli row.time
      let currentRow ←
        if q.currentRow = q.lastRow then pure q.currentRow else timeBlock q.table latest
      return { q with latestDateReceived := some latest, currentRow := currentRow }

def computeNext (q : AisStoreQuery) : Except Failure (Option AisPacket × AisStoreQuery) :=
  match q.packets with
  | next :: rest => .ok (some next, { q with packets := rest })
  | [] =>
      if q.currentRow ≤ q.lastRow then do
        let (q, row) ← receive (q.rs.rows.length + 1) q 0 none
        let q ← noteReceived q row
        match q.packets with
        | next :: rest => return (some next, { q with packets := rest })
        | [] =>
            if q.rs.isFullyFetched ∨ q.futureIsDone then
              return (none, { q with currentRow := wrapInt (q.lastRow + 1) })
            else
              -- a round that received nothing changes nothing, and neither does the next
              throw .noReturn
      else .ok (none, q)

/-- The packets the iterator returns, until its end or for a number of calls. -/
def drain : ℕ → AisStoreQuery → Except Failure (List AisPacket)
  | 0, _ => .error .noReturn
  | calls + 1, q => do
      match ← q.computeNext with
      | (none, _) => return []
      | (some next, q) => return next :: (← drain calls q)

/-- What the iterator has yet to return. -/
def pending (q : AisStoreQuery) : List AisPacket := q.packets ++ q.rs.rows.map ResultRow.packet

/-- The whole sequence the iterator returns. -/
def drained (q : AisStoreQuery) : Except Failure (List AisPacket) := q.drain (q.pending.length + 1)

/-! ### One call -/

theorem rows_prefetch (rs : Paged ResultRow) : (prefetch rs).rows = rs.rows := by
  rw [prefetch]
  split
  · exact rs.rows_fetchMoreResults
  · rfl

theorem available_prefetch {rs : Paged ResultRow} {next : ResultRow} {rest : List ResultRow}
    (h : rs.available = next :: rest) :
    ∃ rest', (prefetch rs).available = next :: rest' := by
  rw [prefetch]
  split
  · obtain ⟨available, pages⟩ := rs
    cases pages with
    | nil => exact ⟨rest, h⟩
    | cons page pages => exact ⟨rest ++ page, congrArg (· ++ page) h⟩
  · exact ⟨rest, h⟩

/-- The query after it has moved rows of its result into its buffer. -/
def buffered (q : AisStoreQuery) (taken : List ResultRow) (rs : Paged ResultRow) : AisStoreQuery :=
  { q with
    rs := rs
    packets := q.packets ++ taken.map ResultRow.packet
    retrievedPackets := q.retrievedPackets + taken.length }

theorem buffered_buffered (q : AisStoreQuery) (taken taken' : List ResultRow)
    (rs rs' : Paged ResultRow) :
    (q.buffered taken rs).buffered taken' rs' = q.buffered (taken ++ taken') rs' := by
  simp [buffered, Nat.add_assoc]

/-- The loop moves a prefix of the result into the buffer, in order. It
takes nothing only when the limit is reached or the result is used up. -/
theorem receive_eq {fuel : ℕ} {q : AisStoreQuery} (innerReceived : ℤ) (row : Option ResultRow)
    (hfuel : q.rs.rows.length < fuel) :
    ∃ taken rs, q.rs.rows = taken ++ rs.rows ∧
      receive fuel q innerReceived row = .ok (q.buffered taken rs, taken.getLast?.or row) ∧
      (taken = [] → innerReceived < q.batchLimit → rs.rows = [] ∧ rs.isFullyFetched = true) := by
  induction fuel generalizing q innerReceived row with
  | zero => exact absurd hfuel (Nat.not_lt_zero _)
  | succ fuel ih =>
      have hrows : (Paged.prepareNext q.rs.available q.rs.pages).rows = q.rs.rows :=
        Paged.rows_prepareNext ..
      rw [receive]
      cases hav : (Paged.prepareNext q.rs.available q.rs.pages).available with
      | nil =>
        have hpages := Paged.pages_prepareNext hav
        refine ⟨[], _, hrows.symm, by simp [buffered], ?_⟩
        intro _ _
        simp [Paged.rows, Paged.isFullyFetched, hav, hpages]
      | cons next rest =>
        by_cases hlimit : innerReceived < q.batchLimit
        · obtain ⟨rest', hpre⟩ := available_prefetch hav
          let rs' : Paged ResultRow :=
            ⟨rest', (prefetch (Paged.prepareNext q.rs.available q.rs.pages)).pages⟩
          have hsplit : q.rs.rows = next :: rs'.rows := by
            rw [← hrows, ← rows_prefetch]
            simp [Paged.rows, hpre, rs']
          have hfuel' : (q.buffered [next] rs').rs.rows.length < fuel := by
            rw [hsplit, List.length_cons] at hfuel
            exact Nat.lt_of_succ_lt_succ hfuel
          obtain ⟨taken, rs, htaken, hrun, -⟩ :=
            @ih (q.buffered [next] rs') (innerReceived + 1) (some next) hfuel'
          refine ⟨next :: taken, rs, ?_, ?_, fun h => absurd h (List.cons_ne_nil _ _)⟩
          · rw [hsplit, List.cons_append]
            exact congrArg (next :: ·) htaken
          · rw [buffered_buffered] at hrun
            simp only [hlimit, if_true, hpre, List.tail_cons, List.getLast?_cons]
            refine hrun.trans ?_
            cases taken.getLast? <;> rfl
        · refine ⟨[], _, hrows.symm, by simp [buffered, hlimit], ?_⟩
          intro _ h
          exact absurd h hlimit

/-- No row still to come lies behind the last row of the query. -/
structure Live (q : AisStoreQuery) : Prop where
  batchLimit_pos : 0 < q.batchLimit
  currentRow_le : q.rs.rows ≠ [] → q.currentRow ≤ q.lastRow
  block_le : ∀ row ∈ q.rs.rows, q.currentRow = q.lastRow ∨
    ∃ b ≤ q.lastRow, timeBlock q.table (.ofEpochMilli row.time) = .ok b

/-- Noting a row of a live query moves `currentRow`, not beyond `lastRow`. -/
theorem noteReceived_eq {q : AisStoreQuery} {row : ResultRow} {taken : List ResultRow}
    {rs : Paged ResultRow} (hle : q.currentRow ≤ q.lastRow)
    (hrow : q.currentRow = q.lastRow ∨
      ∃ b ≤ q.lastRow, timeBlock q.table (.ofEpochMilli row.time) = .ok b) :
    ∃ b ≤ q.lastRow, (q.currentRow = q.lastRow → b = q.lastRow) ∧
      noteReceived (q.buffered taken rs) (some row) = .ok
        { q.buffered taken rs with
          latestDateReceived := some (.ofEpochMilli row.time), currentRow := b } := by
  by_cases heq : q.currentRow = q.lastRow
  · refine ⟨q.currentRow, hle, fun _ => heq, ?_⟩
    simp [noteReceived, buffered, heq, bind, Except.bind, pure, Except.pure]
  · obtain ⟨b, hb, hblock⟩ := hrow.resolve_left heq
    refine ⟨b, hb, fun h => absurd h heq, ?_⟩
    simp [noteReceived, buffered, heq, hblock, bind, Except.bind, pure, Except.pure]

/-- What a call that returns a packet keeps: the last row, a current row not
beyond it, and the number of rows retrieved and still to come. -/
structure Follows (q' q : AisStoreQuery) : Prop where
  lastRow : q'.lastRow = q.lastRow
  currentRow : q.currentRow ≤ q.lastRow → q'.currentRow ≤ q'.lastRow
  total : q'.retrievedPackets + q'.rs.rows.length = q.retrievedPackets + q.rs.rows.length

/-- A call on a live query with something pending returns the first of it. -/
theorem computeNext_cons {q : AisStoreQuery} (h : q.Live) {p : AisPacket} {ps : List AisPacket}
    (hpending : q.pending = p :: ps) :
    ∃ q', q.computeNext = .ok (some p, q') ∧ q'.pending = ps ∧ q'.Live ∧ q'.Follows q := by
  rw [pending] at hpending
  rw [computeNext]
  cases hbuf : q.packets with
  | cons next rest =>
    rw [hbuf] at hpending
    obtain ⟨rfl, rfl⟩ := List.cons.inj hpending
    exact ⟨_, rfl, rfl, ⟨h.batchLimit_pos, h.currentRow_le, h.block_le⟩, ⟨rfl, id, rfl⟩⟩
  | nil =>
    rw [hbuf, List.nil_append] at hpending
    have hrows : q.rs.rows ≠ [] := by
      intro hnil
      simp [hnil] at hpending
    have hle := h.currentRow_le hrows
    obtain ⟨taken, rs, hsplit, hrun, hnone⟩ :=
      receive_eq 0 none (Nat.lt_succ_self q.rs.rows.length)
    cases htaken : taken with
    | nil =>
      rw [htaken, (hnone htaken h.batchLimit_pos).1] at hsplit
      exact absurd hsplit hrows
    | cons first others =>
      rw [htaken] at hsplit hrun
      -- the last row of the batch decides where `currentRow` goes
      obtain ⟨last, hlast⟩ : ∃ last, (first :: others).getLast? = some last := by
        simp [List.getLast?_cons]
      have hmem : last ∈ q.rs.rows := by
        rw [hsplit]
        exact List.mem_append_left _ (List.mem_of_getLast? hlast)
      obtain ⟨b, hb, hkeep, hnote⟩ :=
        @noteReceived_eq q last (first :: others) rs hle (h.block_le last hmem)
      have hp : q.packets ++ (first :: others).map ResultRow.packet =
          first.packet :: others.map ResultRow.packet := by simp [hbuf]
      rw [hsplit, List.map_append, List.map_cons, List.cons_append] at hpending
      obtain ⟨rfl, rfl⟩ := List.cons.inj hpending
      refine ⟨{ q.buffered (first :: others) rs with
          latestDateReceived := some (.ofEpochMilli last.time)
          currentRow := b
          packets := others.map ResultRow.packet }, ?_, rfl,
        ⟨h.batchLimit_pos, fun _ => hb, ?_⟩, ⟨rfl, fun _ => hb, ?_⟩⟩
      · simp only [hle, if_true, hrun, hlast, Option.some_or, hnote, bind, Except.bind]
        simp only [buffered, hp]
        rfl
      · intro row hrow
        have hin : row ∈ q.rs.rows := by
          rw [hsplit]
          exact List.mem_append_right _ hrow
        exact (h.block_le row hin).imp_left hkeep
      · rw [hsplit, List.length_append]
        show q.retrievedPackets + (first :: others).length + rs.rows.length = _
        omega

/-- A call on a live query with nothing pending reports the end. -/
theorem computeNext_nil {q : AisStoreQuery} (h : q.Live) (hpending : q.pending = []) :
    ∃ q', q.computeNext = .ok (none, q') ∧ q'.retrievedPackets = q.retrievedPackets := by
  obtain ⟨hbuf, hmap⟩ := List.append_eq_nil_iff.mp hpending
  have hrows : q.rs.rows = [] := List.map_eq_nil_iff.mp hmap
  rw [computeNext, hbuf]
  by_cases hle : q.currentRow ≤ q.lastRow
  · obtain ⟨taken, rs, hsplit, hrun, hnone⟩ :=
      receive_eq 0 none (Nat.lt_succ_self q.rs.rows.length)
    rw [hrows] at hsplit
    obtain ⟨rfl, -⟩ := List.append_eq_nil_iff.mp hsplit.symm
    have hfull := (hnone rfl h.batchLimit_pos).2
    simp only [hle, if_true, hrun, bind, Except.bind]
    simp [noteReceived, buffered, hbuf, hfull, pure, Except.pure]
  · exact ⟨q, by simp [hle]⟩

/-! ### The whole sequence -/

/-- A live query returns what is pending, in order, and then ends. -/
theorem drain_eq {q : AisStoreQuery} (h : q.Live) {calls : ℕ} (hcalls : q.pending.length < calls) :
    q.drain calls = .ok q.pending := by
  induction calls generalizing q with
  | zero => exact absurd hcalls (Nat.not_lt_zero _)
  | succ calls ih =>
      cases hpending : q.pending with
      | nil =>
        obtain ⟨q', hcall, -⟩ := computeNext_nil h hpending
        simp [drain, hcall, bind, Except.bind, pure, Except.pure]
      | cons p ps =>
        obtain ⟨q', hcall, hrest, hlive, -⟩ := computeNext_cons h hpending
        rw [hpending, List.length_cons] at hcalls
        have hdrain := ih hlive (hrest ▸ Nat.lt_of_succ_lt_succ hcalls)
        simp [drain, hcall, hdrain, hrest, bind, Except.bind, pure, Except.pure]

theorem drained_eq {q : AisStoreQuery} (h : q.Live) : q.drained = .ok q.pending :=
  drain_eq h (Nat.lt_succ_self _)

end AisStoreQuery

end AisStore
