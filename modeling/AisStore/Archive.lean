import AisStore.FileImport
import AisStore.Pieces
import AisStore.Lib.Simulation

/-!
What the store is for, and that it is just that.

`Archive` says it without tables of rows, batches or statements: for each
table and each key there is at most one row on file; filing a packet puts its
rows there, at a position that its vessel has reported or at none; and an
answer is a listing of what is on file for a request, each row once, in the
order of time. `StoreService` is the program: a writer with its tracker, the
statements that Cassandra has executed, and queries built, executed and read
to their ends. Whatever is observed of the program in a run, batches written
and lost and queries answered in any order, is observed of an archive
(`archive_refined`).
-/

namespace AisStore

open Lib

/-! ### The archive -/

abbrev RowKey := Option ℤ × Option ℤ × ℤ × Long × List UInt8

/-- What is on file, and every packet that was ever handed in. -/
structure Archive where
  rows : Table → RowKey → Option Row
  seen : List AisPacket

/-- A packet, and where its vessel was. -/
structure Filing (Pos : Type) where
  packet : AisPacket
  position : Option Pos

/-- What is seen of a system from outside. -/
inductive Observation (Area : Type) where
  /-- A batch is written, or is lost. -/
  | write (packets : List AisPacket) (executed : Bool)
  | answer (kind : QueryKind Area) (start stop : Instant) (packets : List AisPacket)

namespace Archive

variable {Pos Area : Type} (lib : AisLib Pos) (grid : Grid Area)

def empty : Archive := ⟨fun _ _ => none, []⟩

def insert (rows : Table → RowKey → Option Row) (i : Insert) : Table → RowKey → Option Row :=
  Function.update rows i.table (Function.update (rows i.table) i.row.primaryKey (some i.row))

/-- The vessel of the packet has reported the position it is filed at. -/
def Known (seen : List AisPacket) (f : Filing Pos) : Prop :=
  ∀ position, f.position = some position → ∃ message q r,
    lib.tryGetAisMessage f.packet = some message ∧ q ∈ seen ∧
      report lib q = some (message.userId, r) ∧ r.position = position

/-- The packets are those of the rows on file for a request, in the order of time. -/
structure Answers (a : Archive) (kind : QueryKind Area) (start stop : Instant)
    (packets : List AisPacket) : Prop where
  listed : ∃ rows : List Row, rows.Nodup ∧ packets.Perm (rows.map Row.packet) ∧
    ∀ r, r ∈ rows ↔ a.rows kind.table r.primaryKey = some r ∧ kind.Selects grid r ∧
      start.millis < r.time.1 ∧ r.time.1 < stop.millis
  inOrder : packets.Pairwise fun p q => (lib.getBestTimestamp p).1 ≤ (lib.getBestTimestamp q).1

inductive Does (a : Archive) : Observation Area → Archive → Prop where
  /-- Each packet is filed that has a block in each table it belongs to. -/
  | file {packets : List AisPacket} (filings : List (Filing Pos))
      (hpackets : filings.map Filing.packet = packets.filter fun p => Fits lib p)
      (hknown : ∀ f ∈ filings, Known lib (a.seen ++ packets) f) :
      Does a (.write packets true)
        ⟨(filings.flatMap fun f => insertsOf lib f.packet f.position).foldl insert a.rows,
          a.seen ++ packets⟩
  | lose {packets : List AisPacket} : Does a (.write packets false) ⟨a.rows, a.seen ++ packets⟩
  | answer {kind : QueryKind Area} {start stop : Instant} {packets : List AisPacket}
      (h : a.Answers lib grid kind start stop packets) : Does a (.answer kind start stop packets) a

end Archive

/-! ### The program -/

structure StoreService (Pos : Type) where
  tracker : Tracker Pos
  cassandra : List Insert

namespace StoreService

variable {Pos Area : Type} (lib : AisLib Pos) (grid : Grid Area)
  (combine : List (List AisPacket) → List AisPacket)

def start : StoreService Pos := ⟨Cache.empty, []⟩

def store (s : StoreService Pos) : Store := Store.ofInserts s.cassandra

inductive Does (s : StoreService Pos) : Observation Area → StoreService Pos → Prop where
  /-- `handleMessages`; a write that fails may have been executed all the same. -/
  | handleMessages (clock : ℕ → ℤ) (packets : List AisPacket) (executed : Bool) :
      Does s (.write packets executed)
        ⟨(assembleStatements lib clock ⟨s.tracker, []⟩ packets).tracker,
          if executed then
            s.cassandra ++ (assembleStatements lib clock ⟨s.tracker, []⟩ packets).statements
          else s.cassandra⟩
  /-- A query, over a session that gives the rows as Cassandra does. -/
  | query {session : Session} (hsession : session.ReturnsInOrder s.store) {fetchSize : ℤ}
      (hsize : 0 < fetchSize) {kind : QueryKind Area} (hkind : kind.Proper) {start stop : Instant}
      (hle : start ≤ stop) {packets : List AisPacket}
      (hquery : kind.query grid session combine fetchSize start stop = .ok packets) :
      Does s (.answer kind start stop packets) s

end StoreService

/-! ### The refinement -/

section
variable {Pos Area : Type} {lib : AisLib Pos} {grid : Grid Area}
  {combine : List (List AisPacket) → List AisPacket}

/-- The program is in the state that the archive is in. -/
structure Refines (lib : AisLib Pos) (s : StoreService Pos) (a : Archive) : Prop where
  rows : ∀ table, (s.store table).get = a.rows table
  tracker : ∃ clock, s.tracker = trackAll lib positionTimeoutNanos clock a.seen
  inserts : ∀ i ∈ s.cassandra,
    i.row.InBlock i.table ∧ lib.getBestTimestamp i.row.packet = i.row.time

theorem refines_start : Refines lib (StoreService.start : StoreService Pos) Archive.empty :=
  ⟨fun _ => rfl, ⟨fun _ => 0, rfl⟩, fun _ hi => absurd hi List.not_mem_nil⟩

/-- One statement more is one row more on file. -/
theorem get_ofInserts_concat (inserts : List Insert) (i : Insert) (table : Table) :
    (Store.ofInserts (inserts ++ [i]) table).get =
      Archive.insert (fun table => (Store.ofInserts inserts table).get) i table := by
  by_cases htable : table = i.table
  · subst htable
    have hrows : rowsFor i.table (inserts ++ [i]) = rowsFor i.table inserts ++ [i.row] := by
      simp [rowsFor]
    rw [Archive.insert, Function.update_self, Store.ofInserts, hrows, KeyedTable.ofInserts_concat]
    exact KeyedTable.get_upsert _ _
  · have hrows : rowsFor table (inserts ++ [i]) = rowsFor table inserts := by
      simp [rowsFor, Ne.symm htable]
    rw [Archive.insert, Function.update_of_ne htable, Store.ofInserts, hrows]
    rfl

theorem get_ofInserts_append (inserts more : List Insert) :
    (fun table => (Store.ofInserts (inserts ++ more) table).get) =
      more.foldl Archive.insert fun table => (Store.ofInserts inserts table).get := by
  induction more using List.reverseRecOn with
  | nil => simp
  | append_singleton more i ih =>
      rw [List.foldl_append, ← ih, ← List.append_assoc]
      funext table
      exact get_ofInserts_concat _ i table

/-- A packet is filed at a position that it, or one before it, reports for its vessel. -/
theorem known_of_positionAt {clock : ℕ → ℤ} {before : List AisPacket} {packet : AisPacket} :
    Archive.Known lib (before ++ [packet])
      ⟨packet, positionAt lib clock before packet⟩ := by
  intro position h
  have hfound : (trackPosition lib positionTimeoutNanos (clock before.length)
      (trackAll lib positionTimeoutNanos clock before) packet).1 = some position := h
  cases hr : report lib packet with
  | some vr =>
      obtain ⟨m, r⟩ := vr
      rw [trackPosition_of_report lib positionTimeoutNanos hr] at hfound
      obtain ⟨message, _, hmsg, -, rfl, -⟩ := (report_eq_some lib).mp hr
      exact ⟨message, packet, r, hmsg, List.mem_append_right _ (List.mem_singleton.mpr rfl), hr,
        Option.some.inj hfound⟩
  | none =>
      rw [trackPosition_of_no_report lib positionTimeoutNanos hr] at hfound
      obtain ⟨message, hmsg, hentry⟩ := Option.bind_eq_some_iff.mp hfound
      obtain ⟨r, hget, rfl⟩ := Option.map_eq_some_iff.mp hentry
      obtain ⟨e, he, rfl⟩ := Cache.exists_of_get hget
      obtain ⟨q, hq, hqr⟩ := (outlasts_of_trackAll lib positionTimeoutNanos clock he).exists_mem
      exact ⟨message, q, e.value, hmsg, List.mem_append_left _ hq, report_of_reportOf lib hqr, rfl⟩

/-- After the batch the tracker has seen its packets too. -/
theorem tracker_batch (clock clock' : ℕ → ℤ) (seen packets : List AisPacket) :
    (assembleStatements lib clock' ⟨trackAll lib positionTimeoutNanos clock seen, []⟩
      packets).tracker =
        trackAll lib positionTimeoutNanos (spliceClock seen.length clock clock')
          (seen ++ packets) := by
  rw [← tracker_assembleStatements, ← tracker_assembleStatements,
    assembleStatements_append lib clock clock' seen packets rfl]

/-- What a batch files: the packets that fit, at positions that their vessels
have reported. -/
theorem exists_filings (clock clock' : ℕ → ℤ) (seen packets : List AisPacket) :
    ∃ filings : List (Filing Pos),
      (assembleStatements lib clock' ⟨trackAll lib positionTimeoutNanos clock seen, []⟩
        packets).statements = (filings.flatMap fun f => insertsOf lib f.packet f.position) ∧
      filings.map Filing.packet = packets.filter (fun p => Fits lib p) ∧
      ∀ f ∈ filings, Archive.Known lib (seen ++ packets) f := by
  induction packets using List.reverseRecOn with
  | nil => exact ⟨[], rfl, rfl, nofun⟩
  | append_singleton packets packet ih =>
      obtain ⟨filings, hstatements, hpackets, hknown⟩ := ih
      have hlater : ∀ f ∈ filings, Archive.Known lib (seen ++ (packets ++ [packet])) f := by
        intro f hf position hposition
        obtain ⟨message, q, r, hmsg, hq, hreport⟩ := hknown f hf position hposition
        refine ⟨message, q, r, hmsg, ?_, hreport⟩
        rw [← List.append_assoc]
        exact List.mem_append_left _ hq
      let clock₁ := spliceClock seen.length clock clock'
      have hposition : (getPosition lib (clock' packets.length) (assembleStatements lib clock'
          ⟨trackAll lib positionTimeoutNanos clock seen, []⟩ packets).tracker packet).1 =
            positionAt lib clock₁ (seen ++ packets) packet := by
        have hreading : clock₁ (seen ++ packets).length = clock' packets.length := by
          simp [clock₁, spliceClock]
        rw [tracker_batch, positionAt, hreading]
      have hstep : (assembleStatements lib clock'
          ⟨trackAll lib positionTimeoutNanos clock seen, []⟩ (packets ++ [packet])).statements =
            (filings.flatMap fun f => insertsOf lib f.packet f.position) ++
              if Fits lib packet then
                insertsOf lib packet (positionAt lib clock₁ (seen ++ packets) packet)
              else [] := by
        rw [assembleStatements, runClocked_concat, tryHandleMessage_eq, ← hstatements, ← hposition]
        rfl
      by_cases hfits : Fits lib packet
      · refine ⟨filings ++ [⟨packet, positionAt lib clock₁ (seen ++ packets) packet⟩], ?_, ?_, ?_⟩
        · rw [hstep, if_pos hfits, List.flatMap_append]
          simp
        · simp [hpackets, hfits]
        · intro f hf
          rcases List.mem_append.mp hf with hf | hf
          · exact hlater f hf
          · rw [List.mem_singleton.mp hf, ← List.append_assoc]
            exact known_of_positionAt
      · exact ⟨filings, by rw [hstep, if_neg hfits, List.append_nil], by simp [hpackets, hfits],
          hlater⟩

/-- Every row that is filed lies in the block of its time, which is that of its packet. -/
theorem row_of_insertsOf {packet : AisPacket} (hfits : Fits lib packet) {position : Option Pos}
    {i : Insert} (h : i ∈ insertsOf lib packet position) :
    i.row.InBlock i.table ∧ lib.getBestTimestamp i.row.packet = i.row.time := by
  rcases (mem_insertsOf lib).mp h with ⟨h0, rfl⟩ | ⟨hm, rfl⟩ | ⟨⟨h0, hm⟩, rfl⟩
  · exact ⟨timeBlock_of_isInt (hfits.1 h0), rfl⟩
  · exact ⟨timeBlock_of_isInt (hfits.2 hm), rfl⟩
  · cases position with
    | none => exact ⟨@timeBlock_of_isInt .packetsAreaUnknown _ (hfits.2 hm), rfl⟩
    | some p => exact ⟨@timeBlock_of_isInt .packetsAreaCell1 _ (hfits.1 h0), rfl⟩

/-- What a query returns is an answer of the archive. -/
theorem answers_of_query (hcombine : CombineUnion combine) (hsorted : CombineSorted lib combine)
    {s : StoreService Pos} {a : Archive} (h : Refines lib s a) {session : Session}
    (hsession : session.ReturnsInOrder s.store) {fetchSize : ℤ} (hsize : 0 < fetchSize)
    {kind : QueryKind Area} (hkind : kind.Proper) {start stop : Instant} (hle : start ≤ stop)
    {packets : List AisPacket}
    (hquery : kind.query grid session combine fetchSize start stop = .ok packets) :
    a.Answers lib grid kind start stop packets := by
  have hblocks : s.store.InBlocks := Store.inBlocks_ofInserts fun i hi => (h.inserts i hi).1
  have htime : ∀ table, ∀ r ∈ (s.store table).rows, lib.getBestTimestamp r.packet = r.time := by
    intro table r hr
    have hmem : ⟨table, r⟩ ∈ s.cassandra := mem_rowsFor.mp (KeyedTable.mem_of_mem_ofInserts hr)
    exact (h.inserts _ hmem).2
  have hfits := fits_of_returns_query hkind hle ⟨packets, hquery⟩
  refine ⟨?_, ?_⟩
  · obtain ⟨packets', hquery', hperm⟩ :=
      query_perm hblocks hsession.evaluatesWhere hcombine hkind hsize hle hfits
    obtain rfl : packets = packets' := Except.ok.inj (hquery.symm.trans hquery')
    refine ⟨_, (s.store kind.table).rows_nodup.filter _, hperm, fun r => ?_⟩
    rw [List.mem_filter, decide_eq_true_eq, ← h.rows, KeyedTable.get_eq_some]
    simp only [and_true]
  · exact pairwise_of_query hblocks hsession hsorted htime hsize hquery

theorem storeService_simulates (hcombine : CombineUnion combine)
    (hsorted : CombineSorted lib combine) :
    Simulates (StoreService.Does lib grid combine) (Archive.Does lib grid) (Refines lib) := by
  intro s e s' a hrefines hdoes
  obtain ⟨hrows, ⟨clock, htracker⟩, hinserts⟩ := hrefines
  cases hdoes with
  | handleMessages clock' packets executed =>
      obtain ⟨filings, hstatements, hpackets, hknown⟩ :=
        @exists_filings Pos lib clock clock' a.seen packets
      have htracker' := @tracker_batch Pos lib clock clock' a.seen packets
      rw [← htracker] at hstatements htracker'
      cases executed with
      | false =>
          exact ⟨⟨a.rows, a.seen ++ packets⟩, ⟨hrows, ⟨_, htracker'⟩, hinserts⟩, .lose⟩
      | true =>
          refine ⟨_, ⟨fun table => ?_, ⟨_, htracker'⟩, fun i hi => ?_⟩,
            .file filings hpackets hknown⟩
          · rw [if_pos rfl, hstatements]
            have happend := get_ofInserts_append s.cassandra
              (filings.flatMap fun f => insertsOf lib f.packet f.position)
            have hbefore : (fun table => (Store.ofInserts s.cassandra table).get) = a.rows :=
              funext hrows
            rw [hbefore] at happend
            exact congrFun happend table
          · rw [if_pos rfl, hstatements] at hi
            rcases List.mem_append.mp hi with hi | hi
            · exact hinserts i hi
            · obtain ⟨f, hf, hif⟩ := List.mem_flatMap.mp hi
              have hmem : f.packet ∈ packets.filter fun p => Fits lib p :=
                hpackets ▸ List.mem_map_of_mem hf
              exact row_of_insertsOf (of_decide_eq_true (List.mem_filter.mp hmem).2) hif
  | query hsession hsize hkind hle hquery =>
      exact ⟨a, ⟨hrows, ⟨clock, htracker⟩, hinserts⟩, .answer
        (answers_of_query hcombine hsorted ⟨hrows, ⟨clock, htracker⟩, hinserts⟩ hsession hsize
          hkind hle hquery)⟩

end

/-- Whatever is written and lost, in batches of any size, and asked in
between, over sessions that give the rows as Cassandra does: what is observed
of the program is observed of an archive, which ends with the same rows. -/
theorem archive_refined {Pos Area : Type} {lib : AisLib Pos} {grid : Grid Area}
    {combine : List (List AisPacket) → List AisPacket} (hcombine : CombineUnion combine)
    (hsorted : CombineSorted lib combine) {es : List (Observation Area)} {s : StoreService Pos}
    (h : Runs (StoreService.Does lib grid combine) .start es s) :
    ∃ a, Runs (Archive.Does lib grid) .empty es a ∧
      ∀ table r, r ∈ (s.store table).rows ↔ a.rows table r.primaryKey = some r := by
  obtain ⟨a, hrefines, hruns⟩ := h.simulated (storeService_simulates hcombine hsorted) refines_start
  refine ⟨a, hruns, fun table r => ?_⟩
  rw [← hrefines.rows, KeyedTable.get_eq_some, and_iff_left rfl]

/-- A batch is written, one is lost, and everything is asked for. -/
theorem archive_refined_tenPast :
    ∃ a, Runs (Archive.Does (.ofDecoded tenPast) noCells) .empty
        [.write [.fromString "!AIVDM,1,1,,A,13"] true,
          .write [.fromString "!AIVDM,1,1,,A,55"] false,
          .answer .forTime (.ofEpochMilli ⟨599999, by decide⟩) (.ofEpochMilli ⟨600001, by decide⟩)
            [.fromString "!AIVDM,1,1,,A,13"]] a := by
  have hwritten : Runs (StoreService.Does (.ofDecoded tenPast) noCells
      (combineByTime (.ofDecoded tenPast))) .start
        ([] ++ [.write [.fromString "!AIVDM,1,1,,A,13"] true]) _ :=
    Runs.start.next (.handleMessages (fun _ => 0) [.fromString "!AIVDM,1,1,,A,13"] true)
  have hlost := hwritten.next (.handleMessages (fun _ => 0) [.fromString "!AIVDM,1,1,,A,55"] false)
  have hquery : QueryKind.forTime.query noCells (.ofStore tenPastStore)
      (combineByTime (.ofDecoded tenPast)) 1 (.ofEpochMilli ⟨599999, by decide⟩)
        (.ofEpochMilli ⟨600001, by decide⟩) = .ok [.fromString "!AIVDM,1,1,,A,13"] := rfl
  have hkind : (QueryKind.forTime : QueryKind Unit).Proper := trivial
  have hasked := hlost.next (.query (Session.returnsInOrder_ofStore tenPastStore) Int.one_pos
    hkind (Instant.ofEpochMilli_le (by decide)) hquery)
  obtain ⟨a, hruns, -⟩ := archive_refined (combineUnion_combineByTime _)
    (combineSorted_combineByTime _) hasked
  exact ⟨a, hruns⟩

end AisStore
