import AisStore.FileImport
import AisStore.Interval

/-!
`FileExport`, and a store that is restored from an export.

What the tables by time and by vessel hold of a packet depends on the packet
alone (`ownRows`), unlike what the area tables hold, for which it matters
where the vessel was. So when what was exported of one store is imported
into an empty one, these rows come back, each the same in every column, and
with them no other row of the table that was asked (`reimport_exact`): in
whatever order the packets were written, however often, and also where two
different packets have the same digest.
-/

namespace AisStore

open Lib

/-! ### `FileExport` -/

/-- `org.joda.time.Interval`, which does not end before it starts. -/
structure Interval where
  startMillis : Long
  endMillis : Long
  le : startMillis.1 ≤ endMillis.1

/-- The library functions that read the options. -/
structure ExportLib (Area : Type) where
  /-- `DateTimeUtil.toInterval`. -/
  toInterval : Option String → Except Failure Interval
  /-- `BoundingBox.create` of the two corners, each number by `Double.parseDouble`. -/
  createBoundingBox : List String → Except Failure Area
  /-- `AisPacketFilters.parseExpressionFilter`. -/
  parseExpressionFilter : String → Except Failure (AisPacket → Bool)

/-- The options. -/
structure FileExport where
  filter : Option String := none
  interval : Option String := none
  mmsis : List ℤ := []
  area : Option String := none
  fetchSize : ℤ := 3000

/-- `s.split(",")`, which leaves out the empty strings at the end. -/
def splitAtCommas (s : String) : List String :=
  if ',' ∈ s.toList then
    ((s.toList.splitOn ',').map String.ofList).reverse.dropWhile (· = "") |>.reverse
  else [s]

namespace FileExport

variable {Area : Type} (lib : ExportLib Area) (e : FileExport)

/-- The box, or null for anything but four parts. -/
def findBoundingBox (s : String) : Except Failure (Option Area) := do
  let arr := splitAtCommas s
  if arr.length ≠ 4 then return none
  return some (← lib.createBoundingBox arr)

/-- What is asked for: vessels before an area, and that before everything. -/
def kind : Except Failure (QueryKind Area) :=
  if e.mmsis ≠ [] then .ok (.forMmsi e.mmsis)
  else match e.area with
    | some area => do
      let bbox ← findBoundingBox lib area
      return .forArea (← requireNonNull bbox)
    | none => .ok .forTime

/-- The condition of `Iterables.filter`. -/
def keeps : Except Failure (AisPacket → Bool) :=
  match e.filter with
  | some filter => lib.parseExpressionFilter filter
  | none => .ok fun _ => true

/-- What `run` gives to the sink. -/
def run (grid : Grid Area) (session : Session)
    (combine : List (List AisPacket) → List AisPacket) : Except Failure (List AisPacket) := do
  let kind ← e.kind lib
  let interval ← lib.toInterval e.interval
  let b ← kind.builder
  let b := (b.setFetchSize e.fetchSize).setInterval (.ofEpochMilli interval.startMillis)
    (.ofEpochMilli interval.endMillis)
  let queries ← b.execute grid session
  let keeps ← e.keeps lib
  let iterableResult ← AisStoreQueryResult.drained combine queries
  return iterableResult.filter keeps

end FileExport

/-! ### Rows that depend on the packet alone -/

section
variable {Pos : Type} (lib : AisLib Pos)

/-- The rows of a packet in the tables by time and by vessel. -/
def ownRows (table : Table) (packet : AisPacket) : List Row :=
  if Fits lib packet then
    match table with
    | .packetsTime =>
      if (lib.getBestTimestamp packet).1 > 0 then [rowOf lib table none none packet] else []
    | .packetsMmsi =>
      if mmsiOf lib packet > 0 then [rowOf lib table none (some (mmsiOf lib packet)) packet]
      else []
    | _ => []
  else []

variable {table : Table}

theorem mem_ownRows {packet : AisPacket} {r : Row} :
    r ∈ ownRows lib table packet ↔ Fits lib packet ∧
      ((table = .packetsTime ∧ (lib.getBestTimestamp packet).1 > 0 ∧
          r = rowOf lib table none none packet) ∨
        (table = .packetsMmsi ∧ mmsiOf lib packet > 0 ∧
          r = rowOf lib table none (some (mmsiOf lib packet)) packet)) := by
  by_cases hfits : Fits lib packet
  · cases table <;> simp [ownRows, hfits]
  · simp [ownRows, hfits]

theorem packet_of_ownRows {packet : AisPacket} {r : Row} (h : r ∈ ownRows lib table packet) :
    r.packet = packet := by
  rcases (mem_ownRows lib).mp h with ⟨-, ⟨-, -, rfl⟩ | ⟨-, -, rfl⟩⟩ <;> rfl

theorem digest_of_ownRows {packet : AisPacket} {r : Row} (h : r ∈ ownRows lib table packet) :
    r.digest = digest lib packet := by
  rcases (mem_ownRows lib).mp h with ⟨-, ⟨-, -, rfl⟩ | ⟨-, -, rfl⟩⟩ <;> rfl

theorem ownRows_unique {packet : AisPacket} {r r' : Row} (h : r ∈ ownRows lib table packet)
    (h' : r' ∈ ownRows lib table packet) : r = r' := by
  rcases (mem_ownRows lib).mp h with ⟨-, ⟨rfl, -, rfl⟩ | ⟨rfl, -, rfl⟩⟩ <;>
    rcases (mem_ownRows lib).mp h' with ⟨-, ⟨h, -, rfl⟩ | ⟨h, -, rfl⟩⟩ <;> first | rfl | cases h

/-- What a packet contributes to one of these tables does not depend on the
position it is filed at. -/
theorem mem_insertsOf_own (htable : table = .packetsTime ∨ table = .packetsMmsi)
    {packet : AisPacket} {position : Option Pos} {r : Row} :
    (Fits lib packet ∧ ⟨table, r⟩ ∈ insertsOf lib packet position) ↔
      r ∈ ownRows lib table packet := by
  have harea : (areaInsert lib packet position).table ≠ table := by
    rcases htable with rfl | rfl <;> cases position <;> exact nofun
  have hnot : ¬ (⟨table, r⟩ : Insert) = areaInsert lib packet position :=
    fun h => harea (congrArg Insert.table h).symm
  rw [mem_ownRows, mem_insertsOf]
  refine and_congr_right fun _ => ?_
  simp only [Insert.mk.injEq, hnot, and_false, or_false]
  rcases htable with rfl | rfl <;> simp

theorem mem_contributed_own (htable : table = .packetsTime ∨ table = .packetsMmsi) (clock : ℕ → ℤ)
    {before : List AisPacket} {packet : AisPacket} {r : Row} :
    ⟨table, r⟩ ∈ contributed lib clock before packet ↔ r ∈ ownRows lib table packet := by
  rw [contributed, List.mem_ite_nil_right, mem_insertsOf_own lib htable]

theorem mem_statementsOf_own (htable : table = .packetsTime ∨ table = .packetsMmsi) (clock : ℕ → ℤ)
    {packets : List AisPacket} {r : Row} :
    r ∈ rowsFor table (statementsOf lib clock packets) ↔
      ∃ packet ∈ packets, r ∈ ownRows lib table packet := by
  rw [mem_rowsFor, mem_statementsOf]
  constructor
  · rintro ⟨before, packet, after, rfl, h⟩
    exact ⟨packet, by simp, (mem_contributed_own lib htable clock).mp h⟩
  · rintro ⟨packet, hmem, h⟩
    obtain ⟨before, after, rfl⟩ := List.append_of_mem hmem
    exact ⟨before, packet, after, rfl, (mem_contributed_own lib htable clock).mpr h⟩

theorem mem_written_own (htable : table = .packetsTime ∨ table = .packetsMmsi) {clock : ℕ → ℤ}
    {packets : List AisPacket} {r : Row} (h : r ∈ (written lib clock packets table).rows) :
    r ∈ ownRows lib table r.packet := by
  obtain ⟨packet, -, hown⟩ :=
    (mem_statementsOf_own lib htable clock).mp (KeyedTable.mem_of_mem_ofInserts h)
  rwa [packet_of_ownRows lib hown]

/-- Some of the rows of a table, written again from their packets. -/
theorem mem_rewritten (htable : table = .packetsTime ∨ table = .packetsMmsi) {clock clock' : ℕ → ℤ}
    {packets out : List AisPacket} {P : Row → Prop}
    (hout : ∀ p, p ∈ out ↔ ∃ r ∈ (written lib clock packets table).rows, P r ∧ r.packet = p)
    {r : Row} :
    r ∈ (written lib clock' out table).rows ↔ r ∈ (written lib clock packets table).rows ∧ P r := by
  -- the rows sent are those rows: each packet has one, and that is where it came from
  have hsent : ∀ r, r ∈ rowsFor table (statementsOf lib clock' out) ↔
      r ∈ (written lib clock packets table).rows ∧ P r := by
    intro r
    rw [mem_statementsOf_own lib htable]
    constructor
    · rintro ⟨p, hp, hown⟩
      obtain ⟨r', hr', hP, rfl⟩ := (hout p).mp hp
      obtain rfl := ownRows_unique lib hown (mem_written_own lib htable hr')
      exact ⟨hr', hP⟩
    · rintro ⟨hr, hP⟩
      exact ⟨r.packet, (hout _).mpr ⟨r, hr, hP, rfl⟩, mem_written_own lib htable hr⟩
  rw [← hsent]
  refine KeyedTable.mem_ofInserts fun x hx y hy hkey => ?_
  exact List.inj_on_of_nodup_map (written lib clock packets table).nodup ((hsent x).mp hx).1
    ((hsent y).mp hy).1 hkey

end

/-- A run asks for its kind, and keeps what passes the filter. -/
theorem FileExport.run_eq_ok {Area : Type} {lib : ExportLib Area} {grid : Grid Area}
    {session : Session} {combine : List (List AisPacket) → List AisPacket} {e : FileExport}
    {kind : QueryKind Area} {interval : Interval} {keeps : AisPacket → Bool}
    (hkind : e.kind lib = .ok kind) (hinterval : lib.toInterval e.interval = .ok interval)
    (hkeeps : e.keeps lib = .ok keeps) {out : List AisPacket} :
    e.run lib grid session combine = .ok out ↔
      ∃ answer, kind.query grid session combine e.fetchSize (.ofEpochMilli interval.startMillis)
        (.ofEpochMilli interval.endMillis) = .ok answer ∧ answer.filter keeps = out := by
  have hrun : e.run lib grid session combine =
      (kind.query grid session combine e.fetchSize (.ofEpochMilli interval.startMillis)
        (.ofEpochMilli interval.endMillis) >>= fun answer => .ok (answer.filter keeps)) := by
    simp only [FileExport.run, hkind, hinterval, hkeeps, QueryKind.query, bind, Except.bind]
    cases kind.builder with
    | error f => rfl
    | ok b =>
        simp only [AisStoreQueryBuilder.setFetchSize, AisStoreQueryBuilder.setInterval]
        cases AisStoreQueryBuilder.execute _ grid session <;> rfl
  rw [hrun, bind_eq_ok]
  simp only [Except.ok.injEq]

theorem FileExport.table_of_kind {Area : Type} {lib : ExportLib Area} {e : FileExport}
    {kind : QueryKind Area} (hown : e.mmsis ≠ [] ∨ e.area = none) (hkind : e.kind lib = .ok kind) :
    kind.table = .packetsTime ∨ kind.table = .packetsMmsi := by
  rw [FileExport.kind] at hkind
  split_ifs at hkind with hmmsis
  · cases hkind
    exact .inr rfl
  · rw [hown.resolve_left hmmsis] at hkind
    cases hkind
    exact .inl rfl

/-- Vessels, or everything, exported from what one writer has stored and
imported into an empty store, in whatever batches: the table that was asked
holds the rows that were asked for and pass the filter, and no others. -/
theorem reimport_exact {Pos Area : Type} {cfg : FileImportConfig Pos} {exportLib : ExportLib Area}
    {grid : Grid Area} {session : Session} {combine : List (List AisPacket) → List AisPacket}
    {clock : ℕ → ℤ} {packets : List AisPacket}
    (hsession : session.EvaluatesWhere (written cfg.lib clock packets))
    (hcombine : CombineUnion combine) {e : FileExport} (hsize : 0 < e.fetchSize)
    (hown : e.mmsis ≠ [] ∨ e.area = none) {kind : QueryKind Area}
    (hkind : e.kind exportLib = .ok kind) (hproper : kind.Proper) {interval : Interval}
    (hinterval : exportLib.toInterval e.interval = .ok interval) {keeps : AisPacket → Bool}
    (hkeeps : e.keeps exportLib = .ok keeps) {out : List AisPacket}
    (hrun : e.run exportLib grid session combine = .ok out) {s : FileImport Pos}
    (himport : ReachedBy (FileImport.step cfg) FileImport.Undisturbed (FileImport.start out) s)
    (hfinished : s.reader = .finished) (hqueue : s.mainQueue = []) (hbatch : s.batch = [])
    (r : Row) :
    r ∈ (Store.ofInserts s.cassandra kind.table).rows ↔
      r ∈ (written cfg.lib clock packets kind.table).rows ∧ kind.Selects grid r ∧
        interval.startMillis.1 < r.time.1 ∧ r.time.1 < interval.endMillis.1 ∧
          keeps r.packet = true := by
  have htable := FileExport.table_of_kind hown hkind
  obtain ⟨answer, hquery, hout⟩ := (FileExport.run_eq_ok hkind hinterval hkeeps).mp hrun
  have hle := Instant.ofEpochMilli_le interval.le
  have hfits := fits_of_returns_query hproper hle ⟨answer, hquery⟩
  obtain ⟨answer', hquery', hperm⟩ := query_perm (written_inBlocks cfg.lib clock packets) hsession
    hcombine hproper hsize hle hfits
  obtain rfl : answer = answer' := Except.ok.inj (hquery.symm.trans hquery')
  -- what was exported are the packets of those rows
  have hexported : ∀ p, p ∈ out ↔ ∃ r ∈ (written cfg.lib clock packets kind.table).rows,
      (kind.Selects grid r ∧ interval.startMillis.1 < r.time.1 ∧
        r.time.1 < interval.endMillis.1 ∧ keeps r.packet = true) ∧ r.packet = p := by
    intro p
    rw [← hout, List.mem_filter, hperm.mem_iff]
    simp only [List.mem_map, List.mem_filter, Instant.ofEpochMilli_millis, decide_eq_true_eq]
    constructor
    · rintro ⟨⟨r, ⟨hr, hselects, hlow, hhigh⟩, rfl⟩, hkeep⟩
      exact ⟨r, hr, ⟨hselects, hlow, hhigh, hkeep⟩, rfl⟩
    · rintro ⟨r, hr, ⟨hselects, hlow, hhigh, hkeep⟩, rfl⟩
      exact ⟨⟨r, ⟨hr, hselects, hlow, hhigh⟩, rfl⟩, hkeep⟩
  obtain ⟨readings, hpass⟩ := onePass_of_reachedBy himport
  have hstore : Store.ofInserts s.cassandra = written cfg.lib (readings.getD · 0) out := by
    rw [← hpass.handled_eq hfinished hqueue hbatch, written, hpass.pass]
  rw [hstore]
  exact mem_rewritten cfg.lib htable hexported

/-- A library that knows one interval, of two seconds after ten past. -/
def twoSeconds : ExportLib Unit where
  toInterval := fun interval =>
    if interval = some "1970-01-01T00:10:00Z/1970-01-01T00:10:02Z" then
      .ok ⟨⟨600000, by decide⟩, ⟨602000, by decide⟩, by decide⟩
    else .error (.illegalArgument "Invalid format")
  createBoundingBox := fun _ => .ok ()
  parseExpressionFilter := fun _ => .ok fun _ => true

/-- Of two packets the later is exported and imported again. -/
theorem reimport_exact_twoSeconds :
    ∃ s : FileImport ℤ, ∀ r, r ∈ (Store.ofInserts s.cassandra .packetsTime).rows ↔
      r ∈ (written directoryImport.lib (fun _ => 0) [report13, report55] .packetsTime).rows ∧
        600000 < r.time.1 ∧ r.time.1 < 602000 := by
  let e : FileExport := { interval := some "1970-01-01T00:10:00Z/1970-01-01T00:10:02Z" }
  let session := Session.ofStore (written directoryImport.lib (fun _ => 0) [report13, report55])
  have hrun : e.run twoSeconds noCells session (combineByTime directoryImport.lib) =
      .ok [report55] := by decide
  have hsession :=
    (Session.returnsInOrder_ofStore (written directoryImport.lib (fun _ => 0)
      [report13, report55])).evaluatesWhere
  have hkind : e.kind twoSeconds = .ok .forTime := rfl
  have hstart : ReachedBy (FileImport.step directoryImport) FileImport.Undisturbed
      (FileImport.start [report55]) (FileImport.start [report55]) := .start
  have hoffered := (hstart.next .read trivial rfl).next .offer trivial rfl
  have hgate := (hoffered.next .incrementAndGet trivial rfl).next .gate trivial rfl
  have hwritten := (hgate.next (.takeBatch 1) trivial rfl).next
    (.handleMessages (fun _ => 0) .success) rfl rfl
  have hend := (hwritten.next (.sleep true) (.inl rfl) rfl).next .read trivial rfl
  have hexact := reimport_exact hsession (combineUnion_combineByTime _) (by decide) (.inr rfl)
    hkind trivial rfl rfl hrun hend rfl rfl rfl
  refine ⟨_, fun r => (hexact r).trans ⟨?_, ?_⟩⟩
  · rintro ⟨hr, -, hlow, hhigh, -⟩
    exact ⟨hr, hlow, hhigh⟩
  · rintro ⟨hr, hlow, hhigh⟩
    exact ⟨hr, trivial, hlow, hhigh, rfl⟩

end AisStore
