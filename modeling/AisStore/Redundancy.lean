import AisStore.Archive
import AisStore.PastTrack
import AisStore.Lib.Transition

/-!
Several writers at one store.

Archivers that hear the same stations, and imports next to them, write to
one keyspace, each with a tracker of its own, and any of them may be started
again with an empty one. Where a vessel was is then known to one and not to
the other, so that what the area tables hold depends on who wrote first. The
tables by time and by vessel do not: over any run they hold a packet once
that anyone has written, and a query returns these packets in the order of
time (`redundantWriters`).
-/

namespace AisStore

open Lib

/-- The writers, the statements that Cassandra has executed, and the packets
of the batches among them. -/
structure Writers (W Pos : Type) where
  trackers : W → Tracker Pos
  cassandra : List Insert
  persisted : List AisPacket

inductive WritersAction (W : Type) where
  /-- The process is started, once more perhaps. -/
  | restart (w : W)
  /-- A batch of a writer; one that fails may have been executed all the same. -/
  | handleMessages (w : W) (clock : ℕ → ℤ) (packets : List AisPacket) (executed : Bool)

namespace Writers

section
variable {W Pos : Type} [DecidableEq W] (lib : AisLib Pos)

def start : Writers W Pos := ⟨fun _ => Cache.empty, [], []⟩

def store (s : Writers W Pos) : Store := Store.ofInserts s.cassandra

def step (s : Writers W Pos) : WritersAction W → Option (Writers W Pos)
  | .restart w => some { s with trackers := Function.update s.trackers w Cache.empty }
  | .handleMessages w clock packets executed =>
    let after := assembleStatements lib clock ⟨s.trackers w, []⟩ packets
    some {
      trackers := Function.update s.trackers w after.tracker
      cassandra := if executed then s.cassandra ++ after.statements else s.cassandra
      persisted := if executed then s.persisted ++ packets else s.persisted }

end

section
variable {Pos : Type} {lib : AisLib Pos}

/-- A statement of a batch files one of its packets, at some position. -/
theorem mem_assembleStatements (clock : ℕ → ℤ) (tracker : Tracker Pos) {packets : List AisPacket}
    {i : Insert} :
    i ∈ (assembleStatements lib clock ⟨tracker, []⟩ packets).statements ↔
      ∃ before packet after, packets = before ++ packet :: after ∧ Fits lib packet ∧
        i ∈ insertsOf lib packet (getPosition lib (clock before.length)
          (assembleStatements lib clock ⟨tracker, []⟩ before).tracker packet).1 := by
  have hconcat : ∀ packets packet,
      (assembleStatements lib clock ⟨tracker, []⟩ (packets ++ [packet])).statements =
        (assembleStatements lib clock ⟨tracker, []⟩ packets).statements ++
          if Fits lib packet then insertsOf lib packet (getPosition lib (clock packets.length)
            (assembleStatements lib clock ⟨tracker, []⟩ packets).tracker packet).1 else [] := by
    intro packets packet
    simp only [assembleStatements, runClocked_concat, tryHandleMessage_eq]
  have hmem := @mem_iff_of_concat _ _
    (fun packets => (assembleStatements lib clock ⟨tracker, []⟩ packets).statements) _ rfl hconcat
    packets i
  simpa only [List.mem_ite_nil_right] using hmem

/-- The rows of a batch in one of the tables that do not know positions. -/
theorem mem_batch_own {table : Table} (htable : table = .packetsTime ∨ table = .packetsMmsi)
    (clock : ℕ → ℤ) (tracker : Tracker Pos) {packets : List AisPacket} {r : Row} :
    r ∈ rowsFor table (assembleStatements lib clock ⟨tracker, []⟩ packets).statements ↔
      ∃ packet ∈ packets, r ∈ ownRows lib table packet := by
  rw [mem_rowsFor, mem_assembleStatements]
  simp only [mem_insertsOf_own lib htable]
  constructor
  · rintro ⟨before, packet, after, rfl, h⟩
    exact ⟨packet, by simp, h⟩
  · rintro ⟨packet, hmem, h⟩
    obtain ⟨before, after, rfl⟩ := List.append_of_mem hmem
    exact ⟨before, packet, after, rfl, h⟩

/-- Every statement is in the block of its time, which is that of its packet. -/
theorem row_of_batch {clock : ℕ → ℤ} {tracker : Tracker Pos} {packets : List AisPacket}
    {i : Insert} (h : i ∈ (assembleStatements lib clock ⟨tracker, []⟩ packets).statements) :
    i.row.InBlock i.table ∧ lib.getBestTimestamp i.row.packet = i.row.time := by
  obtain ⟨before, packet, after, -, hfits, h⟩ := (mem_assembleStatements clock tracker).mp h
  exact row_of_insertsOf hfits h

/-- What is in the store is what the packets put there, whoever has written
them. -/
structure Holds {W : Type} (lib : AisLib Pos) (s : Writers W Pos) : Prop where
  rows : ∀ table, table = .packetsTime ∨ table = .packetsMmsi →
    ∀ r, r ∈ rowsFor table s.cassandra ↔ ∃ packet ∈ s.persisted, r ∈ ownRows lib table packet
  inserts : ∀ i ∈ s.cassandra,
    i.row.InBlock i.table ∧ lib.getBestTimestamp i.row.packet = i.row.time

theorem holds_start {W : Type} : Holds lib (start : Writers W Pos) where
  rows _ _ r := by simp [start, rowsFor]
  inserts _ hi := absurd hi List.not_mem_nil

theorem Holds.step {W : Type} [DecidableEq W] {s s' : Writers W Pos} (h : Holds lib s)
    {a : WritersAction W} (hstep : s.step lib a = some s') : Holds lib s' := by
  cases a with
  | restart w =>
      cases hstep
      exact ⟨h.rows, h.inserts⟩
  | handleMessages w clock packets executed =>
      cases hstep
      cases executed with
      | false => exact ⟨h.rows, h.inserts⟩
      | true =>
          constructor
          · intro table htable r
            simp only [if_true, rowsFor_append, List.mem_append, h.rows table htable,
              mem_batch_own htable, or_and_right, exists_or]
          · intro i hi
            rcases List.mem_append.mp hi with hi | hi
            · exact h.inserts i hi
            · exact row_of_batch hi

/-- The packet is in the table that a request is answered from, and asked for. -/
def Asked {Area : Type} (lib : AisLib Pos) (packet : AisPacket) : QueryKind Area → Prop
  | .forTime => Fits lib packet ∧ (lib.getBestTimestamp packet).1 > 0
  | .forMmsi mmsis => Fits lib packet ∧ mmsiOf lib packet > 0 ∧ mmsiOf lib packet ∈ mmsis
  | .forArea _ => False

instance {Area : Type} (packet : AisPacket) :
    (kind : QueryKind Area) → Decidable (Asked lib packet kind)
  | .forTime =>
      inferInstanceAs (Decidable (Fits lib packet ∧ (lib.getBestTimestamp packet).1 > 0))
  | .forMmsi mmsis =>
      inferInstanceAs (Decidable (Fits lib packet ∧ mmsiOf lib packet > 0 ∧
        mmsiOf lib packet ∈ mmsis))
  | .forArea _ => inferInstanceAs (Decidable False)

end

end Writers

/-- Whatever any number of writers have written in whatever order, some of it
again and some of it with failures, and however often they were restarted: a
request for everything or for some vessels gets each packet that was executed
for once, and in the order of time. -/
theorem redundantWriters {W Pos Area : Type} [DecidableEq W] {lib : AisLib Pos} {grid : Grid Area}
    {combine : List (List AisPacket) → List AisPacket} (hcombine : CombineUnion combine)
    (hsorted : CombineSorted lib combine) {s : Writers W Pos}
    (h : ReachedBy (Writers.step lib) (fun _ _ => True) .start s)
    (hdigest : ∀ p ∈ s.persisted, ∀ q ∈ s.persisted, digest lib p = digest lib q → p = q)
    {session : Session} (hsession : session.ReturnsInOrder s.store) {kind : QueryKind Area}
    (hkind : kind.Proper) (hown : kind.table = .packetsTime ∨ kind.table = .packetsMmsi)
    {fetchSize : ℤ} (hsize : 0 < fetchSize) {start stop : Instant} (hle : start ≤ stop)
    (hfits : kind.Fits grid start stop) :
    ∃ answer, kind.query grid session combine fetchSize start stop = .ok answer ∧
      answer.Perm (s.persisted.dedup.filter fun p => Writers.Asked lib p kind ∧
        start.millis < (lib.getBestTimestamp p).1 ∧ (lib.getBestTimestamp p).1 < stop.millis) ∧
      answer.Pairwise fun p q => (lib.getBestTimestamp p).1 ≤ (lib.getBestTimestamp q).1 := by
  have hholds : Writers.Holds lib s :=
    h.invariant Writers.holds_start fun _ _ _ _ hstep hs => hs.step hstep
  have hstore : s.store.InBlocks := Store.inBlocks_ofInserts fun i hi => (hholds.inserts i hi).1
  have htime : ∀ table, ∀ r ∈ (s.store table).rows, lib.getBestTimestamp r.packet = r.time := by
    intro table r hr
    have hmem : ⟨table, r⟩ ∈ s.cassandra := mem_rowsFor.mp (KeyedTable.mem_of_mem_ofInserts hr)
    exact (hholds.inserts _ hmem).2
  obtain ⟨answer, hquery, hperm⟩ :=
    query_perm hstore hsession.evaluatesWhere hcombine hkind hsize hle hfits
  refine ⟨answer, hquery, hperm.trans ?_,
    pairwise_of_query hstore hsession hsorted htime hsize hquery⟩
  refine packets_of_rows_perm lib (hholds.rows kind.table hown) hdigest fun p => ?_
  cases kind with
  | forTime =>
      constructor
      · rintro ⟨⟨hfits, hpos⟩, hbetween⟩
        have hrow := (mem_ownRows lib).mpr ⟨hfits, .inl ⟨rfl, hpos, rfl⟩⟩
        exact ⟨_, hrow, trivial, hbetween⟩
      · rintro ⟨r, hr, -, hbetween⟩
        rcases (mem_ownRows lib).mp hr with ⟨hfits, ⟨-, hpos, rfl⟩ | ⟨h, -⟩⟩
        · exact ⟨⟨hfits, hpos⟩, hbetween⟩
        · cases h
  | forMmsi mmsis =>
      constructor
      · rintro ⟨⟨hfits, hpos, hmmsi⟩, hbetween⟩
        have hrow := (mem_ownRows lib).mpr ⟨hfits, .inr ⟨rfl, hpos, rfl⟩⟩
        exact ⟨_, hrow, ⟨_, hmmsi, rfl⟩, hbetween⟩
      · rintro ⟨r, hr, ⟨m, hm, hselects⟩, hbetween⟩
        rcases (mem_ownRows lib).mp hr with ⟨hfits, ⟨h, -⟩ | ⟨-, hpos, rfl⟩⟩
        · cases h
        · exact ⟨⟨hfits, hpos, Option.some.inj hselects ▸ hm⟩, hbetween⟩
  | forArea area => rcases hown with h | h <;> cases h

/-- Two writers get the same packet, one of them after it was restarted. It is
returned once. -/
theorem redundantWriters_tenPast :
    let packet := AisPacket.fromString "!AIVDM,1,1,,A,13"
    ∃ s : Writers Bool ℤ, s.persisted = [packet, packet] ∧
      QueryKind.forTime.query noCells (.ofStore s.store) (combineByTime (.ofDecoded tenPast)) 1
        (.ofEpochMilli ⟨599999, by decide⟩) (.ofEpochMilli ⟨600001, by decide⟩) = .ok [packet] := by
  intro packet
  obtain ⟨s, hreached, hpersisted⟩ : ∃ s : Writers Bool ℤ,
      ReachedBy (Writers.step (.ofDecoded tenPast)) (fun _ _ => True) .start s ∧
        s.persisted = [packet, packet] := by
    have hstart : ReachedBy (Writers.step (AisLib.ofDecoded tenPast)) (fun _ _ => True) .start
        (Writers.start : Writers Bool ℤ) := .start
    have hfirst := hstart.next (.handleMessages true (fun _ => 0) [packet] true) trivial rfl
    have hrestart := hfirst.next (.restart false) trivial rfl
    exact ⟨_, hrestart.next (.handleMessages false (fun _ => 5) [packet] true) trivial rfl, rfl⟩
  have hkind : (QueryKind.forTime : QueryKind Unit).Proper := trivial
  have hfits : (QueryKind.forTime : QueryKind Unit).Fits noCells
      (.ofEpochMilli ⟨599999, by decide⟩) (.ofEpochMilli ⟨600001, by decide⟩) :=
    ⟨⟨by decide, by decide, by decide, by decide⟩, _, rfl, by decide⟩
  obtain ⟨answer, hquery, hperm, -⟩ := redundantWriters (combineUnion_combineByTime _)
    (combineSorted_combineByTime _) hreached (by rw [hpersisted]; decide)
    (Session.returnsInOrder_ofStore _) hkind (.inl rfl) Int.one_pos
    (Instant.ofEpochMilli_le (by decide)) hfits
  have hanswer : (s.persisted.dedup.filter fun p =>
      Writers.Asked (.ofDecoded tenPast) p (QueryKind.forTime : QueryKind Unit) ∧
        (Instant.ofEpochMilli ⟨599999, by decide⟩).millis <
          ((AisLib.ofDecoded tenPast).getBestTimestamp p).1 ∧
        ((AisLib.ofDecoded tenPast).getBestTimestamp p).1 <
          (Instant.ofEpochMilli ⟨600001, by decide⟩).millis) = [packet] := by
    rw [hpersisted]
    decide +kernel
  obtain rfl : answer = [packet] := List.perm_singleton.mp (hanswer ▸ hperm)
  exact ⟨s, hpersisted, hquery⟩

end AisStore
