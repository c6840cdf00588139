import AisStore.FileDiff
import AisStore.Reimport

/-!
A store repaired with `FileDiff` and `FileImport`.

What `FileDiff` prints is imported on top of what is stored, and the files
are looked up again. Whatever threads, batches and orders there are, the
second comparison prints nothing that is dated after the epoch
(`diff_repaired`): the first one has printed all that was missing from it,
each of these packets has got a row of its millisecond, and an insert takes
no key away. What is dated before the epoch is never in the table by time,
so it is printed again.
-/

namespace AisStore

open Lib

namespace FileDiff

variable {Pos : Type} {lib : AisLib Pos}

/-- What is looked up is all in the key. -/
theorem exists_sameMillisecond {inserts : List Insert} (p : AisPacket) :
    (∃ r ∈ (Store.ofInserts inserts .packetsTime).rows, SameMillisecond lib p r) ↔
      ∃ r ∈ rowsFor .packetsTime inserts, SameMillisecond lib p r :=
  @KeyedTable.exists_ofInserts _ _ _ Row.primaryKey _
    fun k => timeBlock .packetsTime (.ofEpochMilli (lib.getBestTimestamp p)) = .ok k.2.2.1 ∧
      k.2.2.2.1 = lib.getBestTimestamp p

/-- A packet that has a ten-minute block has the others. -/
theorem fits_of_returns_packetsTime {p : AisPacket}
    (h : Returns (timeBlock .packetsTime (.ofEpochMilli (lib.getBestTimestamp p)))) :
    Fits lib p := by
  have hint := returns_timeBlock.mp h
  exact ⟨fun _ => hint, fun _ => isInt_block_of_packetsTime hint⟩

/-- The rows that an import of some packets adds, as a comparison sees them. -/
theorem exists_sameMillisecond_statementsOf (clock : ℕ → ℤ) {out : List AisPacket}
    {p : AisPacket} :
    (∃ r ∈ rowsFor .packetsTime (statementsOf lib clock out), SameMillisecond lib p r) ↔
      Returns (timeBlock .packetsTime (.ofEpochMilli (lib.getBestTimestamp p))) ∧
        (lib.getBestTimestamp p).1 > 0 ∧
          ∃ q ∈ out, lib.getBestTimestamp q = lib.getBestTimestamp p := by
  constructor
  · rintro ⟨r, hr, hblock, htime⟩
    obtain ⟨q, hq, hown⟩ := (mem_statementsOf_own lib (.inl rfl) clock).mp hr
    rcases (mem_ownRows lib).mp hown with ⟨hfits, ⟨-, hpos, rfl⟩ | ⟨h, -⟩⟩
    · have htime : lib.getBestTimestamp q = lib.getBestTimestamp p := htime
      exact ⟨⟨_, hblock⟩, htime ▸ hpos, q, hq, htime⟩
    · cases h
  · rintro ⟨hreturns, hpos, q, hq, htime⟩
    rw [← htime] at hreturns hpos
    have hfits := fits_of_returns_packetsTime hreturns
    refine ⟨rowOf lib .packetsTime none none q, ?_, ?_, htime⟩
    · refine (mem_statementsOf_own lib (.inl rfl) clock).mpr ⟨q, hq, ?_⟩
      exact (mem_ownRows lib).mpr ⟨hfits, .inl ⟨rfl, hpos, rfl⟩⟩
    · rw [← htime]
      exact timeBlock_of_isInt (hfits.1 hpos)

/-- What a comparison that has come to its end has printed. -/
theorem printed_perm {session : Session} {files : List AisPacket} {s : FileDiff}
    (h : ReachedBy (step lib session .packetsTime) (fun _ _ => True) (start files) s)
    (hended : s.Ended) : s.printed.Perm (files.filter (missing lib session .packetsTime)) := by
  have htallied : Tallied lib session .packetsTime files s :=
    h.invariant tallied_start fun _ _ _ _ hstep hs => hs.step hstep
  exact (htallied.ended hended).1

theorem missing_iff_inserts {session : Session} {inserts : List Insert}
    (hsession : session.EvaluatesWhere (Store.ofInserts inserts)) (p : AisPacket) :
    missing lib session .packetsTime p = true ↔
      Returns (timeBlock .packetsTime (.ofEpochMilli (lib.getBestTimestamp p))) ∧
        ¬ ∃ r ∈ rowsFor .packetsTime inserts, SameMillisecond lib p r := by
  rw [missing_iff hsession, ← exists_sameMillisecond]
  simp only [not_exists, not_and]

/-- What is missing after an import of what was missing before. -/
theorem missing_imported {inserts : List Insert} {session session' : Session} {clock : ℕ → ℤ}
    {out : List AisPacket} (hsession : session.EvaluatesWhere (Store.ofInserts inserts))
    (hsession' : session'.EvaluatesWhere (Store.ofInserts (inserts ++ statementsOf lib clock out)))
    {p : AisPacket} (hout : missing lib session .packetsTime p = true → p ∈ out) :
    missing lib session' .packetsTime p = true ↔
      missing lib session .packetsTime p = true ∧ (lib.getBestTimestamp p).1 ≤ 0 := by
  have hmore : (∃ r ∈ rowsFor .packetsTime (inserts ++ statementsOf lib clock out),
      SameMillisecond lib p r) ↔
        (∃ r ∈ rowsFor .packetsTime inserts, SameMillisecond lib p r) ∨
          ∃ r ∈ rowsFor .packetsTime (statementsOf lib clock out), SameMillisecond lib p r := by
    rw [rowsFor_append]
    simp only [List.mem_append, or_and_right, exists_or]
  rw [missing_iff_inserts hsession', hmore, exists_sameMillisecond_statementsOf]
  constructor
  · rintro ⟨hreturns, hnone⟩
    rw [not_or] at hnone
    have hmissing := (missing_iff_inserts hsession p).mpr ⟨hreturns, hnone.1⟩
    refine ⟨hmissing, ?_⟩
    by_contra hpos
    exact hnone.2 ⟨hreturns, by omega, p, hout hmissing, rfl⟩
  · rintro ⟨hmissing, hpast⟩
    obtain ⟨hreturns, hnone⟩ := (missing_iff_inserts hsession p).mp hmissing
    refine ⟨hreturns, ?_⟩
    rintro (hfound | ⟨-, hpos, -⟩)
    · exact hnone hfound
    · omega

end FileDiff

/-- Files are compared with what is stored, what was printed is imported on
top of it, and the files are compared again: what is printed then is what
was printed before of what is not dated after the epoch. -/
theorem diff_repaired {Pos : Type} {cfg : FileImportConfig Pos} {inserts : List Insert}
    {session : Session} (hsession : session.EvaluatesWhere (Store.ofInserts inserts))
    {files : List AisPacket} {first : FileDiff}
    (hfirst : ReachedBy (FileDiff.step cfg.lib session .packetsTime) (fun _ _ => True)
      (FileDiff.start files) first) (hended : first.Ended) {s : FileImport Pos}
    (himport : ReachedBy (FileImport.step cfg) FileImport.Undisturbed
      (FileImport.start first.printed) s)
    (hfinished : s.reader = .finished) (hqueue : s.mainQueue = []) (hbatch : s.batch = [])
    {session' : Session}
    (hsession' : session'.EvaluatesWhere (Store.ofInserts (inserts ++ s.cassandra)))
    {second : FileDiff}
    (hsecond : ReachedBy (FileDiff.step cfg.lib session' .packetsTime) (fun _ _ => True)
      (FileDiff.start files) second) (hended' : second.Ended) :
    second.printed.Perm (first.printed.filter fun p => (cfg.lib.getBestTimestamp p).1 ≤ 0) := by
  have hprinted := FileDiff.printed_perm hfirst hended
  obtain ⟨readings, hpass⟩ := onePass_of_reachedBy himport
  have hclock := hpass.pass
  rw [hpass.handled_eq hfinished hqueue hbatch] at hclock
  have hstatements :
      s.cassandra = statementsOf cfg.lib (readings.getD · 0) first.printed := by
    rw [statementsOf, hclock]
  rw [hstatements] at hsession'
  refine (FileDiff.printed_perm hsecond hended').trans ?_
  refine List.Perm.trans ?_ (hprinted.filter _).symm
  rw [List.filter_filter, List.filter_congr]
  intro p hp
  rw [Bool.eq_iff_iff, Bool.and_eq_true, decide_eq_true_iff, and_comm]
  refine FileDiff.missing_imported hsession hsession' ?_
  intro hmissing
  exact hprinted.mem_iff.mpr (List.mem_filter.mpr ⟨hp, hmissing⟩)

/-- The position report, stored. -/
def positionInsert : Insert :=
  ⟨.packetsTime, ⟨none, none, 1, toLong 600000, [1], positionReport.stringMessage⟩⟩

/-- Of two packets one is stored. The other is printed and imported, and then
nothing is printed. -/
theorem diff_repaired_otherSecond :
    let files := [positionReport.packet, staticReport.packet]
    ∃ (first second : FileDiff) (s : FileImport ℤ), first.printed = [staticReport.packet] ∧
      ReachedBy (FileDiff.step directoryImport.lib
        (.ofStore (Store.ofInserts ([positionInsert] ++ s.cassandra))) .packetsTime)
        (fun _ _ => True) (FileDiff.start files) second ∧ second.Ended ∧
      second.printed.Perm [] := by
  intro files
  -- the comparison before
  have hsession :=
    (Session.returnsInOrder_ofStore (Store.ofInserts [positionInsert])).evaluatesWhere
  obtain ⟨first, hfirst⟩ : ∃ first : FileDiff, first = ⟨[],
      [⟨positionReport.packet, .finished true⟩, ⟨staticReport.packet, .finished false⟩], 2, 1, 1,
      [staticReport.packet]⟩ := ⟨_, rfl⟩
  have hrun : [.accept, .accept, .run 1, .run 0, .run 1, .run 0, .run 0, .run 1, .run 1].foldlM
      (FileDiff.step directoryImport.lib (.ofStore (Store.ofInserts [positionInsert]))
        .packetsTime) (FileDiff.start files) = some first := by
    rw [hfirst]
    decide +kernel
  have hended : first.Ended := by
    rw [hfirst]
    simp [FileDiff.Ended]
  have hprinted : first.printed = [staticReport.packet] := by rw [hfirst]
  -- the import
  have hstart : ReachedBy (FileImport.step directoryImport) FileImport.Undisturbed
      (FileImport.start first.printed) (FileImport.start [staticReport.packet]) := by
    rw [hprinted]
    exact .start
  have hoffered := (hstart.next .read trivial rfl).next .offer trivial rfl
  have hgate := (hoffered.next .incrementAndGet trivial rfl).next .gate trivial rfl
  have hwritten := (hgate.next (.takeBatch 1) trivial rfl).next
    (.handleMessages (fun _ => 0) .success) rfl rfl
  obtain ⟨s, himport, hfinished, hqueue, hbatch, hcassandra⟩ : ∃ s : FileImport ℤ,
      ReachedBy (FileImport.step directoryImport) FileImport.Undisturbed
        (FileImport.start first.printed) s ∧
      s.reader = .finished ∧ s.mainQueue = [] ∧ s.batch = [] ∧
      s.cassandra = statementsOf directoryImport.lib (fun _ => 0) [staticReport.packet] :=
    ⟨_, (hwritten.next (.sleep true) (.inl rfl) rfl).next .read trivial rfl, rfl, rfl, rfl, rfl⟩
  -- the comparison after
  have hsession' := (Session.returnsInOrder_ofStore
    (Store.ofInserts ([positionInsert] ++ s.cassandra))).evaluatesWhere
  obtain ⟨second, hsecond⟩ : ∃ second : FileDiff, second = ⟨[],
      [⟨positionReport.packet, .finished true⟩, ⟨staticReport.packet, .finished true⟩], 2, 2, 0,
      []⟩ := ⟨_, rfl⟩
  have hrun' : [.accept, .run 0, .run 0, .run 0, .accept, .run 1, .run 1, .run 1].foldlM
      (FileDiff.step directoryImport.lib
        (.ofStore (Store.ofInserts ([positionInsert] ++ s.cassandra))) .packetsTime)
      (FileDiff.start files) = some second := by
    rw [hsecond, hcassandra]
    decide +kernel
  have hended' : second.Ended := by
    rw [hsecond]
    simp [FileDiff.Ended]
  have hreached := ReachedBy.start.steps (fun _ _ _ => trivial) hrun'
  have hrepaired := diff_repaired hsession
    (ReachedBy.start.steps (fun _ _ _ => trivial) hrun) hended himport hfinished hqueue hbatch
    hsession' hreached hended'
  rw [hprinted] at hrepaired
  exact ⟨first, second, s, hprinted, hreached, hended', hrepaired⟩

end AisStore
