import AisStore.QueryBuilder

/-!
The iterator, call by call.

A query moves rows from its result into its buffer a batch at a time and,
when it goes through the blocks of the time table, moves `currentRow` to the
block of the last row of each batch, in whatever order the rows come. That
stops it early only if `currentRow` passes `lastRow`, and it cannot: every
row of the interval lies in a block up to that of the last millisecond. So
each call returns the next row, and only the call after the last row ends.
-/

namespace AisStore

open Lib

namespace AisStoreQuery

/-- Calls of `computeNext` on `q` have returned `returned` and left `q'`. -/
inductive Calls (q : AisStoreQuery) : List AisPacket → AisStoreQuery → Prop where
  | start : Calls q [] q
  | next {returned : List AisPacket} {q' : AisStoreQuery} (h : Calls q returned q')
      {packet : AisPacket} {q'' : AisStoreQuery}
      (hcall : q'.computeNext = .ok (some packet, q'')) : Calls q (returned ++ [packet]) q''

theorem Follows.trans {q'' q' q : AisStoreQuery} (h : q''.Follows q') (h' : q'.Follows q) :
    q''.Follows q :=
  ⟨h.lastRow.trans h'.lastRow, fun hle => h.currentRow (h'.currentRow hle),
    h.total.trans h'.total⟩

/-- What has been returned and what is pending is, at every point, what was
pending at first. -/
theorem Calls.pending_eq {q : AisStoreQuery} (hlive : q.Live) {returned : List AisPacket}
    {q' : AisStoreQuery} (h : Calls q returned q') :
    q.pending = returned ++ q'.pending ∧ q'.Live ∧ q'.Follows q := by
  induction h with
  | start => exact ⟨rfl, hlive, ⟨rfl, id, rfl⟩⟩
  | @next returned q' h packet q'' hcall ih =>
    obtain ⟨hpending, hlive', hfollows⟩ := ih
    cases hrest : q'.pending with
    | nil =>
      -- with nothing pending the call would have ended
      obtain ⟨q₀, hend, -⟩ := computeNext_nil hlive' hrest
      rw [hend] at hcall
      cases hcall
    | cons p ps =>
      obtain ⟨q₀, hnext, hps, hlive'', hfollows'⟩ := computeNext_cons hlive' hrest
      rw [hnext] at hcall
      cases hcall
      refine ⟨?_, hlive'', hfollows'.trans hfollows⟩
      rw [hpending, hrest, hps, List.append_assoc]
      rfl

end AisStoreQuery

/-- Every query a builder makes returns the packets of the rows its session
delivers within the interval, each once and in the order of delivery,
whatever that order and however the rows are split into pages. Each call
returns, `currentRow` is not beyond `lastRow` before it, and the one that
ends comes after the last row. -/
theorem computeNext_exact {Area : Type} {b : AisStoreQueryBuilder Area} {grid : Grid Area}
    {session : Session} {queries : List AisStoreQuery} (hlimit : 1 ≤ b.batchLimit)
    (hexecute : b.execute grid session = .ok queries) {start stop : Instant}
    (hinterval : b.interval = some (start, stop)) {q : AisStoreQuery} (hq : q ∈ queries)
    (hrows : ∀ row ∈ q.rs.rows, start.millis < row.time.1 ∧ row.time.1 < stop.millis) :
    q.drained = .ok (q.rs.rows.map ResultRow.packet) ∧
      ∀ returned q', AisStoreQuery.Calls q returned q' →
        (start.millis < stop.millis → q'.currentRow ≤ q'.lastRow) ∧
        ∃ next q'', q'.computeNext = .ok (next, q'') ∧
          match next with
          | some packet => q'.currentRow ≤ q'.lastRow ∧
              ∃ rest, q.rs.rows.map ResultRow.packet = returned ++ packet :: rest
          | none => returned = q.rs.rows.map ResultRow.packet ∧
              q''.retrievedPackets = q.rs.rows.length := by
  obtain ⟨table, rowName, rowStart, rowStop, start', stop', hinterval', -, hkeys, hcreate⟩ :=
    AisStoreQueryBuilder.mem_execute hexecute hq
  cases hinterval.symm.trans hinterval'
  obtain ⟨hlive, hpackets, hretrieved, hcurrent⟩ :=
    AisStoreQuery.live_of_create (by omega) hkeys hcreate hrows
  have hpending : q.pending = q.rs.rows.map ResultRow.packet := by
    rw [AisStoreQuery.pending, hpackets, List.nil_append]
  refine ⟨?_, ?_⟩
  · rw [AisStoreQuery.drained_eq hlive, hpending]
  · intro returned q' hcalls
    obtain ⟨hsplit, hlive', hfollows⟩ := hcalls.pending_eq hlive
    rw [hpending] at hsplit
    refine ⟨fun hlt => hfollows.currentRow (hcurrent hlt), ?_⟩
    cases hrest : q'.pending with
    | nil =>
      obtain ⟨q'', hend, hcount⟩ := AisStoreQuery.computeNext_nil hlive' hrest
      refine ⟨none, q'', hend, ?_, ?_⟩
      · rw [hsplit, hrest, List.append_nil]
      · have hdone : q'.rs.rows = [] :=
          List.map_eq_nil_iff.mp (List.append_eq_nil_iff.mp hrest).2
        have htotal := hfollows.total
        rw [hdone, hretrieved, List.length_nil] at htotal
        omega
    | cons packet rest =>
      obtain ⟨q'', hnext, -⟩ := AisStoreQuery.computeNext_cons hlive' hrest
      rw [hrest] at hsplit
      refine ⟨some packet, q'', hnext, hfollows.currentRow (hcurrent ?_), rest, hsplit⟩
      -- there is a row, and it lies within the interval
      have hne : q.rs.rows ≠ [] := by
        intro hnil
        rw [hnil] at hsplit
        simp at hsplit
      obtain ⟨row, hmem⟩ := List.exists_mem_of_ne_nil _ hne
      have hrow := hrows row hmem
      omega

/-- Two rows of the time table, the later one first, with an empty page
between them. -/
def backwards : Session := fun _ =>
  ⟨[⟨toLong 1300000, "!AIVDM,1,1,,A,13"⟩], [[], [⟨toLong 700000, "!AIVDM,1,1,,A,55"⟩]]⟩

theorem computeNext_exact_backwards :
    let b := (AisStoreQueryBuilder.forTime.setInterval (.ofEpochMilli (toLong 600000))
      (.ofEpochMilli (toLong 1800001))).setFetchSize 1
    ∃ q, b.execute noCells backwards = .ok [q] ∧
      q.drained = .ok [⟨"!AIVDM,1,1,,A,13"⟩, ⟨"!AIVDM,1,1,,A,55"⟩] := by
  intro b
  obtain ⟨q, hexecute, hrs⟩ : ∃ q, b.execute noCells backwards = .ok [q] ∧
      q.rs.rows = [⟨toLong 1300000, "!AIVDM,1,1,,A,13"⟩, ⟨toLong 700000, "!AIVDM,1,1,,A,55"⟩] :=
    ⟨_, rfl, rfl⟩
  have hrows : ∀ row ∈ q.rs.rows, (Instant.ofEpochMilli (toLong 600000)).millis < row.time.1 ∧
      row.time.1 < (Instant.ofEpochMilli (toLong 1800001)).millis := by
    rw [hrs]
    decide
  have hexact := (computeNext_exact (le_refl 1) hexecute rfl (List.mem_singleton_self q) hrows).1
  rw [hrs] at hexact
  exact ⟨q, hexecute, hexact⟩

end AisStore
