import AisStore.Writer

/-!
Delivering packets again.

A batch that failed after it was applied, or an import that is repeated,
hands packets to the writer a second time. Rows are upserted by a key that
contains the digest of the message, so a packet that is stored the same way
twice is stored once. It is stored the same way in every table except where
its area is estimated: a packet without a position is filed by the best
report of its vessel so far, and by the time it comes again there may be a
better one. `redelivery_iff` says that this is the only thing that can go
wrong.
-/

namespace AisStore

open Lib

/-- `delivered` is `sent` with some of its packets delivered again, each
after it was delivered first. -/
inductive Redelivers : List AisPacket → List AisPacket → Prop where
  | nil : Redelivers [] []
  | deliver {sent delivered : List AisPacket} (packet : AisPacket)
      (h : Redelivers sent delivered) : Redelivers (sent ++ [packet]) (delivered ++ [packet])
  | again {sent delivered : List AisPacket} (packet : AisPacket) (hsent : packet ∈ sent)
      (h : Redelivers sent delivered) : Redelivers sent (delivered ++ [packet])

theorem Redelivers.mem_iff {sent delivered : List AisPacket} (h : Redelivers sent delivered)
    (packet : AisPacket) : packet ∈ delivered ↔ packet ∈ sent := by
  induction h with
  | nil => rfl
  | deliver p _ ih => simp [ih]
  | again p hsent _ ih =>
      simp only [List.mem_append, List.mem_singleton, ih]
      constructor
      · rintro (h | rfl)
        · exact h
        · exact hsent
      · exact .inl

section
variable {Pos : Type} (lib : AisLib Pos)

/-- Distinct packets of the list have distinct digests. -/
def DigestsDistinct (packets : List AisPacket) : Prop :=
  ∀ p ∈ packets, ∀ q ∈ packets, digest lib p = digest lib q → p = q

instance (packets : List AisPacket) : Decidable (DigestsDistinct lib packets) :=
  inferInstanceAs (Decidable (∀ p ∈ packets, ∀ q ∈ packets, _ → _))

/-- The one-degree cell of a position, if there is one. -/
def cellOf (position : Option Pos) : Option ℤ := position.map fun p => lib.getCellInt p 1

/-- The cell a packet is filed in at each of its deliveries, `none` for the
table of packets without one, judged by the reports delivered before. -/
def filedCells (packets : List AisPacket) (packet : AisPacket) : List (Option ℤ) :=
  (packets.zipIdx.filter fun x => x.1 = packet).map fun x =>
    cellOf lib (bestPosition lib (packets.take x.2) packet)

/-- The packet is stored by area, and carries no position of its own. -/
def Estimated (packet : AisPacket) : Prop :=
  Fits lib packet ∧ (lib.getBestTimestamp packet).1 > 0 ∧ mmsiOf lib packet > 0 ∧
    report lib packet = none

theorem mem_filedCells {packets : List AisPacket} {packet : AisPacket} {c : Option ℤ} :
    c ∈ filedCells lib packets packet ↔ ∃ before after, packets = before ++ packet :: after ∧
      cellOf lib (bestPosition lib before packet) = c := by
  simp only [filedCells, List.mem_map, List.mem_filter, decide_eq_true_eq, Prod.exists]
  constructor
  · rintro ⟨p, i, ⟨hmem, rfl⟩, rfl⟩
    obtain ⟨-, hi, hget⟩ := List.mem_zipIdx hmem
    refine ⟨packets.take i, packets.drop (i + 1), ?_, rfl⟩
    simp only [Nat.zero_add, Nat.sub_zero] at hi hget
    rw [hget, ← List.drop_eq_getElem_cons hi, List.take_append_drop]
  · rintro ⟨before, after, rfl, rfl⟩
    refine ⟨packet, before.length, ⟨?_, rfl⟩, by simp⟩
    rw [List.mk_mem_zipIdx_iff_getElem?]
    simp

/-! ### Rows and cells -/

/-- The statement for an area depends on the position through its cell. -/
theorem areaInsert_eq_iff {packet : AisPacket} {p q : Option Pos} :
    areaInsert lib packet p = areaInsert lib packet q ↔ cellOf lib p = cellOf lib q := by
  cases p <;> cases q <;> simp [areaInsert, cellOf, rowOf]

theorem bestPosition_of_report {packet : AisPacket} (h : report lib packet ≠ none)
    (before before' : List AisPacket) :
    bestPosition lib before packet = bestPosition lib before' packet := by
  obtain ⟨⟨m, r⟩, hr⟩ := Option.ne_none_iff_exists'.mp h
  simp [bestPosition, hr]

/-- The statements of an estimated packet depend on its position through its
cell, -/
theorem insertsOf_eq_iff_of_estimated {packet : AisPacket} (h : Estimated lib packet)
    {p q : Option Pos} :
    insertsOf lib packet p = insertsOf lib packet q ↔ cellOf lib p = cellOf lib q := by
  obtain ⟨-, h0, hm, -⟩ := h
  simp only [insertsOf, h0, hm, and_self, if_true, List.append_cancel_left_eq, List.cons.injEq,
    and_true]
  exact areaInsert_eq_iff lib

/-- and those of any other packet that can be stored do not depend on the
packets before it. -/
theorem insertsOf_bestPosition_congr {packet : AisPacket} (hfits : Fits lib packet)
    (h : ¬ Estimated lib packet) (before before' : List AisPacket) :
    insertsOf lib packet (bestPosition lib before packet) =
      insertsOf lib packet (bestPosition lib before' packet) := by
  by_cases hreport : report lib packet = none
  · have harea : ¬ ((lib.getBestTimestamp packet).1 > 0 ∧ mmsiOf lib packet > 0) :=
      fun hstored => h ⟨hfits, hstored.1, hstored.2, hreport⟩
    simp only [insertsOf, harea, if_false]
  · rw [bestPosition_of_report lib hreport before before']

/-- A row some delivery of the list produces. -/
def Produced (clock : ℕ → ℤ) (packets : List AisPacket) (i : Insert) : Prop :=
  ∃ before packet after, packets = before ++ packet :: after ∧
    i ∈ contributed lib clock before packet

/-- Where distinct packets have distinct digests, no row replaces another. -/
theorem mem_written_iff (clock : ℕ → ℤ) {packets : List AisPacket}
    (hdigests : DigestsDistinct lib packets) {table : Table} {r : Row} :
    r ∈ (written lib clock packets table).rows ↔ Produced lib clock packets ⟨table, r⟩ := by
  have hkey : ∀ x ∈ rowsFor table (statementsOf lib clock packets),
      ∀ y ∈ rowsFor table (statementsOf lib clock packets),
        x.primaryKey = y.primaryKey → x = y := by
    intro x hx y hy hxy
    obtain ⟨_, p, _, hp, hx⟩ := (mem_statementsOf lib clock).mp (mem_rowsFor.mp hx)
    obtain ⟨_, q, _, hq, hy⟩ := (mem_statementsOf lib clock).mp (mem_rowsFor.mp hy)
    obtain ⟨-, -, hpdigest, hpdata⟩ := row_of_contributed lib clock hx
    obtain ⟨-, -, hqdigest, hqdata⟩ := row_of_contributed lib clock hy
    simp only [Row.primaryKey, Prod.mk.injEq] at hxy
    obtain ⟨hcell, hmmsi, hblock, htime, hdigest⟩ := hxy
    have hpq : p = q := hdigests p (by simp [hp]) q (by simp [hq])
      (hpdigest.symm.trans (hdigest.trans hqdigest))
    have hdata : x.aisdata = y.aisdata := by
      rw [← hpq] at hqdata
      exact hpdata.trans hqdata.symm
    exact Row.ext hcell hmmsi hblock htime hdigest hdata
  rw [written, Store.ofInserts, KeyedTable.mem_ofInserts hkey, mem_rowsFor, mem_statementsOf]
  rfl

variable {clock clock' : ℕ → ℤ} {packets packets' : List AisPacket}

/-- In a run without expiry the statements of a packet are those of its best
position. -/
theorem contributed_of_noExpiry (hexpiry : NoExpiry lib positionTimeoutNanos clock packets)
    {before after : List AisPacket} {packet : AisPacket}
    (hsplit : packets = before ++ packet :: after) :
    contributed lib clock before packet =
      if Fits lib packet then insertsOf lib packet (bestPosition lib before packet) else [] := by
  rw [contributed, positionAt, getPosition,
    position_of_noExpiry _ _ _ (hexpiry.upTo _ _ _ hsplit)]

/-- A list with the packets and the filed cells of another produces its rows. -/
theorem Produced.mono (hexpiry : NoExpiry lib positionTimeoutNanos clock packets)
    (hexpiry' : NoExpiry lib positionTimeoutNanos clock' packets')
    (hmem : ∀ p ∈ packets, p ∈ packets')
    (hcells : ∀ p ∈ packets, Estimated lib p →
      ∀ c ∈ filedCells lib packets p, c ∈ filedCells lib packets' p)
    {i : Insert} (h : Produced lib clock packets i) : Produced lib clock' packets' i := by
  obtain ⟨before, packet, after, hsplit, hi⟩ := h
  have hpacket : packet ∈ packets := by simp [hsplit]
  rw [contributed_of_noExpiry lib hexpiry hsplit] at hi
  by_cases hest : Estimated lib packet
  · -- some delivery in the other list files the packet in the same cell
    have hc : cellOf lib (bestPosition lib before packet) ∈ filedCells lib packets packet :=
      (mem_filedCells lib).mpr ⟨before, after, hsplit, rfl⟩
    obtain ⟨before', after', hsplit', hcell⟩ :=
      (mem_filedCells lib).mp (hcells packet hpacket hest _ hc)
    refine ⟨before', packet, after', hsplit', ?_⟩
    rw [contributed_of_noExpiry lib hexpiry' hsplit']
    rw [if_pos hest.1] at hi ⊢
    rwa [(insertsOf_eq_iff_of_estimated lib hest).mpr hcell]
  · -- any delivery will do
    obtain ⟨before', after', hsplit'⟩ := List.append_of_mem (hmem packet hpacket)
    refine ⟨before', packet, after', hsplit', ?_⟩
    rw [contributed_of_noExpiry lib hexpiry' hsplit']
    by_cases hfits : Fits lib packet
    · rw [if_pos hfits] at hi ⊢
      rwa [insertsOf_bestPosition_congr lib hfits hest before' before]
    · rw [if_neg hfits] at hi
      cases hi

/-- The rows a list produces show the cells its packets are filed in. -/
theorem filedCells_subset (hdigests : ∀ p ∈ packets, ∀ q ∈ packets',
      digest lib p = digest lib q → p = q)
    (hexpiry : NoExpiry lib positionTimeoutNanos clock packets)
    (hexpiry' : NoExpiry lib positionTimeoutNanos clock' packets')
    (h : ∀ i, Produced lib clock packets i → Produced lib clock' packets' i) {packet : AisPacket}
    (hest : Estimated lib packet) {c : Option ℤ} (hc : c ∈ filedCells lib packets packet) :
    c ∈ filedCells lib packets' packet := by
  obtain ⟨before, after, hsplit, rfl⟩ := (mem_filedCells lib).mp hc
  obtain ⟨hfits, h0, hm, -⟩ := hest
  have hproduced : Produced lib clock packets
      (areaInsert lib packet (bestPosition lib before packet)) := by
    refine ⟨before, packet, after, hsplit, ?_⟩
    rw [contributed_of_noExpiry lib hexpiry hsplit, if_pos hfits, mem_insertsOf]
    exact .inr (.inr ⟨⟨h0, hm⟩, rfl⟩)
  obtain ⟨before', packet', after', hsplit', hi⟩ := h _ hproduced
  have hdigest : digest lib packet = digest lib packet' := by
    have hrow := (row_of_contributed lib clock' hi).2.2.1
    rw [← hrow]
    cases bestPosition lib before packet <;> rfl
  obtain rfl : packet = packet' :=
    hdigests packet (by simp [hsplit]) packet' (by simp [hsplit']) hdigest
  rw [contributed_of_noExpiry lib hexpiry' hsplit', if_pos hfits, mem_insertsOf] at hi
  refine (mem_filedCells lib).mpr ⟨before', after', hsplit', ?_⟩
  rcases hi with ⟨-, hi⟩ | ⟨-, hi⟩ | ⟨-, hi⟩
  · cases hp : bestPosition lib before packet <;> rw [hp] at hi <;> cases congrArg Insert.table hi
  · cases hp : bestPosition lib before packet <;> rw [hp] at hi <;> cases congrArg Insert.table hi
  · exact ((areaInsert_eq_iff lib).mp hi).symm

/-- Redelivery leaves every table with the same rows exactly when each
packet whose area is estimated is filed in the same cells, at one delivery
or another, with the repetitions and without them. -/
theorem redelivery_iff {sent delivered : List AisPacket} (h : Redelivers sent delivered)
    (hdigests : DigestsDistinct lib sent)
    (hsent : NoExpiry lib positionTimeoutNanos clock sent)
    (hdelivered : NoExpiry lib positionTimeoutNanos clock' delivered) :
    (∀ table r, r ∈ (written lib clock' delivered table).rows ↔
        r ∈ (written lib clock sent table).rows) ↔
      ∀ packet ∈ sent, Estimated lib packet → ∀ c,
        c ∈ filedCells lib delivered packet ↔ c ∈ filedCells lib sent packet := by
  have hdigests' : DigestsDistinct lib delivered := by
    intro p hp q hq
    exact hdigests p ((h.mem_iff p).mp hp) q ((h.mem_iff q).mp hq)
  simp only [mem_written_iff lib _ hdigests, mem_written_iff lib _ hdigests']
  constructor
  · intro hrows packet hpacket hest c
    constructor
    · refine filedCells_subset lib ?_ hdelivered hsent (fun i => (hrows i.table i.row).mp) hest
      exact fun p hp q hq => hdigests p ((h.mem_iff p).mp hp) q hq
    · refine filedCells_subset lib ?_ hsent hdelivered (fun i => (hrows i.table i.row).mpr) hest
      exact fun p hp q hq => hdigests p hp q ((h.mem_iff q).mp hq)
  · intro hcells table r
    constructor
    · refine Produced.mono lib hdelivered hsent (fun p hp => (h.mem_iff p).mp hp) ?_
      exact fun p hp hest c hc => (hcells p ((h.mem_iff p).mp hp) hest c).mp hc
    · refine Produced.mono lib hsent hdelivered (fun p hp => (h.mem_iff p).mpr hp) ?_
      exact fun p hp hest c hc => (hcells p hp hest c).mpr hc

end

/-- A position report of a vessel, and its name. -/
def reportAndName : List Decoded :=
  [positionReport, staticReport]

/-- The name comes after the position, and again. -/
theorem redelivery_iff_reportAndName :
    let lib := AisLib.ofDecoded reportAndName
    let position := AisPacket.fromString "!AIVDM,1,1,,A,13"
    let name := AisPacket.fromString "!AIVDM,1,1,,A,55"
    ∀ table r, r ∈ (written lib (fun _ => 0) [position, name, name] table).rows ↔
      r ∈ (written lib (fun _ => 0) [position, name] table).rows := by
  intro lib position name
  have hredelivers : Redelivers [position, name] [position, name, name] :=
    .again name (by decide) (.deliver name (.deliver position .nil))
  have hdigests : DigestsDistinct lib [position, name] := by decide
  refine (redelivery_iff lib hredelivers hdigests (noExpiry_const _ _ 0 (by decide) _)
    (noExpiry_const _ _ 0 (by decide) _)).mpr ?_
  intro packet hpacket hest c
  obtain rfl | rfl : packet = position ∨ packet = name := by simpa using hpacket
  · exact absurd hest.2.2.2 (by decide)
  · have honce : filedCells lib [position, name] name = [some 42] := by decide
    have htwice : filedCells lib [position, name, name] name = [some 42, some 42] := by decide
    simp [honce, htwice]

/-- The name comes before the position and again after it: it is in the table
of unknown areas, and now in a cell as well. -/
theorem redelivery_afterReport :
    let lib := AisLib.ofDecoded reportAndName
    let position := AisPacket.fromString "!AIVDM,1,1,,A,13"
    let name := AisPacket.fromString "!AIVDM,1,1,,A,55"
    Redelivers [name, position] [name, position, name] ∧
      DigestsDistinct lib [name, position] ∧
      NoExpiry lib positionTimeoutNanos (fun _ => 0) [name, position] ∧
      NoExpiry lib positionTimeoutNanos (fun _ => 0) [name, position, name] ∧
      ((written lib (fun _ => 0) [name, position] .packetsAreaCell1).rows.map Row.packet =
        [position]) ∧
      ((written lib (fun _ => 0) [name, position, name] .packetsAreaCell1).rows.map Row.packet =
        [position, name]) ∧
      ¬ ∀ table r, r ∈ (written lib (fun _ => 0) [name, position, name] table).rows ↔
        r ∈ (written lib (fun _ => 0) [name, position] table).rows := by
  intro lib position name
  have honce : (written lib (fun _ => 0) [name, position] .packetsAreaCell1).rows.map Row.packet =
      [position] := by decide
  have htwice : (written lib (fun _ => 0) [name, position, name] .packetsAreaCell1).rows.map
      Row.packet = [position, name] := by decide
  refine ⟨.again name (by decide) (.deliver position (.deliver name .nil)), by decide,
    noExpiry_const _ _ 0 (by decide) _, noExpiry_const _ _ 0 (by decide) _, honce, htwice, ?_⟩
  intro h
  have hname : name ∈ (written lib (fun _ => 0) [name, position, name] .packetsAreaCell1).rows.map
      Row.packet := by rw [htwice]; simp
  obtain ⟨r, hr, hrname⟩ := List.mem_map.mp hname
  have hin := @List.mem_map_of_mem _ _ _ _ Row.packet ((h _ r).mp hr)
  rw [honce, hrname] at hin
  exact absurd hin (by decide)

end AisStore
