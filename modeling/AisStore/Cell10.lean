import AisStore.Interval
import Mathlib.Data.List.Dedup

/-!
Asking for an area by large cells.

For an area that meets few enough large cells the builder can be told, with
`setCell10Enabled`, to ask `packets_area_cell10` for those instead of
`packets_area_cell1` for the small ones. The live writer fills the table of
large cells only where the constant of the schema says so, and it does not,
so what such a request is given over a store of that writer is nothing at
all. The comparison of the two numbers of cells decides which it is.
-/

namespace AisStore

open Lib

section
variable {Area : Type} (grid : Grid Area)

/-- Ask for an area, and read the iterator to its end. -/
def areaQuery (session : Session) (combine : List (List AisPacket) → List AisPacket)
    (cell10Enabled : Bool) (area : Area) (start stop : Instant) :
    Except Failure (List AisPacket) := do
  let b := ((AisStoreQueryBuilder.forArea area).setInterval start stop).setCell10Enabled
    cell10Enabled
  let queries ← b.execute grid session
  AisStoreQueryResult.drained combine queries

/-- The request is for the small cells even where large ones are allowed. -/
def UsesCell1 (area : Area) : Prop :=
  (grid.getCells 10 area).length * 10 > (grid.getCells 1 area).length

instance (area : Area) : Decidable (UsesCell1 grid area) :=
  inferInstanceAs (Decidable (_ > _))

/-- The cells of an area, small or large, contain all its positions. -/
def Grid.Covers {Pos : Type} (lib : AisLib Pos) (inside : Area → Pos → Prop) : Prop :=
  ∀ size, size = 1 ∨ size = 10 → ∀ area p, inside area p →
    lib.getCellInt p size ∈ grid.getCells size area

/-- One of the packets written, filed at a position in the area. -/
def FiledInside {Pos : Type} (lib : AisLib Pos) (clock : ℕ → ℤ) (inside : Area → Pos → Prop)
    (packets : List AisPacket) (area : Area) (packet : AisPacket) : Prop :=
  ∃ before after p, packets = before ++ packet :: after ∧
    positionAt lib clock before packet = some p ∧ inside area p

variable {Pos : Type} (lib : AisLib Pos) (clock : ℕ → ℤ) (inside : Area → Pos → Prop)
  {grid : Grid Area} {session : Session} {combine : List (List AisPacket) → List AisPacket}
  {packets : List AisPacket} {area : Area} {start stop : Instant}

/-! ### The two tables -/

/-- With the switch off, the request is the plain one. -/
theorem areaQuery_disabled :
    areaQuery grid session combine false area start stop =
      (QueryKind.forArea area).query grid session combine 3000 start stop := rfl

/-- Where the comparison picks the small cells, the switch changes nothing. -/
theorem areaQuery_usesCell1 (h : UsesCell1 grid area) :
    areaQuery grid session combine true area start stop =
      areaQuery grid session combine false area start stop := by
  have hcells : (((AisStoreQueryBuilder.forArea area).setInterval start stop).setCell10Enabled
      true).cellsOf grid area = (grid.getCells 1 area, .packetsAreaCell1) := by
    simp only [UsesCell1] at h
    simp only [AisStoreQueryBuilder.cellsOf, AisStoreQueryBuilder.setCell10Enabled, if_true, h]
  simp only [areaQuery, AisStoreQueryBuilder.execute, AisStoreQueryBuilder.setCell10Enabled,
    AisStoreQueryBuilder.setInterval, AisStoreQueryBuilder.forArea] at hcells ⊢
  rw [hcells]
  rfl

/-- The live writer leaves the table of the large cells empty. -/
theorem written_packetsAreaCell10 (packets : List AisPacket) :
    (written lib clock packets .packetsAreaCell10).rows = [] := by
  apply List.eq_nil_iff_forall_not_mem.mpr
  intro r hr
  obtain ⟨before, packet, after, -, hi⟩ := mem_written lib clock hr
  simp only [contributed] at hi
  split at hi
  · rcases (mem_insertsOf lib).mp hi with ⟨-, htable⟩ | ⟨-, htable⟩ | ⟨-, htable⟩
    · cases htable
    · cases htable
    · cases hp : positionAt lib clock before packet <;> rw [hp] at htable <;> cases htable
  · cases hi

/-- So asking it returns nothing, if anything. -/
theorem areaQuery_cell10 (hsession : session.EvaluatesWhere (written lib clock packets))
    (hcombine : CombineUnion combine) (h : ¬ UsesCell1 grid area) (hle : start ≤ stop)
    (hfits : (QueryKind.forArea area).Fits grid start stop) :
    areaQuery grid session combine true area start stop = .ok [] := by
  let cells := grid.getCells 10 area
  have hid : ∀ c ∈ cells, wrapInt c = c :=
    fun c hc => wrapInt_eq (grid.isInt_getCells 10 area c hc)
  -- an area that meets a large cell here meets ten small ones, and needs its blocks for those
  have hblocks : cells ≠ [] → Returns (timeBlocks .packetsAreaCell10 start stop) := by
    intro hne
    have hcells : grid.getCells 1 area ≠ [] := by
      intro hnil
      have hpos : 0 < (grid.getCells 10 area).length := List.length_pos_iff.mpr hne
      simp only [UsesCell1, hnil, List.length_nil] at h
      omega
    exact (returns_timeBlocks hle).mpr (hfits hcells)
  obtain ⟨queries, hqueries, hlive, hperm⟩ :=
    @mapM_create_perm _ session .packetsAreaCell10 start stop (written_inBlocks lib clock packets)
      hsession 3000 (by omega) (by decide) cells (grid.nodup_getCells 10 area) .cellid
      (fun c => AisStoreQuery.create session 3000 .packetsAreaCell10 .cellid (wrapInt c)
        (wrapInt c) start stop)
      (fun c hc => by rw [hid c hc]) hblocks
  obtain ⟨returned, hdrained, hunion⟩ := AisStoreQueryResult.drained_perm hcombine hlive
  rw [written_packetsAreaCell10, List.filter_nil, List.map_nil] at hperm
  obtain rfl := (hunion.trans hperm).eq_nil
  have hcells : (((AisStoreQueryBuilder.forArea area).setInterval start stop).setCell10Enabled
      true).cellsOf grid area = (cells, .packetsAreaCell10) := by
    simp only [UsesCell1] at h
    simp only [AisStoreQueryBuilder.cellsOf, AisStoreQueryBuilder.setCell10Enabled, if_true, h,
      if_false, cells]
  simp only [areaQuery, AisStoreQueryBuilder.execute, AisStoreQueryBuilder.newQuery,
    AisStoreQueryBuilder.setCell10Enabled, AisStoreQueryBuilder.setInterval,
    AisStoreQueryBuilder.forArea, requireNonNull, bind, Except.bind] at hcells ⊢
  rw [hcells]
  simp only [hqueries, hdrained]

/-! ### The two answers -/

/-- Every packet filed inside the area that the request for small cells
returns is returned with large cells allowed exactly when the comparison
picks the small cells, or there is no such packet. -/
theorem cell10_agrees_iff (hsession : session.EvaluatesWhere (written lib clock packets))
    (hcombine : CombineUnion combine) (hle : start ≤ stop) :
    (∀ returned, areaQuery grid session combine false area start stop = .ok returned →
        ∀ packet ∈ returned, FiledInside lib clock inside packets area packet →
          ∃ returned', areaQuery grid session combine true area start stop = .ok returned' ∧
            packet ∈ returned') ↔
      UsesCell1 grid area ∨
        ¬ ((QueryKind.forArea area).Fits grid start stop ∧
          ∃ r ∈ (written lib clock packets .packetsAreaCell1).rows,
            (QueryKind.forArea area).Selects grid r ∧ start.millis < r.time.1 ∧
              r.time.1 < stop.millis ∧ FiledInside lib clock inside packets area r.packet) := by
  have hkind : (QueryKind.forArea area).Proper := trivial
  have hstore := written_inBlocks lib clock packets
  -- what the request for the small cells returns
  have hsmall : (QueryKind.forArea area).Fits grid start stop →
      ∃ returned, areaQuery grid session combine false area start stop = .ok returned ∧
        ∀ packet, packet ∈ returned ↔
          ∃ r ∈ (written lib clock packets .packetsAreaCell1).rows,
            ((QueryKind.forArea area).Selects grid r ∧ start.millis < r.time.1 ∧
              r.time.1 < stop.millis) ∧ r.packet = packet := by
    intro hfits
    obtain ⟨returned, hquery, hperm⟩ :=
      query_perm hstore hsession hcombine hkind (by omega : (0 : ℤ) < 3000) hle hfits
    refine ⟨returned, hquery, ?_⟩
    intro packet
    simp only [hperm.mem_iff, List.mem_map, List.mem_filter, decide_eq_true_eq, and_assoc]
    rfl
  by_cases huses : UsesCell1 grid area
  · simp only [huses, true_or, iff_true]
    intro returned hreturned packet hpacket _
    exact ⟨returned, (areaQuery_usesCell1 huses).trans hreturned, hpacket⟩
  · simp only [huses, false_or]
    constructor
    · rintro h ⟨hfits, r, hr, hselects, hlow, hhigh, hinside⟩
      obtain ⟨returned, hreturned, hmem⟩ := hsmall hfits
      have hpacket := (hmem r.packet).mpr ⟨r, hr, ⟨hselects, hlow, hhigh⟩, rfl⟩
      obtain ⟨returned', hreturned', hpacket'⟩ := h returned hreturned r.packet hpacket hinside
      rw [areaQuery_cell10 lib clock hsession hcombine huses hle hfits] at hreturned'
      cases hreturned'
      cases hpacket'
    · intro h returned hreturned packet hpacket hinside
      have hfits := fits_of_returns_query hkind hle ⟨returned, hreturned⟩
      obtain ⟨returned', hreturned', hmem⟩ := hsmall hfits
      obtain rfl : returned = returned' := Except.ok.inj (hreturned.symm.trans hreturned')
      obtain ⟨r, hr, ⟨hselects, hlow, hhigh⟩, rfl⟩ := (hmem packet).mp hpacket
      exact absurd ⟨hfits, r, hr, hselects, hlow, hhigh, hinside⟩ h

end

/-- A grid over the integers. An area is a list of positions, and meets the
cells of those. -/
def lineGrid : Grid (List ℤ) where
  getCells := fun size area => ((area.map (· / (size : ℤ))).filter IsInt).dedup
  nodup_getCells := fun _ _ => List.nodup_dedup _
  isInt_getCells := by
    intro size area id hid
    have hmem := List.mem_filter.mp (List.mem_dedup.mp hid)
    exact of_decide_eq_true hmem.2

/-- A position listed by an area, and near enough for its cell to have a number. -/
def OnLine (area : List ℤ) (p : ℤ) : Prop := p ∈ area ∧ IsInt p

theorem covers_lineGrid (messages : List Decoded) :
    lineGrid.Covers (.ofDecoded messages) OnLine := by
  rintro size hsize area p ⟨hp, hint⟩
  show p / (size : ℤ) ∈ _
  have hcell : IsInt (p / (size : ℤ)) := by
    unfold IsInt at *
    rcases hsize with rfl | rfl <;> omega
  apply List.mem_dedup.mpr
  exact List.mem_filter.mpr ⟨List.mem_map_of_mem hp, decide_eq_true hcell⟩

/-- A vessel reports its position. -/
def onePosition : List Decoded := [positionReport]

def onePositionStore : Store :=
  written (.ofDecoded onePosition) (fun _ => 0) [⟨"!AIVDM,1,1,,A,13"⟩]

/-- What the request for small cells returns for any area that lists the
position: its packet. -/
theorem areaQuery_onePosition {area : List ℤ}
    (hselects : ∀ r ∈ (onePositionStore .packetsAreaCell1).rows,
      (QueryKind.forArea area).Selects lineGrid r) :
    areaQuery lineGrid (.ofStore onePositionStore) (combineByTime (.ofDecoded onePosition)) false
      area (.ofEpochMilli (toLong 599999)) (.ofEpochMilli (toLong 600001)) =
      .ok [⟨"!AIVDM,1,1,,A,13"⟩] := by
  have hsession := (Session.returnsInOrder_ofStore onePositionStore).evaluatesWhere
  have hfits : (QueryKind.forArea area).Fits lineGrid (.ofEpochMilli (toLong 599999))
      (.ofEpochMilli (toLong 600001)) :=
    fun _ => ⟨by decide, by decide, by decide, by decide⟩
  obtain ⟨returned, hquery, hperm⟩ :=
    @query_perm _ lineGrid _ _ _ (.forArea area) _ _ (written_inBlocks _ _ _) hsession
      (combineUnion_combineByTime (.ofDecoded onePosition)) trivial 3000 (by omega) (by decide)
      hfits
  have hrows : (onePositionStore .packetsAreaCell1).rows.filter (fun r =>
      (QueryKind.forArea area).Selects lineGrid r ∧
        (Instant.ofEpochMilli (toLong 599999)).millis < r.time.1 ∧
        r.time.1 < (Instant.ofEpochMilli (toLong 600001)).millis) =
      (onePositionStore .packetsAreaCell1).rows := by
    apply List.filter_eq_self.mpr
    have htimes : ∀ r ∈ (onePositionStore .packetsAreaCell1).rows,
        (Instant.ofEpochMilli (toLong 599999)).millis < r.time.1 ∧
        r.time.1 < (Instant.ofEpochMilli (toLong 600001)).millis := by decide
    intro r hr
    exact decide_eq_true ⟨hselects r hr, htimes r hr⟩
  have hpackets : (onePositionStore .packetsAreaCell1).rows.map Row.packet =
      [⟨"!AIVDM,1,1,,A,13"⟩] := by decide
  have honly := hperm.trans (List.Perm.of_eq ((congrArg _ hrows).trans hpackets))
  rw [areaQuery_disabled, hquery, List.perm_singleton.mp honly]

/-- An area around the position is one large cell and one small one, and is
asked for by the small one. -/
theorem cell10_agrees_iff_spot :
    let lib := AisLib.ofDecoded onePosition
    let returned := areaQuery lineGrid (.ofStore onePositionStore) (combineByTime lib)
    let start := Instant.ofEpochMilli (toLong 599999)
    let stop := Instant.ofEpochMilli (toLong 600001)
    FiledInside lib (fun _ => 0) OnLine [⟨"!AIVDM,1,1,,A,13"⟩] [42] ⟨"!AIVDM,1,1,,A,13"⟩ ∧
      ∃ packets, returned true [42] start stop = .ok packets ∧ ⟨"!AIVDM,1,1,,A,13"⟩ ∈ packets := by
  intro lib returned start stop
  have hsession := (Session.returnsInOrder_ofStore onePositionStore).evaluatesWhere
  have hfiled : FiledInside lib (fun _ => 0) OnLine [⟨"!AIVDM,1,1,,A,13"⟩] [42]
      ⟨"!AIVDM,1,1,,A,13"⟩ := ⟨[], [], 42, rfl, rfl, by decide, by decide⟩
  have hsmall : returned false [42] start stop = .ok [⟨"!AIVDM,1,1,,A,13"⟩] :=
    areaQuery_onePosition (by decide)
  have huses : UsesCell1 lineGrid [42] := by decide
  refine ⟨hfiled, ?_⟩
  exact (cell10_agrees_iff lib (fun _ => 0) OnLine hsession (combineUnion_combineByTime lib)
    (by decide)).mpr (.inl huses) _ hsmall _ (List.mem_singleton_self _) hfiled

/-- An area of ten small cells in a row lies in one large cell, and is asked
for by that: the packet in its midst is not returned. -/
theorem cell10_agrees_strip :
    let lib := AisLib.ofDecoded onePosition
    let combine := combineByTime lib
    let session := Session.ofStore onePositionStore
    let area : List ℤ := [40, 41, 42, 43, 44, 45, 46, 47, 48, 49]
    let packet : AisPacket := ⟨"!AIVDM,1,1,,A,13"⟩
    let start := Instant.ofEpochMilli (toLong 599999)
    let stop := Instant.ofEpochMilli (toLong 600001)
    session.EvaluatesWhere onePositionStore ∧ CombineUnion combine ∧
      lineGrid.Covers lib OnLine ∧ FiledInside lib (fun _ => 0) OnLine [packet] area packet ∧
      areaQuery lineGrid session combine false area start stop = .ok [packet] ∧
      areaQuery lineGrid session combine true area start stop = .ok [] ∧
      ¬ ∀ (area : List ℤ) (start stop : Instant) returned, start ≤ stop →
        areaQuery lineGrid session combine false area start stop = .ok returned →
        ∀ packet' ∈ returned, FiledInside lib (fun _ => 0) OnLine [packet] area packet' →
          ∃ returned', areaQuery lineGrid session combine true area start stop = .ok returned' ∧
            packet' ∈ returned' := by
  intro lib combine session area packet start stop
  have hsession := (Session.returnsInOrder_ofStore onePositionStore).evaluatesWhere
  have hcombine : CombineUnion combine := combineUnion_combineByTime lib
  have hfiled : FiledInside lib (fun _ => 0) OnLine [packet] area packet :=
    ⟨[], [], 42, rfl, rfl, by decide, by decide⟩
  have hsmall : areaQuery lineGrid session combine false area start stop = .ok [packet] :=
    areaQuery_onePosition (by decide)
  have hlarge : areaQuery lineGrid session combine true area start stop = .ok [] :=
    areaQuery_cell10 lib (fun _ => 0) hsession hcombine (by decide) (by decide)
      fun _ => ⟨by decide, by decide, by decide, by decide⟩
  refine ⟨hsession, hcombine, covers_lineGrid _, hfiled, hsmall, hlarge, ?_⟩
  intro h
  obtain ⟨returned', hreturned', hmem⟩ := h area start stop _ (by decide) hsmall packet
    (List.mem_singleton_self packet) hfiled
  rw [hlarge] at hreturned'
  cases hreturned'
  cases hmem

end AisStore
