import AisStore.FetchSize
import AisStore.Interval
import AisStore.TimeOrder

/-!
An interval asked for piece by piece.

A long interval may be asked for in pieces, each from where the last one
stopped. Since a query leaves out the start of its interval as well as the
stop, what lies on a border between two pieces is in neither of them. Nothing
else is lost, nothing comes twice, and the pieces put together are in the
order of time (`pieces_exact`).
-/

namespace AisStore

open Lib

/-- Two conditions that exclude each other, one after the other. -/
theorem filter_append_filter_perm {α : Type} {p q : α → Bool}
    (h : ∀ x, p x = true → q x = false) (l : List α) :
    (l.filter p ++ l.filter q).Perm (l.filter fun x => p x || q x) := by
  induction l with
  | nil => exact .nil
  | cons x l ih =>
      cases hp : p x with
      | true =>
          simp only [List.filter_cons, hp, h x hp, if_true, Bool.false_eq_true, if_false,
            Bool.true_or]
          exact ih.cons x
      | false =>
          cases hq : q x with
          | true =>
              simp only [List.filter_cons, hp, hq, if_true, Bool.false_eq_true, if_false,
                Bool.or_true]
              exact List.perm_middle.trans (ih.cons x)
          | false =>
              simp only [List.filter_cons, hp, hq, Bool.false_eq_true, if_false, Bool.or_false]
              exact ih

/-- Ask for the intervals between one instant and the next, and put the
answers together. -/
def QueryKind.queryEach {Area : Type} (kind : QueryKind Area) (grid : Grid Area)
    (session : Session) (combine : List (List AisPacket) → List AisPacket) (fetchSize : ℤ) :
    List Instant → Except Failure (List AisPacket)
  | start :: stop :: rest => do
    let first ← kind.query grid session combine fetchSize start stop
    let others ← kind.queryEach grid session combine fetchSize (stop :: rest)
    return first ++ others
  | _ => return []

section
variable {Area Pos : Type} {lib : AisLib Pos} {grid : Grid Area} {store : Store}
  {session : Session} {combine : List (List AisPacket) → List AisPacket} {kind : QueryKind Area}

/-- What a query returns is in the order of time. -/
theorem pairwise_of_query (hstore : store.InBlocks) (hsession : session.ReturnsInOrder store)
    (hsorted : CombineSorted lib combine)
    (htime : ∀ table, ∀ r ∈ (store table).rows, lib.getBestTimestamp r.packet = r.time)
    {fetchSize : ℤ} (hsize : 0 < fetchSize) {start stop : Instant} {packets : List AisPacket}
    (hquery : kind.query grid session combine fetchSize start stop = .ok packets) :
    packets.Pairwise fun p q => (lib.getBestTimestamp p).1 ≤ (lib.getBestTimestamp q).1 := by
  obtain ⟨b, -, hrest⟩ := bind_eq_ok.mp hquery
  obtain ⟨queries, hexecute, hdrained⟩ := bind_eq_ok.mp hrest
  obtain ⟨packets', hdrained', hpairwise⟩ := drained_inTimeOrder hstore hsession hsorted htime
    grid ((b.setInterval start stop).setFetchSize fetchSize) hsize hexecute
  obtain rfl : packets = packets' := Except.ok.inj (hdrained.symm.trans hdrained')
  exact hpairwise

/-- The rows of the pieces from `start` to the last of the borders: those
between the two, and on no border. -/
def QueryKind.Within (kind : QueryKind Area) (grid : Grid Area) (start : Instant)
    (borders : List Instant) (r : Row) : Prop :=
  kind.Selects grid r ∧ start.millis < r.time.1 ∧ r.time.1 < (borders.getLastD start).millis ∧
    ∀ t ∈ borders, r.time.1 ≠ t.millis

instance (kind : QueryKind Area) (grid : Grid Area) (start : Instant) (borders : List Instant)
    (r : Row) : Decidable (kind.Within grid start borders r) :=
  inferInstanceAs (Decidable (_ ∧ _))

theorem le_of_millis_lt {s t : Instant} (h : s.millis < t.millis) : s ≤ t := by
  have hs := s.nanos_lt
  have ht := t.nanos_lt
  rw [Instant.le_def]
  unfold Instant.millis at h
  omega

/-- What lies in the first piece or in the others is what lies within all. -/
theorem within_cons {start stop : Instant} {borders : List Instant}
    (hlt : start.millis < stop.millis) (hborders : ∀ t ∈ borders, stop.millis < t.millis)
    (r : Row) :
    kind.Within grid start (stop :: borders) r ↔
      (kind.Selects grid r ∧ start.millis < r.time.1 ∧ r.time.1 < stop.millis) ∨
        kind.Within grid stop borders r := by
  have hlast : stop.millis ≤ (borders.getLastD stop).millis := by
    cases borders with
    | nil => exact le_refl _
    | cons t borders =>
        rw [List.getLastD_cons]
        exact (hborders _ List.getLastD_mem_cons).le
  unfold QueryKind.Within
  rw [List.getLastD_cons, List.forall_mem_cons]
  constructor
  · rintro ⟨hselects, hlow, hhigh, hne, hnone⟩
    rcases lt_or_gt_of_ne hne with hbefore | hafter
    · exact .inl ⟨hselects, hlow, hbefore⟩
    · exact .inr ⟨hselects, hafter, hhigh, hnone⟩
  · rintro (⟨hselects, hlow, hbefore⟩ | ⟨hselects, hafter, hhigh, hnone⟩)
    · refine ⟨hselects, hlow, hbefore.trans_le hlast, hbefore.ne, fun t ht => ?_⟩
      exact (hbefore.trans (hborders t ht)).ne
    · exact ⟨hselects, hlt.trans hafter, hhigh, hafter.ne', hnone⟩

/-- What lies within the whole interval is on a border or it is not. -/
theorem within_or_border {start stop : Instant} {borders : List Instant}
    (hafter : ∀ t ∈ borders, start.millis < t.millis)
    (hbefore : ∀ t ∈ borders, t.millis < stop.millis) (r : Row) :
    (kind.Within grid start (borders ++ [stop]) r ∨
        kind.Selects grid r ∧ ∃ t ∈ borders, r.time.1 = t.millis) ↔
      kind.Selects grid r ∧ start.millis < r.time.1 ∧ r.time.1 < stop.millis := by
  unfold QueryKind.Within
  rw [List.getLastD_concat]
  constructor
  · rintro (⟨hselects, hlow, hhigh, -⟩ | ⟨hselects, t, ht, heq⟩)
    · exact ⟨hselects, hlow, hhigh⟩
    · rw [heq]
      exact ⟨hselects, hafter t ht, hbefore t ht⟩
  · rintro ⟨hselects, hlow, hhigh⟩
    by_cases hborder : ∃ t ∈ borders, r.time.1 = t.millis
    · exact .inr ⟨hselects, hborder⟩
    · refine .inl ⟨hselects, hlow, hhigh, fun t ht heq => ?_⟩
      rcases List.mem_append.mp ht with ht | ht
      · exact hborder ⟨t, ht, heq⟩
      · rw [heq, List.mem_singleton.mp ht] at hhigh
        exact lt_irrefl _ hhigh

/-- The blocks of a part of an interval can be computed if those of the
interval can. -/
theorem fits_of_between {first last start stop : Instant} (hlow : first.millis ≤ start.millis)
    (hlt : start.millis < stop.millis) (hhigh : stop.millis ≤ last.millis)
    (hfits : kind.Fits grid first last) : kind.Fits grid start stop := by
  have hmono : ∀ table {s t : Instant}, s.millis ≤ t.millis → block table s ≤ block table t := by
    intro table s t h
    apply block_mono
    rw [s.seconds_eq, t.seconds_eq]
    omega
  have hblocks : ∀ {table}, BlocksFit table first last → BlocksFit table start stop := by
    rintro table ⟨⟨hlo, -⟩, ⟨-, hhi⟩, hmax, hcount⟩
    have hstart := hmono table hlow
    have hstop := hmono table hhigh
    have hbetween := hmono table hlt.le
    refine ⟨⟨?_, ?_⟩, ⟨?_, ?_⟩, ?_, ?_⟩ <;> omega
  cases kind with
  | forTime =>
      have hpart := hblocks hfits.1
      exact ⟨hpart, exists_last hpart.1 hpart.2.1 hlt⟩
  | forMmsi mmsi => exact hblocks hfits
  | forArea area => exact fun hne => hblocks (hfits hne)

/-- Asked for piece by piece, the store returns the packets within the whole
interval that lie on no border, each once and in the order of time. -/
theorem queryEach_perm (hstore : store.InBlocks) (hsession : session.ReturnsInOrder store)
    (hcombine : CombineUnion combine) (hsorted : CombineSorted lib combine)
    (htime : ∀ table, ∀ r ∈ (store table).rows, lib.getBestTimestamp r.packet = r.time)
    (hkind : kind.Proper) {fetchSize : ℤ} (hsize : 0 < fetchSize) {first last start : Instant}
    {borders : List Instant} (hordered : (start :: borders).Pairwise (·.millis < ·.millis))
    (hlow : first.millis ≤ start.millis) (hhigh : ∀ t ∈ borders, t.millis ≤ last.millis)
    (hfits : kind.Fits grid first last) :
    ∃ packets, kind.queryEach grid session combine fetchSize (start :: borders) = .ok packets ∧
      packets.Perm (((store kind.table).rows.filter
        (fun r => kind.Within grid start borders r)).map Row.packet) ∧
      packets.Pairwise fun p q => (lib.getBestTimestamp p).1 ≤ (lib.getBestTimestamp q).1 := by
  induction borders generalizing start with
  | nil =>
      refine ⟨[], rfl, ?_, .nil⟩
      have hnone : ∀ r : Row, ¬ kind.Within grid start [] r := by
        rintro r ⟨-, hlow, hhigh, -⟩
        exact lt_asymm hlow hhigh
      simp [hnone]
  | cons stop borders ih =>
      obtain ⟨hstart, hrest⟩ := List.pairwise_cons.mp hordered
      have hstop : ∀ t ∈ borders, stop.millis < t.millis := (List.pairwise_cons.mp hrest).1
      have hlt : start.millis < stop.millis := hstart stop (List.mem_cons_self ..)
      obtain ⟨hlast, hhigh⟩ := List.forall_mem_cons.mp hhigh
      obtain ⟨piece, hpiece, hperm⟩ :=
        query_perm hstore hsession.evaluatesWhere hcombine hkind hsize (le_of_millis_lt hlt)
          (fits_of_between hlow hlt hlast hfits)
      obtain ⟨others, hothers, hperm', hpairwise'⟩ := ih hrest (hlow.trans hlt.le) hhigh
      have hpairwise := pairwise_of_query hstore hsession hsorted htime hsize hpiece
      refine ⟨piece ++ others, ?_, ?_, ?_⟩
      · simp only [QueryKind.queryEach, hpiece, hothers, bind, Except.bind, pure, Except.pure]
      · refine (hperm.append hperm').trans ?_
        rw [← List.map_append]
        refine ((filter_append_filter_perm (fun r hr => ?_) _).trans ?_).map _
        · rw [decide_eq_true_eq] at hr
          exact decide_eq_false fun hafter => lt_asymm hr.2.2 hafter.2.1
        · simp only [within_cons hlt hstop, Bool.decide_or]
          exact .refl _
      · refine List.pairwise_append.mpr ⟨hpairwise, hpairwise', fun p hp q hq => ?_⟩
        obtain ⟨r, hr, rfl⟩ := List.mem_map.mp (hperm.mem_iff.mp hp)
        obtain ⟨r', hr', rfl⟩ := List.mem_map.mp (hperm'.mem_iff.mp hq)
        obtain ⟨hmem, hbefore⟩ := List.mem_filter.mp hr
        obtain ⟨hmem', hafter⟩ := List.mem_filter.mp hr'
        rw [htime _ r hmem, htime _ r' hmem']
        exact ((of_decide_eq_true hbefore).2.2.trans (of_decide_eq_true hafter).2.1).le

end

/-- Over what the writer has stored, for borders from one instant to a later
one: as soon as the whole interval is answered each piece is, and the whole
answer is the pieces and the packets at the borders between them. -/
theorem pieces_exact {Pos Area : Type} {lib : AisLib Pos} {grid : Grid Area} {session : Session}
    {combine : List (List AisPacket) → List AisPacket} {kind : QueryKind Area} (clock : ℕ → ℤ)
    (packets : List AisPacket) (hsession : session.ReturnsInOrder (written lib clock packets))
    (hcombine : CombineUnion combine) (hsorted : CombineSorted lib combine) (hkind : kind.Proper)
    {fetchSize : ℤ} (hsize : 0 < fetchSize) {start stop : Instant} {borders : List Instant}
    (hordered : (start :: (borders ++ [stop])).Pairwise (·.millis < ·.millis))
    {whole : List AisPacket}
    (hwhole : kind.query grid session combine fetchSize start stop = .ok whole) :
    ∃ pieces,
      kind.queryEach grid session combine fetchSize (start :: (borders ++ [stop])) = .ok pieces ∧
      whole.Perm (pieces ++ ((written lib clock packets kind.table).rows.filter fun r =>
        kind.Selects grid r ∧ ∃ t ∈ borders, r.time.1 = t.millis).map Row.packet) ∧
      pieces.Pairwise fun p q => (lib.getBestTimestamp p).1 ≤ (lib.getBestTimestamp q).1 := by
  obtain ⟨hstart, hrest⟩ := List.pairwise_cons.mp hordered
  have hlt : start.millis < stop.millis := hstart stop (List.mem_append_right _ (by simp))
  have hfits := fits_of_returns_query hkind (le_of_millis_lt hlt) ⟨whole, hwhole⟩
  have hbefore : ∀ t ∈ borders, t.millis < stop.millis :=
    fun t ht => (List.pairwise_append.mp hrest).2.2 t ht stop (by simp)
  have hlast : ∀ t ∈ borders ++ [stop], t.millis ≤ stop.millis := by
    intro t ht
    rcases List.mem_append.mp ht with ht | ht
    · exact (hbefore t ht).le
    · rw [List.mem_singleton.mp ht]
  obtain ⟨pieces, hpieces, hperm, hpairwise⟩ := queryEach_perm (written_inBlocks lib clock packets)
    hsession hcombine hsorted (bestTimestamp_written lib clock packets) hkind hsize hordered
      le_rfl hlast hfits
  refine ⟨pieces, hpieces, ?_, hpairwise⟩
  obtain ⟨whole', hwhole', hperm'⟩ := query_perm (written_inBlocks lib clock packets)
    hsession.evaluatesWhere hcombine hkind hsize (le_of_millis_lt hlt) hfits
  obtain rfl : whole = whole' := Except.ok.inj (hwhole.symm.trans hwhole')
  refine hperm'.trans (List.Perm.trans ?_ (hperm.append_right _).symm)
  rw [← List.map_append]
  refine (List.Perm.trans (List.Perm.of_eq ?_)
    (filter_append_filter_perm (fun r hr => ?_) _).symm).map _
  · have hsplit := @within_or_border _ grid kind start stop borders
      (fun t ht => hstart t (List.mem_append_left _ ht)) hbefore
    simp only [← hsplit, Bool.decide_or]
  · rw [decide_eq_true_eq] at hr
    refine decide_eq_false ?_
    rintro ⟨-, t, ht, heq⟩
    exact hr.2.2.2 t (List.mem_append_left _ ht) heq

/-- Ten past, asked for in two pieces that meet at it: it is in the whole answer
and in none of the pieces. -/
theorem pieces_exact_tenPast :
    QueryKind.forTime.query noCells (.ofStore tenPastStore)
        (combineByTime (.ofDecoded tenPast)) 1 (.ofEpochMilli ⟨599999, by decide⟩)
        (.ofEpochMilli ⟨600001, by decide⟩) = .ok [⟨"!AIVDM,1,1,,A,13"⟩] ∧
      ∃ pieces, QueryKind.forTime.queryEach noCells (.ofStore tenPastStore)
        (combineByTime (.ofDecoded tenPast)) 1
        [.ofEpochMilli ⟨599999, by decide⟩, .ofEpochMilli ⟨600000, by decide⟩,
          .ofEpochMilli ⟨600001, by decide⟩] = .ok pieces ∧ pieces = [] := by
  have hkind : (QueryKind.forTime : QueryKind Unit).Proper := trivial
  have hwhole : QueryKind.forTime.query noCells (.ofStore tenPastStore)
      (combineByTime (.ofDecoded tenPast)) 1 (.ofEpochMilli ⟨599999, by decide⟩)
        (.ofEpochMilli ⟨600001, by decide⟩) = .ok [⟨"!AIVDM,1,1,,A,13"⟩] := rfl
  have hsession : (Session.ofStore tenPastStore).ReturnsInOrder (written (.ofDecoded tenPast)
      (fun _ => 0) (tenPast.map fun d => .fromString d.stringMessage)) :=
    Session.returnsInOrder_ofStore tenPastStore
  have hordered : (Instant.ofEpochMilli ⟨599999, by decide⟩ ::
      ([Instant.ofEpochMilli ⟨600000, by decide⟩] ++
        [Instant.ofEpochMilli ⟨600001, by decide⟩])).Pairwise (·.millis < ·.millis) := by decide
  obtain ⟨pieces, hpieces, hperm, -⟩ := pieces_exact _ _ hsession (combineUnion_combineByTime _)
    (combineSorted_combineByTime _) hkind Int.one_pos hordered hwhole
  have hperm' : [⟨"!AIVDM,1,1,,A,13"⟩].Perm (pieces ++ [⟨"!AIVDM,1,1,,A,13"⟩]) := hperm
  have hlength := hperm'.length_eq
  rw [List.length_append, List.length_singleton] at hlength
  exact ⟨hwhole, pieces, hpieces, List.eq_nil_of_length_eq_zero (by omega)⟩

end AisStore
