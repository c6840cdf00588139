import AisStore.DownloadUrl
import AisStore.Position

/-!
Areas, and whether a query is restricted to them.

Four places decide whether a bound is set. The URL and the map ask whether
all four are truthy, so does the formatter of an input field about its own,
and only the function below that formatter tells 0 from undefined. An area
with a bound on the equator or the prime meridian is therefore defined for
none of the first three.
-/

namespace AisStore

open Lib

/-! ### The map and the input fields -/

/-- The polygon that the watch of the area draws, by its corners. -/
def areaFeatures (a : SearchArea) : List (List (ℚ × ℚ)) :=
  if truthy a.maxLat && truthy a.maxLon && truthy a.minLat && truthy a.minLon then
    match a.maxLat, a.maxLon, a.minLat, a.minLon with
    | some maxLat, some maxLon, some minLat, some minLon =>
        [[(minLon, minLat), (minLon, maxLat), (maxLon, maxLat), (maxLon, minLat)]]
    | _, _, _, _ => []
  else []

/-- The `formatter` of a `positionDirective`. -/
def formatter (formatter1 : ℚ → JsString) : Option ℚ → Option JsString
  | none => none
  | some x => if truthy (some x) ∨ x = 0 then some (formatter1 x) else none

/-- What a `positionDirective` puts in front of `$formatters`. -/
def modelFormatter (formatter1 : ℚ → JsString) (modelValue : Option ℚ) : Option JsString :=
  if truthy modelValue then formatter formatter1 modelValue else none

/-! ### The property -/

/-- A number is written that is within half a unit of the third decimal. -/
def Near (text : JsString) (bound : ℚ) : Prop :=
  ∃ x, readDecimal text = some (.finite x, []) ∧ |x - bound| ≤ 0.0005

/-- One of the components of the URL is the box with these bounds. -/
def HasBox (url : JsString) (maxLat minLon minLat maxLon : ℚ) : Prop :=
  ∃ a b c d, "box=".toList ++ a ++ ',' :: b ++ ',' :: c ++ ',' :: d ∈ url.splitOn '&' ∧
    Near a maxLat ∧ Near b minLon ∧ Near c minLat ∧ Near d maxLon

/-- No component of the URL is a box. -/
def HasNoBox (url : JsString) : Prop := ∀ x ∈ url.splitOn '&', ¬ "box=".toList <+: x

/-- An area with four bounds restricts the query, is drawn and is shown; with
a bound missing it does none of the first. -/
def RestrictsToArea {Date : Type} (format : Date → JsString) (p : SearchParams Date) : Prop :=
  match p.area with
  | ⟨some maxLat, some maxLon, some minLat, some minLon⟩ =>
      areaDefined p.area = true ∧
        HasBox (updateDownloadUrl p format) maxLat minLon minLat maxLon ∧
        areaFeatures p.area =
          [[(minLon, minLat), (minLon, maxLat), (maxLon, maxLat), (maxLon, minLat)]] ∧
        (modelFormatter formatLatitude (some maxLat)).isSome ∧
        (modelFormatter formatLongitude (some maxLon)).isSome ∧
        (modelFormatter formatLatitude (some minLat)).isSome ∧
        (modelFormatter formatLongitude (some minLon)).isSome
  | _ =>
      areaDefined p.area = false ∧ HasNoBox (updateDownloadUrl p format) ∧
        areaFeatures p.area = []

/-- None of four bounds is 0; where one is missing, there is no box in the
text that goes into the URL as it is. -/
def AreaUnmistakable {Date : Type} (p : SearchParams Date) : Prop :=
  match p.area with
  | ⟨some maxLat, some maxLon, some minLat, some minLon⟩ =>
      maxLat ≠ 0 ∧ maxLon ≠ 0 ∧ minLat ≠ 0 ∧ minLon ≠ 0
  | _ =>
      ¬ "&box=".toList <:+: p.mmsi.getD [] ∧
        (p.outputFormat = .table → ∀ field ∈ p.outputTableFields, ¬ "&box=".toList <:+: field)

/-! ### With four bounds -/

theorem near_toFixed (x : ℚ) : Near (toFixed 3 x) x := by
  refine ⟨rounded 3 x, readDecimal_toFixed (by omega) x, ?_⟩
  have h := abs_rounded_sub_le 3 x
  norm_num at h ⊢
  exact h

section
variable {Date : Type} {format : Date → JsString} {p : SearchParams Date}

/-- A parameter that is plain is a component of the URL. -/
theorem mem_splitOn_of_plain (hformat : FormatsDates format) {x : JsString}
    (hx : x ∈ parameters p) (hplain : Plain x) : x ∈ (updateDownloadUrl p format).splitOn '&' := by
  rw [splitOn_updateDownloadUrl p hformat]
  apply List.mem_cons_of_mem
  exact List.mem_flatMap.mpr ⟨x, hx, by rw [hplain.splitOn]; simp⟩

theorem hasBox_of_ne_zero (hformat : FormatsDates format) {maxLat maxLon minLat minLon : ℚ}
    (harea : p.area = ⟨some maxLat, some maxLon, some minLat, some minLon⟩)
    (hdefined : areaDefined p.area = true) :
    HasBox (updateDownloadUrl p format) maxLat minLon minLat maxLon := by
  refine ⟨toFixed 3 maxLat, toFixed 3 minLon, toFixed 3 minLat, toFixed 3 maxLon, ?_,
    near_toFixed _, near_toFixed _, near_toFixed _, near_toFixed _⟩
  have hmem : "box=".toList ++ toFixed 3 maxLat ++ ',' :: toFixed 3 minLon ++
      ',' :: toFixed 3 minLat ++ ',' :: toFixed 3 maxLon ∈ boxParameters p.area := by
    rw [boxParameters, if_pos hdefined, harea]
    exact List.mem_singleton.mpr rfl
  apply mem_splitOn_of_plain hformat _ (plain_of_mem_boxParameters hmem)
  exact (mem_parameters p).mpr (.inr (.inr (.inl hmem)))

/-! ### With a bound missing -/

/-- Some piece of a parameter is taken for a box. -/
def TakenForBox (x : JsString) : Prop := ∃ y ∈ x.splitOn '&', "box=".toList <+: y

theorem takenForBox_iff (x : JsString) :
    TakenForBox x ↔ "box=".toList <+: x ∨ "&box=".toList <:+: x :=
  prefix_splitOn_iff (c := '&') (w := "box=".toList) (by decide)

/-- A parameter with another name is taken for a box only by what is inside
of it. -/
theorem takenForBox_of_name (name : String) {x : JsString} (hx : name.toList <+: x)
    (hname : ¬ name.toList <+: "box=".toList ∧ ¬ "box=".toList <+: name.toList) :
    TakenForBox x ↔ "&box=".toList <:+: x := by
  rw [takenForBox_iff, or_iff_right]
  intro hbox
  rcases List.prefix_or_prefix_of_prefix hx hbox with h | h
  · exact hname.1 h
  · exact hname.2 h

theorem not_takenForBox_of_amp (name : String) {x : JsString} (hx : name.toList <+: x)
    (hname : ¬ name.toList <+: "box=".toList ∧ ¬ "box=".toList <+: name.toList) (hamp : '&' ∉ x) :
    ¬ TakenForBox x := by
  rw [takenForBox_of_name name hx hname]
  exact not_infix_of_not_mem (by decide : '&' ∈ "&box=".toList) hamp

theorem mmsi_takenForBox_iff (m : JsString) :
    TakenForBox ("mmsi=".toList ++ m.trim) ↔ "&box=".toList <:+: m := by
  rw [takenForBox_of_name "mmsi=" (List.prefix_append _ _) (by decide),
    ← infix_trim_iff (s := m) (by decide) (by decide)]
  exact infix_append_of_head_not_mem (c := '&') (w := "box=".toList) (by decide)

theorem exists_mmsi_takenForBox_iff :
    (∃ x ∈ mmsiParameters p, TakenForBox x) ↔ "&box=".toList <:+: p.mmsi.getD [] := by
  rw [← infix_mmsiPieces_iff (by decide) (by decide) (by decide)]
  constructor
  · rintro ⟨x, hx, htaken⟩
    obtain ⟨m, hm, rfl⟩ := List.mem_map.mp hx
    exact ⟨m, hm, (mmsi_takenForBox_iff m).mp htaken⟩
  · rintro ⟨m, hm, hinfix⟩
    exact ⟨_, List.mem_map_of_mem hm, (mmsi_takenForBox_iff m).mpr hinfix⟩

theorem columns_takenForBox_iff (fields : List JsString) :
    TakenForBox ("columns=".toList ++ [';'].intercalate fields) ↔
      ∃ field ∈ fields, "&box=".toList <:+: field := by
  rw [takenForBox_of_name "columns=" (List.prefix_append _ _) (by decide),
    ← infix_intercalate_iff (List.cons_ne_nil ';' []) (by decide) (by decide)]
  exact infix_append_of_head_not_mem (c := '&') (w := "box=".toList) (by decide)

theorem exists_columns_takenForBox_iff :
    (∃ x ∈ columnsParameters p, TakenForBox x) ↔
      p.outputFormat = .table ∧ ∃ field ∈ p.outputTableFields, "&box=".toList <:+: field := by
  rw [← columns_takenForBox_iff]
  unfold columnsParameters
  split
  next htable => simp only [List.mem_singleton, exists_eq_left, htable, true_and]
  next htable => simp only [List.not_mem_nil, false_and, exists_false, htable]

/-- The other parameters are not taken for one. -/
theorem takenForBox_cases {x : JsString} (hx : x ∈ parameters p) (htaken : TakenForBox x) :
    x ∈ mmsiParameters p ∨ x ∈ boxParameters p.area ∨ x ∈ columnsParameters p := by
  have hlater : x ∈ formatParameters p ++ columnsParameters p ++ tableParameters p ++
      limitParameters p → Plain x → False := by
    intro hx hplain
    obtain ⟨name, hname, hunder⟩ := exists_laterName p hx
    have hnames : ∀ name ∈ laterNames, ¬ name.toList <+: "box=".toList ∧
      ¬ "box=".toList <+: name.toList := by decide
    exact not_takenForBox_of_amp name hunder (hnames name hname) hplain.1 htaken
  simp only [List.mem_append] at hlater
  rcases (mem_parameters p).mp hx with hx | hx | hx | hx | hx | hx | hx
  · have hamp := amp_not_mem_filterParameters p hx
    obtain ⟨text, heq⟩ := eq_of_mem_filterParameters p hx
    have hunder : "filter=".toList <+: x := ⟨encodeURIComponent text, heq.symm⟩
    exact absurd htaken (not_takenForBox_of_amp "filter=" hunder (by decide) hamp)
  · exact .inl hx
  · exact .inr (.inl hx)
  · exact .inr (.inr hx)
  · exact (hlater (.inl (.inl (.inl hx))) (plain_of_mem_formatParameters p hx)).elim
  · exact (hlater (.inl (.inr hx)) (plain_of_mem_tableParameters p hx)).elim
  · exact (hlater (.inr hx) (plain_of_mem_limitParameters p hx)).elim

theorem not_box_interval (p : SearchParams Date) (format : Date → JsString) :
    ¬ "box=".toList <+: intervalParameter p format := by
  have hinterval : "interval=".toList <+: intervalParameter p format := by
    unfold intervalParameter
    apply List.prefix_append_of_prefix
    apply List.prefix_append_of_prefix
    apply List.prefix_append_of_prefix
    exact List.prefix_append _ _
  intro hbox
  rcases List.prefix_or_prefix_of_prefix hinterval hbox with h | h
  · exact absurd h (by decide)
  · exact absurd h (by decide)

theorem hasNoBox_iff (hformat : FormatsDates format) (hundefined : areaDefined p.area = false) :
    HasNoBox (updateDownloadUrl p format) ↔
      ¬ "&box=".toList <:+: p.mmsi.getD [] ∧
        (p.outputFormat = .table →
          ∀ field ∈ p.outputTableFields, ¬ "&box=".toList <:+: field) := by
  have hinterval := not_box_interval p format
  have hbox : boxParameters p.area = [] := by
    rw [boxParameters, hundefined]
    rfl
  have hsplit : HasNoBox (updateDownloadUrl p format) ↔
      ¬ ∃ x ∈ parameters p, TakenForBox x := by
    rw [HasNoBox, splitOn_updateDownloadUrl p hformat, List.forall_mem_cons,
      and_iff_right hinterval]
    constructor
    · rintro h ⟨x, hx, y, hy, hyx⟩
      exact h y (List.mem_flatMap.mpr ⟨x, hx, hy⟩) hyx
    · intro h y hy hyx
      obtain ⟨x, hx, hy⟩ := List.mem_flatMap.mp hy
      exact h ⟨x, hx, y, hy, hyx⟩
  have hcases : (∃ x ∈ parameters p, TakenForBox x) ↔
      (∃ x ∈ mmsiParameters p, TakenForBox x) ∨ ∃ x ∈ columnsParameters p, TakenForBox x := by
    constructor
    · rintro ⟨x, hx, htaken⟩
      rcases takenForBox_cases hx htaken with h | h | h
      · exact .inl ⟨x, h, htaken⟩
      · rw [hbox] at h
        cases h
      · exact .inr ⟨x, h, htaken⟩
    · simp only [mem_parameters]
      rintro (⟨x, hx, htaken⟩ | ⟨x, hx, htaken⟩)
      · exact ⟨x, .inr (.inl hx), htaken⟩
      · exact ⟨x, .inr (.inr (.inr (.inl hx))), htaken⟩
  rw [hsplit, hcases, exists_mmsi_takenForBox_iff, exists_columns_takenForBox_iff, not_or]
  apply and_congr_right
  intro _
  constructor
  · rintro h htable field hfield hinfix
    exact h ⟨htable, field, hfield, hinfix⟩
  · rintro h ⟨htable, field, hfield, hinfix⟩
    exact h htable field hfield hinfix

/-! ### Both cases -/

theorem areaDefined_iff {maxLat maxLon minLat minLon : ℚ} :
    areaDefined ⟨some maxLat, some maxLon, some minLat, some minLon⟩ = true ↔
      maxLat ≠ 0 ∧ maxLon ≠ 0 ∧ minLat ≠ 0 ∧ minLon ≠ 0 := by
  simp [areaDefined, truthy, and_assoc]

theorem areaDefined_of_missing {a : SearchArea}
    (h : ∀ maxLat maxLon minLat minLon : ℚ,
      a ≠ ⟨some maxLat, some maxLon, some minLat, some minLon⟩) : areaDefined a = false := by
  obtain ⟨_ | maxLat, _ | maxLon, _ | minLat, _ | minLon⟩ := a
  case some.some.some.some => exact absurd rfl (h maxLat maxLon minLat minLon)
  all_goals simp [areaDefined, truthy]

/-- The map draws what the URL is restricted to. -/
theorem areaFeatures_of_not_defined {a : SearchArea} (h : areaDefined a = false) :
    areaFeatures a = [] := by
  have hsame : (truthy a.maxLat && truthy a.maxLon && truthy a.minLat && truthy a.minLon) =
    areaDefined a := rfl
  rw [areaFeatures, hsame, h]
  rfl

theorem modelFormatter_isSome {formatter1 : ℚ → JsString} {x : ℚ} (hx : x ≠ 0) :
    (modelFormatter formatter1 (some x)).isSome := by
  simp [modelFormatter, formatter, truthy, hx]

/-- An area restricts the query, or is no area, exactly where no bound is 0
and no text pretends to be one. -/
theorem restrictsToArea_iff (format : Date → JsString) (hformat : FormatsDates format)
    (p : SearchParams Date) : RestrictsToArea format p ↔ AreaUnmistakable p := by
  have hmissing : areaDefined p.area = false →
      (areaDefined p.area = false ∧ HasNoBox (updateDownloadUrl p format) ∧
          areaFeatures p.area = [] ↔
        ¬ "&box=".toList <:+: p.mmsi.getD [] ∧
          (p.outputFormat = .table →
            ∀ field ∈ p.outputTableFields, ¬ "&box=".toList <:+: field)) := by
    intro hundefined
    rw [hasNoBox_iff hformat hundefined]
    simp only [hundefined, areaFeatures_of_not_defined hundefined, true_and, and_true]
  unfold RestrictsToArea AreaUnmistakable
  split
  next maxLat maxLon minLat minLon harea =>
    constructor
    · rintro ⟨hdefined, -⟩
      rw [harea] at hdefined
      exact areaDefined_iff.mp hdefined
    · intro hne
      have hdefined : areaDefined p.area = true := by
        rw [harea]
        exact areaDefined_iff.mpr hne
      refine ⟨hdefined, hasBox_of_ne_zero hformat harea hdefined, ?_,
        modelFormatter_isSome hne.1, modelFormatter_isSome hne.2.1,
        modelFormatter_isSome hne.2.2.1, modelFormatter_isSome hne.2.2.2⟩
      rw [harea] at hdefined ⊢
      exact if_pos hdefined
  next hnone =>
    apply hmissing
    apply areaDefined_of_missing
    intro maxLat maxLon minLat minLon harea
    exact hnone maxLat maxLon minLat minLon harea

end

/-- The default parameters with an area. -/
def withArea (maxLat maxLon minLat minLon : ℚ) : SearchParams Unit :=
  { clearParams () () with area := ⟨some maxLat, some maxLon, some minLat, some minLon⟩ }

theorem restrictsToArea_iff_kattegat : RestrictsToArea formatEpoch (withArea 58 12 56 10) :=
  (restrictsToArea_iff formatEpoch formatsDates_epoch (withArea 58 12 56 10)).mpr
    (by unfold AreaUnmistakable withArea; norm_num)

/-- An area that ends at the equator: the query is for the whole world. -/
theorem restrictsToArea_fails_at_equator :
    updateDownloadUrl (withArea 10 20 0 10) formatEpoch =
        "interval=1970-1-1T00:00:00Z/1970-1-1T00:00:00Z".toList ∧
      areaFeatures (withArea 10 20 0 10).area = [] ∧
      ¬ RestrictsToArea formatEpoch (withArea 10 20 0 10) := by
  refine ⟨by decide +kernel, by decide +kernel, ?_⟩
  rintro ⟨hdefined, -⟩
  exact absurd hdefined (by decide +kernel)

end AisStore
