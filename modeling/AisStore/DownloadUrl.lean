import AisStore.Lib.JsNumber
import AisStore.Lib.PercentEncoding
import AisStore.Lib.Substring

/-!
The query as the form puts it into a URL.

The search parameters are what the form edits and the browser keeps. The URL
is an interval and a list of parameters, with `&` in front of each: the
filter, put together from the lists of values, one `mmsi` for each piece of
the text in that field, the area, and the output format. Most of the lists
are encoded value by value, and the filter is encoded once more as a whole;
the text of the `mmsi` field is not encoded.

The dates are formatted by a library, which is a parameter of the model.
-/

namespace AisStore

open Lib

inductive OutputFormat where
  | raw
  | table
  | json
  | prefixedSentences
  | kml
  | html
  deriving DecidableEq

def OutputFormat.text : OutputFormat → JsString
  | raw => "raw".toList
  | table => "table".toList
  | json => "json".toList
  | prefixedSentences => "prefixed_sentences".toList
  | kml => "OUTPUT_TO_KML".toList
  | html => "OUTPUT_TO_HTML".toList

inductive TableSeparator where
  | semicolon
  | colon
  | comma
  deriving DecidableEq

def TableSeparator.char : TableSeparator → Char
  | semicolon => ';'
  | colon => ':'
  | comma => ','

/-- The bounds of an area, each of them a number or undefined. -/
structure SearchArea where
  maxLat : Option ℚ
  maxLon : Option ℚ
  minLat : Option ℚ
  minLon : Option ℚ
  deriving DecidableEq

/-- What the URL is made from, of the parameters that `clearParams` makes. -/
structure SearchParams (Date : Type) where
  sourceType : JsString
  sourceBs : List JsString
  sourceCountries : List JsString
  sourceRegions : List JsString
  targetCountries : List JsString
  targetImos : List JsString
  targetNames : List JsString
  targetCallsigns : List JsString
  targetTypes : List JsString
  targetNavstats : List JsString
  messageCountries : List JsString
  messageMmsi : List JsString
  messageImos : List JsString
  messageNames : List JsString
  messageCallsigns : List JsString
  messageTypes : List JsString
  messageNavstats : List JsString
  advancedFilter : JsString
  simple : Bool
  advanced : Bool
  mmsi : Option JsString
  startDate : Date
  endDate : Date
  area : SearchArea
  outputFormat : OutputFormat
  outputTableFields : List JsString
  outputTableSeparator : TableSeparator
  outputTableHeader : Bool
  limit : Option Numeral
  minDistance : Option Numeral
  minDuration : Option Numeral
  duplicateWindow : Option Numeral

/-- `clearParams()`, for an interval. -/
def clearParams {Date : Type} (startDate endDate : Date) : SearchParams Date where
  sourceType := []
  sourceBs := []
  sourceCountries := []
  sourceRegions := []
  targetCountries := []
  targetImos := []
  targetNames := []
  targetCallsigns := []
  targetTypes := []
  targetNavstats := []
  messageCountries := []
  messageMmsi := []
  messageImos := []
  messageNames := []
  messageCallsigns := []
  messageTypes := []
  messageNavstats := []
  advancedFilter := []
  simple := true
  advanced := false
  mmsi := none
  startDate := startDate
  endDate := endDate
  area := ⟨none, none, none, none⟩
  outputFormat := .raw
  outputTableFields := ["lat".toList, "lon".toList, "time".toList, "mmsi".toList]
  outputTableSeparator := .semicolon
  outputTableHeader := true
  limit := none
  minDistance := none
  minDuration := none
  duplicateWindow := none

/-! ### The filter -/

/-- A number that is set and not 0. -/
def truthy : Option ℚ → Bool
  | none => false
  | some x => x ≠ 0

def encodeValues (values : List JsString) : List JsString := values.map encodeURIComponent

/-- `values.join()`. -/
def join (values : List JsString) : JsString := [','].intercalate values

/-- One condition of the filter, where there are values for it. -/
def term (key : String) (values : List JsString) : JsString :=
  if values.length > 0 then " & ".toList ++ key.toList ++ '=' :: join values else []

section
variable {Date : Type} (p : SearchParams Date)

def typeTerm : JsString :=
  if p.sourceType = "SAT".toList ∨ p.sourceType = "LIVE".toList then
    " & s.type=".toList ++ p.sourceType
  else []

/-- The simple filter, with a separator in front of each condition. -/
def simpleFilter : JsString :=
  typeTerm p ++
  term "s.bs" (encodeValues p.sourceBs) ++
  term "s.country" p.sourceCountries ++
  term "s.region" (encodeValues p.sourceRegions) ++
  term "t.country" p.targetCountries ++
  term "t.imo" (encodeValues p.targetImos) ++
  term "t.name" (encodeValues p.targetNames) ++
  term "t.cs" (encodeValues p.targetCallsigns) ++
  term "t.type" p.targetTypes ++
  term "t.navstat" (encodeValues p.targetNavstats) ++
  term "m.country" p.messageCountries ++
  term "m.mmsi" (encodeValues p.messageMmsi) ++
  term "m.imo" (encodeValues p.messageImos) ++
  term "m.name" (encodeValues p.messageNames) ++
  term "m.cs" (encodeValues p.messageCallsigns) ++
  term "m.type" p.messageTypes ++
  term "m.navstat" (encodeValues p.messageNavstats)

def filterParameters : List JsString :=
  if p.simple then
    let filter := simpleFilter p
    if filter.length > 0 then ["filter=".toList ++ encodeURIComponent (filter.drop 3)] else []
  else if p.advanced ∧ p.advancedFilter ≠ [] then
    ["filter=".toList ++ encodeURIComponent p.advancedFilter]
  else []

/-! ### The other parameters -/

/-- The text of the field, cut at commas and blanks. -/
def mmsiPieces (mmsi : JsString) : List JsString :=
  (((mmsi.map fun c => if c = ',' then ' ' else c).splitOn ' ').filter (· ≠ []))

def mmsiParameters : List JsString :=
  (mmsiPieces (p.mmsi.getD [])).map fun m => "mmsi=".toList ++ JsString.trim m

/-- `areaDefined()`, as a condition. -/
def areaDefined (a : SearchArea) : Bool :=
  truthy a.maxLat && truthy a.maxLon && truthy a.minLat && truthy a.minLon

def boxParameters (a : SearchArea) : List JsString :=
  if areaDefined a then
    match a.maxLat, a.minLon, a.minLat, a.maxLon with
    | some maxLat, some minLon, some minLat, some maxLon =>
        ["box=".toList ++ toFixed 3 maxLat ++ ',' :: toFixed 3 minLon ++ ',' :: toFixed 3 minLat ++
          ',' :: toFixed 3 maxLon]
    | _, _, _, _ => []
  else []

def formatParameters : List JsString :=
  if p.outputFormat ≠ .raw then ["output=".toList ++ p.outputFormat.text] else []

def columnsParameters : List JsString :=
  if p.outputFormat = .table then ["columns=".toList ++ [';'].intercalate p.outputTableFields]
  else []

def tableParameters : List JsString :=
  if p.outputFormat = .table then
    ["separator=".toList ++ [p.outputTableSeparator.char]] ++
      if p.outputTableHeader then [] else ["noHeader".toList]
  else []

/-- A parameter with a number, where it is set and not 0. -/
def numberParameter (before : String) (x : Option Numeral) (after : String) : List JsString :=
  match x with
  | none => []
  | some x => if x.digits = 0 then [] else [before.toList ++ x.toString ++ after.toList]

def limitParameters : List JsString :=
  numberParameter "limit=" p.limit "" ++
  numberParameter "minDistance=" p.minDistance "" ++
  numberParameter "minDuration=P0Y0M0DT0H0M" p.minDuration "S" ++
  numberParameter "duplicateWindow=" p.duplicateWindow ""

/-- What comes after the interval. -/
def parameters : List JsString :=
  filterParameters p ++ mmsiParameters p ++ boxParameters p.area ++ formatParameters p ++
    columnsParameters p ++ tableParameters p ++ limitParameters p

/-- `interval=` and the two dates, each of them in UTC. -/
def intervalParameter (format : Date → JsString) : JsString :=
  "interval=".toList ++ format p.startDate ++ "Z/".toList ++ format p.endDate ++ "Z".toList

def updateDownloadUrl (format : Date → JsString) : JsString :=
  intervalParameter p format ++ (parameters p).flatMap ('&' :: ·)

end

/-! ### The lists of the filter -/

/-- A list of values, the name it has in the filter, and whether its values
are encoded one by one. -/
structure Facet where
  key : String
  encoded : Bool
  values : List JsString

def facets {Date : Type} (p : SearchParams Date) : List Facet :=
  [⟨"s.bs", true, p.sourceBs⟩, ⟨"s.country", false, p.sourceCountries⟩,
    ⟨"s.region", true, p.sourceRegions⟩, ⟨"t.country", false, p.targetCountries⟩,
    ⟨"t.imo", true, p.targetImos⟩, ⟨"t.name", true, p.targetNames⟩,
    ⟨"t.cs", true, p.targetCallsigns⟩, ⟨"t.type", false, p.targetTypes⟩,
    ⟨"t.navstat", true, p.targetNavstats⟩, ⟨"m.country", false, p.messageCountries⟩,
    ⟨"m.mmsi", true, p.messageMmsi⟩, ⟨"m.imo", true, p.messageImos⟩,
    ⟨"m.name", true, p.messageNames⟩, ⟨"m.cs", true, p.messageCallsigns⟩,
    ⟨"m.type", false, p.messageTypes⟩, ⟨"m.navstat", true, p.messageNavstats⟩]

/-- The values as they are put into the filter, for an encoding. -/
def Facet.written (enc : JsString → JsString) (f : Facet) : List JsString :=
  if f.encoded then f.values.map enc else f.values

/-- A list is one condition of the filter, unless it is empty. -/
def Facet.conditions (enc : JsString → JsString) (f : Facet) : List JsString :=
  if f.values = [] then [] else [f.key.toList ++ '=' :: join (f.written enc)]

def typeConditions {Date : Type} (p : SearchParams Date) : List JsString :=
  if p.sourceType = "SAT".toList ∨ p.sourceType = "LIVE".toList then
    ["s.type=".toList ++ p.sourceType]
  else []

/-- The conditions of the filter, for an encoding of the values. -/
def conditions {Date : Type} (enc : JsString → JsString) (p : SearchParams Date) :
    List JsString :=
  typeConditions p ++ (facets p).flatMap (Facet.conditions enc)

theorem typeTerm_eq {Date : Type} (p : SearchParams Date) :
    typeTerm p = (typeConditions p).flatMap (" & ".toList ++ ·) := by
  unfold typeTerm typeConditions
  split
  · rw [List.flatMap_singleton, ← List.append_assoc]
    rfl
  · rfl

theorem term_eq (enc : JsString → JsString) (f : Facet) :
    term f.key (f.written enc) = (f.conditions enc).flatMap (" & ".toList ++ ·) := by
  unfold term Facet.conditions
  have hlength : (f.written enc).length > 0 ↔ ¬ f.values = [] := by
    unfold Facet.written
    split
    · simp [List.length_pos_iff]
    · simp [List.length_pos_iff]
  by_cases hnil : f.values = []
  · rw [if_neg (by simpa [hlength] using hnil), if_pos hnil]
    rfl
  · rw [if_pos (hlength.mpr hnil), if_neg hnil, List.flatMap_singleton, List.append_assoc]

/-- The filter is its conditions, with a separator in front of each. -/
theorem simpleFilter_eq {Date : Type} (p : SearchParams Date) :
    simpleFilter p = (conditions encodeURIComponent p).flatMap (" & ".toList ++ ·) := by
  have hfacets : simpleFilter p =
      typeTerm p ++ (facets p).flatMap fun f => term f.key (f.written encodeURIComponent) := by
    simp only [simpleFilter, facets, List.flatMap_cons, List.flatMap_nil, List.append_nil,
      Facet.written, if_true, List.append_assoc, encodeValues]
    rfl
  rw [hfacets, conditions, List.flatMap_append, typeTerm_eq, List.flatMap_assoc]
  simp only [term_eq]

/-! ### Its parameters -/

/-- The characters of a formatted date. -/
def isDateChar (c : Char) : Bool := c.isDigit || c ∈ ['-', '+', ':', 'T']

/-- What the date library's `format` gives for `YYYY-M-DTHH:mm:ss`. -/
def FormatsDates {Date : Type} (format : Date → JsString) : Prop :=
  ∀ d, (∀ c ∈ format d, isDateChar c = true) ∨ format d = "Invalid date".toList

/-- The beginning of 1970, as the only date there is. -/
def formatEpoch (_ : Unit) : JsString := "1970-1-1T00:00:00".toList

theorem formatsDates_epoch : FormatsDates formatEpoch := by
  rintro ⟨⟩
  exact .inl (by decide)

/-- Text that splitting and decoding leave alone. -/
def Plain (s : JsString) : Prop := '&' ∉ s ∧ '%' ∉ s

instance (s : JsString) : Decidable (Plain s) := inferInstanceAs (Decidable (_ ∧ _))

theorem Plain.append {s t : JsString} (hs : Plain s) (ht : Plain t) : Plain (s ++ t) := by
  simp [Plain, hs.1, hs.2, ht.1, ht.2]

theorem Plain.splitOn {s : JsString} (h : Plain s) : s.splitOn '&' = [s] :=
  List.splitOn_eq_singleton h.1

/-- What consists of characters of some kind is plain if the two marks are
not of that kind. -/
theorem plain_of_forall {kind : Char → Bool} {s : JsString} (h : ∀ c ∈ s, kind c = true)
    (hamp : kind '&' = false) (hpercent : kind '%' = false) : Plain s := by
  constructor
  · intro hmem
    rw [h _ hmem] at hamp
    cases hamp
  · intro hmem
    rw [h _ hmem] at hpercent
    cases hpercent

section
variable {Date : Type} {format : Date → JsString} (p : SearchParams Date)

theorem plain_format (hformat : FormatsDates format) (d : Date) : Plain (format d) := by
  rcases hformat d with h | h
  · exact plain_of_forall h rfl rfl
  · rw [h]
    decide

theorem plain_interval (hformat : FormatsDates format) : Plain (intervalParameter p format) :=
  ((((by decide : Plain "interval=".toList).append (plain_format hformat _)).append
    (by decide)).append (plain_format hformat _)).append (by decide)

theorem plain_toFixed (x : ℚ) : Plain (toFixed 3 x) :=
  plain_of_forall (isNumeralChar_toFixed 3 x) rfl rfl

/-- The box parameter, where there is one. -/
theorem eq_of_mem_boxParameters {a : SearchArea} {x : JsString} (h : x ∈ boxParameters a) :
    ∃ maxLat maxLon minLat minLon : ℚ,
      x = "box=".toList ++ toFixed 3 maxLat ++ ',' :: toFixed 3 minLon ++
        ',' :: toFixed 3 minLat ++ ',' :: toFixed 3 maxLon := by
  unfold boxParameters at h
  split at h
  · split at h
    next maxLat minLon minLat maxLon _ _ _ _ =>
      exact ⟨maxLat, maxLon, minLat, minLon, List.mem_singleton.mp h⟩
    · cases h
  · cases h

theorem plain_of_mem_boxParameters {a : SearchArea} {x : JsString} (h : x ∈ boxParameters a) :
    Plain x := by
  obtain ⟨maxLat, maxLon, minLat, minLon, rfl⟩ := eq_of_mem_boxParameters h
  have hcomma : ∀ s, Plain s → Plain (',' :: s) := fun s hs =>
    (by decide : Plain [',']).append hs
  exact ((((by decide : Plain "box=".toList).append (plain_toFixed _)).append
    (hcomma _ (plain_toFixed _))).append (hcomma _ (plain_toFixed _))).append
      (hcomma _ (plain_toFixed _))

theorem plain_of_mem_formatParameters {x : JsString} (h : x ∈ formatParameters p) : Plain x := by
  unfold formatParameters at h
  split at h
  · rw [List.mem_singleton.mp h]
    cases p.outputFormat
    all_goals decide
  · cases h

theorem plain_of_mem_tableParameters {x : JsString} (h : x ∈ tableParameters p) : Plain x := by
  unfold tableParameters at h
  split at h
  · rcases List.mem_append.mp h with h | h
    · rw [List.mem_singleton.mp h]
      cases p.outputTableSeparator
      all_goals decide
    · split at h
      · cases h
      · rw [List.mem_singleton.mp h]
        decide
  · cases h

theorem plain_of_mem_numberParameter {before after : String} {x : Option Numeral} {s : JsString}
    (hbefore : Plain before.toList) (hafter : Plain after.toList)
    (h : s ∈ numberParameter before x after) : Plain s := by
  unfold numberParameter at h
  split at h
  · cases h
  next x =>
    split at h
    · cases h
    · rw [List.mem_singleton.mp h]
      exact (hbefore.append (plain_of_forall (isNumeralChar_toString x) rfl rfl)).append hafter

theorem plain_of_mem_limitParameters {x : JsString} (h : x ∈ limitParameters p) : Plain x := by
  unfold limitParameters at h
  simp only [List.mem_append] at h
  rcases h with ((h | h) | h) | h
  all_goals exact plain_of_mem_numberParameter (by decide) (by decide) h

theorem mem_parameters {x : JsString} :
    x ∈ parameters p ↔ x ∈ filterParameters p ∨ x ∈ mmsiParameters p ∨ x ∈ boxParameters p.area ∨
      x ∈ columnsParameters p ∨ x ∈ formatParameters p ∨ x ∈ tableParameters p ∨
      x ∈ limitParameters p := by
  simp only [parameters, List.mem_append, or_assoc, or_left_comm]

/-- The URL, split: the interval, and the parameters, each of them split
once more where something in it looks like a separator. -/
theorem splitOn_updateDownloadUrl (hformat : FormatsDates format) :
    (updateDownloadUrl p format).splitOn '&' =
      intervalParameter p format :: (parameters p).flatMap (·.splitOn '&') := by
  rw [updateDownloadUrl, JsString.splitOn_append_flatMap_cons,
    (plain_interval p hformat).splitOn, List.singleton_append]

/-- Cutting the text of the `mmsi` field loses no word without blank and
comma. -/
theorem infix_mmsiPieces_iff {w mmsi : JsString} (hcomma : ',' ∉ w) (hblank : ' ' ∉ w)
    (hne : w ≠ []) : (∃ m ∈ mmsiPieces mmsi, w <:+: m) ↔ w <:+: mmsi := by
  have hrewrites : Rewrites (fun c => [if c = ',' then ' ' else c]) w := by
    intro c
    by_cases hc : c = ','
    · subst hc
      exact .inr ⟨hcomma, by simp, by simpa using hblank⟩
    · simp [hc]
  rw [← infix_flatMap_iff hrewrites hne, ← List.map_eq_flatMap, ← infix_splitOn_iff hblank hne]
  simp only [mmsiPieces, List.mem_filter, decide_eq_true_eq]
  constructor
  · rintro ⟨m, hm, hw⟩
    exact ⟨m, hm.1, hw⟩
  · rintro ⟨m, hm, hw⟩
    refine ⟨m, ⟨hm, ?_⟩, hw⟩
    rintro rfl
    exact hne (List.infix_nil.mp hw)

/-- How a filter parameter is made. -/
theorem eq_of_mem_filterParameters {x : JsString} (h : x ∈ filterParameters p) :
    ∃ text, x = "filter=".toList ++ encodeURIComponent text := by
  unfold filterParameters at h
  split at h
  · dsimp only at h
    split at h
    · exact ⟨_, List.mem_singleton.mp h⟩
    · cases h
  · split at h
    · exact ⟨_, List.mem_singleton.mp h⟩
    · cases h

theorem amp_not_mem_filterParameters {x : JsString} (h : x ∈ filterParameters p) : '&' ∉ x := by
  obtain ⟨text, rfl⟩ := eq_of_mem_filterParameters p h
  rw [List.mem_append, not_or]
  exact ⟨by decide, not_mem_encode (by decide) (by decide) text⟩

/-- How the parameters after the box begin. -/
def laterNames : List String :=
  ["output=", "columns=", "separator=", "noHeader", "limit=", "minDistance=", "minDuration=",
    "duplicateWindow="]

theorem prefix_of_mem_numberParameter {name before after : String} {x : Option Numeral}
    {s : JsString} (hname : name.toList <+: before.toList)
    (h : s ∈ numberParameter before x after) : name.toList <+: s := by
  unfold numberParameter at h
  split at h
  · cases h
  · split at h
    · cases h
    · rw [List.mem_singleton.mp h, List.append_assoc]
      exact hname.trans (List.prefix_append _ _)

theorem exists_laterName {x : JsString} (h : x ∈ formatParameters p ++ columnsParameters p ++
    tableParameters p ++ limitParameters p) : ∃ name ∈ laterNames, name.toList <+: x := by
  simp only [List.mem_append] at h
  rcases h with ((h | h) | h) | h
  · unfold formatParameters at h
    split at h
    · exact ⟨"output=", by decide, List.mem_singleton.mp h ▸ List.prefix_append _ _⟩
    · cases h
  · unfold columnsParameters at h
    split at h
    · exact ⟨"columns=", by decide, List.mem_singleton.mp h ▸ List.prefix_append _ _⟩
    · cases h
  · unfold tableParameters at h
    split at h
    · rcases List.mem_append.mp h with h | h
      · exact ⟨"separator=", by decide, List.mem_singleton.mp h ▸ List.prefix_append _ _⟩
      · split at h
        · cases h
        · exact ⟨"noHeader", by decide, List.mem_singleton.mp h ▸ List.prefix_rfl⟩
    · cases h
  · simp only [limitParameters, List.mem_append] at h
    rcases h with ((h | h) | h) | h
    · exact ⟨"limit=", by decide, prefix_of_mem_numberParameter (by decide) h⟩
    · exact ⟨"minDistance=", by decide, prefix_of_mem_numberParameter (by decide) h⟩
    · exact ⟨"minDuration=", by decide, prefix_of_mem_numberParameter (by decide) h⟩
    · exact ⟨"duplicateWindow=", by decide, prefix_of_mem_numberParameter (by decide) h⟩

end

end AisStore
