import AisStore.Downloader
import AisStore.DownloadUrl

/-!
The extension of a download, and what it follows.

The downloader looks for words in the whole URL to tell the output format,
one word after another, and the URL has text of the user in it. No other
part of a URL has one of the words in it (`word_infix_url_iff`), so that the
extension is the one of the chosen format as long as no word that is looked
for before the format's own is in the text of the user.
-/

namespace AisStore

open Lib

/-- The extension that belongs to a format. -/
def OutputFormat.extension : OutputFormat → String
  | table => ".csv"
  | json => ".json"
  | kml => ".kml"
  | html => ".html"
  | raw => ".txt"
  | prefixedSentences => ".txt"

/-- The words `fileType` looks for. -/
def words : List String := ["OUTPUT_TO_KML", "OUTPUT_TO_HTML", "table", "json"]

/-- The words it looks for before it can come to a format's own extension. -/
def OutputFormat.wordsBefore : OutputFormat → List String
  | kml => []
  | html => ["OUTPUT_TO_KML"]
  | table => ["OUTPUT_TO_KML", "OUTPUT_TO_HTML"]
  | json => ["OUTPUT_TO_KML", "OUTPUT_TO_HTML", "table"]
  | raw => words
  | prefixedSentences => words

/-- The default of `ais.view.url`. -/
def aisViewUrl : JsString :=
  "https://ais2.e-navigation.net/aisview/rest/store/query?".toList

/-- The text that goes into the filter. -/
def filterTexts {Date : Type} (p : SearchParams Date) : List JsString :=
  if p.simple then (facets p).flatMap Facet.values
  else if p.advanced then [p.advancedFilter] else []

/-- The text in a URL that is not from the page: that of the filter and of the
`mmsi` field, and the columns of a table. -/
def userTexts {Date : Type} (p : SearchParams Date) : List JsString :=
  filterTexts p ++ [p.mmsi.getD []] ++
  if p.outputFormat = .table then p.outputTableFields else []

/-! ### The words -/

section
variable {w : JsString}

theorem word_ne_nil (hw : w ∈ words.map String.toList) : w ≠ [] := by
  revert w
  decide

theorem not_mem_word {c : Char} (hc : c ∈ ['&', '=', ' ', ',', ';', '?'])
    (hw : w ∈ words.map String.toList) : c ∉ w := by
  have hnone : ∀ w ∈ words.map String.toList, ∀ c ∈ ['&', '=', ' ', ',', ';', '?'], c ∉ w := by
    decide
  exact hnone w hw c hc

theorem not_mem_of_separators {s : JsString} (hs : ∀ c ∈ s, c ∈ ['&', '=', ' ', ',', ';', '?'])
    (hw : w ∈ words.map String.toList) : ∀ c ∈ s, c ∉ w :=
  fun c hc => not_mem_word (hs c hc) hw

theorem isWhiteSpace_word (hw : w ∈ words.map String.toList) :
    ∀ c ∈ w, isWhiteSpace c = false := by
  revert w
  decide

/-- Encoding neither makes a word nor breaks one. -/
theorem rewrites_encodeChar (hw : w ∈ words.map String.toList) : Rewrites encodeChar w := by
  have hunreserved : ∀ w ∈ words.map String.toList, ∀ c ∈ w, isUnreserved c = true := by decide
  have hpercent : ∀ w ∈ words.map String.toList, '%' ∉ w := by decide
  have hdigits : ∀ w ∈ words.map String.toList, ∀ c ∈ "0123456789ABCDEF".toList, c ∉ w := by decide
  have hhex : ∀ n < 16, hexDigit n ∉ w := fun n hn => hdigits w hw _ (hexDigit_mem hn)
  intro x
  unfold encodeChar
  split
  · exact .inl rfl
  next hx =>
    refine .inr ⟨fun hmem => hx (hunreserved w hw x hmem), ?_, ?_⟩
    · rw [ne_eq, List.flatMap_eq_nil_iff]
      intro hnil
      obtain ⟨b, bs, hb⟩ := List.exists_cons_of_ne_nil (String.utf8EncodeChar_ne_nil (c := x))
      have := hnil b (by simp [hb])
      simp [percentEncode] at this
    · intro y hy
      obtain ⟨b, -, hy⟩ := List.mem_flatMap.mp hy
      have hb := b.toNat_lt
      simp only [percentEncode, List.mem_cons, List.not_mem_nil, or_false] at hy
      rcases hy with rfl | rfl | rfl
      · exact hpercent w hw
      · exact hhex _ (by omega)
      · exact hhex _ (by omega)

theorem word_infix_encode_iff (hw : w ∈ words.map String.toList) (s : JsString) :
    w <:+: encodeURIComponent s ↔ w <:+: s :=
  infix_flatMap_iff (rewrites_encodeChar hw) (word_ne_nil hw)

/-- A name and its value: the word is in the value. -/
theorem word_infix_value_iff (hw : w ∈ words.map String.toList) {name : JsString}
    (hname : ¬ w <:+: name) (value : JsString) : w <:+: name ++ '=' :: value ↔ w <:+: value := by
  rw [infix_append_cons_iff (not_mem_word (by decide) hw), or_iff_right hname]

/-- Text of one kind of characters has none of some others. -/
theorem not_mem_of_kind {kind : Char → Bool} {s : JsString} (h : ∀ c ∈ s, kind c = true)
    {marks : List Char} (hmarks : ∀ c ∈ marks, kind c = false) : ∀ c ∈ s, c ∉ marks := by
  intro c hc hmem
  have hkind := h c hc
  rw [hmarks c hmem] at hkind
  cases hkind

/-- Text without the characters of a kind that every word has one of. -/
theorem not_word_infix {marks : List Char} (hw : w ∈ words.map String.toList)
    (hmarks : ∀ w ∈ words.map String.toList, ∃ c ∈ w, c ∈ marks) {s : JsString}
    (hs : ∀ c ∈ s, c ∉ marks) : ¬ w <:+: s := by
  obtain ⟨c, hc, hmark⟩ := hmarks w hw
  exact not_infix_of_not_mem hc fun hmem => hs c hmem hmark

theorem exists_mark_b : ∀ w ∈ words.map String.toList, ∃ c ∈ w, c ∈ ['_', 'b', 'j'] := by decide

theorem exists_mark_l : ∀ w ∈ words.map String.toList, ∃ c ∈ w, c ∈ ['_', 'l', 'j'] := by decide

/-! ### The parameters -/

variable {Date : Type} {format : Date → JsString} (p : SearchParams Date)

theorem not_word_infix_interval (hformat : FormatsDates format)
    (hw : w ∈ words.map String.toList) : ¬ w <:+: intervalParameter p format := by
  have hdate : ∀ d, ∀ c ∈ format d, c ∉ ['_', 'b', 'j'] := by
    intro d
    rcases hformat d with h | h
    · exact not_mem_of_kind h (by decide)
    · rw [h]
      decide
  apply not_word_infix hw exists_mark_b
  unfold intervalParameter
  refine List.forall_mem_append.mpr ⟨List.forall_mem_append.mpr ⟨List.forall_mem_append.mpr
    ⟨List.forall_mem_append.mpr ⟨by decide, hdate _⟩, by decide⟩, hdate _⟩, by decide⟩

/-- The conditions of the filter have the words of their values. -/
theorem word_infix_conditions_iff (hw : w ∈ words.map String.toList) :
    (∃ x ∈ conditions encodeURIComponent p, w <:+: x) ↔
      ∃ f ∈ facets p, ∃ v ∈ f.values, w <:+: v := by
  have htype : ∀ x ∈ typeConditions p, ¬ w <:+: x := by
    unfold typeConditions
    split
    next h =>
      intro x hx
      rw [List.mem_singleton.mp hx]
      apply not_word_infix hw exists_mark_b
      rcases h with h | h
      · rw [h]
        decide
      · rw [h]
        decide
    · exact fun x hx => nomatch hx
  have hkeys : ∀ f ∈ facets p, ¬ w <:+: f.key.toList := by
    intro f hf
    apply not_word_infix hw exists_mark_l
    simp only [facets, List.mem_cons, List.not_mem_nil, or_false] at hf
    rcases hf with rfl | rfl | rfl | rfl | rfl | rfl | rfl | rfl | rfl | rfl | rfl | rfl | rfl |
      rfl | rfl | rfl
    all_goals
      dsimp only
      decide
  have hwritten : ∀ f : Facet, (∃ v ∈ f.written encodeURIComponent, w <:+: v) ↔
      ∃ v ∈ f.values, w <:+: v := by
    intro f
    unfold Facet.written
    split
    · simp only [List.mem_map, exists_exists_and_eq_and, word_infix_encode_iff hw]
    · rfl
  have hconditions : ∀ f ∈ facets p, (∃ x ∈ f.conditions encodeURIComponent, w <:+: x) ↔
      ∃ v ∈ f.values, w <:+: v := by
    intro f hf
    unfold Facet.conditions
    split
    next hnil => simp [hnil]
    · simp only [List.mem_singleton, exists_eq_left]
      rw [word_infix_value_iff hw (hkeys f hf), join,
        infix_intercalate_iff (List.cons_ne_nil ',' []) (not_mem_of_separators (by decide) hw)
          (word_ne_nil hw), hwritten]
  constructor
  · rintro ⟨x, hx, hinfix⟩
    rcases List.mem_append.mp hx with hx | hx
    · exact absurd hinfix (htype x hx)
    · obtain ⟨f, hf, hx⟩ := List.mem_flatMap.mp hx
      exact ⟨f, hf, (hconditions f hf).mp ⟨x, hx, hinfix⟩⟩
  · rintro ⟨f, hf, hv⟩
    obtain ⟨x, hx, hinfix⟩ := (hconditions f hf).mpr hv
    exact ⟨x, List.mem_append_right _ (List.mem_flatMap.mpr ⟨f, hf, hx⟩), hinfix⟩

theorem word_infix_simpleFilter_iff (hw : w ∈ words.map String.toList) :
    w <:+: (simpleFilter p).drop 3 ↔ ∃ text ∈ (facets p).flatMap Facet.values, w <:+: text := by
  have hdrop := JsString.drop_flatMap_append " & ".toList (conditions encodeURIComponent p)
  have hlength : " & ".toList.length = 3 := by decide
  rw [hlength, ← simpleFilter_eq] at hdrop
  rw [hdrop, infix_intercalate_iff (by decide) (not_mem_of_separators (by decide) hw)
    (word_ne_nil hw), word_infix_conditions_iff p hw]
  constructor
  · rintro ⟨f, hf, v, hv, hinfix⟩
    exact ⟨v, List.mem_flatMap.mpr ⟨f, hf, hv⟩, hinfix⟩
  · rintro ⟨v, hv, hinfix⟩
    obtain ⟨f, hf, hv⟩ := List.mem_flatMap.mp hv
    exact ⟨f, hf, v, hv, hinfix⟩

theorem word_infix_filter_iff (hw : w ∈ words.map String.toList) :
    (∃ x ∈ filterParameters p, w <:+: x) ↔ ∃ text ∈ filterTexts p, w <:+: text := by
  have hname : ¬ w <:+: "filter".toList := not_word_infix hw exists_mark_b (by decide)
  have hvalue : ∀ text, w <:+: "filter=".toList ++ encodeURIComponent text ↔ w <:+: text := by
    intro text
    rw [← word_infix_encode_iff hw text]
    exact word_infix_value_iff hw hname _
  unfold filterParameters filterTexts
  split
  · rw [← word_infix_simpleFilter_iff p hw]
    dsimp only
    split
    · simp only [List.mem_singleton, exists_eq_left, hvalue]
    next hempty =>
      have hempty : simpleFilter p = [] := by simpa using hempty
      simp [hempty, word_ne_nil hw]
  · cases p.advanced with
    | false => simp
    | true =>
        by_cases hempty : p.advancedFilter = []
        · simp [hempty, word_ne_nil hw]
        · simp only [hempty, ne_eq, not_false_eq_true, and_self, if_true, List.mem_singleton,
            exists_eq_left, hvalue]

theorem word_infix_mmsi_iff (hw : w ∈ words.map String.toList) :
    (∃ x ∈ mmsiParameters p, w <:+: x) ↔ w <:+: p.mmsi.getD [] := by
  have hname : ¬ w <:+: "mmsi".toList := not_word_infix hw exists_mark_b (by decide)
  have hpiece : ∀ m : JsString, w <:+: "mmsi=".toList ++ m.trim ↔ w <:+: m := by
    intro m
    have hvalue : w <:+: "mmsi".toList ++ '=' :: m.trim ↔ w <:+: m.trim :=
      word_infix_value_iff hw hname _
    exact hvalue.trans (infix_trim_iff (isWhiteSpace_word hw) (word_ne_nil hw))
  rw [← infix_mmsiPieces_iff (not_mem_word (by decide) hw) (not_mem_word (by decide) hw)
    (word_ne_nil hw)]
  constructor
  · rintro ⟨x, hx, hinfix⟩
    obtain ⟨m, hm, rfl⟩ := List.mem_map.mp hx
    exact ⟨m, hm, (hpiece m).mp hinfix⟩
  · rintro ⟨m, hm, hinfix⟩
    exact ⟨_, List.mem_map_of_mem hm, (hpiece m).mpr hinfix⟩

theorem not_word_infix_box (hw : w ∈ words.map String.toList) {a : SearchArea} {x : JsString}
    (hx : x ∈ boxParameters a) : ¬ w <:+: x := by
  obtain ⟨maxLat, maxLon, minLat, minLon, rfl⟩ := eq_of_mem_boxParameters hx
  have hnumber : ∀ y, ∀ c ∈ toFixed 3 y, c ∉ ['_', 'l', 'j'] := fun y =>
    not_mem_of_kind (isNumeralChar_toFixed 3 y) (by decide)
  have hcomma : ∀ y, ∀ c ∈ ',' :: toFixed 3 y, c ∉ ['_', 'l', 'j'] := fun y =>
    List.forall_mem_cons.mpr ⟨by decide, hnumber y⟩
  apply not_word_infix hw exists_mark_l
  refine List.forall_mem_append.mpr ⟨List.forall_mem_append.mpr ⟨List.forall_mem_append.mpr
    ⟨List.forall_mem_append.mpr ⟨by decide, hnumber _⟩, hcomma _⟩, hcomma _⟩, hcomma _⟩

theorem word_infix_format_iff (hw : w ∈ words.map String.toList) :
    (∃ x ∈ formatParameters p, w <:+: x) ↔ w = p.outputFormat.text := by
  have hname : ¬ w <:+: "output".toList := not_word_infix hw exists_mark_b (by decide)
  have htext : ∀ w ∈ words.map String.toList, ∀ f : OutputFormat,
      w <:+: f.text ↔ w = f.text := by
    intro w hw f
    revert w
    cases f
    all_goals decide
  have hraw : ∀ w ∈ words.map String.toList, w ≠ OutputFormat.raw.text := by decide
  unfold formatParameters
  split
  · simp only [List.mem_singleton, exists_eq_left]
    rw [← htext w hw]
    exact word_infix_value_iff hw hname _
  next h =>
    rw [not_not] at h
    simp [h, hraw w hw]

theorem word_infix_columns_iff (hw : w ∈ words.map String.toList) :
    (∃ x ∈ columnsParameters p, w <:+: x) ↔
      p.outputFormat = .table ∧ ∃ field ∈ p.outputTableFields, w <:+: field := by
  have hname : ¬ w <:+: "columns".toList := not_word_infix hw exists_mark_b (by decide)
  have hvalue : w <:+: "columns=".toList ++ [';'].intercalate p.outputTableFields ↔
      ∃ field ∈ p.outputTableFields, w <:+: field := by
    rw [← infix_intercalate_iff (List.cons_ne_nil ';' [])
      (not_mem_of_separators (s := [';']) (by decide) hw) (word_ne_nil hw)]
    exact word_infix_value_iff hw hname _
  unfold columnsParameters
  split
  next htable =>
    simp only [List.mem_singleton, exists_eq_left, hvalue, htable, true_and]
  next htable =>
    simp only [List.not_mem_nil, false_and, exists_false, htable]

theorem not_word_infix_table (hw : w ∈ words.map String.toList) {x : JsString}
    (hx : x ∈ tableParameters p) : ¬ w <:+: x := by
  unfold tableParameters at hx
  split at hx
  · rcases List.mem_append.mp hx with hx | hx
    · rw [List.mem_singleton.mp hx]
      apply not_word_infix hw exists_mark_b
      cases p.outputTableSeparator
      all_goals decide
    · split at hx
      · cases hx
      · rw [List.mem_singleton.mp hx]
        exact not_word_infix hw exists_mark_b (by decide)
  · cases hx

theorem not_word_infix_number (hw : w ∈ words.map String.toList) {before after : String}
    {n : Option Numeral} {x : JsString} (hbefore : ∀ c ∈ before.toList, c ∉ ['_', 'b', 'j'])
    (hafter : ∀ c ∈ after.toList, c ∉ ['_', 'b', 'j']) (hx : x ∈ numberParameter before n after) :
    ¬ w <:+: x := by
  unfold numberParameter at hx
  split at hx
  · cases hx
  next n =>
    split at hx
    · cases hx
    · rw [List.mem_singleton.mp hx]
      apply not_word_infix hw exists_mark_b
      refine List.forall_mem_append.mpr ⟨List.forall_mem_append.mpr ⟨hbefore, ?_⟩, hafter⟩
      exact not_mem_of_kind (isNumeralChar_toString n) (by decide)

theorem not_word_infix_limit (hw : w ∈ words.map String.toList) {x : JsString}
    (hx : x ∈ limitParameters p) : ¬ w <:+: x := by
  simp only [limitParameters, List.mem_append] at hx
  rcases hx with ((hx | hx) | hx) | hx
  all_goals exact not_word_infix_number hw (by decide) (by decide) hx

theorem word_infix_base_iff (hw : w ∈ words.map String.toList) (s : JsString) :
    w <:+: aisViewUrl ++ s ↔ w <:+: s := by
  have hlast : aisViewUrl = aisViewUrl.dropLast ++ ['?'] := by decide +kernel
  have hnone : ¬ w <:+: aisViewUrl.dropLast :=
    not_word_infix hw exists_mark_b (by decide +kernel)
  generalize aisViewUrl.dropLast = front at hlast hnone
  rw [hlast, List.append_assoc, List.singleton_append,
    infix_append_cons_iff (not_mem_word (by decide) hw), or_iff_right hnone]

/-- The words in a URL are those in the text of the user and the name of the
format. -/
theorem word_infix_url_iff (hformat : FormatsDates format) (hw : w ∈ words.map String.toList) :
    w <:+: aisViewUrl ++ updateDownloadUrl p format ↔
      (∃ text ∈ userTexts p, w <:+: text) ∨ w = p.outputFormat.text := by
  have hparameters : w <:+: aisViewUrl ++ updateDownloadUrl p format ↔
      ∃ x ∈ parameters p, w <:+: x := by
    rw [word_infix_base_iff hw, updateDownloadUrl,
      infix_append_flatMap_cons_iff (not_mem_word (by decide) hw),
      or_iff_right (not_word_infix_interval p hformat hw)]
  have hparts : (∃ x ∈ parameters p, w <:+: x) ↔ (∃ x ∈ filterParameters p, w <:+: x) ∨
      (∃ x ∈ mmsiParameters p, w <:+: x) ∨ (∃ x ∈ columnsParameters p, w <:+: x) ∨
      ∃ x ∈ formatParameters p, w <:+: x := by
    simp only [mem_parameters]
    constructor
    · rintro ⟨x, hx | hx | hx | hx | hx | hx | hx, hinfix⟩
      · exact .inl ⟨x, hx, hinfix⟩
      · exact .inr (.inl ⟨x, hx, hinfix⟩)
      · exact absurd hinfix (not_word_infix_box hw hx)
      · exact .inr (.inr (.inl ⟨x, hx, hinfix⟩))
      · exact .inr (.inr (.inr ⟨x, hx, hinfix⟩))
      · exact absurd hinfix (not_word_infix_table p hw hx)
      · exact absurd hinfix (not_word_infix_limit p hw hx)
    · rintro (⟨x, hx, hinfix⟩ | ⟨x, hx, hinfix⟩ | ⟨x, hx, hinfix⟩ | ⟨x, hx, hinfix⟩)
      · exact ⟨x, .inl hx, hinfix⟩
      · exact ⟨x, .inr (.inl hx), hinfix⟩
      · exact ⟨x, .inr (.inr (.inr (.inl hx))), hinfix⟩
      · exact ⟨x, .inr (.inr (.inr (.inr (.inl hx)))), hinfix⟩
  have htexts : (∃ text ∈ userTexts p, w <:+: text) ↔ (∃ text ∈ filterTexts p, w <:+: text) ∨
      w <:+: p.mmsi.getD [] ∨
      p.outputFormat = .table ∧ ∃ field ∈ p.outputTableFields, w <:+: field := by
    unfold userTexts
    split
    next htable => simp [or_and_right, exists_or, htable]
    next htable => simp [or_and_right, exists_or, htable]
  rw [hparameters, hparts, word_infix_filter_iff p hw, word_infix_mmsi_iff p hw,
    word_infix_columns_iff p hw, word_infix_format_iff p hw, htexts, or_assoc, or_assoc]

end

/-! ### The extension -/

theorem contains_ofList (s : JsString) (word : String) :
    contains (String.ofList s) word = true ↔ word.toList <:+: s := by
  simp [contains]

theorem fileType_ofList (s : JsString) :
    fileType (String.ofList s) =
      if "OUTPUT_TO_KML".toList <:+: s then ".kml"
      else if "OUTPUT_TO_HTML".toList <:+: s then ".html"
      else if "table".toList <:+: s then ".csv"
      else if "json".toList <:+: s then ".json"
      else ".txt" := by
  simp only [fileType, contains_ofList]

/-- The first word that is found decides, so that those before the format's
own are what matters. -/
theorem fileType_eq_extension_iff {url : String} {f : OutputFormat}
    (hown : ∀ word ∈ words, word.toList = f.text → contains url word = true) :
    fileType url = f.extension ↔ ∀ word ∈ f.wordsBefore, contains url word = false := by
  unfold fileType
  cases f with
  | raw =>
      simp only [OutputFormat.wordsBefore, words, OutputFormat.extension, List.forall_mem_cons,
        List.not_mem_nil, false_implies, implies_true, and_true]
      generalize contains url "OUTPUT_TO_KML" = kml, contains url "OUTPUT_TO_HTML" = html,
        contains url "table" = table, contains url "json" = json
      revert kml html table json
      decide
  | prefixedSentences =>
      simp only [OutputFormat.wordsBefore, words, OutputFormat.extension, List.forall_mem_cons,
        List.not_mem_nil, false_implies, implies_true, and_true]
      generalize contains url "OUTPUT_TO_KML" = kml, contains url "OUTPUT_TO_HTML" = html,
        contains url "table" = table, contains url "json" = json
      revert kml html table json
      decide
  | kml =>
      have hkml := hown "OUTPUT_TO_KML" (by decide) rfl
      simp [hkml, OutputFormat.wordsBefore, OutputFormat.extension]
  | html =>
      have hhtml := hown "OUTPUT_TO_HTML" (by decide) rfl
      simp only [hhtml, if_true, OutputFormat.wordsBefore, OutputFormat.extension,
        List.forall_mem_cons, List.not_mem_nil, false_implies, implies_true, and_true]
      generalize contains url "OUTPUT_TO_KML" = kml
      revert kml
      decide
  | table =>
      have htable := hown "table" (by decide) rfl
      simp only [htable, if_true, OutputFormat.wordsBefore, OutputFormat.extension,
        List.forall_mem_cons, List.not_mem_nil, false_implies, implies_true, and_true]
      generalize contains url "OUTPUT_TO_KML" = kml, contains url "OUTPUT_TO_HTML" = html
      revert kml html
      decide
  | json =>
      have hjson := hown "json" (by decide) rfl
      simp only [hjson, if_true, OutputFormat.wordsBefore, OutputFormat.extension,
        List.forall_mem_cons, List.not_mem_nil, false_implies, implies_true, and_true]
      generalize contains url "OUTPUT_TO_KML" = kml, contains url "OUTPUT_TO_HTML" = html,
        contains url "table" = table
      revert kml html table
      decide

/-- The extension of a download is that of the chosen format exactly if no
word that is looked for first is in the text of the user. -/
theorem fileType_url_iff {Date : Type} (format : Date → JsString) (hformat : FormatsDates format)
    (p : SearchParams Date) :
    fileType (String.ofList (aisViewUrl ++ updateDownloadUrl p format)) =
        p.outputFormat.extension ↔
      ∀ word ∈ p.outputFormat.wordsBefore, ∀ text ∈ userTexts p, ¬ word.toList <:+: text := by
  have hfound : ∀ word ∈ words,
      contains (String.ofList (aisViewUrl ++ updateDownloadUrl p format)) word = true ↔
        (∃ text ∈ userTexts p, word.toList <:+: text) ∨ word.toList = p.outputFormat.text := by
    intro word hword
    rw [contains_ofList, word_infix_url_iff p hformat (List.mem_map_of_mem hword)]
  have hbefore : ∀ f : OutputFormat, ∀ word ∈ f.wordsBefore,
      word ∈ words ∧ word.toList ≠ f.text := by
    intro f
    cases f
    all_goals decide
  rw [fileType_eq_extension_iff fun word hword hown => (hfound word hword).mpr (.inr hown)]
  apply forall₂_congr
  intro word hword
  obtain ⟨hmem, hne⟩ := hbefore _ word hword
  rw [← Bool.not_eq_true, hfound word hmem, or_iff_left hne]
  constructor
  · intro h text htext hinfix
    exact h ⟨text, htext, hinfix⟩
  · rintro h ⟨text, htext, hinfix⟩
    exact h text htext hinfix

/-- A table of the ships with a name, with the default columns. -/
def namedTable (name : JsString) : SearchParams Unit :=
  { clearParams () () with outputFormat := .table, targetNames := [name] }

theorem fileType_url_iff_maersk :
    fileType (String.ofList (aisViewUrl ++ updateDownloadUrl (namedTable "MAERSK".toList)
      formatEpoch)) = ".csv" :=
  (fileType_url_iff formatEpoch formatsDates_epoch (namedTable "MAERSK".toList)).mpr
    (by decide +kernel)

/-- The raw messages of a ship. -/
def namedRaw (name : JsString) : SearchParams Unit :=
  { clearParams () () with targetNames := [name] }

/-- The name of a ship decides: a table of the ships called `OUTPUT_TO_KML`
is named as a map, and the raw messages of the ship `notable` as a table. -/
theorem fileType_url_fails :
    (namedTable "OUTPUT_TO_KML".toList).outputFormat.extension = ".csv" ∧
      fileType (String.ofList (aisViewUrl ++ updateDownloadUrl
        (namedTable "OUTPUT_TO_KML".toList) formatEpoch)) = ".kml" ∧
      (namedRaw "notable".toList).outputFormat.extension = ".txt" ∧
      fileType (String.ofList (aisViewUrl ++ updateDownloadUrl
        (namedRaw "notable".toList) formatEpoch)) = ".csv" := by
  rw [fileType_ofList, fileType_ofList]
  decide +kernel

end AisStore
