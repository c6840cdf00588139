import AisStore.DownloadUrl

/-!
What the server reads in the URL of a query.

The server splits the query string at `&` and decodes each component once.
What it should read is the interval, the filter with the values of the form,
one `mmsi` for each number in that field, and the other parameters. It reads
that exactly where no type of source is chosen that the code does not write,
and where encoding once more, or not at all, makes no difference:
the two encodings of a list agree only on values that encoding leaves alone,
which is told by their length, and a piece of the `mmsi` text that is not
one number gives itself away in the first component that comes from it.
-/

namespace AisStore

open Lib

/-! ### What should be read -/

/-- The numbers in the `mmsi` field: what stands between white space and
commas. -/
def mmsiTokens (mmsi : JsString) : List JsString :=
  (mmsi.splitOnP fun c => isWhiteSpace c || c == ',').filter (· ≠ [])

/-- The condition on the type of the source, where one is chosen. -/
def chosenType {Date : Type} (p : SearchParams Date) : List JsString :=
  if p.sourceType = [] then [] else ["s.type=".toList ++ p.sourceType]

/-- What is chosen in the form, with the values as they are. -/
def expectedConditions {Date : Type} (p : SearchParams Date) : List JsString :=
  chosenType p ++ (facets p).flatMap (Facet.conditions id)

def filterComponents {Date : Type} (p : SearchParams Date) : List JsString :=
  if expectedConditions p = [] then []
  else ["filter=".toList ++ " & ".toList.intercalate (expectedConditions p)]

def expectedComponents {Date : Type} (format : Date → JsString) (p : SearchParams Date) :
    List JsString :=
  intervalParameter p format ::
    (filterComponents p ++ (mmsiTokens (p.mmsi.getD [])).map ("mmsi=".toList ++ ·) ++
      boxParameters p.area ++ formatParameters p ++ columnsParameters p ++ tableParameters p ++
      limitParameters p)

/-- The components of the URL, decoded, are those, byte for byte. -/
def CarriesQuery {Date : Type} (format : Date → JsString) (p : SearchParams Date) : Prop :=
  ((updateDownloadUrl p format).splitOn '&').map percentDecode =
    (expectedComponents format p).map utf8

/-- Text in which nothing is taken for a separator or an escape. -/
def Unmarked (s : JsString) : Prop := '&' ∉ s ∧ ¬ HasEscape s

/-- Text that is one number of the `mmsi` field, and read as such. -/
def OneToken (s : JsString) : Prop :=
  s ≠ [] ∧ (∀ c ∈ s, isWhiteSpace c = false) ∧ Unmarked s

/-- The values of a list are not changed by encoding. -/
def Facet.Unchanged (f : Facet) : Prop :=
  f.encoded = true → ∀ v ∈ f.values, ∀ c ∈ v, isUnreserved c = true

/-- Where the text of the `mmsi` field is cut. -/
def isCut (c : Char) : Bool := c == ' ' || c == ','

/-- No type of the source is chosen, or one of the two the code writes. -/
def TypeWritten {Date : Type} (p : SearchParams Date) : Prop :=
  p.sourceType = [] ∨ p.sourceType = "SAT".toList ∨ p.sourceType = "LIVE".toList

/-- The type of the source is written, if one is chosen; the values of the
encoded lists have no character that is changed by encoding; what stands
between blanks and commas in the `mmsi` text, trimmed, is one number; and
the columns of a table are unmarked. -/
def SurvivesEncoding {Date : Type} (p : SearchParams Date) : Prop :=
  TypeWritten p ∧
  (∀ f ∈ facets p, f.Unchanged) ∧
  (∀ piece : JsString, piece ∈ (p.mmsi.getD []).splitOnP isCut → piece ≠ [] →
    OneToken piece.trim) ∧
  (p.outputFormat = .table → ∀ name ∈ p.outputTableFields, Unmarked name)

/-! ### Decoding a parameter -/

/-- A parameter, split and decoded. -/
def decoded (x : JsString) : List (List UInt8) := (x.splitOn '&').map percentDecode

theorem decoded_plain {x : JsString} (h : Plain x) : decoded x = [utf8 x] := by
  rw [decoded, h.splitOn, List.map_singleton, percentDecode_plain h.2]

theorem flatMap_decoded_plain {xs : List JsString} (h : ∀ x ∈ xs, Plain x) :
    xs.flatMap decoded = xs.map utf8 := by
  induction xs with
  | nil => rfl
  | cons x xs ih =>
      rw [List.flatMap_cons, decoded_plain (h x (by simp)),
        ih fun y hy => h y (List.mem_cons_of_mem x hy)]
      rfl

/-- A name and a value: the value up to its first separator is decoded with
the name. -/
theorem decoded_named {name : JsString} (hname : Plain name) {value first : JsString}
    {others : List JsString} (h : value.splitOn '&' = first :: others) :
    decoded (name ++ value) = (utf8 name ++ percentDecode first) :: others.map percentDecode := by
  rw [decoded, JsString.splitOn_append_of_not_mem hname.1, h, List.modifyHead_cons, List.map_cons,
    percentDecode_plain_append hname.2]

/-- With an unmarked value both come out as they are, and only then. -/
theorem decoded_named_eq_iff {name : JsString} (hname : Plain name) (value : JsString) :
    decoded (name ++ value) = [utf8 (name ++ value)] ↔ Unmarked value := by
  obtain ⟨first, others, h⟩ := List.exists_cons_of_ne_nil (List.splitOn_ne_nil '&' value)
  have hfirst := JsString.first_of_splitOn h
  rw [decoded_named hname h, utf8_append, List.cons.injEq, List.map_eq_nil_iff,
    List.append_cancel_left_eq]
  constructor
  · rintro ⟨hdecode, rfl⟩
    rcases hfirst with rfl | ⟨rest, rfl⟩
    · have hamp : '&' ∉ first := JsString.not_mem_of_mem_splitOn (s := first) (by simp [h])
      exact ⟨hamp, percentDecode_eq_utf8_iff.mp hdecode⟩
    · have hlength := congrArg List.length hdecode
      have hle := length_percentDecode_le first
      have hpos := length_utf8EncodeChar_pos '&'
      rw [utf8_append, utf8_cons, List.length_append, List.length_append] at hlength
      omega
  · rintro ⟨hamp, hescape⟩
    rw [List.splitOn_eq_singleton hamp] at h
    cases h
    exact ⟨percentDecode_eq_utf8_iff.mpr hescape, rfl⟩

/-! ### The tokens of a piece -/

theorem mmsiTokens_append_cons {c : Char} (hc : isWhiteSpace c = true ∨ c = ',')
    (s t : JsString) : mmsiTokens (s ++ c :: t) = mmsiTokens s ++ mmsiTokens t := by
  rw [mmsiTokens, List.splitOnP_append_cons _ _ (by simpa using hc), List.filter_append]
  rfl

theorem mmsiTokens_nil : mmsiTokens [] = [] := rfl

theorem mmsiTokens_of_one {s : JsString} (hne : s ≠ []) (hspace : ∀ c ∈ s, isWhiteSpace c = false)
    (hcomma : ',' ∉ s) : mmsiTokens s = [s] := by
  have hsingle : (s.splitOnP fun c => isWhiteSpace c || c == ',') = [s] := by
    apply List.splitOnP_eq_singleton
    intro c hc
    have hne : c ≠ ',' := by
      rintro rfl
      exact hcomma hc
    simp [hspace c hc, hne]
  rw [mmsiTokens, hsingle]
  simp [hne]

/-- A token is not empty and has no white space. -/
theorem of_mem_mmsiTokens {mmsi token : JsString} (h : token ∈ mmsiTokens mmsi) :
    token ≠ [] ∧ ∀ c ∈ token, isWhiteSpace c = false := by
  rw [mmsiTokens, List.mem_filter] at h
  refine ⟨by simpa using h.2, ?_⟩
  intro c hc
  have hnot := JsString.of_mem_splitOnP h.1 c hc
  simp only [Bool.or_eq_false_iff] at hnot
  exact hnot.1

/-- White space around makes no difference. -/
theorem mmsiTokens_trim (s : JsString) : mmsiTokens s.trim = mmsiTokens s := by
  have hstart : ∀ s : JsString, mmsiTokens (s.dropWhile isWhiteSpace) = mmsiTokens s := by
    intro s
    induction s with
    | nil => rfl
    | cons c s ih =>
        rw [List.dropWhile_cons]
        split
        next hc =>
          rw [ih]
          exact (mmsiTokens_append_cons (.inl hc) [] s).symm
        · rfl
  have hend : ∀ s : JsString, mmsiTokens (s.rdropWhile isWhiteSpace) = mmsiTokens s := by
    intro s
    induction s using List.reverseRecOn with
    | nil => rfl
    | append_singleton s c ih =>
        rw [List.rdropWhile_concat]
        split
        next hc => rw [ih, mmsiTokens_append_cons (.inl hc), mmsiTokens_nil, List.append_nil]
        · rfl
  rw [JsString.trim, JsString.trimEnd, hend, JsString.trimStart, hstart]

/-- The pieces are what stands between blanks and commas. -/
theorem mmsiPieces_eq (mmsi : JsString) :
    mmsiPieces mmsi = (mmsi.splitOnP isCut).filter (· ≠ []) := by
  have hsplit : (mmsi.map fun c => if c = ',' then ' ' else c).splitOn ' ' =
      mmsi.splitOnP isCut := by
    induction mmsi with
    | nil => rfl
    | cons c mmsi ih =>
        rw [List.map_cons, List.splitOn_cons_eq_if_modifyHead, ih,
          List.splitOnP_cons_eq_if_modifyHead]
        by_cases hcomma : c = ','
        · simp [isCut, hcomma]
        · simp [isCut, hcomma]
  rw [mmsiPieces, hsplit]

theorem mem_mmsiPieces {mmsi piece : JsString} :
    piece ∈ mmsiPieces mmsi ↔ piece ∈ mmsi.splitOnP isCut ∧ piece ≠ [] := by
  rw [mmsiPieces_eq, List.mem_filter, decide_eq_true_eq]

/-- The pieces are cut further, and none of the tokens is lost. -/
theorem flatMap_mmsiTokens (mmsi : JsString) :
    (mmsiPieces mmsi).flatMap mmsiTokens = mmsiTokens mmsi := by
  -- `front` is what has been read of the piece that is being cut off
  have hsplit : ∀ front rest : JsString, (∀ c ∈ front, isCut c = false) →
      ((front ++ rest).splitOnP isCut).flatMap mmsiTokens = mmsiTokens (front ++ rest) := by
    intro front rest
    induction rest generalizing front with
    | nil =>
        intro hfront
        rw [List.append_nil, List.splitOnP_eq_singleton hfront, List.flatMap_singleton]
    | cons c rest ih =>
        intro hfront
        cases hc : isCut c with
        | true =>
            have hbreak : isWhiteSpace c = true ∨ c = ',' := by
              rcases (by simpa [isCut] using hc : c = ' ' ∨ c = ',') with rfl | rfl
              · exact .inl rfl
              · exact .inr rfl
            have hnil : (rest.splitOnP isCut).flatMap mmsiTokens = mmsiTokens rest :=
              ih [] (by simp)
            rw [List.splitOnP_append_cons _ _ hc, List.flatMap_append, hnil,
              List.splitOnP_eq_singleton hfront, List.flatMap_singleton,
              mmsiTokens_append_cons hbreak]
        | false =>
            have hlonger := ih (front ++ [c]) (by
              rw [List.forall_mem_append]
              exact ⟨hfront, by simpa using hc⟩)
            simpa using hlonger
  have hempty : ∀ pieces : List JsString,
      (pieces.filter (· ≠ [])).flatMap mmsiTokens = pieces.flatMap mmsiTokens := by
    intro pieces
    induction pieces with
    | nil => rfl
    | cons piece pieces ih =>
        by_cases hnil : piece = []
        · simp [hnil, mmsiTokens_nil, ← ih]
        · simp [hnil, ← ih]
  rw [mmsiPieces_eq, hempty]
  exact hsplit [] mmsi (by simp)

/-! ### The `mmsi` components -/

/-- The decoded beginning of a text is its first token only if the text is
that token, and nothing of it is decoded. -/
theorem eq_of_percentDecode_eq {text first token : JsString}
    (hfirst : first = text ∨ ∃ rest, text = first ++ '&' :: rest)
    (htoken : token = text ∨ ∃ c rest, text = token ++ c :: rest ∧ isWhiteSpace c = true)
    (hspace : ∀ c ∈ token, isWhiteSpace c = false) (h : percentDecode first = utf8 token) :
    first = text ∧ token = text := by
  have hfirst' : first <+: text := by
    rcases hfirst with rfl | ⟨rest, rfl⟩
    · exact List.prefix_rfl
    · exact List.prefix_append _ _
  have htoken' : token <+: text := by
    rcases htoken with rfl | ⟨c, rest, rfl, -⟩
    · exact List.prefix_rfl
    · exact List.prefix_append _ _
  have hsame : first = token → first = text ∧ token = text := by
    rintro rfl
    rcases hfirst with rfl | ⟨rest, hrest⟩
    · exact ⟨rfl, rfl⟩
    · rcases htoken with rfl | ⟨c, rest', hrest', hc⟩
      · exact ⟨rfl, rfl⟩
      · rw [hrest, List.append_cancel_left_eq] at hrest'
        rw [← (List.cons.inj hrest').1] at hc
        exact absurd hc (by decide)
  rcases List.prefix_or_prefix_of_prefix hfirst' htoken' with ⟨more, hmore⟩ | ⟨more, hmore⟩
  · cases more with
    | nil => exact hsame (by simpa using hmore)
    | cons c more =>
        -- the token is longer than what is decoded
        have hlength := congrArg List.length h
        have hle := length_percentDecode_le first
        have hpos := length_utf8EncodeChar_pos c
        rw [← hmore, utf8_append, utf8_cons, List.length_append, List.length_append] at hlength
        omega
  · cases more with
    | nil => exact hsame (by simpa using hmore.symm)
    | cons c more =>
        -- white space comes after the token, and is decoded with it
        have hc : isWhiteSpace c = true := by
          rcases htoken with rfl | ⟨d, rest, hrest, hd⟩
          · have hlength := hfirst'.length_le
            rw [← hmore, List.length_append, List.length_cons] at hlength
            omega
          · obtain ⟨rest', hrest'⟩ := hfirst'
            rw [← hmore, hrest, List.append_assoc, List.append_cancel_left_eq] at hrest'
            rwa [(List.cons.inj hrest').1]
        have hpercent : c ≠ '%' := by
          rintro rfl
          exact absurd hc (by decide)
        rw [← hmore, percentDecode_append_cons (JsString.hexValue_of_isWhiteSpace hc),
          percentDecode_of_not_escaped (escaped_of_ne _ hpercent)] at h
        have hmem : c ∈ token := by
          apply mem_of_utf8EncodeChar_infix
          exact ⟨percentDecode token, percentDecode more, by rw [← h, List.append_assoc]⟩
        rw [hspace c hmem] at hc
        cases hc

/-- The first token of a trimmed text that is not empty. -/
theorem exists_first_token {piece : JsString} (hcomma : ',' ∉ piece.trim)
    (hne : piece.trim ≠ []) :
    ∃ token others, mmsiTokens piece = token :: others ∧
      (token = piece.trim ∨
        ∃ c rest, piece.trim = token ++ c :: rest ∧ isWhiteSpace c = true) := by
  obtain ⟨first, others, hsplit⟩ := List.exists_cons_of_ne_nil
    (List.splitOnP_ne_nil (fun c => isWhiteSpace c || c == ',') piece.trim)
  have hfirst : first = piece.trim ∨
      ∃ c rest, piece.trim = first ++ c :: rest ∧ isWhiteSpace c = true := by
    rcases JsString.first_of_splitOnP hsplit with h | ⟨c, rest, h, hc⟩
    · exact .inl h
    · refine .inr ⟨c, rest, h, ?_⟩
      have hcomma' : c ≠ ',' := by
        rintro rfl
        exact hcomma (by simp [h])
      simpa [hcomma'] using hc
  have hnonempty : first ≠ [] := by
    rintro rfl
    rcases hfirst with h | ⟨c, rest, h, hc⟩
    · exact hne h.symm
    · rw [JsString.isWhiteSpace_of_trim_eq_cons h] at hc
      cases hc
  refine ⟨first, others.filter (· ≠ []), ?_, hfirst⟩
  rw [← mmsiTokens_trim, mmsiTokens, hsplit, List.filter_cons_of_pos (by simpa using hnonempty)]

theorem comma_not_mem_of_mem_mmsiPieces {mmsi piece : JsString} (h : piece ∈ mmsiPieces mmsi) :
    ',' ∉ piece := by
  intro hcomma
  exact absurd (JsString.of_mem_splitOnP (mem_mmsiPieces.mp h).1 ',' hcomma) (by decide)

theorem plain_mmsi : Plain "mmsi=".toList := by decide

/-- A piece that is one token is one component, with the token in it. -/
theorem decoded_of_oneToken {piece : JsString} (hcomma : ',' ∉ piece) (h : OneToken piece.trim) :
    decoded ("mmsi=".toList ++ piece.trim) =
      (mmsiTokens piece).map fun token => utf8 ("mmsi=".toList ++ token) := by
  rw [(decoded_named_eq_iff plain_mmsi _).mpr h.2.2, ← mmsiTokens_trim,
    mmsiTokens_of_one h.1 h.2.1 fun hmem => hcomma (JsString.mem_of_mem_trim hmem)]
  rfl

/-- If the first component of a piece is what is expected first, the piece is
one token. -/
theorem oneToken_of_head {piece token : JsString} {tokens : List JsString}
    {components : List (List UInt8)} (hcomma : ',' ∉ piece) (hne : piece.trim ≠ [])
    (htokens : mmsiTokens piece = token :: tokens)
    (hhead : decoded ("mmsi=".toList ++ piece.trim) =
      utf8 ("mmsi=".toList ++ token) :: components) : OneToken piece.trim := by
  have hcomma' : ',' ∉ piece.trim := fun hmem => hcomma (JsString.mem_of_mem_trim hmem)
  obtain ⟨first, others, hsplit⟩ :=
    List.exists_cons_of_ne_nil (List.splitOn_ne_nil '&' piece.trim)
  obtain ⟨token', tokens', htokens', htoken⟩ := exists_first_token hcomma' hne
  rw [htokens] at htokens'
  cases htokens'
  rw [decoded_named plain_mmsi hsplit, utf8_append, List.cons.injEq,
    List.append_cancel_left_eq] at hhead
  have hspace : ∀ c ∈ token, isWhiteSpace c = false :=
    (of_mem_mmsiTokens (by rw [htokens]; simp)).2
  obtain ⟨hfirst, heq⟩ :=
    eq_of_percentDecode_eq (JsString.first_of_splitOn hsplit) htoken hspace hhead.1
  have hamp : '&' ∉ piece.trim := by
    apply JsString.not_mem_of_mem_splitOn (s := piece.trim)
    rw [hsplit, hfirst]
    simp
  refine ⟨hne, heq ▸ hspace, hamp, ?_⟩
  rw [← percentDecode_eq_utf8_iff, ← hfirst, hhead.1, heq, hfirst]

/-- No token is empty, so that no component of one is the bare name. -/
theorem mmsi_not_mem_tokens (pieces : List JsString) :
    utf8 "mmsi=".toList ∉
      (pieces.flatMap mmsiTokens).map fun t => utf8 ("mmsi=".toList ++ t) := by
  intro hmem
  obtain ⟨t, ht, heq⟩ := List.mem_map.mp hmem
  obtain ⟨m, -, ht⟩ := List.mem_flatMap.mp ht
  exact (of_mem_mmsiTokens ht).1 (List.append_right_eq_self.mp (utf8_injective heq))

/-- The components of all pieces are what is expected exactly if each piece
is one token. -/
theorem mmsi_components_eq {pieces : List JsString} (hcomma : ∀ m ∈ pieces, ',' ∉ m)
    {others expected : List (List UInt8)} (hexpected : utf8 "mmsi=".toList ∉ expected)
    (h : pieces.flatMap (fun m => decoded ("mmsi=".toList ++ m.trim)) ++ others =
      ((pieces.flatMap mmsiTokens).map fun t => utf8 ("mmsi=".toList ++ t)) ++ expected) :
    (∀ m ∈ pieces, OneToken m.trim) ∧ others = expected := by
  induction pieces with
  | nil => exact ⟨by simp, by simpa using h⟩
  | cons piece pieces ih =>
      have hpiece := hcomma piece (by simp)
      have hne : piece.trim ≠ [] := by
        -- a component without a value, and nothing like it is expected
        intro hnil
        have hmem := List.not_mem_append (mmsi_not_mem_tokens (piece :: pieces)) hexpected
        rw [← h, List.flatMap_cons, hnil, List.append_nil, decoded_plain plain_mmsi] at hmem
        simp at hmem
      rw [List.flatMap_cons, List.flatMap_cons, List.map_append, List.append_assoc,
        List.append_assoc] at h
      have hone : OneToken piece.trim := by
        have hcomma' : ',' ∉ piece.trim := fun hmem => hpiece (JsString.mem_of_mem_trim hmem)
        obtain ⟨token, tokens, htokens, -⟩ := exists_first_token hcomma' hne
        obtain ⟨first, more, hsplit⟩ :=
          List.exists_cons_of_ne_nil (List.splitOn_ne_nil '&' piece.trim)
        have hdecoded := decoded_named plain_mmsi hsplit
        apply oneToken_of_head hpiece hne htokens
        rw [hdecoded, htokens, List.map_cons, List.cons_append, List.cons_append,
          List.cons.injEq] at h
        rw [hdecoded, h.1]
      rw [decoded_of_oneToken hpiece hone, List.append_cancel_left_eq] at h
      obtain ⟨hall, hrest⟩ := ih (fun m hm => hcomma m (List.mem_cons_of_mem piece hm)) h
      refine ⟨?_, hrest⟩
      intro m hm
      rcases List.mem_cons.mp hm with rfl | hm
      · exact hone
      · exact hall m hm

/-! ### The filter component -/

theorem length_join (values : List JsString) :
    (utf8 (join values)).length ≤ (utf8 (join (encodeValues values))).length ∧
      ((utf8 (join values)).length = (utf8 (join (encodeValues values))).length →
        ∀ v ∈ values, ∀ c ∈ v, isUnreserved c = true) := by
  induction values with
  | nil => simp [encodeValues]
  | cons v values ih =>
      obtain ⟨hle, hsame⟩ := length_utf8_encode v
      cases values with
      | nil => simpa [join, encodeValues] using ⟨hle, hsame⟩
      | cons w values =>
          simp only [join, encodeValues, List.map_cons, List.intercalate_cons_cons, utf8_append,
            List.length_append] at ih ⊢
          refine ⟨by omega, ?_⟩
          intro heq u hu
          rcases List.mem_cons.mp hu with rfl | hu
          · exact hsame (by omega)
          · exact ih.2 (by omega) u hu

/-- What a list adds to the filter, separator included. -/
def Facet.added (enc : JsString → JsString) (f : Facet) : JsString :=
  (f.conditions enc).flatMap (" & ".toList ++ ·)

theorem length_added (f : Facet) :
    (utf8 (f.added id)).length ≤ (utf8 (f.added encodeURIComponent)).length ∧
      ((utf8 (f.added id)).length = (utf8 (f.added encodeURIComponent)).length → f.Unchanged) := by
  unfold Facet.added Facet.conditions Facet.Unchanged Facet.written
  split
  next hnil => simp [hnil]
  · cases f.encoded with
    | false => simp
    | true =>
        obtain ⟨hle, hsame⟩ := length_join f.values
        unfold encodeValues at hle hsame
        simp only [List.flatMap_singleton, utf8_append, utf8_cons, List.length_append, if_true,
          List.map_id, forall_const]
        refine ⟨by omega, ?_⟩
        intro heq
        exact hsame (by omega)

theorem length_facets (fs : List Facet) :
    (utf8 (fs.flatMap (Facet.added id))).length ≤
        (utf8 (fs.flatMap (Facet.added encodeURIComponent))).length ∧
      ((utf8 (fs.flatMap (Facet.added id))).length =
          (utf8 (fs.flatMap (Facet.added encodeURIComponent))).length →
        ∀ f ∈ fs, f.Unchanged) := by
  induction fs with
  | nil => simp
  | cons f fs ih =>
      obtain ⟨hle, hsame⟩ := length_added f
      simp only [List.flatMap_cons, utf8_append, List.length_append]
      refine ⟨by omega, ?_⟩
      intro heq g hg
      rcases List.mem_cons.mp hg with rfl | hg
      · exact hsame (by omega)
      · exact ih.2 (by omega) g hg

theorem Facet.conditions_eq_nil_iff (enc : JsString → JsString) (f : Facet) :
    f.conditions enc = [] ↔ f.values = [] := by
  unfold Facet.conditions
  split
  next h => simp [h]
  next h => simp [h]

theorem Facet.Unchanged.conditions_eq {f : Facet} (h : f.Unchanged) :
    f.conditions encodeURIComponent = f.conditions id := by
  have hwritten : f.written encodeURIComponent = f.written id := by
    unfold Facet.written
    split
    next hencoded =>
      apply List.map_congr_left
      intro v hv
      exact encode_of_unreserved (h hencoded v hv)
    · rfl
  rw [Facet.conditions, Facet.conditions, hwritten]

section
variable {Date : Type} {format : Date → JsString} (p : SearchParams Date)

theorem conditions_eq_nil_iff (enc : JsString → JsString) :
    conditions enc p = [] ↔ typeConditions p = [] ∧ ∀ f ∈ facets p, f.values = [] := by
  simp only [conditions, List.append_eq_nil_iff, List.flatMap_eq_nil_iff,
    Facet.conditions_eq_nil_iff]

theorem conditions_encode_eq_nil_iff :
    conditions encodeURIComponent p = [] ↔ conditions id p = [] :=
  (conditions_eq_nil_iff p _).trans (conditions_eq_nil_iff p _).symm

theorem flatMap_conditions (enc : JsString → JsString) :
    (conditions enc p).flatMap (" & ".toList ++ ·) =
      typeTerm p ++ (facets p).flatMap (Facet.added enc) := by
  rw [conditions, List.flatMap_append, typeTerm_eq, List.flatMap_assoc]
  rfl

/-- Two ways to write the values give the same filter, in length, only if
none of them is changed. -/
theorem unchanged_of_filter_eq (hne : conditions id p ≠ [])
    (h : utf8 (" & ".toList.intercalate (conditions encodeURIComponent p)) =
      utf8 (" & ".toList.intercalate (conditions id p))) : ∀ f ∈ facets p, f.Unchanged := by
  have hne' : conditions encodeURIComponent p ≠ [] := fun hnil =>
    hne ((conditions_encode_eq_nil_iff p).mp hnil)
  have hfilter : utf8 (typeTerm p ++ (facets p).flatMap (Facet.added encodeURIComponent)) =
      utf8 (typeTerm p ++ (facets p).flatMap (Facet.added id)) := by
    rw [← flatMap_conditions, ← flatMap_conditions, JsString.flatMap_append_eq hne,
      JsString.flatMap_append_eq hne', utf8_append, utf8_append, h]
  apply (length_facets (facets p)).2
  have hlength := congrArg List.length hfilter
  simp only [utf8_append, List.length_append] at hlength
  omega

/-- The filter parameter of the form, in terms of its conditions. -/
theorem filterParameters_simple (hsimple : p.simple = true) :
    filterParameters p =
      if conditions encodeURIComponent p = [] then []
      else ["filter=".toList ++
        encodeURIComponent (" & ".toList.intercalate (conditions encodeURIComponent p))] := by
  have hdrop : (simpleFilter p).drop 3 =
      " & ".toList.intercalate (conditions encodeURIComponent p) := by
    rw [simpleFilter_eq]
    exact JsString.drop_flatMap_append " & ".toList _
  unfold filterParameters
  rw [if_pos hsimple]
  dsimp only
  rw [hdrop]
  by_cases hnil : conditions encodeURIComponent p = []
  · rw [if_neg (by simp [simpleFilter_eq, hnil]), if_pos hnil]
  · rw [if_pos, if_neg hnil]
    rw [simpleFilter_eq, JsString.flatMap_append_eq hnil, List.length_append]
    exact Nat.lt_of_lt_of_le (by decide) (Nat.le_add_right _ _)

theorem decoded_filter (text : JsString) :
    decoded ("filter=".toList ++ encodeURIComponent text) = [utf8 ("filter=".toList ++ text)] := by
  have hamp := not_mem_encode (c := '&') (by decide) (by decide) text
  have hvalue := percentDecode_encode_append text []
  rw [List.append_nil, percentDecode_nil, List.append_nil] at hvalue
  rw [decoded_named (by decide) (List.splitOn_eq_singleton hamp), hvalue, utf8_append]
  rfl

/-- The filter, decoded, has the values encoded once. -/
theorem decoded_filterParameters (hsimple : p.simple = true) :
    (filterParameters p).flatMap decoded =
      if conditions id p = [] then []
      else [utf8 ("filter=".toList ++
        " & ".toList.intercalate (conditions encodeURIComponent p))] := by
  rw [filterParameters_simple p hsimple]
  by_cases hnil : conditions id p = []
  · rw [if_pos ((conditions_encode_eq_nil_iff p).mpr hnil), if_pos hnil]
    rfl
  · rw [if_neg (mt (conditions_encode_eq_nil_iff p).mp hnil), if_neg hnil, List.flatMap_singleton,
      decoded_filter]

/-- A type that is written is in the filter as it is. -/
theorem TypeWritten.expectedConditions_eq (h : TypeWritten p) :
    expectedConditions p = conditions id p := by
  unfold expectedConditions conditions chosenType typeConditions
  rcases h with h | h | h
  · rw [h]
    rfl
  · rw [if_neg (by rw [h]; decide), if_pos (.inl h)]
  · rw [if_neg (by rw [h]; decide), if_pos (.inr h)]

/-- It has the values as they are exactly if encoding them does nothing. -/
theorem filter_component_eq_iff (hsimple : p.simple = true) (htype : TypeWritten p) :
    (filterParameters p).flatMap decoded = (filterComponents p).map utf8 ↔
      ∀ f ∈ facets p, f.Unchanged := by
  rw [decoded_filterParameters p hsimple, filterComponents, htype.expectedConditions_eq]
  by_cases hnil : conditions id p = []
  · rw [if_pos hnil, if_pos hnil]
    simp only [List.map_nil, true_iff]
    intro f hf _ v hv
    rw [((conditions_eq_nil_iff p id).mp hnil).2 f hf] at hv
    cases hv
  · rw [if_neg hnil, if_neg hnil, List.map_singleton, List.cons.injEq, utf8_append, utf8_append,
      List.append_cancel_left_eq]
    constructor
    · rintro ⟨h, -⟩
      exact unchanged_of_filter_eq p hnil h
    · intro h
      have hsame : conditions encodeURIComponent p = conditions id p := by
        rw [conditions, conditions, List.flatMap_congr fun f hf => (h f hf).conditions_eq]
      rw [hsame]
      exact ⟨rfl, rfl⟩

/-! ### A type that is not written -/

/-- The expected filter then begins with the type. -/
theorem filterComponents_of_not (h : ¬ TypeWritten p) :
    ∃ more, filterComponents p = ["filter=".toList ++ ("s.type=".toList ++ more)] := by
  have hchosen : chosenType p = ["s.type=".toList ++ p.sourceType] := by
    rw [chosenType, if_neg fun hnil => h (.inl hnil)]
  obtain ⟨more, hmore⟩ : ∃ more, " & ".toList.intercalate (expectedConditions p) =
      "s.type=".toList ++ more := by
    rw [expectedConditions, hchosen, List.singleton_append]
    obtain ⟨more, hmore⟩ := JsString.prefix_intercalate " & ".toList
      ("s.type=".toList ++ p.sourceType) ((facets p).flatMap (Facet.conditions id))
    exact ⟨p.sourceType ++ more, by rw [← hmore, List.append_assoc]⟩
  refine ⟨more, ?_⟩
  rw [filterComponents, if_neg (by simp [expectedConditions, hchosen]), hmore]

/-- The names of the lists do not begin as `s.type` does. -/
theorem Facet.key_ne_type {f : Facet} (hf : f ∈ facets p) :
    3 ≤ f.key.toList.length ∧ f.key.toList.take 3 ≠ "s.t".toList := by
  have hkey : f.key ∈ (facets p).map Facet.key := List.mem_map_of_mem hf
  have hkeys : ∀ key ∈ ["s.bs", "s.country", "s.region", "t.country", "t.imo", "t.name", "t.cs",
      "t.type", "t.navstat", "m.country", "m.mmsi", "m.imo", "m.name", "m.cs", "m.type",
      "m.navstat"], 3 ≤ key.toList.length ∧ key.toList.take 3 ≠ "s.t".toList := by
    decide
  exact hkeys f.key hkey

/-- The filter of the form does not. -/
theorem intercalate_conditions_ne (h : ¬ TypeWritten p)
    (hne : conditions encodeURIComponent p ≠ []) (more : JsString) :
    " & ".toList.intercalate (conditions encodeURIComponent p) ≠ "s.type=".toList ++ more := by
  have htype : typeConditions p = [] := by
    rw [typeConditions, if_neg fun hknown => h (.inr hknown)]
  obtain ⟨c, cs, hcs⟩ := List.exists_cons_of_ne_nil hne
  have hc : c ∈ (facets p).flatMap (Facet.conditions encodeURIComponent) := by
    rw [conditions, htype, List.nil_append] at hcs
    simp [hcs]
  obtain ⟨f, hf, hc⟩ := List.mem_flatMap.mp hc
  have hbegins : f.key.toList <+: " & ".toList.intercalate (conditions encodeURIComponent p) := by
    unfold Facet.conditions at hc
    split at hc
    · cases hc
    · rw [hcs, List.mem_singleton.mp hc]
      exact (List.prefix_append _ _).trans (JsString.prefix_intercalate _ _ _)
  intro heq
  rw [heq] at hbegins
  obtain ⟨hlong, hother⟩ := Facet.key_ne_type p hf
  have htake := List.prefix_iff_eq_take.mp ((List.take_prefix 3 f.key.toList).trans hbegins)
  rw [List.length_take, min_eq_left hlong] at htake
  exact hother htake

/-! ### The other components -/

/-- Names joined with `;` are unmarked as soon as each of them is. -/
theorem unmarked_intercalate_iff (names : List JsString) :
    Unmarked ([';'].intercalate names) ↔ ∀ name ∈ names, Unmarked name := by
  have hnil : Unmarked [] := by
    refine ⟨by simp, ?_⟩
    rw [← percentDecode_eq_utf8_iff, percentDecode_nil, utf8_nil]
  have hjoin : ∀ s t : JsString, Unmarked (s ++ ';' :: t) ↔ Unmarked s ∧ Unmarked t := by
    intro s t
    have hamp : '&' ∉ s ++ ';' :: t ↔ '&' ∉ s ∧ '&' ∉ t := by simp
    unfold Unmarked
    rw [hamp, hasEscape_append_cons (by decide) (by decide), not_or]
    exact and_and_and_comm
  induction names with
  | nil => simpa using hnil
  | cons name names ih =>
      cases names with
      | nil => simp
      | cons second names =>
          rw [List.intercalate_cons_cons, List.append_assoc, List.singleton_append, hjoin,
            List.forall_mem_cons]
          exact and_congr_right fun _ => ih

theorem columns_component_eq_iff :
    (columnsParameters p).flatMap decoded = (columnsParameters p).map utf8 ↔
      (p.outputFormat = .table → ∀ name ∈ p.outputTableFields, Unmarked name) := by
  unfold columnsParameters
  split
  next htable =>
    rw [List.flatMap_singleton, List.map_singleton, decoded_named_eq_iff (by decide),
      unmarked_intercalate_iff]
    exact ⟨fun h _ => h, fun h => h htable⟩
  next htable => simp [htable]

/-- A parameter that is no filter has another name. -/
theorem exists_otherName {x : JsString} (h : x ∈ parameters p) (hfilter : filterParameters p = []) :
    ∃ name ∈ "mmsi=" :: "box=" :: laterNames, name.toList <+: x := by
  rw [parameters, hfilter, List.nil_append, List.append_assoc, List.append_assoc, List.append_assoc,
    List.append_assoc] at h
  rcases List.mem_append.mp h with h | h
  · obtain ⟨m, -, rfl⟩ := List.mem_map.mp h
    exact ⟨"mmsi=", by simp, List.prefix_append _ _⟩
  rcases List.mem_append.mp h with h | h
  · obtain ⟨maxLat, maxLon, minLat, minLon, rfl⟩ := eq_of_mem_boxParameters h
    exact ⟨"box=", by simp, by simp only [List.append_assoc, List.prefix_append]⟩
  · obtain ⟨name, hname, hbegins⟩ := exists_laterName p (by simpa only [List.append_assoc] using h)
    exact ⟨name, by simp [hname], hbegins⟩

/-- The components after the numbers all have their own names. -/
theorem mmsi_not_mem_expected :
    utf8 "mmsi=".toList ∉ (boxParameters p.area ++ (formatParameters p ++ columnsParameters p ++
      tableParameters p ++ limitParameters p)).map utf8 := by
  intro hmem
  obtain ⟨x, hx, heq⟩ := List.mem_map.mp hmem
  obtain rfl := utf8_injective heq
  rcases List.mem_append.mp hx with hx | hx
  · obtain ⟨maxLat, maxLon, minLat, minLon, heq⟩ := eq_of_mem_boxParameters hx
    simp only [List.append_assoc] at heq
    exact absurd (List.cons.inj heq).1 (by decide)
  · obtain ⟨name, hname, hbegins⟩ := exists_laterName p hx
    revert name
    decide

theorem carriesQuery_iff_parameters (hformat : FormatsDates format) :
    CarriesQuery format p ↔
      (parameters p).flatMap decoded = ((expectedComponents format p).tail).map utf8 := by
  rw [CarriesQuery, splitOn_updateDownloadUrl p hformat, List.map_cons, expectedComponents,
    List.map_cons, percentDecode_plain (plain_interval p hformat).2, List.cons.injEq,
    List.map_flatMap]
  exact ⟨fun h => h.2, fun h => ⟨rfl, h⟩⟩

/-- The parameters, decoded: those that nothing can happen to are themselves,
and the others are the filter, the numbers and the columns. -/
theorem flatMap_decoded_parameters : (parameters p).flatMap decoded =
    (filterParameters p).flatMap decoded ++
      ((mmsiPieces (p.mmsi.getD [])).flatMap (fun m => decoded ("mmsi=".toList ++ m.trim)) ++
        ((boxParameters p.area).map utf8 ++ ((formatParameters p).map utf8 ++
          ((columnsParameters p).flatMap decoded ++ ((tableParameters p).map utf8 ++
            (limitParameters p).map utf8))))) := by
  simp only [parameters, mmsiParameters, List.flatMap_append, List.flatMap_map, List.append_assoc,
    flatMap_decoded_plain fun _ => plain_of_mem_boxParameters,
    flatMap_decoded_plain fun _ => plain_of_mem_formatParameters p,
    flatMap_decoded_plain fun _ => plain_of_mem_tableParameters p,
    flatMap_decoded_plain fun _ => plain_of_mem_limitParameters p]

/-- What is expected, in the same parts. -/
theorem map_utf8_expected (format : Date → JsString) :
    ((expectedComponents format p).tail).map utf8 =
      (filterComponents p).map utf8 ++
        (((mmsiPieces (p.mmsi.getD [])).flatMap mmsiTokens).map
            (fun t => utf8 ("mmsi=".toList ++ t)) ++
          ((boxParameters p.area).map utf8 ++ ((formatParameters p).map utf8 ++
            ((columnsParameters p).map utf8 ++ ((tableParameters p).map utf8 ++
              (limitParameters p).map utf8))))) := by
  simp only [expectedComponents, List.tail_cons, List.map_append, List.map_map, List.append_assoc,
    flatMap_mmsiTokens]
  rfl

/-- A type that is chosen and not written is missing from what is read first. -/
theorem typeWritten_of_carries (hsimple : p.simple = true) {others : List (List UInt8)}
    (h : (parameters p).flatMap decoded = (filterComponents p).map utf8 ++ others) :
    TypeWritten p := by
  by_contra htype
  obtain ⟨more, hmore⟩ := filterComponents_of_not p htype
  rw [hmore, List.map_singleton, List.singleton_append] at h
  by_cases hnil : conditions encodeURIComponent p = []
  · have hfilter : filterParameters p = [] := by
      rw [filterParameters_simple p hsimple, if_pos hnil]
    cases hparameters : parameters p with
    | nil =>
        rw [hparameters] at h
        cases h
    | cons x xs =>
        have hx : x ∈ parameters p := by
          rw [hparameters]
          exact List.mem_cons_self
        obtain ⟨name, hname, value, hvalue⟩ := exists_otherName p hx hfilter
        have hnames : ∀ name ∈ "mmsi=" :: "box=" :: laterNames, Plain name.toList ∧
            (utf8 name.toList).head? ≠ (utf8 "filter=".toList).head? ∧ utf8 name.toList ≠ [] := by
          decide
        obtain ⟨hplain, hother, hne⟩ := hnames name hname
        obtain ⟨first, rest, hsplit⟩ :=
          List.exists_cons_of_ne_nil (List.splitOn_ne_nil '&' value)
        rw [hparameters, ← hvalue, List.flatMap_cons, decoded_named hplain hsplit,
          List.cons_append, List.cons.injEq, utf8_append] at h
        have hhead := congrArg List.head? h.1
        rw [List.head?_append_of_ne_nil _ hne, List.head?_append_of_ne_nil _ (by decide)] at hhead
        exact hother hhead
  · rw [flatMap_decoded_parameters, decoded_filterParameters p hsimple,
      if_neg (mt (conditions_encode_eq_nil_iff p).mpr hnil), List.singleton_append,
      List.cons.injEq] at h
    have htext := utf8_injective h.1
    rw [List.append_cancel_left_eq] at htext
    exact intercalate_conditions_ne p htype hnil more htext

/-- A filter is one component, whatever is in it. -/
theorem length_filter_components (hsimple : p.simple = true) (htype : TypeWritten p) :
    ((filterParameters p).flatMap decoded).length = ((filterComponents p).map utf8).length := by
  rw [decoded_filterParameters p hsimple, filterComponents, htype.expectedConditions_eq]
  split
  · rfl
  · rfl

theorem survives_of_carries (hformat : FormatsDates format) (hsimple : p.simple = true)
    (h : CarriesQuery format p) : SurvivesEncoding p := by
  rw [carriesQuery_iff_parameters p hformat, map_utf8_expected] at h
  have htype := typeWritten_of_carries p hsimple h
  rw [flatMap_decoded_parameters] at h
  obtain ⟨hfilter, h⟩ := List.append_inj h (length_filter_components p hsimple htype)
  have hexpected := mmsi_not_mem_expected p
  simp only [List.map_append, List.append_assoc] at hexpected
  obtain ⟨hmmsi, h⟩ :=
    mmsi_components_eq (fun _ => comma_not_mem_of_mem_mmsiPieces) hexpected h
  rw [List.append_cancel_left_eq, List.append_cancel_left_eq, List.append_cancel_right_eq] at h
  refine ⟨htype, (filter_component_eq_iff p hsimple htype).mp hfilter, ?_,
    (columns_component_eq_iff p).mp h⟩
  intro piece hpiece hne
  exact hmmsi piece (mem_mmsiPieces.mpr ⟨hpiece, hne⟩)

theorem carries_of_survives (hformat : FormatsDates format) (hsimple : p.simple = true)
    (h : SurvivesEncoding p) : CarriesQuery format p := by
  obtain ⟨htype, hfilter, hmmsi, hcolumns⟩ := h
  have hpieces : (mmsiPieces (p.mmsi.getD [])).flatMap
      (fun m => decoded ("mmsi=".toList ++ m.trim)) =
        ((mmsiPieces (p.mmsi.getD [])).flatMap mmsiTokens).map
          (fun t => utf8 ("mmsi=".toList ++ t)) := by
    rw [List.map_flatMap]
    apply List.flatMap_congr
    intro m hm
    obtain ⟨hpiece, hne⟩ := mem_mmsiPieces.mp hm
    exact decoded_of_oneToken (comma_not_mem_of_mem_mmsiPieces hm) (hmmsi m hpiece hne)
  rw [carriesQuery_iff_parameters p hformat, flatMap_decoded_parameters, map_utf8_expected,
    (filter_component_eq_iff p hsimple htype).mpr hfilter, hpieces,
    (columns_component_eq_iff p).mpr hcolumns]

/-- The query comes through exactly if its values survive. -/
theorem carriesQuery_iff (hformat : FormatsDates format) (hsimple : p.simple = true) :
    CarriesQuery format p ↔ SurvivesEncoding p :=
  ⟨survives_of_carries p hformat hsimple, carries_of_survives p hformat hsimple⟩

end

theorem Plain.unmarked {s : JsString} (h : Plain s) : Unmarked s :=
  ⟨h.1, percentDecode_eq_utf8_iff.mp (percentDecode_plain h.2)⟩

/-- A name without blanks and two numbers. -/
def maerskQuery : SearchParams Unit :=
  { clearParams () () with
    targetNames := ["MAERSK".toList]
    mmsi := some "219000001, 219000002".toList
    outputFormat := .table }

theorem carriesQuery_iff_maersk :
    SurvivesEncoding maerskQuery ∧ CarriesQuery formatEpoch maerskQuery := by
  have hsurvives : SurvivesEncoding maerskQuery := by
    refine ⟨.inl rfl, ?_, ?_, ?_⟩
    · have hlists : ∀ f ∈ facets maerskQuery, ∀ v ∈ f.values, ∀ c ∈ v, isUnreserved c = true := by
        decide
      exact fun f hf _ => hlists f hf
    · have hpieces : ∀ piece ∈ "219000001, 219000002".toList.splitOnP isCut, piece ≠ [] →
          JsString.trim piece ≠ [] ∧ (∀ c ∈ JsString.trim piece, isWhiteSpace c = false) ∧
            Plain (JsString.trim piece) := by
        decide
      intro piece hpiece hne
      obtain ⟨htrim, hspace, hplain⟩ := hpieces piece hpiece hne
      exact ⟨htrim, hspace, hplain.unmarked⟩
    · intro _ name hname
      exact ((by decide : ∀ name ∈ maerskQuery.outputTableFields, Plain name) name hname).unmarked
  exact ⟨hsurvives, (carriesQuery_iff maerskQuery formatsDates_epoch rfl).mpr hsurvives⟩

/-- A name with a blank arrives encoded, what follows `&` in the `mmsi`
field is a component of its own, and a type in small letters is dropped. -/
theorem carriesQuery_fails :
    ¬ CarriesQuery formatEpoch
        { clearParams () () with targetNames := ["EMMA MAERSK".toList] } ∧
      ¬ CarriesQuery formatEpoch
        { clearParams () () with mmsi := some "219000001&limit=1".toList } ∧
      ¬ CarriesQuery formatEpoch { clearParams () () with sourceType := "sat".toList } := by
  refine ⟨?_, ?_, ?_⟩
  · intro h
    obtain ⟨-, hfacets, -⟩ := survives_of_carries _ formatsDates_epoch rfl h
    have hname := hfacets ⟨"t.name", true, ["EMMA MAERSK".toList]⟩ (by simp [facets]) rfl
    exact absurd (hname "EMMA MAERSK".toList (by simp) ' ' (by decide)) (by decide)
  · intro h
    obtain ⟨-, -, hmmsi, -⟩ := survives_of_carries _ formatsDates_epoch rfl h
    have hpiece := hmmsi "219000001&limit=1".toList (by decide) (by decide)
    exact absurd hpiece.2.2.1 (by decide)
  · intro h
    obtain ⟨htype, -⟩ := survives_of_carries _ formatsDates_epoch rfl h
    exact absurd htype (by unfold TypeWritten; decide)

end AisStore
