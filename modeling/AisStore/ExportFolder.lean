import AisStore.Export
import AisStore.Lib.QueryString

/-!
Many exports in one folder.

Without `-fileName` the output file is named after the MD5 digest of the
request, and the meta file after the output file. What is behind the name is
therefore the request: a command must find its own meta file again and no
other command's. `RestOptions.request_injective` says that the request tells
apart whatever is asked of the server, as long as area and columns, which go
into it as they are, have no `&` in them. Then in any sequence of commands
each export is what its own commands alone have made of it (`exportsApart`),
so that everything said about a resumed download holds of it.
-/

namespace AisStore

open Lib

/-- What the command uses of the libraries. -/
structure RestLib where
  /-- `Interval.parse`: the start and the end, in milliseconds. -/
  parseInterval : JsString → Option (ℤ × ℤ)
  /-- `AisPacketFilters.parseExpressionFilter` does not throw. -/
  isFilter : JsString → Bool
  /-- `AisPacketOutputSinks.getOutputSink` does not throw. -/
  hasOutputSink : JsString → Option JsString → JsString → Bool
  /-- `md5.digest(request.getBytes())`. -/
  digest : JsString → List UInt8

/-- The options of the command. All commands write to one folder. -/
structure RestOptions where
  mmsis : List ℤ := []
  filter : Option JsString := none
  interval : Option JsString := none
  area : Option JsString := none
  outputFormat : JsString := "raw".toList
  columns : Option JsString := none
  separator : JsString := [',']
  fileName : Option JsString := none
  fetchSize : ℤ := -1
  forceDownload : Bool := false

/-- An option that is set and not empty. -/
def given (s : Option JsString) : Option JsString := s.filter (· ≠ [])

namespace RestOptions

section
variable (rest : RestLib) (o : RestOptions)

/-- What may follow the interval in the request, in order. -/
def parameters : List Parameter :=
  [⟨"mmsi".toList, if o.mmsis.length > 0 then some ([','].intercalate (o.mmsis.map decimal))
      else none⟩,
    ⟨"filter".toList, (given o.filter).map formEncode⟩,
    ⟨"box".toList, given o.area⟩,
    ⟨"outputFormat".toList, some o.outputFormat⟩,
    ⟨"columns".toList, o.columns⟩,
    ⟨"seperator".toList, some (formEncode o.separator)⟩,
    ⟨"fetchsize".toList, if o.fetchSize ≠ -1 then some (decimal o.fetchSize) else none⟩]

/-- `run` up to the request: the interval and the request, or what is printed
before the command terminates. -/
def request : Except JsString ((ℤ × ℤ) × JsString) := do
  let some interval := given o.interval
    | .error "No Interval provided, please check your request.".toList
  let some intervalVar := rest.parseInterval interval
    | .error "Invalid Interval provided, please check your request.".toList
  if (given o.filter).any (!rest.isFilter ·) then
    .error "Invalid filter expression".toList
  if given o.columns = none ∧ (o.outputFormat = "table".toList ∨
      o.outputFormat = "jsonObject".toList) then
    .error ("When using outputFormat ".toList ++ o.outputFormat ++ ", columns are required".toList)
  if !rest.hasOutputSink o.outputFormat o.columns o.separator then
    .error ("Invalid output format provided, ".toList ++ o.outputFormat ++
      ", please check your request.".toList)
  return (intervalVar, queryString ("?interval=".toList ++ interval) o.parameters)

/-- The name of the output file. -/
def outputName (request : JsString) : JsString :=
  (given o.fileName).getD (hex (rest.digest request))

end

/-! ### What a request tells apart -/

/-- What is asked of the server. -/
structure Query where
  interval : JsString
  mmsis : List ℤ
  filter : Option JsString
  area : Option JsString
  outputFormat : JsString
  columns : Option JsString
  separator : JsString
  fetchSize : ℤ
  deriving DecidableEq

/-- What a command asks of the server. -/
def query (o : RestOptions) : Query :=
  ⟨o.interval.getD [], o.mmsis, given o.filter, given o.area, o.outputFormat, o.columns,
    o.separator, o.fetchSize⟩

/-- What goes into the request as it is has no separator in it. -/
def Plain (o : RestOptions) : Prop := (∀ s ∈ o.area, '&' ∉ s) ∧ ∀ s ∈ o.columns, '&' ∉ s

end RestOptions

/-- Neither ISO 8601 intervals nor the names of output formats have a
separator in them. -/
structure RestLib.Documented (rest : RestLib) : Prop where
  interval : ∀ s v, rest.parseInterval s = some v → '&' ∉ s
  outputFormat : ∀ format columns separator,
    rest.hasOutputSink format columns separator = true → '&' ∉ format

namespace RestOptions

theorem given_eq_some {s : Option JsString} {t : JsString} :
    given s = some t ↔ s = some t ∧ t ≠ [] := by
  rw [given, Option.filter_eq_some_iff, decide_eq_true_iff]

theorem given_getD (s : Option JsString) : given (some (s.getD [])) = given s := by
  cases s <;> rfl

/-- All of what is asked and nothing else decides about the request. -/
theorem request_congr {rest : RestLib} {o o' : RestOptions} (h : o.query = o'.query) :
    o.request rest = o'.request rest := by
  simp only [query, Query.mk.injEq] at h
  obtain ⟨hinterval, hmmsis, hfilter, harea, hformat, hcolumns, hseparator, hfetch⟩ := h
  have hinterval : given o.interval = given o'.interval := by
    rw [← given_getD o.interval, hinterval, given_getD]
  simp only [request, parameters, hinterval, hmmsis, hfilter, harea, hformat, hcolumns,
    hseparator, hfetch]

/-- A command that gets as far as its request. -/
theorem of_request_eq_ok {rest : RestLib} {o : RestOptions} {v : ℤ × ℤ} {r : JsString}
    (h : o.request rest = .ok (v, r)) :
    ∃ s, o.interval = some s ∧ rest.parseInterval s = some v ∧
      rest.hasOutputSink o.outputFormat o.columns o.separator = true ∧
      r = queryString ("?interval=".toList ++ s) o.parameters := by
  unfold request at h
  cases hinterval : given o.interval with
  | none =>
      rw [hinterval] at h
      cases h
  | some s =>
      rw [hinterval] at h
      cases hparse : rest.parseInterval s with
      | none => simp [hparse] at h
      | some w =>
          simp only [hparse, bind, Except.bind, pure, Except.pure] at h
          split at h
          · cases h
          · split at h
            · cases h
            · split at h
              · cases h
              next hsink =>
                cases h
                refine ⟨s, (given_eq_some.mp hinterval).1, hparse, ?_, rfl⟩
                simpa using hsink

theorem names_parameters (o : RestOptions) : o.parameters.map (·.name) =
    ["mmsi", "filter", "box", "outputFormat", "columns", "seperator", "fetchsize"].map
      String.toList := rfl

theorem nodup_names (o : RestOptions) : (o.parameters.map (·.name)).Nodup := by
  rw [names_parameters]
  decide

theorem separable_name {o : RestOptions} {p : Parameter} (h : p ∈ o.parameters) :
    '&' ∉ p.name ∧ '=' ∉ p.name := by
  have hmem : p.name ∈ o.parameters.map (·.name) := List.mem_map_of_mem h
  rw [names_parameters] at hmem
  revert hmem
  generalize p.name = name
  revert name
  decide

theorem separable_value {rest : RestLib} (hrest : rest.Documented) {o : RestOptions}
    (hplain : o.Plain) (hsink : rest.hasOutputSink o.outputFormat o.columns o.separator = true) :
    ∀ p ∈ o.parameters, ∀ v ∈ p.value, '&' ∉ v := by
  simp only [parameters, List.forall_mem_cons]
  refine ⟨?mmsi, ?filter, fun s hs => hplain.1 s (given_eq_some.mp hs).1, ?format, hplain.2,
    ?separator, ?fetchSize, by simp⟩
  case mmsi =>
    intro s hs
    split at hs
    · cases hs
      apply not_mem_intercalate (by decide)
      simp only [List.forall_mem_map]
      exact fun n _ => not_mem_decimal (by decide) (by decide) n
    · cases hs
  case filter =>
    intro s hs
    obtain ⟨t, -, rfl⟩ := Option.map_eq_some_iff.mp hs
    exact amp_not_mem_formEncode t
  case format =>
    rintro s ⟨⟩
    exact hrest.outputFormat _ _ _ hsink
  case separator =>
    rintro s ⟨⟩
    exact amp_not_mem_formEncode _
  case fetchSize =>
    intro s hs
    split at hs
    · cases hs
      exact not_mem_decimal (by decide) (by decide) _
    · cases hs

theorem mmsis_eq {ms ns : List ℤ}
    (h : (if ms.length > 0 then some ([','].intercalate (ms.map decimal)) else none) =
      if ns.length > 0 then some ([','].intercalate (ns.map decimal)) else none) : ms = ns := by
  have hsplit : ∀ {ks : List ℤ}, 0 < ks.length →
      ([','].intercalate (ks.map decimal)).splitOn ',' = ks.map decimal := by
    intro ks hks
    apply List.splitOn_intercalate
    · simp only [List.forall_mem_map]
      exact fun n _ => not_mem_decimal (by decide) (by decide) n
    · simpa using List.ne_nil_of_length_pos hks
  split at h
  next hms =>
    split at h
    next hns =>
      have heq := congrArg (List.splitOn ',') (Option.some.inj h)
      rw [hsplit hms, hsplit hns] at heq
      exact List.map_injective_iff.mpr (fun _ _ => decimal_injective) heq
    · cases h
  next hms =>
    split at h
    · cases h
    next hns => rw [List.eq_nil_of_length_eq_zero (by omega : ms.length = 0),
        List.eq_nil_of_length_eq_zero (by omega : ns.length = 0)]

/-- Two requests are the same only if the same is asked. -/
theorem request_injective {rest : RestLib} (hrest : rest.Documented) {o o' : RestOptions}
    (hplain : o.Plain) (hplain' : o'.Plain) {v v' : ℤ × ℤ} {r : JsString}
    (h : o.request rest = .ok (v, r)) (h' : o'.request rest = .ok (v', r)) :
    o.query = o'.query := by
  obtain ⟨s, hs, hparse, hsink, rfl⟩ := of_request_eq_ok h
  obtain ⟨s', hs', hparse', hsink', heq⟩ := of_request_eq_ok h'
  have hstart : ∀ {t w}, rest.parseInterval t = some w → '&' ∉ "?interval=".toList ++ t := by
    intro t w ht
    rw [List.mem_append, not_or]
    exact ⟨by decide, hrest.interval t w ht⟩
  obtain ⟨hinterval, hparameters⟩ := queryString_injective (hstart hparse) (hstart hparse')
    (fun p hp => ⟨separable_name hp, separable_value hrest hplain hsink p hp⟩)
    (fun p hp => ⟨separable_name hp, separable_value hrest hplain' hsink' p hp⟩)
    rfl (nodup_names o) heq
  have hinterval := List.append_cancel_left hinterval
  simp only [parameters, List.cons.injEq, Parameter.mk.injEq, true_and, and_true] at hparameters
  obtain ⟨hmmsis, hfilter, harea, hformat, hcolumns, hseparator, hfetch⟩ := hparameters
  rw [query, query, Query.mk.injEq]
  refine ⟨by rw [hs, hs', hinterval], mmsis_eq hmmsis,
    Option.map_injective (fun _ _ => formEncode_injective) hfilter, harea,
    Option.some.inj hformat, hcolumns, formEncode_injective (Option.some.inj hseparator), ?_⟩
  split at hfetch <;> split at hfetch
  · exact decimal_injective (Option.some.inj hfetch)
  · cases hfetch
  · cases hfetch
  · omega

/-- With separators in area and columns two commands may ask for the same. -/
example :
    let o : RestOptions :=
      { area := some "1,1,0,0&outputFormat=table&columns=lat".toList,
        outputFormat := "table".toList, columns := some "lon".toList }
    let o' : RestOptions :=
      { area := some "1,1,0,0".toList, outputFormat := "table".toList,
        columns := some "lat&outputFormat=table&columns=lon".toList }
    queryString [] o.parameters = queryString [] o'.parameters ∧ o.query ≠ o'.query := by
  decide

end RestOptions

/-! ### The folder -/

/-- The name of the meta file. -/
def metaFileName (fileName : JsString) : JsString := fileName ++ ".aisstore".toList

/-- What files hold: packets as an output sink writes them, and the fields of
a meta file. -/
inductive Piece where
  | packet (t : AisPacket)
  | fields (contents : Meta)
  deriving DecidableEq

/-- The files of a folder by their names. -/
abbrev Folder := JsString → Option (List Piece)

namespace Folder

/-- The packets in an output file. -/
def packets (folder : Folder) (name : JsString) : List AisPacket :=
  ((folder name).getD []).filterMap fun
    | .packet t => some t
    | .fields _ => none

/-- `readMeta`: a file that is not there, or not a meta file, counts for none. -/
def readMeta (folder : Folder) (name : JsString) : Option Meta :=
  match folder name with
  | some [.fields contents] => some contents
  | _ => none

/-- `new FileOutputStream(name, append)`. -/
def openOutput (folder : Folder) (name : JsString) (append : Bool) : Folder :=
  Function.update folder name (some (if append then (folder name).getD [] else []))

/-- An effect of a run on its two files, all data reaching the output file. -/
def apply (name metaName : JsString) (folder : Folder) : Effect → Folder
  | .process t _ => Function.update folder name (some ((folder name).getD [] ++ [.packet t]))
  | .writeMeta contents => Function.update folder metaName (some [.fields contents])
  | .newline => folder
  | .flushOutput => folder
  | .flushFile => folder
  | .footer _ => folder

/-- What an export has in its two files. -/
def saved (folder : Folder) (name : JsString) : Saved :=
  ⟨folder.readMeta (metaFileName name), folder.packets name⟩

end Folder

/-- A command, and what it is handed when it is run. -/
structure Invocation where
  options : RestOptions
  run : Run

section
variable {Pos : Type} (rest : RestLib) (lib : AisLib Pos)

/-- `run`, with `-force` or without. -/
def Invocation.execute (folder : Folder) (i : Invocation) : Folder :=
  match i.options.request rest with
  | .error _ => folder
  | .ok (intervalVar, request) =>
    let name := i.options.outputName rest request
    let opened := folder.openOutput name !i.options.forceDownload
    let found := opened.readMeta (metaFileName name)
    (i.run.effects lib intervalVar.1 i.options.forceDownload found).foldl
      (Folder.apply name (metaFileName name)) opened

/-- What a run makes of the two files of its own export. -/
def Saved.execute (intervalStart : ℤ) (w : Saved) (i : Invocation) : Saved :=
  if i.options.forceDownload then Saved.run lib intervalStart ⟨none, []⟩ i.run
  else w.run lib intervalStart i.run

/-! ### What one command changes -/

theorem metaFileName_ne (name : JsString) : metaFileName name ≠ name := by
  intro h
  have := congrArg List.length h
  simp [metaFileName] at this

theorem apply_of_ne {folder : Folder} {name other : JsString} (hname : other ≠ name)
    (hmeta : other ≠ metaFileName name) (e : Effect) :
    folder.apply name (metaFileName name) e other = folder other := by
  cases e with
  | process t count => exact Function.update_of_ne hname _ _
  | writeMeta contents => exact Function.update_of_ne hmeta _ _
  | newline | flushOutput | flushFile | footer => rfl

theorem saved_congr {folder folder' : Folder} {name : JsString}
    (hname : folder' name = folder name)
    (hmeta : folder' (metaFileName name) = folder (metaFileName name)) :
    folder'.saved name = folder.saved name := by
  rw [Folder.saved, Folder.saved, Folder.readMeta, Folder.readMeta, Folder.packets, Folder.packets,
    hname, hmeta]

theorem saved_apply (folder : Folder) (name : JsString) (e : Effect) :
    (folder.apply name (metaFileName name) e).saved name = (folder.saved name).apply e := by
  cases e with
  | process t count =>
      rw [Folder.saved, Folder.apply, Folder.readMeta, Folder.packets, Function.update_self,
        Function.update_of_ne (metaFileName_ne name), Option.getD_some, List.filterMap_append]
      rfl
  | writeMeta contents =>
      rw [Folder.saved, Folder.apply, Folder.readMeta, Folder.packets, Function.update_self,
        Function.update_of_ne (metaFileName_ne name).symm]
      rfl
  | newline | flushOutput | flushFile | footer => rfl

theorem saved_foldl (es : List Effect) (folder : Folder) (name : JsString) :
    (es.foldl (Folder.apply name (metaFileName name)) folder).saved name =
      es.foldl Saved.apply (folder.saved name) := by
  induction es generalizing folder with
  | nil => rfl
  | cons e es ih => rw [List.foldl_cons, List.foldl_cons, ih, saved_apply]

theorem foldl_of_ne {name other : JsString} (hname : other ≠ name)
    (hmeta : other ≠ metaFileName name) (es : List Effect) (folder : Folder) :
    es.foldl (Folder.apply name (metaFileName name)) folder other = folder other := by
  induction es generalizing folder with
  | nil => rfl
  | cons e es ih => rw [List.foldl_cons, ih, apply_of_ne hname hmeta]

theorem saved_openOutput (folder : Folder) (name : JsString) (append : Bool) :
    (folder.openOutput name append).saved name =
      ⟨folder.readMeta (metaFileName name), if append then folder.packets name else []⟩ := by
  rw [Folder.saved, Folder.openOutput, Folder.readMeta, Folder.packets, Function.update_self,
    Function.update_of_ne (metaFileName_ne name)]
  cases append with
  | true => rfl
  | false => rfl

/-- A run with `-force` writes its meta file first, so that it does not matter
what was in it. -/
theorem foldl_effects_force (intervalStart : ℤ) (r : Run) (found : Option Meta)
    (file : List AisPacket) :
    (r.effects lib intervalStart true found).foldl Saved.apply ⟨found, file⟩ =
      Saved.run lib intervalStart ⟨none, file⟩ r := rfl

/-- A command carries on its own export. -/
theorem saved_execute_own {folder : Folder} {i : Invocation} {v : ℤ × ℤ} {r : JsString}
    (h : i.options.request rest = .ok (v, r)) :
    (i.execute rest lib folder).saved (i.options.outputName rest r) =
      Saved.execute lib v.1 (folder.saved (i.options.outputName rest r)) i := by
  unfold Invocation.execute Saved.execute
  rw [h]
  dsimp only
  generalize i.options.outputName rest r = name
  rw [saved_foldl, saved_openOutput]
  cases i.options.forceDownload with
  | true =>
      have hfound := congrArg Saved.found (saved_openOutput folder name false)
      show List.foldl _ _ (i.run.effects lib v.1 true
        (Folder.saved (folder.openOutput name false) name).found) = _
      rw [hfound]
      exact foldl_effects_force lib v.1 i.run _ []
  | false =>
      have hfound := congrArg Saved.found (saved_openOutput folder name true)
      show List.foldl _ _ (i.run.effects lib v.1 false
        (Folder.saved (folder.openOutput name true) name).found) = _
      rw [hfound]
      rfl

/-- A command whose files have other names does not touch an export. -/
theorem saved_execute_other {folder : Folder} {i : Invocation} {name : JsString}
    (h : ∀ v r, i.options.request rest = .ok (v, r) →
      let other := i.options.outputName rest r
      name ≠ other ∧ name ≠ metaFileName other ∧ metaFileName name ≠ other) :
    (i.execute rest lib folder).saved name = folder.saved name := by
  unfold Invocation.execute
  split
  · rfl
  next v r heq =>
    obtain ⟨hname, hmeta, hother⟩ := h v r heq
    have hmetas : metaFileName name ≠ metaFileName (i.options.outputName rest r) :=
      fun heq => hname (List.append_cancel_right heq)
    apply saved_congr
    · rw [foldl_of_ne hname hmeta]
      exact Function.update_of_ne hname _ _
    · rw [foldl_of_ne hother hmetas]
      exact Function.update_of_ne hother _ _

/-- A command makes the same export as another: the file is named after the
request and the same is asked. -/
def SameExport (c : RestOptions) (i : Invocation) : Prop :=
  given i.options.fileName = none ∧ i.options.query = c.query

instance (c : RestOptions) (i : Invocation) : Decidable (SameExport c i) :=
  inferInstanceAs (Decidable (_ ∧ _))

/-- What keeps a command that makes another export away from one: the two
requests do not have one digest, and no option names its files. -/
structure Clear (c : RestOptions) (r : JsString) (i : Invocation) : Prop where
  plain : i.options.Plain
  digest : ∀ v' r', i.options.request rest = .ok (v', r') → rest.digest r' = rest.digest r → r' = r
  fileName : ∀ name, given i.options.fileName = some name →
    name ≠ c.outputName rest r ∧ name ≠ metaFileName (c.outputName rest r)

variable {rest}

theorem dot_mem_metaFileName (name : JsString) : '.' ∈ metaFileName name :=
  List.mem_append_right _ (by decide)

theorem dot_not_mem_hex (bs : List UInt8) : '.' ∉ hex bs :=
  fun h => absurd (hexDigit_of_mem_hex h) (by decide)

theorem other_names (hrest : rest.Documented) {c : RestOptions} {v : ℤ × ℤ} {r : JsString}
    (hc : c.request rest = .ok (v, r)) (hname : given c.fileName = none) (hplain : c.Plain)
    {i : Invocation} (hclear : Clear rest c r i) (hother : ¬ SameExport c i) {v' : ℤ × ℤ}
    {r' : JsString} (h : i.options.request rest = .ok (v', r')) :
    let other := i.options.outputName rest r'
    c.outputName rest r ≠ other ∧ c.outputName rest r ≠ metaFileName other ∧
      metaFileName (c.outputName rest r) ≠ other := by
  intro other
  have hown : c.outputName rest r = hex (rest.digest r) := by
    rw [RestOptions.outputName, hname, Option.getD_none]
  have hmeta : c.outputName rest r ≠ metaFileName other := by
    rw [hown]
    exact fun heq => dot_not_mem_hex _ (heq ▸ dot_mem_metaFileName other)
  cases hgiven : given i.options.fileName with
  | some name =>
      have heq : other = name := by
        rw [show other = i.options.outputName rest r' from rfl, RestOptions.outputName, hgiven,
          Option.getD_some]
      obtain ⟨hfile, hmetaFile⟩ := hclear.fileName name hgiven
      rw [heq]
      exact ⟨hfile.symm, heq ▸ hmeta, hmetaFile.symm⟩
  | none =>
      have heq : other = hex (rest.digest r') := by
        rw [show other = i.options.outputName rest r' from rfl, RestOptions.outputName, hgiven,
          Option.getD_none]
      refine ⟨?_, hmeta, ?_⟩
      · intro hsame
        rw [hown, heq] at hsame
        obtain rfl := hclear.digest v' r' h (hex_injective hsame).symm
        exact hother ⟨hgiven, RestOptions.request_injective hrest hclear.plain hplain h hc⟩
      · rw [heq]
        exact fun hsame => dot_not_mem_hex _ (hsame ▸ dot_mem_metaFileName _)

/-- What one command does to an export. -/
theorem saved_execute (hrest : rest.Documented) {c : RestOptions} {v : ℤ × ℤ} {r : JsString}
    (hc : c.request rest = .ok (v, r)) (hname : given c.fileName = none) (hplain : c.Plain)
    {i : Invocation} (hclear : Clear rest c r i) (folder : Folder) :
    (i.execute rest lib folder).saved (c.outputName rest r) =
      if SameExport c i then Saved.execute lib v.1 (folder.saved (c.outputName rest r)) i
      else folder.saved (c.outputName rest r) := by
  split
  next hsame =>
    have hrequest : i.options.request rest = .ok (v, r) :=
      (RestOptions.request_congr hsame.2).trans hc
    have hsameName : c.outputName rest r = i.options.outputName rest r := by
      rw [RestOptions.outputName, RestOptions.outputName, hname, hsame.1]
    rw [hsameName]
    exact saved_execute_own rest lib hrequest
  next hother =>
    apply saved_execute_other
    intro v' r' h
    exact other_names hrest hc hname hplain hclear hother h

/-- Whatever other exports are made in the folder, and in whatever order the
commands are given: an export is what its own commands make of it. -/
theorem exportsApart (hrest : rest.Documented) {c : RestOptions} {v : ℤ × ℤ} {r : JsString}
    (hc : c.request rest = .ok (v, r)) (hname : given c.fileName = none) (hplain : c.Plain)
    {history : List Invocation} (hclear : ∀ i ∈ history, Clear rest c r i) (folder : Folder) :
    let own := history.filter (SameExport c)
    let after := (history.foldl (Invocation.execute rest lib) folder).saved (c.outputName rest r)
    after = own.foldl (Saved.execute lib v.1) (folder.saved (c.outputName rest r)) ∧
      (folder (c.outputName rest r) = none → folder (metaFileName (c.outputName rest r)) = none →
        (∀ i ∈ own, i.options.forceDownload = false) →
        after = download lib v.1 (own.map (·.run))) := by
  intro own after
  have hown : after =
      own.foldl (Saved.execute lib v.1) (folder.saved (c.outputName rest r)) := by
    show Folder.saved (List.foldl _ _ _) _ = (history.filter _).foldl _ _
    rw [List.foldl_filter]
    simp only [decide_eq_true_eq]
    clear own after
    induction history generalizing folder with
    | nil => rfl
    | cons i history ih =>
        obtain ⟨hi, hclear⟩ := List.forall_mem_cons.mp hclear
        rw [List.foldl_cons, List.foldl_cons, ih hclear,
          saved_execute lib hrest hc hname hplain hi]
  refine ⟨hown, ?_⟩
  intro hfile hmeta hforce
  have hnothing : folder.saved (c.outputName rest r) = ⟨none, []⟩ := by
    rw [Folder.saved, Folder.readMeta, Folder.packets, hfile, hmeta]
    rfl
  rw [hown, hnothing, download, List.foldl_map]
  apply List.foldl_ext
  intro w i hi
  rw [Saved.execute, if_neg (by simp [hforce i hi])]

end

/-- The first hour, as the command gives it. -/
def firstHour : JsString := "1970-01-01T00:00:00Z/1970-01-01T01:00:00Z".toList

/-- Everything of the first hour. -/
def wholeHour : RestOptions where
  interval := some firstHour

/-- What one vessel sent in it. -/
def vesselHour : RestOptions where
  interval := some firstHour
  mmsis := [219000001]

/-- The libraries, on the two commands. -/
def hourLib : RestLib where
  parseInterval s := if s = firstHour then some (0, 3600000) else none
  isFilter _ := true
  hasOutputSink format _ _ := format = "raw".toList
  digest r :=
    if r = queryString ("?interval=".toList ++ firstHour) wholeHour.parameters then
      [0xD3, 0x09, 0x62, 0xB2, 0xC9, 0x03, 0x33, 0x66, 0xA7, 0xEF, 0x25, 0xE8, 0xE4, 0x45, 0x24,
        0xB7]
    else if r = queryString ("?interval=".toList ++ firstHour) vesselHour.parameters then
      [0x40, 0x29, 0x3B, 0x63, 0x21, 0xF5, 0x02, 0x13, 0x00, 0x2E, 0x50, 0x6E, 0xE4, 0x2E, 0x9E,
        0x3A]
    else []

theorem documented_hourLib : hourLib.Documented where
  interval s v h := by
    obtain ⟨rfl, -⟩ := Option.ite_none_right_eq_some.mp h
    decide
  outputFormat format _ _ h := by
    rw [show format = "raw".toList from of_decide_eq_true h]
    decide

/-- A stopped export, another one, and the first again. -/
theorem exportsApart_twoExports :
    let lib := AisLib.ofDecoded [positionReport, staticReport]
    let position : AisPacket := .fromString positionReport.stringMessage
    let static : AisPacket := .fromString staticReport.stringMessage
    Folder.saved ([⟨wholeHour, [position], false⟩, ⟨vesselHour, [static], true⟩,
        ⟨wholeHour, [position, static], true⟩].foldl (Invocation.execute hourLib lib)
        (fun _ => none)) "D30962B2C9033366A7EF25E8E44524B7".toList =
      download lib 0 [⟨[position], false⟩, ⟨[position, static], true⟩] := by
  intro lib position static
  have hwhole : wholeHour.request hourLib = .ok ((0, 3600000),
      queryString ("?interval=".toList ++ firstHour) wholeHour.parameters) := rfl
  have hvessel : vesselHour.request hourLib = .ok ((0, 3600000),
      queryString ("?interval=".toList ++ firstHour) vesselHour.parameters) := rfl
  have hplain : ∀ o : RestOptions, o.area = none → o.columns = none → o.Plain := by
    intro o harea hcolumns
    rw [RestOptions.Plain, harea, hcolumns]
    exact ⟨by simp, by simp⟩
  have hclear : ∀ i : Invocation, i.options = wholeHour ∨ i.options = vesselHour →
      Clear hourLib wholeHour
        (queryString ("?interval=".toList ++ firstHour) wholeHour.parameters) i := by
    rintro i (hi | hi)
    · refine ⟨hi ▸ hplain wholeHour rfl rfl, ?_, ?_⟩
      · intro v' r' h _
        rw [hi, hwhole] at h
        cases h
        rfl
      · intro name h
        rw [hi] at h
        cases h
    · refine ⟨hi ▸ hplain vesselHour rfl rfl, ?_, ?_⟩
      · intro v' r' h heq
        rw [hi, hvessel] at h
        cases h
        exact absurd heq (by decide)
      · intro name h
        rw [hi] at h
        cases h
  have hname : wholeHour.outputName hourLib
      (queryString ("?interval=".toList ++ firstHour) wholeHour.parameters) =
        "D30962B2C9033366A7EF25E8E44524B7".toList := by decide
  rw [← hname]
  refine (exportsApart lib documented_hourLib hwhole rfl (hplain wholeHour rfl rfl) ?_ _).2
    rfl rfl ?_
  · simp only [List.forall_mem_cons]
    exact ⟨hclear _ (.inl rfl), hclear _ (.inr rfl), hclear _ (.inl rfl), by simp⟩
  · intro i hi
    have hi := (List.mem_filter.mp hi).1
    simp only [List.mem_cons, List.not_mem_nil, or_false] at hi
    rcases hi with rfl | rfl | rfl <;> rfl

end AisStore
