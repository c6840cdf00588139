import AisStore.Lib.JsNumber
import Mathlib.Tactic.Ring

/-!
Positions as the form shows and reads them.

A latitude is shown as `55 07.380N`: whole degrees, minutes with three
decimals, and the letter of the hemisphere. A longitude has three digits for
the degrees. The two are read by one algorithm, which takes a plain number
as well, and in which numbers are rounded as `round` says. Showing is by degrees and thousandths of a minute
(`formatPosition_eq`), and reading what is shown gives those back
(`parsePosition_shown`), so all that can go wrong in a round trip is in the
rounding.
-/

namespace AisStore

open Lib

/-! ### Showing -/

/-- Zeros in front, until the decimal point is the third character. -/
def padMinutes (s : JsString) : JsString :=
  if s.idxOf '.' < 2 then padMinutes ('0' :: s) else s
termination_by 2 - s.idxOf '.'
decreasing_by
  rw [List.idxOf_cons_ne _ (by decide)]
  omega

/-- `formatLongitude` and `formatLatitude`, with the letters and the number
of digits of the degrees. -/
def formatPosition (positive negative : Char) (decimals : ℕ) (x : ℚ) : JsString :=
  let letter := if x < 0 then negative else positive
  let x := if x < 0 then x * -1 else x
  let hours := ⌊x⌋
  let minutes := (x - hours) * 60
  (toFixed decimals (hours / 10 ^ decimals)).drop 2 ++ ' ' :: padMinutes (toFixed 3 minutes) ++
    [letter]

def formatLongitude : ℚ → JsString := formatPosition 'E' 'W' 3

def formatLatitude : ℚ → JsString := formatPosition 'N' 'S' 2

/-! ### Reading -/

/-- The degrees, the minutes and the letter. -/
def splitFormattedPos (posStr : JsString) : Except String (JsString × JsString × JsString) :=
  let letter := posStr.drop (posStr.length - 1)
  let posStr := posStr.take (posStr.length - 1)
  match (JsString.trim posStr).splitOn ' ' with
  | [hours, minutes] => .ok (hours, minutes, letter)
  | _ => .error "Format exception"

def parseString (str : JsString) : Option JsString :=
  if str.trim = [] then none else some str.trim

section
variable (round : ℚ → JsNumber)

/-- `parseLat` and `parseLon`. What `parseInt` and `parseFloat` return is
never `null`, so only the letter can be missing. -/
def parseParts (positive negative : Char) (hours minutes letter : JsString) :
    Except String JsNumber :=
  let h := parseInt round hours
  let m := parseFloat round minutes
  match parseString letter with
  | none => .error "Format exception"
  | some letter =>
      let letter := letter.toUpperCase
      if letter ≠ [positive] ∧ letter ≠ [negative] then .error "Format exception"
      else
        let x := h.add round (m.divBy round 60)
        .ok (if letter = [negative] then x.neg else x)

def parseLat : JsString → JsString → JsString → Except String JsNumber := parseParts round 'N' 'S'

def parseLon : JsString → JsString → JsString → Except String JsNumber := parseParts round 'E' 'W'

/-- `parseLatitude` and `parseLongitude`. -/
def parsePosition (parse : JsString → JsString → JsString → Except String JsNumber)
    (value : JsString) : Except String JsNumber :=
  if ' ' ∉ value.trim ∧ (parseFloat round value).looseEq (toNumber round value) then
    .ok (parseFloat round value)
  else
    match splitFormattedPos value with
    | .error e => .error e
    | .ok (hours, minutes, letter) => parse hours minutes letter

def parseLatitude : JsString → Except String JsNumber := parsePosition round (parseLat round)

def parseLongitude : JsString → Except String JsNumber := parsePosition round (parseLon round)

end

example : formatLatitude (5507 / 100) = "55 04.200N".toList := by decide +kernel

example : parseLongitude binary64 "008 30.000w".toList = .ok (.finite (-(17 / 2))) := by
  decide +kernel

/-! ### The form -/

/-- `<degrees> <minutes><letter>`, with white space before it and before the
letter. -/
def HasForm (value hours minutes : JsString) (letter : Char) : Prop :=
  ∃ body, value = body ++ [letter] ∧ body.trim = hours ++ ' ' :: minutes ∧
    ' ' ∉ hours ∧ ' ' ∉ minutes

/-- A string that is the non-negative integer `n`, to its last character. -/
def ReadsInteger (s : JsString) (n : ℕ) : Prop := readInt s.trimStart = some ((n : ℤ), [])

/-- A string that is the decimal number `m`, to its last character. -/
def ReadsNumber (s : JsString) (m : ℚ) : Prop :=
  readDecimal s.trimStart = some (.finite m, [])

theorem splitFormattedPos_eq_ok {value hours minutes letters : JsString} :
    splitFormattedPos value = .ok (hours, minutes, letters) ↔
      ∃ letter, letters = [letter] ∧ HasForm value hours minutes letter := by
  rcases List.eq_nil_or_concat value with rfl | ⟨body, last, rfl⟩
  · simp [splitFormattedPos, HasForm, JsString.trim, JsString.trimStart, JsString.trimEnd]
  · have hbody : (body.concat last).take ((body.concat last).length - 1) = body := by simp
    have hlast : (body.concat last).drop ((body.concat last).length - 1) = [last] := by simp
    rw [splitFormattedPos, hbody, hlast]
    constructor
    · intro h
      split at h
      next hsplit =>
        cases h
        obtain ⟨hbody, hhours, hminutes⟩ := JsString.splitOn_eq_pair.mp hsplit
        exact ⟨last, rfl, body, by simp, hbody, hhours, hminutes⟩
      · cases h
    · rintro ⟨letter, rfl, other, hvalue, htrim, hhours, hminutes⟩
      obtain ⟨rfl, rfl⟩ : body = other ∧ last = letter := by simpa using hvalue
      rw [JsString.splitOn_eq_pair.mpr ⟨htrim, hhours, hminutes⟩]

/-- What has the form is not taken for a plain number. -/
theorem HasForm.blank_mem {value hours minutes : JsString} {letter : Char}
    (h : HasForm value hours minutes letter) : ' ' ∈ value.trim := by
  obtain ⟨body, rfl, htrim, -⟩ := h
  apply JsString.mem_trim_concat
  simp [htrim]

theorem parsePosition_of_form {round : ℚ → JsNumber}
    {parse : JsString → JsString → JsString → Except String JsNumber}
    {value hours minutes : JsString} {letter : Char} (h : HasForm value hours minutes letter) :
    parsePosition round parse value = parse hours minutes [letter] := by
  rw [parsePosition, if_neg fun hplain => hplain.1 h.blank_mem,
    splitFormattedPos_eq_ok.mpr ⟨letter, rfl, h⟩]

section
variable {round : ℚ → JsNumber} {positive negative : Char} {hours minutes : JsString}
  {letter : Char}

/-- The number that degrees and minutes stand for. -/
def degreesOf (round : ℚ → JsNumber) (negative : Char) (hours minutes : JsString)
    (letter : Char) : JsNumber :=
  let x := (parseInt round hours).add round ((parseFloat round minutes).divBy round 60)
  if JsString.upperChar letter = negative then x.neg else x

/-- The parser looks at the letter and nothing else before it accepts. -/
theorem parseParts_singleton (hpositive : isWhiteSpace positive = false)
    (hnegative : isWhiteSpace negative = false) :
    parseParts round positive negative hours minutes [letter] =
      if JsString.upperChar letter = positive ∨ JsString.upperChar letter = negative then
        .ok (degreesOf round negative hours minutes letter)
      else .error "Format exception" := by
  cases hspace : isWhiteSpace letter with
  | true =>
      have hupper := JsString.upperChar_of_isWhiteSpace hspace
      have hneither : ¬ (JsString.upperChar letter = positive ∨
          JsString.upperChar letter = negative) := by
        rw [hupper]
        rintro (rfl | rfl)
        · simp_all
        · simp_all
      rw [if_neg hneither]
      simp [parseParts, parseString, JsString.trim_singleton, hspace]
  | false =>
      simp only [parseParts, parseString, JsString.trim_singleton, hspace, JsString.toUpperCase,
        degreesOf]
      by_cases hletter : JsString.upperChar letter = positive ∨
        JsString.upperChar letter = negative
      · rw [if_pos hletter]
        rcases hletter with h | h
        · simp [h]
        · simp [h]
      · rw [if_neg hletter]
        rw [not_or] at hletter
        simp [hletter.1, hletter.2]

/-- The numbers that are read are rounded one by one. -/
theorem degreesOf_eq {n : ℕ} {m : ℚ} (hn : ReadsInteger hours n) (hm : ReadsNumber minutes m) :
    degreesOf round negative hours minutes letter =
      let x := (round n).add round ((round m).divBy round 60)
      if JsString.upperChar letter = negative then x.neg else x := by
  have hh : parseInt round hours = round n := by
    rw [parseInt, show readInt _ = _ from hn]
    simp
  have hmm : parseFloat round minutes = round m := by
    rw [parseFloat, readNumber, show readDecimal _ = _ from hm, JsNumber.roundWith]
  rw [degreesOf, hh, hmm]

end

/-! ### The round trip -/

/-- The thousandths of a minute that are shown for a number of degrees. -/
def minuteUnits (a : ℚ) : ℕ := ⌊(a - ⌊a⌋) * 60 * 10 ^ 3 + 1 / 2⌋₊

/-- What is shown for a sign, whole degrees and thousandths of a minute. -/
def shown (positive negative : Char) (decimals : ℕ) (below : Prop) [Decidable below]
    (hours units : ℕ) : JsString :=
  (fixedDigits decimals hours).drop 2 ++ ' ' :: padMinutes (fixedDigits 3 units) ++
    [if below then negative else positive]

theorem toFixed_of_nonneg {f : ℕ} {x : ℚ} (hx : 0 ≤ x) :
    toFixed f x = fixedDigits f ⌊x * 10 ^ f + 1 / 2⌋₊ := by
  rw [toFixed, if_neg (not_lt.mpr hx)]

theorem floor_add_half (n : ℕ) : ⌊(n : ℚ) + 1 / 2⌋₊ = n := by
  rw [Nat.floor_eq_iff (by positivity)]
  constructor
  · linarith
  · linarith

theorem formatPosition_eq (positive negative : Char) (decimals : ℕ) (x : ℚ) :
    formatPosition positive negative decimals x =
      shown positive negative decimals (x < 0) ⌊|x|⌋₊ (minuteUnits |x|) := by
  have habs : (if x < 0 then x * -1 else x) = |x| := by
    split
    next hx =>
      rw [abs_of_neg hx]
      ring
    next hx => rw [abs_of_nonneg (not_lt.mp hx)]
  have hfloor : ((⌊|x|⌋₊ : ℕ) : ℚ) = ⌊|x|⌋ := natCast_floor_eq_intCast_floor (abs_nonneg x)
  have hpos : (0 : ℚ) < 10 ^ decimals := by positivity
  simp only [formatPosition, habs, shown]
  have hfract : 0 ≤ |x| - ⌊|x|⌋ := by
    have := Int.floor_le |x|
    linarith
  rw [toFixed_of_nonneg (by rw [← hfloor]; positivity), toFixed_of_nonneg (by positivity),
    div_mul_cancel₀ _ hpos.ne', ← hfloor, floor_add_half]
  rw [minuteUnits, hfloor]

theorem padMinutes_writes {f n : ℕ} {whole fraction : JsString} (h : Writes f n whole fraction) :
    ∃ whole', padMinutes (whole ++ '.' :: fraction) = whole' ++ '.' :: fraction ∧
      Writes f n whole' fraction := by
  generalize hs : whole ++ '.' :: fraction = s
  induction s using padMinutes.induct generalizing whole with
  | case1 s hless ih =>
      subst hs
      rw [padMinutes, if_pos hless]
      exact ih h.pad rfl
  | case2 s hless =>
      subst hs
      rw [padMinutes, if_neg hless]
      exact ⟨whole, rfl, h⟩

/-- What the two letters of a coordinate have to be for the parser. -/
structure Letters (positive negative : Char) : Prop where
  positive_visible : isWhiteSpace positive = false
  negative_visible : isWhiteSpace negative = false
  positive_upper : JsString.upperChar positive = positive
  negative_upper : JsString.upperChar negative = negative
  distinct : positive ≠ negative

theorem letters_latitude : Letters 'N' 'S' := ⟨rfl, rfl, rfl, rfl, by decide⟩

theorem letters_longitude : Letters 'E' 'W' := ⟨rfl, rfl, rfl, rfl, by decide⟩

section
variable {positive negative : Char} {decimals : ℕ} {below : Prop} [Decidable below]
  {hours units : ℕ}

/-- What is shown has the form, and both numbers are read off it. -/
theorem shown_form (positive negative : Char) (below : Prop) [Decidable below] (units : ℕ)
    (hdecimals : 0 < decimals) (hhours : hours < 10 ^ decimals) :
    ∃ degrees minutes, HasForm (shown positive negative decimals below hours units) degrees minutes
        (if below then negative else positive) ∧
      ReadsInteger degrees hours ∧ ReadsNumber minutes (units / 10 ^ 3) := by
  obtain ⟨zero, degrees, hdegrees, hdigits, hlength, hvalue⟩ := exists_writes_of_lt hdecimals hhours
  obtain ⟨whole, fraction, hfixed, hwrites, -⟩ := exists_writes (f := 3) (by omega) units
  obtain ⟨whole', hpad, hwrites'⟩ := padMinutes_writes hwrites
  have hne : degrees ≠ [] := by
    rintro rfl
    simp at hlength
    omega
  have hdegreesStart : degrees.trimStart = degrees := by
    apply JsString.trimStart_of_head
    intro c hc
    exact isWhiteSpace_of_isDigit (hdigits c (List.mem_of_mem_head? hc))
  have hminutesStart :
      JsString.trimStart (whole' ++ '.' :: fraction) = whole' ++ '.' :: fraction := by
    apply JsString.trimStart_of_head
    intro c hc
    obtain ⟨d, rest, rfl⟩ := List.exists_cons_of_ne_nil hwrites'.nonempty
    cases hc
    exact isWhiteSpace_of_isDigit (hwrites'.digits c (by simp))
  have hblank : ∀ ds : JsString, (∀ c ∈ ds, c.isDigit = true) → ' ' ∉ ds := by
    intro ds hds hmem
    exact absurd (hds ' ' hmem) (by decide)
  refine ⟨degrees, whole' ++ '.' :: fraction, ⟨degrees ++ ' ' :: (whole' ++ '.' :: fraction),
    ?_, ?_, hblank degrees hdigits, ?_⟩, ?_, ?_⟩
  · simp [shown, hdegrees, hfixed, hpad]
  · have hfraction : fraction ≠ [] := by
      rintro rfl
      have := hwrites'.length
      simp at this
    obtain ⟨first, rest, rfl⟩ := List.exists_cons_of_ne_nil hne
    obtain ⟨front, last, rfl⟩ := (List.eq_nil_or_concat fraction).resolve_left hfraction
    have hends := JsString.trim_between (rest ++ ' ' :: whole' ++ '.' :: front)
      (isWhiteSpace_of_isDigit (hdigits first (by simp)))
      (isWhiteSpace_of_isDigit (hwrites'.digits last (by simp)))
    simpa using hends
  · have hwhole : ' ' ∉ whole' := hblank whole' fun c hc => hwrites'.digits c (by simp [hc])
    have hfraction : ' ' ∉ fraction := hblank fraction fun c hc => hwrites'.digits c (by simp [hc])
    simp [hwhole, hfraction]
  · rw [ReadsInteger, hdegreesStart, readInt_digits hne hdigits, hvalue]
  · rw [ReadsNumber, hminutesStart, hwrites'.readDecimal]

/-- The number that is read off what is shown. -/
def readBack (below : Prop) [Decidable below] (hours units : ℕ) : ℚ :=
  if below then -(hours + units / 10 ^ 3 / 60) else hours + units / 10 ^ 3 / 60

theorem parsePosition_shown (below : Prop) [Decidable below] (units : ℕ)
    (hl : Letters positive negative) (hdecimals : 0 < decimals) (hhours : hours < 10 ^ decimals) :
    parsePosition .finite (parseParts .finite positive negative)
        (shown positive negative decimals below hours units) =
      .ok (.finite (readBack below hours units)) := by
  obtain ⟨degrees, minutes, hform, hdegrees, hminutes⟩ :=
    shown_form positive negative below units hdecimals hhours
  rw [parsePosition_of_form hform, parseParts_singleton hl.positive_visible hl.negative_visible,
    degreesOf_eq hdegrees hminutes]
  by_cases h : below
  · simp [h, hl.negative_upper, readBack, JsNumber.add, JsNumber.divBy, JsNumber.neg]
  · simp [h, hl.positive_upper, hl.distinct, readBack, JsNumber.add, JsNumber.divBy]

theorem abs_readBack : |readBack below hours units| = hours + units / 10 ^ 3 / 60 := by
  have hnonneg : (0 : ℚ) ≤ hours + units / 10 ^ 3 / 60 := by positivity
  unfold readBack
  split
  · rw [abs_neg, abs_of_nonneg hnonneg]
  · exact abs_of_nonneg hnonneg

/-- Less than 60 minutes go back to what they were, and so do the degrees. -/
theorem units_readBack (below : Prop) [Decidable below] (hours : ℕ) (hunits : units < 60000) :
    ⌊|readBack below hours units|⌋₊ = hours ∧ minuteUnits |readBack below hours units| = units := by
  have hu : (units : ℚ) < 60000 := by exact_mod_cast hunits
  have hu' : (0 : ℚ) ≤ units := Nat.cast_nonneg units
  have hfloor : ⌊(hours : ℚ) + units / 10 ^ 3 / 60⌋ = hours := by
    rw [Int.floor_eq_iff]
    push_cast
    constructor
    · linarith
    · linarith
  rw [abs_readBack]
  refine ⟨?_, ?_⟩
  · rw [← Int.floor_toNat, hfloor, Int.toNat_natCast]
  · have heq : ((hours : ℚ) + units / 10 ^ 3 / 60 - (hours : ℤ)) * 60 * 10 ^ 3 = units := by
      push_cast
      ring
    rw [minuteUnits, hfloor, heq, floor_add_half]

/-- The sign goes back as well, unless nothing is left of the number. -/
theorem readBack_neg_iff (hsome : below → ¬ (hours = 0 ∧ units = 0)) :
    readBack below hours units < 0 ↔ below := by
  unfold readBack
  split
  next h =>
    have hpos : (0 : ℚ) < hours + units / 10 ^ 3 / 60 := by
      rcases (by have := hsome h; omega : 0 < hours ∨ 0 < units) with h | h
      · positivity
      · positivity
    simp only [h, iff_true]
    linarith
  next h =>
    have hnonneg : (0 : ℚ) ≤ hours + units / 10 ^ 3 / 60 := by positivity
    simp only [h, iff_false, not_lt]
    exact hnonneg

/-- The letter at the end tells the signs apart. -/
theorem below_of_shown_eq {other : Prop} [Decidable other] {hours' units' : ℕ}
    (hl : Letters positive negative)
    (h : shown positive negative decimals below hours units =
      shown positive negative decimals other hours' units') (hbelow : below) : other := by
  have hlast := congrArg List.getLast? h
  simp only [shown, List.getLast?_concat, Option.some.injEq] at hlast
  by_contra hother
  rw [if_pos hbelow, if_neg hother] at hlast
  exact hl.distinct hlast.symm

end

/-- What is shown for `x` is read as a number within half a unit of the last
digit, shown as the same text again, and has less than 60 minutes. -/
def RoundTrips (format : ℚ → JsString) (parse : JsString → Except String JsNumber) (x : ℚ) :
    Prop :=
  ∃ y, parse (format x) = .ok (.finite y) ∧ |y - x| ≤ 1 / 120000 ∧ format y = format x ∧
    ∃ degrees minutes letter m, HasForm (format x) degrees minutes letter ∧
      ReadsNumber minutes m ∧ m < 60

/-- The minutes do not round up to 60, and a number below zero does not
round to zero. -/
def Steady (x : ℚ) : Prop :=
  (|x| - ⌊|x|⌋) * 60 < 59.9995 ∧ ¬ (x < 0 ∧ |x| < 1 / 120000)

instance (x : ℚ) : Decidable (Steady x) := inferInstanceAs (Decidable (_ ∧ _))

theorem minuteUnits_lt_iff (x : ℚ) :
    minuteUnits |x| < 60000 ↔ (|x| - ⌊|x|⌋) * 60 < 59.9995 := by
  have hfract := Int.floor_le |x|
  rw [minuteUnits, Nat.floor_lt (by linarith)]
  push_cast
  constructor
  · intro h
    norm_num at h ⊢
    linarith
  · intro h
    norm_num at h ⊢
    linarith

/-- Nothing is left of a number below half a unit. -/
theorem rounds_to_zero_iff (x : ℚ) :
    ⌊|x|⌋₊ = 0 ∧ minuteUnits |x| = 0 ↔ |x| < 1 / 120000 := by
  have hnonneg := abs_nonneg x
  rw [Nat.floor_eq_zero]
  constructor
  · rintro ⟨hone, hunits⟩
    have hfloor : ⌊|x|⌋ = 0 := Int.floor_eq_zero_iff.mpr ⟨hnonneg, hone⟩
    rw [minuteUnits, hfloor, Nat.floor_eq_zero] at hunits
    norm_num at hunits ⊢
    linarith
  · intro h
    have hone : |x| < 1 := by linarith
    have hfloor : ⌊|x|⌋ = 0 := Int.floor_eq_zero_iff.mpr ⟨hnonneg, hone⟩
    refine ⟨hone, ?_⟩
    rw [minuteUnits, hfloor, Nat.floor_eq_zero]
    norm_num
    linarith

/-- Rounding the minutes moves the number by at most half a unit. -/
theorem abs_readBack_sub_le (x : ℚ) :
    |readBack (x < 0) ⌊|x|⌋₊ (minuteUnits |x|) - x| ≤ 1 / 120000 := by
  have hfract := Int.floor_le |x|
  have hfloor : ((⌊|x|⌋₊ : ℕ) : ℚ) = ⌊|x|⌋ := natCast_floor_eq_intCast_floor (abs_nonneg x)
  have hround := abs_floor_sub_le (y := (|x| - ⌊|x|⌋) * 60 * 10 ^ 3) (by linarith)
  change |(minuteUnits |x| : ℚ) - (|x| - ⌊|x|⌋) * 60 * 10 ^ 3| ≤ 1 / 2 at hround
  rw [abs_le] at hround ⊢
  unfold readBack
  rw [hfloor]
  split
  next hx =>
    have habs := abs_of_neg hx
    constructor
    · linarith
    · linarith
  next hx =>
    have habs := abs_of_nonneg (not_lt.mp hx)
    constructor
    · linarith
    · linarith

theorem roundTrips_iff {positive negative : Char} {decimals : ℕ} (hl : Letters positive negative)
    (hdecimals : 0 < decimals) {x : ℚ} (hx : |x| < 10 ^ decimals) :
    RoundTrips (formatPosition positive negative decimals)
        (parsePosition .finite (parseParts .finite positive negative)) x ↔ Steady x := by
  have hhours : ⌊|x|⌋₊ < 10 ^ decimals := by
    rw [Nat.floor_lt (abs_nonneg x)]
    exact_mod_cast hx
  have hparse := parsePosition_shown (x < 0) (minuteUnits |x|) hl hdecimals hhours
  unfold RoundTrips Steady
  rw [← minuteUnits_lt_iff, ← rounds_to_zero_iff, formatPosition_eq, hparse]
  constructor
  · rintro ⟨y, ⟨⟩, -, hagain, degrees, minutes, letter, m, hform, hm, hless⟩
    obtain ⟨degrees', minutes', hform', -, hminutes⟩ :=
      shown_form positive negative (x < 0) (minuteUnits |x|) hdecimals hhours
    have hsame := splitFormattedPos_eq_ok.mpr ⟨letter, rfl, hform⟩
    rw [splitFormattedPos_eq_ok.mpr ⟨_, rfl, hform'⟩] at hsame
    cases hsame
    rw [ReadsNumber, hminutes] at hm
    cases hm
    have hunits : minuteUnits |x| < 60000 := by
      have : (minuteUnits |x| : ℚ) < 60000 := by linarith
      exact_mod_cast this
    refine ⟨hunits, ?_⟩
    rintro ⟨hneg, hh, hu⟩
    rw [formatPosition_eq] at hagain
    have hneg' := below_of_shown_eq hl hagain.symm hneg
    rw [hh, hu] at hneg'
    simp [readBack, hneg] at hneg'
  · rintro ⟨hunits, hsome⟩
    obtain ⟨degrees, minutes, hform, -, hminutes⟩ :=
      shown_form positive negative (x < 0) (minuteUnits |x|) hdecimals hhours
    obtain ⟨hh, hu⟩ := units_readBack (x < 0) ⌊|x|⌋₊ hunits
    have hsign := readBack_neg_iff fun hneg hzero => hsome ⟨hneg, hzero⟩
    refine ⟨_, rfl, abs_readBack_sub_le x, ?_, degrees, minutes, _, _, hform, hminutes, ?_⟩
    · rw [formatPosition_eq, hh, hu]
      simp only [shown, hsign]
    · have : (minuteUnits |x| : ℚ) < 60000 := by exact_mod_cast hunits
      linarith

/-- With exact numbers, showing and reading a latitude or a longitude in range
round-trips exactly where the rounding is steady. -/
theorem format_roundTrips_iff (x : ℚ) :
    (-90 ≤ x → x ≤ 90 → (RoundTrips formatLatitude (parseLatitude .finite) x ↔ Steady x)) ∧
      (-180 ≤ x → x ≤ 180 → (RoundTrips formatLongitude (parseLongitude .finite) x ↔ Steady x)) := by
  constructor
  · intro hmin hmax
    apply roundTrips_iff letters_latitude (by omega : 0 < 2)
    rw [abs_lt]
    constructor
    · linarith
    · linarith
  · intro hmin hmax
    apply roundTrips_iff letters_longitude (by omega : 0 < 3)
    rw [abs_lt]
    constructor
    · linarith
    · linarith

theorem format_roundTrips_iff_quarter :
    RoundTrips formatLatitude (parseLatitude .finite) (-(221 / 4)) ∧
      RoundTrips formatLongitude (parseLongitude .finite) (-(221 / 4)) :=
  ⟨((format_roundTrips_iff (-(221 / 4))).1 (by norm_num) (by norm_num)).mpr (by decide +kernel),
    ((format_roundTrips_iff (-(221 / 4))).2 (by norm_num) (by norm_num)).mpr (by decide +kernel)⟩

/-- Minutes that round up to 60 are shown as 60, and what is shown then is
another text once it is read; the latitude just below zero is shown as south
and comes back as north. -/
theorem format_roundTrips_fails :
    formatLatitude (10 - 1 / 1000000) = "09 60.000N".toList ∧
      parseLatitude .finite "09 60.000N".toList = .ok (.finite 10) ∧
      formatLatitude 10 = "10 00.000N".toList ∧
      ¬ RoundTrips formatLatitude (parseLatitude .finite) (10 - 1 / 1000000) ∧
      formatLatitude (-(1 / 1000000)) = "00 00.000S".toList ∧
      ¬ RoundTrips formatLatitude (parseLatitude .finite) (-(1 / 1000000)) := by
  have hcarry : parseLatitude .finite (formatLatitude (10 - 1 / 1000000)) = .ok (.finite 10) := by
    decide +kernel
  have hsign : parseLatitude .finite (formatLatitude (-(1 / 1000000))) = .ok (.finite 0) := by
    decide +kernel
  refine ⟨by decide +kernel, by decide +kernel, by decide +kernel, ?_, by decide +kernel, ?_⟩
  · rintro ⟨y, hy, -, hagain, -⟩
    rw [hcarry] at hy
    cases hy
    exact absurd hagain (by decide +kernel)
  · rintro ⟨y, hy, -, hagain, -⟩
    rw [hsign] at hy
    cases hy
    exact absurd hagain (by decide +kernel)

end AisStore
