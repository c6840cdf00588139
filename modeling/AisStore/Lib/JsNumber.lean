import AisStore.Lib.Binary64
import AisStore.Lib.JsString
import Mathlib.Algebra.Order.Floor.Ring
import Mathlib.Data.Rat.Floor
import Mathlib.Tactic.FieldSimp
import Mathlib.Tactic.Linarith

/-!
JavaScript numbers as rationals, with `NaN` and the infinities, and what turns
them into text and back.

Zero is one number, without a sign. What gives a new number is given how to
round it: `binary64` gives the nearest double, an infinity beyond the largest,
and with `JsNumber.finite` nothing is rounded.

`toFixed` rounds to a number of decimals, halves away from zero. `parseInt`
and `parseFloat` read the longest beginning of a string that is a numeral,
and what comes after it is lost; `readInt` and `readDecimal` are the readers
below them, and give that rest as well. Reading back a numeral with a
decimal point gives the value of its digits, shifted (`readUnsigned_fixed`).
-/

namespace AisStore.Lib

inductive JsNumber where
  | nan
  | infinity (negative : Bool)
  | finite (x : ℚ)
  deriving DecidableEq

/-- The double nearest to a number. -/
def binary64 (x : ℚ) : JsNumber :=
  let y := roundMagnitude |x|
  if 2 ^ 1024 ≤ y then .infinity (x < 0) else .finite (if x < 0 then -y else y)

namespace JsNumber

def neg : JsNumber → JsNumber
  | nan => nan
  | infinity negative => infinity !negative
  | finite x => finite (-x)

variable (round : ℚ → JsNumber)

def roundWith : JsNumber → JsNumber
  | nan => nan
  | infinity negative => infinity negative
  | finite x => round x

def add : JsNumber → JsNumber → JsNumber
  | finite x, finite y => round (x + y)
  | infinity negative, finite _ => infinity negative
  | finite _, infinity negative => infinity negative
  | infinity b, infinity c => if b = c then infinity b else nan
  | nan, _ => nan
  | _, nan => nan

/-- Division by a positive number. -/
def divBy (k : ℚ) : JsNumber → JsNumber
  | nan => nan
  | infinity negative => infinity negative
  | finite x => round (x / k)

/-- `a == b`, for numbers. -/
def looseEq (a b : JsNumber) : Bool := a ≠ nan && a = b

@[simp] theorem roundWith_finite (x : JsNumber) : x.roundWith finite = x := by
  cases x <;> rfl

end JsNumber

/-! ### From text -/

/-- The value of a sequence of decimal digits. -/
def digitsValue (ds : JsString) : ℕ := Nat.ofDigitChars 10 ds 0

def readSign : JsString → Bool × JsString
  | '+' :: s => (false, s)
  | '-' :: s => (true, s)
  | s => (false, s)

/-- A signed integer at the beginning of a string, and what comes after it. -/
def readInt (s : JsString) : Option (ℤ × JsString) :=
  let ds := (readSign s).2.takeWhile Char.isDigit
  if ds = [] then none
  else
    some (if (readSign s).1 then -digitsValue ds else digitsValue ds,
      (readSign s).2.dropWhile Char.isDigit)

/-- The digits after a decimal point. -/
def readFraction : JsString → JsString × JsString
  | '.' :: s => (s.takeWhile Char.isDigit, s.dropWhile Char.isDigit)
  | s => ([], s)

/-- An exponent, zero where there is none. -/
def readExponent : JsString → ℤ × JsString
  | [] => (0, [])
  | c :: s =>
      if c = 'e' ∨ c = 'E' then (readInt s).getD (0, c :: s)
      else (0, c :: s)

/-- A decimal numeral without a sign. -/
def readUnsigned (s : JsString) : Option (JsNumber × JsString) :=
  if "Infinity".toList <+: s then some (.infinity false, s.drop 8)
  else
    let whole := s.takeWhile Char.isDigit
    let fraction := readFraction (s.dropWhile Char.isDigit)
    if whole = [] ∧ fraction.1 = [] then none
    else
      let exponent := readExponent fraction.2
      some (.finite (digitsValue (whole ++ fraction.1) * 10 ^ (exponent.1 - fraction.1.length)),
        exponent.2)

/-- A decimal numeral at the beginning of a string, and what comes after it. -/
def readDecimal (s : JsString) : Option (JsNumber × JsString) :=
  (readUnsigned (readSign s).2).map fun r => (if (readSign s).1 then r.1.neg else r.1, r.2)

/-- The number at the beginning of a string, not rounded. -/
def readNumber (s : JsString) : JsNumber :=
  match readDecimal s.trimStart with
  | some (x, _) => x
  | none => .nan

section
variable (round : ℚ → JsNumber)

/-- `parseInt(s, 10)`. -/
def parseInt (s : JsString) : JsNumber :=
  match readInt s.trimStart with
  | some (n, _) => round n
  | none => .nan

def parseFloat (s : JsString) : JsNumber := (readNumber s).roundWith round

end

/-- The base of a numeral that starts with `0` and this letter. -/
def radixOf (c : Char) : Option ℕ :=
  if c = 'x' ∨ c = 'X' then some 16
  else if c = 'o' ∨ c = 'O' then some 8
  else if c = 'b' ∨ c = 'B' then some 2
  else none

/-- The value of a sequence of digits in a base, all of which are digits
of it. -/
def radixValue (b : ℕ) (ds : JsString) : Option ℕ :=
  ds.foldl (fun n c => do
    let v ← hexValue c
    if v < b then some ((← n) * b + v) else none) (some 0)

/-- A numeral in another base than ten. -/
def radixLiteral : JsString → Option ℕ
  | '0' :: c :: d :: ds => do radixValue (← radixOf c) (d :: ds)
  | _ => none

/-- A string as a number, where `==` compares it with one. All of it but
white space around has to be a numeral, and nothing is 0. -/
def toNumber (round : ℚ → JsNumber) (s : JsString) : JsNumber :=
  if s.trim = [] then .finite 0
  else match radixLiteral s.trim with
    | some n => round n
    | none => match readDecimal s.trim with
      | some (x, []) => x.roundWith round
      | _ => .nan

/-! ### To text -/

/-- A number that counts units of the last of `f` decimals, written out. -/
def fixedDigits (f n : ℕ) : JsString :=
  let digits := Nat.toDigits 10 n
  let digits := List.replicate (f + 1 - digits.length) '0' ++ digits
  if f = 0 then digits
  else digits.take (digits.length - f) ++ '.' :: digits.drop (digits.length - f)

/-- `x.toFixed(f)`, for a number below 10²¹. -/
def toFixed (f : ℕ) (x : ℚ) : JsString :=
  if x < 0 then '-' :: fixedDigits f ⌊-x * 10 ^ f + 1 / 2⌋₊
  else fixedDigits f ⌊x * 10 ^ f + 1 / 2⌋₊

/-- A number as `toString` sees it: the shortest digits that stand for it,
and where the decimal point is among them. -/
structure Numeral where
  negative : Bool
  digits : ℕ
  point : ℤ
  shortest : digits = 0 ∨ digits % 10 ≠ 0
  deriving DecidableEq

/-- The text of a number that is not 0, without its sign. -/
def Numeral.magnitude (x : Numeral) : JsString :=
  let ds := Nat.toDigits 10 x.digits
  let n := x.point
  if ds.length ≤ n ∧ n ≤ 21 then ds ++ List.replicate (n - ds.length).toNat '0'
  else if 0 < n ∧ n ≤ 21 then ds.take n.toNat ++ '.' :: ds.drop n.toNat
  else if -6 < n ∧ n ≤ 0 then '0' :: '.' :: (List.replicate (-n).toNat '0' ++ ds)
  else
    ds.take 1 ++ ((if ds.length = 1 then [] else '.' :: ds.drop 1) ++
      'e' :: (if 1 < n then '+' else '-') :: Nat.toDigits 10 (n - 1).natAbs)

/-- `"" + x`. -/
def Numeral.toString (x : Numeral) : JsString :=
  if x.digits = 0 then ['0'] else if x.negative then '-' :: x.magnitude else x.magnitude

example : toFixed 3 (-(1 / 3000)) = "-0.000".toList := by decide +kernel

example : parseFloat binary64 "12.50e1x".toList = .finite 125 := by decide +kernel

example : parseFloat binary64 "-1e400".toList = .infinity true := by decide +kernel

example : toNumber binary64 "12.50e1x".toList = .nan := by decide +kernel

example : (Numeral.mk true 25 (-7) (by decide)).toString = "-2.5e-8".toList := by decide +kernel

/-! ### Numerals -/

/-- The two sequences of digits, with a decimal point between them, write
`n` units of the last of `f` decimals. -/
structure Writes (f n : ℕ) (whole fraction : JsString) : Prop where
  digits : ∀ c ∈ whole ++ fraction, c.isDigit = true
  value : digitsValue (whole ++ fraction) = n
  length : fraction.length = f
  nonempty : whole ≠ []

theorem digitsValue_append (a b : JsString) :
    digitsValue (a ++ b) = 10 ^ b.length * digitsValue a + digitsValue b := by
  rw [digitsValue, Nat.ofDigitChars_append, Nat.ofDigitChars_eq_ofDigitChars_zero]
  rfl

theorem digitsValue_replicate_zero (k : ℕ) (ds : JsString) :
    digitsValue (List.replicate k '0' ++ ds) = digitsValue ds := by
  rw [digitsValue_append, digitsValue, Nat.ofDigitChars_replicate_zero]
  simp

/-- Zeros in front of a numeral do not change it. -/
theorem Writes.pad {f n : ℕ} {whole fraction : JsString} (h : Writes f n whole fraction) :
    Writes f n ('0' :: whole) fraction where
  digits := by
    intro c hc
    rcases List.mem_cons.mp hc with rfl | hc
    · rfl
    · exact h.digits c hc
  value := by
    rw [← h.value]
    exact digitsValue_replicate_zero 1 (whole ++ fraction)
  length := h.length
  nonempty := by simp

/-- The text of a number with decimals, and how long it is before the
decimal point. -/
theorem exists_writes {f : ℕ} (hf : 0 < f) (n : ℕ) :
    ∃ whole fraction : JsString, fixedDigits f n = whole ++ '.' :: fraction ∧
      Writes f n whole fraction ∧ whole.length = max 1 ((Nat.toDigits 10 n).length - f) := by
  let digits := List.replicate (f + 1 - (Nat.toDigits 10 n).length) '0' ++ Nat.toDigits 10 n
  have hlength : digits.length = max (f + 1) (Nat.toDigits 10 n).length := by
    simp only [digits, List.length_append, List.length_replicate]
    omega
  have hwhole : (digits.take (digits.length - f)).length = digits.length - f := by
    rw [List.length_take]
    omega
  refine ⟨digits.take (digits.length - f), digits.drop (digits.length - f), ?_,
    ⟨?_, ?_, ?_, ?_⟩, ?_⟩
  · rw [fixedDigits, if_neg (by omega)]
  · intro c hc
    rw [List.take_append_drop] at hc
    rcases List.mem_append.mp hc with hc | hc
    · rw [List.eq_of_mem_replicate hc]
      rfl
    · exact Nat.isDigit_of_mem_toDigits (by omega) (by omega) hc
  · rw [List.take_append_drop, digitsValue_replicate_zero]
    exact Nat.ofDigitChars_ten_toDigits
  · rw [List.length_drop]
    omega
  · intro hnil
    rw [hnil, List.length_nil] at hwhole
    omega
  · rw [hwhole]
    omega

/-- A number below one has a single digit before the decimal point, and the
digits after it have its value. -/
theorem exists_writes_of_lt {f n : ℕ} (hf : 0 < f) (hn : n < 10 ^ f) :
    ∃ (zero : Char) (fraction : JsString), fixedDigits f n = zero :: '.' :: fraction ∧
      (∀ c ∈ fraction, c.isDigit = true) ∧ fraction.length = f ∧ digitsValue fraction = n := by
  obtain ⟨whole, fraction, heq, hw, hlength⟩ := exists_writes hf n
  have hdigits := (Nat.length_toDigits_le_iff (b := 10) (by omega) hf).mpr hn
  obtain ⟨zero, rfl⟩ := List.length_eq_one_iff.mp (by omega : whole.length = 1)
  have hvalue := hw.value
  rw [digitsValue_append, hw.length] at hvalue
  have hzero : digitsValue [zero] = 0 := by
    by_contra hne
    have := Nat.mul_le_mul_left (10 ^ f) (Nat.one_le_iff_ne_zero.mpr hne)
    omega
  rw [hzero] at hvalue
  refine ⟨zero, fraction, heq, ?_, hw.length, by simpa using hvalue⟩
  intro c hc
  exact hw.digits c (by simp [hc])

/-- What is read off digits stops at the first character that is none. -/
theorem takeWhile_digits {ds : JsString} (rest : JsString) (hds : ∀ c ∈ ds, c.isDigit = true)
    (hrest : ∀ c ∈ rest.head?, c.isDigit = false) :
    (ds ++ rest).takeWhile Char.isDigit = ds ∧ (ds ++ rest).dropWhile Char.isDigit = rest := by
  rw [List.takeWhile_append_of_pos hds, List.dropWhile_append_of_pos hds]
  cases rest with
  | nil => simp
  | cons c rest => simp [hrest c rfl]

/-- A digit is none of the characters the readers look for first. -/
theorem isDigit_ne {c d : Char} (hc : c.isDigit = true) (hd : d.isDigit = false) : c ≠ d := by
  rintro rfl
  rw [hc] at hd
  cases hd

theorem readSign_of_digit {s : JsString} (h : ∀ c ∈ s.head?, c.isDigit = true) :
    readSign s = (false, s) := by
  cases s with
  | nil => rfl
  | cons c s =>
      have hplus : c ≠ '+' := isDigit_ne (h c rfl) rfl
      have hminus : c ≠ '-' := isDigit_ne (h c rfl) rfl
      unfold readSign
      split
      · simp_all
      · simp_all
      · rfl

theorem readExponent_nil : readExponent [] = (0, []) := rfl

/-- A numeral is read to its last character. -/
theorem Writes.readUnsigned {f n : ℕ} {whole fraction : JsString}
    (h : Writes f n whole fraction) :
    readUnsigned (whole ++ '.' :: fraction) = some (.finite (n / 10 ^ f), []) := by
  have hwhole : ∀ c ∈ whole, c.isDigit = true := fun c hc => h.digits c (by simp [hc])
  have hfraction : ∀ c ∈ fraction, c.isDigit = true := fun c hc => h.digits c (by simp [hc])
  obtain ⟨htake, hdrop⟩ := takeWhile_digits ('.' :: fraction) hwhole (by simp)
  obtain ⟨htake', hdrop'⟩ := takeWhile_digits [] hfraction (by simp)
  rw [List.append_nil] at htake' hdrop'
  have hinfinity : ¬ "Infinity".toList <+: whole ++ '.' :: fraction := by
    intro hunder
    obtain ⟨c, whole, rfl⟩ := List.exists_cons_of_ne_nil h.nonempty
    obtain ⟨rest, hrest⟩ := hunder
    have hc : 'I' = c := (List.cons.inj hrest).1
    exact isDigit_ne (hwhole c (by simp)) rfl hc.symm
  rw [Lib.readUnsigned, if_neg hinfinity]
  simp only [htake, hdrop, readFraction, htake', hdrop', readExponent_nil, h.nonempty, false_and,
    if_false, h.value, h.length, zero_sub, zpow_neg, zpow_natCast, div_eq_mul_inv]

theorem Writes.readDecimal {f n : ℕ} {whole fraction : JsString}
    (h : Writes f n whole fraction) :
    readDecimal (whole ++ '.' :: fraction) = some (.finite (n / 10 ^ f), []) := by
  have hread := h.readUnsigned
  obtain ⟨c, whole, rfl⟩ := List.exists_cons_of_ne_nil h.nonempty
  rw [Lib.readDecimal, readSign_of_digit, hread]
  · rfl
  · intro d hd
    cases hd
    exact h.digits c (by simp)

/-- So are digits alone, as an integer. -/
theorem readInt_digits {ds : JsString} (hne : ds ≠ []) (hds : ∀ c ∈ ds, c.isDigit = true) :
    readInt ds = some ((digitsValue ds : ℤ), []) := by
  obtain ⟨htake, hdrop⟩ := takeWhile_digits [] hds (by simp)
  rw [List.append_nil] at htake hdrop
  have hsign : readSign ds = (false, ds) := by
    apply readSign_of_digit
    intro c hc
    exact hds c (List.mem_of_mem_head? hc)
  simp [readInt, hsign, htake, hdrop, hne]

theorem isWhiteSpace_of_isDigit {c : Char} (h : c.isDigit = true) : isWhiteSpace c = false := by
  have hval : 48 ≤ c.toNat ∧ c.toNat ≤ 57 := by simpa [Char.isDigit, UInt32.le_iff_toNat_le] using h
  rw [Bool.eq_false_iff]
  intro hspace
  simp only [isWhiteSpace, List.mem_cons, List.not_mem_nil, Bool.or_eq_true, Bool.and_eq_true,
    decide_eq_true_eq, or_false] at hspace
  omega

/-- The number that `x.toFixed(f)` shows. -/
def rounded (f : ℕ) (x : ℚ) : ℚ :=
  if x < 0 then -(⌊-x * 10 ^ f + 1 / 2⌋₊ / 10 ^ f) else ⌊x * 10 ^ f + 1 / 2⌋₊ / 10 ^ f

/-- What `toFixed` has written is read as the rounded number. -/
theorem readDecimal_toFixed {f : ℕ} (hf : 0 < f) (x : ℚ) :
    readDecimal (toFixed f x) = some (.finite (rounded f x), []) := by
  unfold toFixed rounded
  split
  · obtain ⟨whole, fraction, heq, hw, -⟩ := exists_writes hf ⌊-x * 10 ^ f + 1 / 2⌋₊
    rw [heq]
    simp [readDecimal, readSign, hw.readUnsigned, JsNumber.neg]
  · obtain ⟨whole, fraction, heq, hw, -⟩ := exists_writes hf ⌊x * 10 ^ f + 1 / 2⌋₊
    rw [heq, hw.readDecimal]

/-- Half a unit of the last decimal is the most that rounding changes. -/
theorem abs_floor_sub_le {y : ℚ} (hy : 0 ≤ y) : |(⌊y + 1 / 2⌋₊ : ℚ) - y| ≤ 1 / 2 := by
  have hle := Nat.floor_le (by linarith : 0 ≤ y + 1 / 2)
  have hlt := Nat.lt_floor_add_one (y + 1 / 2)
  rw [abs_le]
  constructor
  · linarith
  · linarith

theorem abs_rounded_sub_le (f : ℕ) (x : ℚ) : |rounded f x - x| ≤ 1 / 2 / 10 ^ f := by
  have hpos : (0 : ℚ) < 10 ^ f := by positivity
  unfold rounded
  split
  next hx =>
    have h := abs_floor_sub_le (y := -x * 10 ^ f) (by nlinarith)
    have heq : -((⌊-x * 10 ^ f + 1 / 2⌋₊ : ℚ) / 10 ^ f) - x =
        -((⌊-x * 10 ^ f + 1 / 2⌋₊ : ℚ) - -x * 10 ^ f) / 10 ^ f := by
      field_simp
      ring
    rw [heq, abs_div, abs_neg, abs_of_pos hpos]
    exact div_le_div_of_nonneg_right h hpos.le
  next hx =>
    have h := abs_floor_sub_le (y := x * 10 ^ f) (by nlinarith)
    have heq : (⌊x * 10 ^ f + 1 / 2⌋₊ : ℚ) / 10 ^ f - x =
        ((⌊x * 10 ^ f + 1 / 2⌋₊ : ℚ) - x * 10 ^ f) / 10 ^ f := by
      field_simp
    rw [heq, abs_div, abs_of_pos hpos]
    exact div_le_div_of_nonneg_right h hpos.le

/-! ### The characters of a number -/

def isNumeralChar (c : Char) : Bool := c.isDigit || c ∈ ['.', '-', '+', 'e']

theorem isNumeralChar_toDigits (n : ℕ) : ∀ c ∈ Nat.toDigits 10 n, isNumeralChar c = true := by
  intro c hc
  simp [isNumeralChar, Nat.isDigit_of_mem_toDigits (by omega) (by omega) hc]

theorem isNumeralChar_zeros (k : ℕ) : ∀ c ∈ List.replicate k '0', isNumeralChar c = true := by
  intro c hc
  rw [List.eq_of_mem_replicate hc]
  rfl

theorem isNumeralChar_magnitude (x : Numeral) :
    ∀ c ∈ x.magnitude, isNumeralChar c = true := by
  have hdigits := isNumeralChar_toDigits x.digits
  have htake : ∀ k, ∀ c ∈ (Nat.toDigits 10 x.digits).take k, isNumeralChar c = true :=
    fun k c hc => hdigits c (List.mem_of_mem_take hc)
  have hdrop : ∀ k, ∀ c ∈ (Nat.toDigits 10 x.digits).drop k, isNumeralChar c = true :=
    fun k c hc => hdigits c (List.mem_of_mem_drop hc)
  simp only [Numeral.magnitude]
  split
  · exact List.forall_mem_append.mpr ⟨hdigits, isNumeralChar_zeros _⟩
  split
  · exact List.forall_mem_append.mpr ⟨htake _, List.forall_mem_cons.mpr ⟨rfl, hdrop _⟩⟩
  split
  · exact List.forall_mem_cons.mpr ⟨rfl, List.forall_mem_cons.mpr ⟨rfl,
      List.forall_mem_append.mpr ⟨isNumeralChar_zeros _, hdigits⟩⟩⟩
  · refine List.forall_mem_append.mpr ⟨htake 1, List.forall_mem_append.mpr ⟨?_,
      List.forall_mem_cons.mpr ⟨rfl, List.forall_mem_cons.mpr ⟨?_, isNumeralChar_toDigits _⟩⟩⟩⟩
    · split
      · exact fun c hc => nomatch hc
      · exact List.forall_mem_cons.mpr ⟨rfl, hdrop 1⟩
    · split
      · rfl
      · rfl

theorem isNumeralChar_toString (x : Numeral) : ∀ c ∈ x.toString, isNumeralChar c = true := by
  unfold Numeral.toString
  split
  · decide
  split
  · exact List.forall_mem_cons.mpr ⟨rfl, isNumeralChar_magnitude x⟩
  · exact isNumeralChar_magnitude x

theorem isNumeralChar_fixedDigits (f n : ℕ) : ∀ c ∈ fixedDigits f n, isNumeralChar c = true := by
  have hdigits : ∀ c ∈ List.replicate (f + 1 - (Nat.toDigits 10 n).length) '0' ++
      Nat.toDigits 10 n, isNumeralChar c = true :=
    List.forall_mem_append.mpr ⟨isNumeralChar_zeros _, isNumeralChar_toDigits n⟩
  simp only [fixedDigits]
  split
  · exact hdigits
  · refine List.forall_mem_append.mpr ⟨?_, List.forall_mem_cons.mpr ⟨rfl, ?_⟩⟩
    · exact fun c hc => hdigits c (List.mem_of_mem_take hc)
    · exact fun c hc => hdigits c (List.mem_of_mem_drop hc)

theorem isNumeralChar_toFixed (f : ℕ) (x : ℚ) : ∀ c ∈ toFixed f x, isNumeralChar c = true := by
  unfold toFixed
  split
  · exact List.forall_mem_cons.mpr ⟨rfl, isNumeralChar_fixedDigits f _⟩
  · exact isNumeralChar_fixedDigits f _

end AisStore.Lib
