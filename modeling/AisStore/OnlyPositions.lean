import AisStore.Position

/-!
What the position parsers accept.

Numbers are doubles here: a text is read as the double nearest to it, and the
quotient and the sum of degrees and minutes are rounded again. So a little
more than 90 or 180 is still in range, `lastRounded` for a plain number and
`lastSum` for degrees and minutes, and `Proper` says by the numbers in the
text which strings are read as positions or not at all
(`parse_onlyPositions_iff`).
-/

namespace AisStore

open Lib

/-- The number is finite and in range. -/
def InRange (bound : ℚ) (r : JsNumber) : Prop := ∃ x, r = .finite x ∧ -bound ≤ x ∧ x ≤ bound

/-- If the value is accepted, it gives a position; and in the form with
degrees and minutes both of them are what they should be. -/
def OnlyPositions (parse : JsString → Except String JsNumber) (bound : ℚ) (value : JsString) :
    Prop :=
  ∀ r, parse value = .ok r →
    InRange bound r ∧
      ∀ hours minutes letter, HasForm value hours minutes letter →
        (∃ n, ReadsInteger hours n) ∧ ∃ m, ReadsNumber minutes m ∧ 0 ≤ m ∧ m < 60

/-- The last number that rounds to 90, or to 180: half of the way to the next double. -/
def lastRounded (bound : ℚ) : ℚ := bound + bound / (90 * 2 ^ 47)

/-- What whole degrees and minutes, each rounded, may be together. -/
def lastSum (bound : ℚ) : ℚ := bound + bound / (90 * 2 ^ 47) * (1 + 1 / (60 * 2 ^ 48))

example : lastRounded 90 = 90 + 1 / 2 ^ 47 ∧ lastRounded 180 = 180 + 1 / 2 ^ 46 := by decide +kernel

/-- A plain number is in range, and degrees and minutes before one of the
letters are numbers to the end, not negative, with less than 60 minutes and
no more than the bound together. -/
def Proper (positive negative : Char) (bound : ℚ) (value : JsString) : Prop :=
  (' ' ∉ value.trim → (parseFloat binary64 value).looseEq (toNumber binary64 value) = true →
    ∃ q, readNumber value = .finite q ∧ |q| ≤ lastRounded bound) ∧
  ∀ hours minutes letter, HasForm value hours minutes letter →
    JsString.upperChar letter = positive ∨ JsString.upperChar letter = negative →
    ∃ n m, ReadsInteger hours n ∧ ReadsNumber minutes m ∧ 0 ≤ m ∧ m < 60 ∧
      n + m / 60 ≤ lastSum bound

/-! ### Rounding at the bounds -/

/-- A whole number with the leading digits of 90, as 180 has them, and the place
of the last digit of its double. -/
structure IsBound (b : ℕ) (e : ℤ) : Prop where
  value : (b : ℚ) = 45 * 2 ^ 47 * 2 ^ e
  low : -1000 ≤ e
  high : e < 0
  small : b + 1 < 2 ^ 52

theorem isBound_latitude : IsBound 90 (-46) := ⟨by norm_num, by omega, by omega, by norm_num⟩

theorem isBound_longitude : IsBound 180 (-45) := ⟨by norm_num, by omega, by omega, by norm_num⟩

theorem evenDouble_one : EvenDouble 1 (-52) :=
  ⟨by omega, 2 ^ 52, by norm_num, by norm_num, by norm_num, by norm_num⟩

theorem evenDouble_sixty : EvenDouble 60 (-47) :=
  ⟨by omega, 15 * 2 ^ 49, by norm_num, by norm_num, by norm_num, by norm_num⟩

theorem binary64_of_nonneg {a : ℚ} (ha : 0 ≤ a) (hfinite : roundMagnitude a < 2 ^ 1024) :
    binary64 a = .finite (roundMagnitude a) := by
  simp only [binary64, abs_of_nonneg ha]
  rw [if_neg (not_le.mpr hfinite), if_neg (not_lt.mpr ha)]

theorem pow_52_lt : (2 : ℚ) ^ 52 < 2 ^ 1024 := pow_lt_pow_right₀ one_lt_two (by omega)

theorem binary64_natCast {n : ℕ} (hn : n < 2 ^ 52) : binary64 n = .finite n := by
  have hround : roundMagnitude n = n := by
    rcases Nat.eq_zero_or_pos n with rfl | hpos
    · exact_mod_cast roundMagnitude_zero
    · obtain ⟨e, heven⟩ := exists_evenDouble hpos hn
      exact heven.roundMagnitude_eq
  have hcast : (n : ℚ) < 2 ^ 52 := by exact_mod_cast hn
  rw [binary64_of_nonneg (Nat.cast_nonneg n) (hround.trans_lt (hcast.trans pow_52_lt)), hround]

/-- Minutes as a part of a degree, both of them rounded. -/
theorem divBy_minutes {m : ℚ} (hm : 0 ≤ m) (hless : m < 60) :
    (binary64 m).divBy binary64 60 = .finite (roundMagnitude (roundMagnitude m / 60)) ∧
      roundMagnitude (roundMagnitude m / 60) ≤ 1 := by
  have hsixty : roundMagnitude m ≤ 60 := evenDouble_sixty.roundMagnitude_le hm (by
    have hpos := two_zpow_pos (-47)
    linarith)
  have hnonneg : 0 ≤ roundMagnitude m / 60 := div_nonneg (roundMagnitude_nonneg m) (by norm_num)
  have hone : roundMagnitude (roundMagnitude m / 60) ≤ 1 :=
    evenDouble_one.roundMagnitude_le hnonneg (by
      have hpos := two_zpow_pos (-52)
      linarith)
  have hsmall : (60 : ℚ) < 2 ^ 52 := by norm_num
  refine ⟨?_, hone⟩
  rw [binary64_of_nonneg hm (hsixty.trans_lt (hsmall.trans pow_52_lt)), JsNumber.divBy,
    binary64_of_nonneg hnonneg (hone.trans_lt (one_lt_pow₀ one_lt_two (by omega)))]

theorem inRange_neg_iff {bound : ℚ} {r : JsNumber} : InRange bound r.neg ↔ InRange bound r := by
  cases r with
  | nan => rfl
  | infinity negative => simp [InRange, JsNumber.neg]
  | finite x =>
      simp only [InRange, JsNumber.neg, JsNumber.finite.injEq, exists_eq_left']
      constructor
      · rintro ⟨hmin, hmax⟩
        exact ⟨by linarith, by linarith⟩
      · rintro ⟨hmin, hmax⟩
        exact ⟨by linarith, by linarith⟩

namespace IsBound

variable {b : ℕ} {e : ℤ} (h : IsBound b e)
include h

theorem evenDouble : EvenDouble b e :=
  ⟨by have := h.low; omega, 45 * 2 ^ 47, by rw [h.value]; norm_num, by norm_num, by norm_num,
    by norm_num⟩

theorem cast_lt : (b : ℚ) < 2 ^ 1024 := by
  have hsmall : (b : ℚ) + 1 < 2 ^ 52 := by exact_mod_cast h.small
  exact (lt_add_one _).trans (hsmall.trans pow_52_lt)

theorem zpow_le_half : (2 : ℚ) ^ e ≤ 1 / 2 := by
  calc (2 : ℚ) ^ e ≤ 2 ^ (-1 : ℤ) := zpow_le_zpow_right₀ one_le_two (by have := h.high; omega)
    _ = 1 / 2 := by norm_num

theorem lastRounded_eq : lastRounded b = b + 2 ^ e / 2 := by
  rw [lastRounded, h.value]
  ring

theorem lastSum_eq : lastSum b = b + 2 ^ e / 2 * (1 + 1 / (60 * 2 ^ 48)) := by
  rw [lastSum, h.value]
  ring

/-- What is rounded into the range. -/
theorem inRange_binary64_iff (q : ℚ) : InRange b (binary64 q) ↔ |q| ≤ lastRounded b := by
  have hnonneg := roundMagnitude_nonneg |q|
  rw [h.lastRounded_eq, ← h.evenDouble.roundMagnitude_le_iff (abs_nonneg q)]
  unfold InRange binary64
  dsimp only
  split
  next hlarge =>
    refine iff_of_false (by simp) (not_le.mpr ?_)
    exact h.cast_lt.trans_le hlarge
  next =>
    simp only [JsNumber.finite.injEq, exists_eq_left']
    split
    · constructor
      · rintro ⟨hmin, -⟩
        linarith
      · intro hle
        exact ⟨by linarith, by linarith⟩
    · constructor
      · rintro ⟨-, hmax⟩
        exact hmax
      · intro hle
        exact ⟨by linarith, hle⟩

/-- The minutes that may come with as many degrees as there can be. -/
theorem minutes_le_iff {m : ℚ} (hm : 0 ≤ m) :
    roundMagnitude (roundMagnitude m / 60) ≤ 2 ^ e / 2 ↔
      m / 60 ≤ 2 ^ e / 2 * (1 + 1 / (60 * 2 ^ 48)) := by
  have hshift : ∀ j : ℕ, (2 : ℚ) ^ e = 2 ^ j * 2 ^ (e - j) := by
    intro j
    rw [zpow_sub₀ two_ne_zero, zpow_natCast]
    field_simp
  have hhalf : EvenDouble ((2 : ℚ) ^ e / 2) (e - (53 : ℕ)) := by
    refine ⟨by have := h.low; omega, 2 ^ 52, ?_, by norm_num, by norm_num, by norm_num⟩
    rw [hshift 53]
    norm_num
    ring
  have hminutes : EvenDouble (30 * (2 : ℚ) ^ e) (e - (48 : ℕ)) := by
    refine ⟨by have := h.low; omega, 15 * 2 ^ 49, ?_, by norm_num, by norm_num, by norm_num⟩
    rw [hshift 48]
    norm_num
    ring
  rw [hhalf.roundMagnitude_le_iff (div_nonneg (roundMagnitude_nonneg m) (by norm_num))]
  have hdown := hminutes.roundMagnitude_le_of_lt hm
  have hround := hminutes.roundMagnitude_le_iff hm
  have hunit : (2 : ℚ) ^ (e - (48 : ℕ)) = 2 ^ 5 * 2 ^ (e - (53 : ℕ)) := by
    have h48 := hshift 48
    have h53 := hshift 53
    linarith
  have hpos := two_zpow_pos (e - (53 : ℕ))
  rw [hunit] at hdown hround
  rw [hshift 53] at hdown hround ⊢
  generalize (2 : ℚ) ^ (e - (53 : ℕ)) = u at hdown hround hpos ⊢
  constructor
  · intro hle
    have hm' := hround.mp (hdown (by linarith))
    linarith
  · intro hle
    have hm' := hround.mpr (by linarith)
    linarith

/-- No rounding brings more degrees down to the bound. -/
theorem not_inRange_of_lt {n : ℕ} (hn : b < n) {hours : ℚ} (hhours : 0 ≤ hours) :
    ¬ InRange b ((binary64 n).add binary64 (.finite hours)) := by
  have hcast : (b : ℚ) + 1 ≤ n := by exact_mod_cast hn
  have hhalf := h.zpow_le_half
  obtain ⟨e', heven⟩ := exists_evenDouble (Nat.succ_pos b) h.small
  push_cast at heven
  have hround := heven.le_roundMagnitude hcast
  have hnonneg := roundMagnitude_nonneg n
  unfold binary64
  dsimp only
  rw [abs_of_nonneg (Nat.cast_nonneg n), if_neg (not_lt.mpr (Nat.cast_nonneg n))]
  split
  · simp [JsNumber.add, InRange]
  · show ¬ InRange b (binary64 (roundMagnitude n + hours))
    rw [h.inRange_binary64_iff, h.lastRounded_eq, abs_of_nonneg (add_nonneg hnonneg hhours)]
    linarith

/-- Degrees and minutes are rounded one by one, and are in range together. -/
theorem inRange_degrees_iff {n : ℕ} {m : ℚ} (hm : 0 ≤ m) (hless : m < 60) :
    InRange b ((binary64 n).add binary64 ((binary64 m).divBy binary64 60)) ↔
      n + m / 60 ≤ lastSum b := by
  obtain ⟨hquotient, hone⟩ := divBy_minutes hm hless
  have hiff := h.minutes_le_iff hm
  have hnonneg := roundMagnitude_nonneg (roundMagnitude m / 60)
  rw [hquotient, h.lastSum_eq]
  generalize roundMagnitude (roundMagnitude m / 60) = hours at hone hiff hnonneg ⊢
  have hpos := two_zpow_pos e
  have hhalf := h.zpow_le_half
  have hnat : (0 : ℚ) ≤ n := Nat.cast_nonneg n
  have hsum : n ≤ b → (InRange b ((binary64 n).add binary64 (.finite hours)) ↔
      n + hours ≤ b + 2 ^ e / 2) := by
    intro hle
    rw [binary64_natCast (Nat.lt_of_le_of_lt hle ((Nat.lt_succ_self b).trans h.small)),
      JsNumber.add, h.inRange_binary64_iff, h.lastRounded_eq,
      abs_of_nonneg (add_nonneg hnat hnonneg)]
  rcases Nat.lt_trichotomy n b with hlt | rfl | hgt
  · have hcast : (n : ℚ) + 1 ≤ b := by exact_mod_cast hlt
    rw [hsum hlt.le]
    exact iff_of_true (by linarith) (by linarith)
  · rw [hsum le_rfl, add_le_add_iff_left, add_le_add_iff_left]
    exact hiff
  · have hcast : (b : ℚ) + 1 ≤ n := by exact_mod_cast hgt
    exact iff_of_false (h.not_inRange_of_lt hgt hnonneg) (by linarith)

end IsBound

/-! ### What is accepted -/

/-- An accepted value is a plain number or has the form. -/
theorem plain_or_form {round : ℚ → JsNumber}
    {parse : JsString → JsString → JsString → Except String JsNumber} {value : JsString}
    {r : JsNumber} (h : parsePosition round parse value = .ok r) :
    (' ' ∉ value.trim ∧ (parseFloat round value).looseEq (toNumber round value) = true ∧
        parseFloat round value = r) ∨
      ∃ hours minutes letter, HasForm value hours minutes letter := by
  unfold parsePosition at h
  split at h
  next hplain =>
    cases h
    exact .inl ⟨hplain.1, hplain.2, rfl⟩
  · split at h
    · cases h
    next hours minutes letters hsplit =>
      obtain ⟨letter, -, hform⟩ := splitFormattedPos_eq_ok.mp hsplit
      exact .inr ⟨hours, minutes, letter, hform⟩

theorem IsBound.inRange_parseFloat_iff {b : ℕ} {e : ℤ} (h : IsBound b e) (value : JsString) :
    InRange b (parseFloat binary64 value) ↔
      ∃ q, readNumber value = .finite q ∧ |q| ≤ lastRounded b := by
  unfold parseFloat
  cases readNumber value with
  | nan => simp [JsNumber.roundWith, InRange]
  | infinity negative => simp [JsNumber.roundWith, InRange]
  | finite q => simpa [JsNumber.roundWith] using h.inRange_binary64_iff q

section
variable {positive negative : Char} {b : ℕ} {e : ℤ}

/-- The value is rejected, is a plain number, or has the form, and only the
last two can go wrong. -/
theorem onlyPositions_iff (hbound : IsBound b e) (hpositive : isWhiteSpace positive = false)
    (hnegative : isWhiteSpace negative = false) (value : JsString) :
    OnlyPositions (parsePosition binary64 (parseParts binary64 positive negative)) b value ↔
      Proper positive negative b value := by
  -- degrees and minutes that are read give a number in range or not
  have hinRange : ∀ {hours minutes : JsString} {letter : Char} {n : ℕ} {m : ℚ},
      ReadsInteger hours n → ReadsNumber minutes m → 0 ≤ m → m < 60 →
        (InRange b (degreesOf binary64 negative hours minutes letter) ↔ n + m / 60 ≤ lastSum b) := by
    intro hours minutes letter n m hn hm hnonneg hless
    rw [degreesOf_eq hn hm, ← hbound.inRange_degrees_iff hnonneg hless]
    dsimp only
    split
    · exact inRange_neg_iff
    · rfl
  constructor
  · intro h
    refine ⟨?_, ?_⟩
    · intro hblank hequal
      have hok : parsePosition binary64 (parseParts binary64 positive negative) value =
          .ok (parseFloat binary64 value) := by
        rw [parsePosition, if_pos ⟨hblank, hequal⟩]
      exact (hbound.inRange_parseFloat_iff value).mp (h _ hok).1
    · intro hours minutes letter hform hletter
      have hok : parsePosition binary64 (parseParts binary64 positive negative) value =
          parseParts binary64 positive negative hours minutes [letter] :=
        parsePosition_of_form hform
      rw [parseParts_singleton hpositive hnegative, if_pos hletter] at hok
      obtain ⟨hrange, hreads⟩ := h _ hok
      obtain ⟨⟨n, hn⟩, m, hm, hnonneg, hless⟩ := hreads hours minutes letter hform
      exact ⟨n, m, hn, hm, hnonneg, hless, (hinRange hn hm hnonneg hless).mp hrange⟩
  · rintro ⟨hplain, hparts⟩ r hok
    rcases plain_or_form hok with ⟨hblank, hequal, rfl⟩ | ⟨hours, minutes, letter, hform⟩
    · refine ⟨(hbound.inRange_parseFloat_iff value).mpr (hplain hblank hequal), ?_⟩
      intro hours minutes letter hform
      exact absurd hform.blank_mem hblank
    · rw [parsePosition_of_form hform, parseParts_singleton hpositive hnegative] at hok
      split at hok
      next hletter =>
        obtain ⟨n, m, hn, hm, hnonneg, hless, hsum⟩ := hparts hours minutes letter hform hletter
        cases hok
        refine ⟨(hinRange hn hm hnonneg hless).mpr hsum, ?_⟩
        intro hours' minutes' letter' hform'
        have hsame := splitFormattedPos_eq_ok.mpr ⟨letter, rfl, hform⟩
        rw [splitFormattedPos_eq_ok.mpr ⟨letter', rfl, hform'⟩] at hsame
        cases hsame
        exact ⟨⟨n, hn⟩, m, hm, hnonneg, hless⟩
      · cases hok

end

/-- Both parsers accept nothing but positions exactly on the strings that
are proper. -/
theorem parse_onlyPositions_iff (value : JsString) :
    (OnlyPositions (parseLatitude binary64) 90 value ↔ Proper 'N' 'S' 90 value) ∧
      (OnlyPositions (parseLongitude binary64) 180 value ↔ Proper 'E' 'W' 180 value) :=
  ⟨onlyPositions_iff isBound_latitude rfl rfl value,
    onlyPositions_iff isBound_longitude rfl rfl value⟩

/-- More than 90 degrees that are not more once they are rounded. -/
example : parseLatitude binary64 "90.0000000000000000001".toList = .ok (.finite 90) := by
  decide +kernel

/-- A plain number out of range is accepted, and so is text that is no
number at all where the degrees should be. -/
theorem parse_onlyPositions_fails :
    ¬ OnlyPositions (parseLatitude binary64) 90 "95".toList ∧
      ¬ OnlyPositions (parseLongitude binary64) 180 "abc 10.5E".toList := by
  constructor
  · intro h
    obtain ⟨⟨x, hx, -, hmax⟩, -⟩ := h (.finite 95) (by decide +kernel)
    cases hx
    norm_num at hmax
  · intro h
    obtain ⟨⟨x, hx, -⟩, -⟩ := h .nan (by decide +kernel)
    cases hx

end AisStore
