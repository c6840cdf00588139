import Mathlib.Algebra.Order.Floor.Ring
import Mathlib.Data.Int.Log
import Mathlib.Data.Rat.Floor
import Mathlib.Tactic.Linarith
import Mathlib.Tactic.Positivity
import Mathlib.Tactic.Ring

/-!
Rounding to the nearest double, ties to even.

`roundMagnitude` rounds a number that is not negative to a multiple of the
unit that the last of its 53 binary digits counts, as if there were no
largest double. What is said about it is said of a double with an even
significand: what is above it stays above it (`EvenDouble.le_roundMagnitude`),
and it is what a number rounds to, or to less, exactly up to the half of the
way to the next one (`EvenDouble.roundMagnitude_le_iff`).
-/

namespace AisStore.Lib

/-- The nearest integer to a number that is not negative. -/
def roundHalfEven (q : ℚ) : ℕ :=
  let n := ⌊q⌋₊
  if q - n < 1 / 2 ∨ q - n = 1 / 2 ∧ n % 2 = 0 then n else n + 1

/-- The last binary digit counts 2 to this power. -/
def ulpExponent (a : ℚ) : ℤ := max (Int.log 2 a) (-1022) - 52

def roundMagnitude (a : ℚ) : ℚ := roundHalfEven (a / 2 ^ ulpExponent a) * 2 ^ ulpExponent a

example : roundMagnitude (1 / 10) = 3602879701896397 / 2 ^ 55 := by decide +kernel

example : roundMagnitude (2 ^ 53 + 1) = 2 ^ 53 := by decide +kernel

/-! ### Integers -/

theorem le_roundHalfEven {k : ℕ} {q : ℚ} (h : (k : ℚ) ≤ q) : k ≤ roundHalfEven q := by
  have hfloor : k ≤ ⌊q⌋₊ := Nat.le_floor h
  simp only [roundHalfEven]
  split_ifs
  · exact hfloor
  · exact hfloor.trans (Nat.le_succ _)

theorem roundHalfEven_le {k : ℕ} {q : ℚ} (hq : 0 ≤ q) (h : q ≤ k) : roundHalfEven q ≤ k := by
  have hfloor := Nat.floor_le hq
  have hle : ⌊q⌋₊ ≤ k := by
    have hcast : (⌊q⌋₊ : ℚ) ≤ k := hfloor.trans h
    exact_mod_cast hcast
  simp only [roundHalfEven]
  split_ifs with hdown
  · exact hle
  · rcases Nat.lt_or_eq_of_le hle with hlt | heq
    · exact hlt
    · rw [heq] at hdown hfloor
      exact absurd (.inl (by linarith)) hdown

/-- Up to the half, and at the half if the integer is even. -/
theorem roundHalfEven_le_iff {k : ℕ} {q : ℚ} (heven : k % 2 = 0) (hq : 0 ≤ q) :
    roundHalfEven q ≤ k ↔ q ≤ k + 1 / 2 := by
  have hfloor := Nat.floor_le hq
  have hnext := Nat.lt_floor_add_one q
  simp only [roundHalfEven]
  rcases Nat.lt_trichotomy ⌊q⌋₊ k with hlt | heq | hgt
  · have hcast : (⌊q⌋₊ : ℚ) + 1 ≤ k := by exact_mod_cast hlt
    refine iff_of_true ?_ (by linarith)
    split_ifs
    · exact hlt.le
    · exact hlt
  · rw [heq]
    split_ifs with hdown
    · refine iff_of_true le_rfl ?_
      rcases hdown with hless | ⟨hhalf, -⟩
      · linarith
      · linarith
    · rw [not_or] at hdown
      refine iff_of_false (Nat.not_succ_le_self k) fun hle => ?_
      rcases lt_or_eq_of_le hle with hless | hhalf
      · exact hdown.1 (by linarith)
      · exact hdown.2 ⟨by linarith, heven⟩
  · have hcast : (k : ℚ) + 1 ≤ ⌊q⌋₊ := by exact_mod_cast hgt
    refine iff_of_false (fun hle => ?_) (by linarith)
    split_ifs at hle
    · omega
    · omega

/-! ### Where the last digit is -/

theorem two_zpow_add (a : ℤ) (n : ℕ) : (2 : ℚ) ^ (a + n) = 2 ^ n * 2 ^ a := by
  rw [zpow_add₀ two_ne_zero, zpow_natCast, mul_comm]

theorem two_zpow_pos (e : ℤ) : (0 : ℚ) < 2 ^ e := zpow_pos two_pos e

@[simp] theorem roundMagnitude_zero : roundMagnitude 0 = 0 := by
  have hround : roundHalfEven 0 = 0 := by decide +kernel
  rw [roundMagnitude, zero_div, hround, Nat.cast_zero, zero_mul]

theorem roundMagnitude_nonneg (a : ℚ) : 0 ≤ roundMagnitude a :=
  mul_nonneg (Nat.cast_nonneg _) (two_zpow_pos _).le

variable {a : ℚ} {e : ℤ}

/-- From the least number with its last digit there upwards, the last digit is
there, or the number stays beyond those that have it there. -/
theorem ulpExponent_of_le (he : -1074 ≤ e) (h : (2 : ℚ) ^ (e + (52 : ℕ)) ≤ a) :
    ulpExponent a = e ∨ (2 : ℚ) ^ (e + (53 : ℕ)) ≤ roundMagnitude a := by
  have hpos : 0 < a := (two_zpow_pos _).trans_le h
  have hlog : e + 52 ≤ Int.log 2 a := (Int.zpow_le_iff_le_log (b := 2) one_lt_two hpos).mp h
  rcases eq_or_ne (ulpExponent a) e with heq | hne
  · exact .inl heq
  · right
    have hmore : e + 1 ≤ ulpExponent a := by
      unfold ulpExponent at hne ⊢
      omega
    have hle : (2 : ℚ) ^ (ulpExponent a + (52 : ℕ)) ≤ a := by
      refine (Int.zpow_le_iff_le_log (b := 2) one_lt_two hpos).mpr ?_
      unfold ulpExponent
      omega
    have hround : 2 ^ 52 ≤ roundHalfEven (a / 2 ^ ulpExponent a) := by
      apply le_roundHalfEven
      rw [le_div_iff₀ (two_zpow_pos _)]
      rw [two_zpow_add] at hle
      exact_mod_cast hle
    have hcast : ((2 : ℚ) ^ 52) ≤ roundHalfEven (a / 2 ^ ulpExponent a) := by exact_mod_cast hround
    calc (2 : ℚ) ^ (e + (53 : ℕ)) = 2 ^ (e + 1 + (52 : ℕ)) := by
          congr 1
          push_cast
          ring
      _ ≤ 2 ^ (ulpExponent a + (52 : ℕ)) := zpow_le_zpow_right₀ one_le_two (by omega)
      _ = 2 ^ 52 * 2 ^ ulpExponent a := two_zpow_add _ _
      _ ≤ roundMagnitude a := mul_le_mul_of_nonneg_right hcast (two_zpow_pos _).le

/-- Below the numbers that are too large for it, the last digit is there, or
the number stays below those that have it there. -/
theorem ulpExponent_of_lt (he : -1074 ≤ e) (hpos : 0 < a) (h : a < (2 : ℚ) ^ (e + (53 : ℕ))) :
    ulpExponent a = e ∨ roundMagnitude a ≤ (2 : ℚ) ^ (e + (52 : ℕ)) := by
  have hlog : Int.log 2 a < e + 53 := (Int.lt_zpow_iff_log_lt (b := 2) one_lt_two hpos).mp h
  rcases eq_or_ne (ulpExponent a) e with heq | hne
  · exact .inl heq
  · right
    have hless : ulpExponent a + 1 ≤ e := by
      unfold ulpExponent at hne ⊢
      omega
    have hlt : a < (2 : ℚ) ^ (e + (52 : ℕ)) := by
      refine (Int.lt_zpow_iff_log_lt (b := 2) one_lt_two hpos).mpr ?_
      unfold ulpExponent at hless
      omega
    obtain ⟨d, hd⟩ : ∃ d : ℕ, e + (52 : ℕ) = ulpExponent a + d :=
      ⟨(e + 52 - ulpExponent a).toNat, by omega⟩
    have hround : roundHalfEven (a / 2 ^ ulpExponent a) ≤ 2 ^ d := by
      apply roundHalfEven_le (div_nonneg hpos.le (two_zpow_pos _).le)
      rw [div_le_iff₀ (two_zpow_pos _)]
      rw [hd, two_zpow_add] at hlt
      exact_mod_cast hlt.le
    have hcast : (roundHalfEven (a / 2 ^ ulpExponent a) : ℚ) ≤ 2 ^ d := by exact_mod_cast hround
    rw [hd, two_zpow_add]
    exact mul_le_mul_of_nonneg_right hcast (two_zpow_pos _).le

/-! ### Doubles -/

/-- A double whose last digit counts `2 ^ e`, and is 0. -/
structure EvenDouble (y : ℚ) (e : ℤ) : Prop where
  normal : -1074 ≤ e
  significand : ∃ k : ℕ, y = k * 2 ^ e ∧ 2 ^ 52 ≤ k ∧ k < 2 ^ 53 ∧ k % 2 = 0

/-- A natural number that leaves a binary digit free. -/
theorem exists_evenDouble {n : ℕ} (hpos : 0 < n) (hlt : n < 2 ^ 52) :
    ∃ e, EvenDouble n e := by
  have hlow := Nat.pow_log_le_self 2 hpos.ne'
  have hhigh := Nat.lt_pow_succ_log_self (by omega : 1 < 2) n
  have hlog : Nat.log 2 n < 52 := Nat.log_lt_of_lt_pow hpos.ne' hlt
  obtain ⟨d, hd⟩ : ∃ d, Nat.log 2 n + (d + 1) = 52 := ⟨51 - Nat.log 2 n, by omega⟩
  have hfill : 2 ^ Nat.log 2 n * 2 ^ (d + 1) = 2 ^ 52 := by rw [← pow_add, hd]
  refine ⟨-(d + 1 : ℕ), by omega, n * 2 ^ (d + 1), ?_, ?_, ?_, ?_⟩
  · rw [zpow_neg, zpow_natCast]
    push_cast
    field_simp
  · rw [← hfill]
    exact Nat.mul_le_mul_right _ hlow
  · calc n * 2 ^ (d + 1) < 2 ^ (Nat.log 2 n + 1) * 2 ^ (d + 1) :=
          Nat.mul_lt_mul_of_pos_right hhigh (by positivity)
      _ = 2 ^ 52 * 2 := by rw [pow_succ, mul_right_comm, hfill]
  · rw [pow_succ, ← mul_assoc]
    exact Nat.mul_mod_left _ 2

namespace EvenDouble

variable {y : ℚ} (h : EvenDouble y e)
include h

theorem zpow_le : (2 : ℚ) ^ (e + (52 : ℕ)) ≤ y := by
  obtain ⟨k, rfl, hk, -, -⟩ := h.significand
  rw [two_zpow_add]
  exact mul_le_mul_of_nonneg_right (by exact_mod_cast hk) (two_zpow_pos e).le

/-- The next double, or what would be the next if there were no largest. -/
theorem add_le_zpow : y + 2 ^ e ≤ (2 : ℚ) ^ (e + (53 : ℕ)) := by
  obtain ⟨k, rfl, -, hk, -⟩ := h.significand
  have hcast : (k : ℚ) + 1 ≤ 2 ^ 53 := by exact_mod_cast hk
  rw [two_zpow_add, ← add_one_mul]
  exact mul_le_mul_of_nonneg_right hcast (two_zpow_pos e).le

theorem pos : 0 < y := (two_zpow_pos _).trans_le h.zpow_le

theorem le_roundMagnitude (hya : y ≤ a) : y ≤ roundMagnitude a := by
  rcases ulpExponent_of_le h.normal (h.zpow_le.trans hya) with heq | hbeyond
  · obtain ⟨k, rfl, -, -, -⟩ := h.significand
    have hround : k ≤ roundHalfEven (a / 2 ^ e) :=
      le_roundHalfEven ((le_div_iff₀ (two_zpow_pos e)).mpr hya)
    rw [roundMagnitude, heq]
    exact mul_le_mul_of_nonneg_right (by exact_mod_cast hround) (two_zpow_pos e).le
  · have hnext := h.add_le_zpow
    have hpos := two_zpow_pos e
    linarith

theorem roundMagnitude_le (ha : 0 ≤ a) (hay : a ≤ y + 2 ^ e / 2) : roundMagnitude a ≤ y := by
  have hpos := two_zpow_pos e
  rcases ha.eq_or_lt with rfl | ha
  · rw [roundMagnitude_zero]
    exact h.pos.le
  · have hnext := h.add_le_zpow
    rcases ulpExponent_of_lt h.normal ha (by linarith) with heq | hbelow
    · obtain ⟨k, rfl, -, -, heven⟩ := h.significand
      have hround : roundHalfEven (a / 2 ^ e) ≤ k := by
        rw [roundHalfEven_le_iff heven (div_nonneg ha.le hpos.le), div_le_iff₀ hpos]
        linarith
      rw [roundMagnitude, heq]
      exact mul_le_mul_of_nonneg_right (by exact_mod_cast hround) hpos.le
    · exact hbelow.trans h.zpow_le

theorem next_le_roundMagnitude (hya : y + 2 ^ e / 2 < a) : y + 2 ^ e ≤ roundMagnitude a := by
  have hpos := two_zpow_pos e
  have hle : (2 : ℚ) ^ (e + (52 : ℕ)) ≤ a := by
    have hy := h.zpow_le
    linarith
  rcases ulpExponent_of_le h.normal hle with heq | hbeyond
  · obtain ⟨k, rfl, -, -, heven⟩ := h.significand
    have hnonneg : 0 ≤ a := (two_zpow_pos _).le.trans hle
    have hround : k + 1 ≤ roundHalfEven (a / 2 ^ e) := by
      refine Nat.lt_of_not_le fun hdown => ?_
      rw [roundHalfEven_le_iff heven (div_nonneg hnonneg hpos.le), div_le_iff₀ hpos] at hdown
      linarith
    have hcast : (k : ℚ) + 1 ≤ roundHalfEven (a / 2 ^ e) := by exact_mod_cast hround
    rw [roundMagnitude, heq, ← add_one_mul]
    exact mul_le_mul_of_nonneg_right hcast hpos.le
  · exact h.add_le_zpow.trans hbeyond

/-- What rounds to no more than this double. -/
theorem roundMagnitude_le_iff (ha : 0 ≤ a) : roundMagnitude a ≤ y ↔ a ≤ y + 2 ^ e / 2 := by
  refine ⟨fun hround => ?_, h.roundMagnitude_le ha⟩
  by_contra hmore
  have hnext := h.next_le_roundMagnitude (not_le.mp hmore)
  have hpos := two_zpow_pos e
  linarith

/-- There is no double between this one and the next. -/
theorem roundMagnitude_le_of_lt (ha : 0 ≤ a) (hlt : roundMagnitude a < y + 2 ^ e) :
    roundMagnitude a ≤ y := by
  by_contra hmore
  rw [h.roundMagnitude_le_iff ha, not_le] at hmore
  exact absurd (h.next_le_roundMagnitude hmore) (not_le.mpr hlt)

theorem roundMagnitude_eq : roundMagnitude y = y := by
  have hpos := two_zpow_pos e
  exact le_antisymm (h.roundMagnitude_le h.pos.le (by linarith)) (h.le_roundMagnitude le_rfl)

end EvenDouble

end AisStore.Lib
