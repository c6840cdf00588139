import AisStore.Lib.Failure
import Mathlib.Data.Int.Range
import Mathlib.Tactic.Ring

/-!
Java's fixed-width integers as integers with a range.

An `int` is an integer in `[-2^31, 2^31)` and a `long` one in
`[-2^63, 2^63)`. Arithmetic on them is integer arithmetic followed by a
wrap, and the wrap is the identity on every value that fits, so a proof
about code that does not overflow never sees it.

The counting loop `for (int i = lo; i <= hi; i++)` gets a section of its
own. It is the one place where the wrap decides whether a program returns:
with `hi` the largest `int`, the test never fails.
-/

namespace AisStore.Lib

/-! ### Ranges and wraps -/

def maxInt : ℤ := 2147483647

def IsInt (x : ℤ) : Prop := -2147483648 ≤ x ∧ x ≤ 2147483647

def IsLong (x : ℤ) : Prop := -9223372036854775808 ≤ x ∧ x ≤ 9223372036854775807

instance : DecidablePred IsInt := fun x => by unfold IsInt; infer_instance

instance : DecidablePred IsLong := fun x => by unfold IsLong; infer_instance

/-- A Java `long`. -/
abbrev Long := { x : ℤ // IsLong x }

/-- The `int` with the low 32 bits of `x`. -/
def wrapInt (x : ℤ) : ℤ := (x + 2147483648) % 4294967296 - 2147483648

/-- The `long` with the low 64 bits of `x`. -/
def wrapLong (x : ℤ) : ℤ := (x + 9223372036854775808) % 18446744073709551616 - 9223372036854775808

theorem isInt_wrapInt (x : ℤ) : IsInt (wrapInt x) := by
  unfold IsInt wrapInt
  omega

theorem isLong_wrapLong (x : ℤ) : IsLong (wrapLong x) := by
  unfold IsLong wrapLong
  omega

theorem wrapInt_eq {x : ℤ} (h : IsInt x) : wrapInt x = x := by
  unfold IsInt at h
  unfold wrapInt
  omega

theorem wrapInt_eq_iff {x : ℤ} : wrapInt x = x ↔ IsInt x :=
  ⟨fun h => h ▸ isInt_wrapInt x, wrapInt_eq⟩

theorem wrapLong_eq {x : ℤ} (h : IsLong x) : wrapLong x = x := by
  unfold IsLong at h
  unfold wrapLong
  omega

/-- A `long` literal. -/
def toLong (x : ℤ) : Long := ⟨wrapLong x, isLong_wrapLong x⟩

/-! ### Checked casts -/

/-- Guava's `Ints.checkedCast`: the value itself, or an exception when it
does not fit an `int`. -/
def checkedCast (value : ℤ) : Except Failure ℤ :=
  if wrapInt value = value then .ok value
  else .error (.illegalArgument s!"Out of range: {value}")

theorem checkedCast_eq_ok {x y : ℤ} : checkedCast x = .ok y ↔ IsInt x ∧ y = x := by
  by_cases h : IsInt x
  · simp [checkedCast, wrapInt_eq h, h, eq_comm]
  · simp [checkedCast, wrapInt_eq_iff, h]

theorem returns_checkedCast {x : ℤ} : Returns (checkedCast x) ↔ IsInt x := by
  constructor
  · rintro ⟨y, hy⟩
    exact (checkedCast_eq_ok.mp hy).1
  · intro h
    exact ⟨x, checkedCast_eq_ok.mpr ⟨h, rfl⟩⟩

/-! ### Intervals as lists -/

theorem range_cons {lo hi : ℤ} (h : lo < hi) :
    Int.range lo hi = lo :: Int.range (lo + 1) hi := by
  unfold Int.range
  rw [show (hi - lo).toNat = (hi - (lo + 1)).toNat + 1 by omega, List.range_succ_eq_map,
    List.map_cons, List.map_map]
  refine List.cons_eq_cons.mpr ⟨by simp, ?_⟩
  refine List.map_congr_left fun k _ => ?_
  simp only [Function.comp_apply, Nat.cast_succ]
  omega

theorem range_eq_nil {lo hi : ℤ} (h : hi ≤ lo) : Int.range lo hi = [] := by
  simp [Int.range, Int.toNat_of_nonpos (by omega : hi - lo ≤ 0)]

/-- An interval of integers is listed in strictly increasing order. -/
theorem pairwise_range (lo hi : ℤ) : (Int.range lo hi).Pairwise (· < ·) := by
  unfold Int.range
  rw [List.pairwise_map]
  refine List.pairwise_lt_range.imp ?_
  intro a b h
  omega

theorem length_range (lo hi : ℤ) : (Int.range lo hi).length = (hi - lo).toNat := by
  simp [Int.range]

theorem range_append {lo mid hi : ℤ} (hlow : lo ≤ mid) (hhigh : mid ≤ hi) :
    Int.range lo mid ++ Int.range mid hi = Int.range lo hi := by
  unfold Int.range
  rw [show (hi - lo).toNat = (mid - lo).toNat + (hi - mid).toNat by omega, List.range_add,
    List.map_append, List.map_map]
  refine congrArg _ (List.map_congr_left fun k _ => ?_)
  simp only [Function.comp_apply, Nat.cast_add]
  omega

/-- An interval read from an offset, up to another. -/
theorem slice_range {lo hi i j : ℤ} (hi0 : 0 ≤ i) (hij : i ≤ j) (hj : lo + j ≤ hi) :
    ((Int.range lo hi).drop i.toNat).take (j - i).toNat = Int.range (lo + i) (lo + j) := by
  rw [← range_append (by omega : lo ≤ lo + i) (by omega : lo + i ≤ hi),
    ← range_append (by omega : lo + i ≤ lo + j) hj,
    List.drop_left' (by rw [length_range]; omega), List.take_left' (by rw [length_range]; omega)]

/-! ### The counting loop -/

/-- The values `i` takes in `for (int i = lo; i <= hi; i++)`, when the loop
is left within the given number of tests; `none` when it is still running
then. -/
def countUp : ℕ → ℤ → ℤ → Option (List ℤ)
  | 0, _, _ => none
  | tests + 1, i, hi =>
      if i ≤ hi then (countUp tests (wrapInt (i + 1)) hi).map (i :: ·) else some []

/-- Below the largest `int` the loop is left after one test for each value
and a last one that fails. -/
theorem countUp_eq {tests : ℕ} {i hi : ℤ} (hlow : IsInt i) (hhi : hi < maxInt)
    (htests : (hi + 1 - i).toNat < tests) :
    countUp tests i hi = some (Int.range i (hi + 1)) := by
  unfold maxInt at hhi
  unfold IsInt at hlow
  induction tests generalizing i with
  | zero => omega
  | succ tests ih =>
      unfold countUp
      by_cases hi' : i ≤ hi
      · have hnext : IsInt (i + 1) := by unfold IsInt; omega
        rw [if_pos hi', wrapInt_eq hnext, ih (by unfold IsInt at hnext; omega) (by omega),
          range_cons (by omega : i < hi + 1)]
        rfl
      · rw [if_neg hi', range_eq_nil (by omega)]

/-- The largest `int` is never exceeded, so the loop up to it is never left. -/
theorem countUp_maxInt (tests : ℕ) {i : ℤ} (hi : IsInt i) : countUp tests i maxInt = none := by
  induction tests generalizing i with
  | zero => rfl
  | succ tests ih =>
      unfold countUp
      rw [if_pos (show i ≤ maxInt from hi.2), ih (isInt_wrapInt _)]
      rfl

/-- The loop with no bound on the tests. A loop over `int`s that is left at
all is left within `2^32 + 1` tests: `countUp_eq` and `countUp_maxInt`
between them cover every bound. -/
def intLoop (lo hi : ℤ) : Except Failure (List ℤ) :=
  match countUp 4294967297 lo hi with
  | some values => .ok values
  | none => .error .noReturn

theorem intLoop_eq {lo hi : ℤ} (hlo : IsInt lo) (hhi : hi < maxInt) :
    intLoop lo hi = .ok (Int.range lo (hi + 1)) := by
  have htests : (hi + 1 - lo).toNat < 4294967297 := by
    unfold IsInt at hlo
    unfold maxInt at hhi
    omega
  unfold intLoop
  rw [countUp_eq hlo hhi htests]

theorem intLoop_maxInt {lo : ℤ} (hlo : IsInt lo) : intLoop lo maxInt = .error .noReturn := by
  unfold intLoop
  rw [countUp_maxInt _ hlo]

end AisStore.Lib
