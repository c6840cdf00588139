import AisStore.Lib.JavaInt
import Mathlib.Order.Defs.LinearOrder

/-!
`java.time.Instant`: a count of whole seconds since the epoch and a
nanosecond of that second, both within the bounds the class enforces.

The nanosecond part is never negative, so an instant before the epoch has
the *floor* of its time in `seconds`. Code that divides `getEpochSecond`
with Java's `/`, which truncates towards zero, therefore mixes two
roundings; the order lemmas at the end are what such code needs, since
both roundings are monotone.
-/

namespace AisStore.Lib

/-- An instant. The bounds on `seconds` are `Instant.MIN` and `Instant.MAX`. -/
structure Instant where
  seconds : ℤ
  nanos : ℕ
  nanos_lt : nanos < 1000000000
  min_le : -31557014167219200 ≤ seconds
  le_max : seconds ≤ 31556889864403199
  deriving DecidableEq

namespace Instant

def getEpochSecond (t : Instant) : ℤ := t.seconds

/-- `Instant.ofEpochMilli`. Every `long` is in range. -/
def ofEpochMilli (millis : Long) : Instant where
  seconds := millis.1 / 1000
  nanos := (millis.1 % 1000).toNat * 1000000
  nanos_lt := by omega
  min_le := by have := millis.2; unfold IsLong at this; omega
  le_max := by have := millis.2; unfold IsLong at this; omega

/-- The instant with the given second and nanosecond, or an exception when
the second is out of bounds. -/
def create (seconds : ℤ) (nanos : ℕ) (h : nanos < 1000000000) : Except Failure Instant :=
  if hs : -31557014167219200 ≤ seconds ∧ seconds ≤ 31556889864403199 then
    .ok ⟨seconds, nanos, h, hs.1, hs.2⟩
  else
    .error (.dateTime "Instant exceeds minimum or maximum instant")

/-- `t.minusMillis(k)`: the nanoseconds are carried into the seconds with
rounding down. -/
def minusMillis (t : Instant) (k : ℤ) : Except Failure Instant :=
  create (t.seconds + (t.nanos - k * 1000000) / 1000000000)
    ((t.nanos - k * 1000000) % 1000000000).toNat (by omega)

/-- `t.toEpochMilli()`: the whole milliseconds, rounded down. The product
is checked for overflow and the sum is not, as in Java 8. -/
def toEpochMilli (t : Instant) : Except Failure Long :=
  if IsLong (t.seconds * 1000) then
    .ok ⟨wrapLong (t.seconds * 1000 + (t.nanos / 1000000 : ℕ)), isLong_wrapLong _⟩
  else
    .error (.arithmetic "long overflow")

/-- The milliseconds of an instant as an integer, with no range. -/
def millis (t : Instant) : ℤ := t.seconds * 1000 + (t.nanos / 1000000 : ℕ)

/-- The order of instants in time. -/
def Le (s t : Instant) : Prop := s.seconds < t.seconds ∨ s.seconds = t.seconds ∧ s.nanos ≤ t.nanos

instance : LE Instant := ⟨Le⟩

theorem le_def {s t : Instant} :
    s ≤ t ↔ s.seconds < t.seconds ∨ s.seconds = t.seconds ∧ s.nanos ≤ t.nanos := Iff.rfl

instance (s t : Instant) : Decidable (s ≤ t) := decidable_of_iff _ le_def.symm

instance : LT Instant :=
  ⟨fun s t => s.seconds < t.seconds ∨ s.seconds = t.seconds ∧ s.nanos < t.nanos⟩

theorem lt_def {s t : Instant} :
    s < t ↔ s.seconds < t.seconds ∨ s.seconds = t.seconds ∧ s.nanos < t.nanos := Iff.rfl

instance (s t : Instant) : Decidable (s < t) := decidable_of_iff _ lt_def.symm

/-- The instant has no part of a millisecond. -/
def WholeMillis (t : Instant) : Prop := 1000000 ∣ t.nanos

instance (t : Instant) : Decidable t.WholeMillis := inferInstanceAs (Decidable (_ ∣ _))

theorem seconds_le {s t : Instant} (h : s ≤ t) : s.seconds ≤ t.seconds := by
  rw [le_def] at h
  omega

/-- The second of an instant is the floor of its milliseconds. -/
theorem seconds_eq (t : Instant) : t.seconds = t.millis / 1000 := by
  have := t.nanos_lt
  unfold millis
  omega

/-- An instant whose second, in milliseconds, is a `long` and whose
millisecond count is one too is converted exactly. -/
theorem toEpochMilli_eq {t : Instant} {m : Long} (hm : m.1 = t.millis)
    (h : IsLong (t.seconds * 1000)) : t.toEpochMilli = .ok m := by
  unfold toEpochMilli
  rw [if_pos h]
  congr 1
  apply Subtype.ext
  have hwrap : wrapLong t.millis = t.millis := wrapLong_eq (hm ▸ m.2)
  exact hwrap.trans hm.symm

@[simp] theorem ofEpochMilli_seconds (m : Long) : (ofEpochMilli m).seconds = m.1 / 1000 := rfl

@[simp] theorem ofEpochMilli_millis (m : Long) : (ofEpochMilli m).millis = m.1 := by
  unfold millis ofEpochMilli
  dsimp only
  omega

theorem ofEpochMilli_le {m n : Long} (h : m.1 ≤ n.1) : ofEpochMilli m ≤ ofEpochMilli n := by
  show m.1 / 1000 < n.1 / 1000 ∨ m.1 / 1000 = n.1 / 1000 ∧
    (m.1 % 1000).toNat * 1000000 ≤ (n.1 % 1000).toNat * 1000000
  omega

theorem wholeMillis_ofEpochMilli (m : Long) : (ofEpochMilli m).WholeMillis :=
  Dvd.intro_left _ rfl

/-- Against an instant of whole milliseconds these alone are compared. -/
theorem le_ofEpochMilli {t : Instant} (ht : t.WholeMillis) {m : Long} :
    t ≤ ofEpochMilli m ↔ t.millis ≤ m.1 := by
  obtain ⟨k, hk⟩ := ht
  have hn := t.nanos_lt
  rw [le_def]
  unfold millis ofEpochMilli
  dsimp only
  omega

theorem ofEpochMilli_lt {t : Instant} (ht : t.WholeMillis) {m : Long} :
    ofEpochMilli m < t ↔ m.1 < t.millis := by
  obtain ⟨k, hk⟩ := ht
  have hn := t.nanos_lt
  rw [lt_def]
  unfold millis ofEpochMilli
  dsimp only
  omega

theorem create_eq_ok {seconds : ℤ} {nanos : ℕ} {h : nanos < 1000000000} {t : Instant}
    (ht : create seconds nanos h = .ok t) : t.seconds = seconds ∧ t.nanos = nanos := by
  unfold create at ht
  split at ht
  · cases ht
    exact ⟨rfl, rfl⟩
  · cases ht

/-- There is a millisecond before every instant but those of the first second. -/
theorem exists_minusMillis {t : Instant} (h : -31557014167219200 < t.seconds) :
    ∃ u, t.minusMillis 1 = .ok u := by
  have hn := t.nanos_lt
  have hmax := t.le_max
  unfold minusMillis create
  rw [dif_pos (by omega)]
  exact ⟨_, rfl⟩

theorem minusMillis_millis {t u : Instant} {k : ℤ} (h : t.minusMillis k = .ok u) :
    u.millis = t.millis - k := by
  obtain ⟨hs, hn⟩ := create_eq_ok h
  unfold millis
  rw [hs, hn]
  omega

end Instant

end AisStore.Lib
