import AisStore.Lib.Instant

/-!
`AisStoreSchema`: the tables, their columns, and the time blocks that are
part of every partition key.

A time block is the epoch second divided by the length of a block, ten
minutes or thirty days depending on the table, with Java's division, cast
to an `int`. The first half of the module is the code; the second half says
what it computes, once: `timeBlock_eq_ok` and `timeBlocks_eq_ok` are the
only facts about the two functions the rest of the development uses.
-/

namespace AisStore

open Lib

/-- The columns in use, shared across tables. -/
inductive Column where
  | timeblock | timestamp | cellid | mmsi | aisdataDigest | aisdata
  deriving DecidableEq, Repr

inductive Table where
  | packetsTime | packetsMmsi | packetsAreaCell1 | packetsAreaCell10 | packetsAreaUnknown
  deriving DecidableEq, Repr

/-- Whether the writer fills `packets_area_cell10`, and the default of the
query builder's own switch. -/
def tablePacketsAreaCell10Enabled : Bool := false

/-- `Duration.ofMinutes(n).getSeconds()`. -/
def ofMinutes (n : ℤ) : ℤ := n * 60

/-- `Duration.ofDays(n).getSeconds()`. -/
def ofDays (n : ℤ) : ℤ := n * 86400

def getTimeBlock (timestamp : Instant) (unit : ℤ) : Except Failure ℤ :=
  checkedCast (timestamp.getEpochSecond.tdiv unit)

def timeBlock (table : Table) (timestamp : Instant) : Except Failure ℤ :=
  match table with
  | .packetsTime => getTimeBlock timestamp (ofMinutes 10)
  | .packetsAreaCell1 => getTimeBlock timestamp (ofMinutes 10)
  | .packetsAreaCell10 => getTimeBlock timestamp (ofMinutes 10)
  | .packetsMmsi => getTimeBlock timestamp (ofDays 30)
  | .packetsAreaUnknown => getTimeBlock timestamp (ofDays 30)

/-- The blocks of an interval. The list is created with the number of blocks
as its capacity, computed in `int` arithmetic, and a negative capacity is
refused. -/
def timeBlocks (table : Table) (timeStart timeStop : Instant) : Except Failure (List ℤ) := do
  let timeBlockMin ← timeBlock table timeStart
  let timeBlockMax ← timeBlock table timeStop
  let capacity := wrapInt (timeBlockMax - timeBlockMin + 1)
  if capacity < 0 then
    throw (.illegalArgument s!"Illegal Capacity: {capacity}")
  intLoop timeBlockMin timeBlockMax

/-! ### What a time block is -/

/-- The length of a table's blocks in seconds. -/
def Table.unit : Table → ℤ
  | .packetsTime => 600
  | .packetsAreaCell1 => 600
  | .packetsAreaCell10 => 600
  | .packetsMmsi => 2592000
  | .packetsAreaUnknown => 2592000

/-- The block of an instant before it is cast to an `int`. -/
def block (table : Table) (t : Instant) : ℤ := t.seconds.tdiv table.unit

theorem Table.unit_pos (table : Table) : 0 < table.unit := by
  cases table <;> decide

theorem timeBlock_eq (table : Table) (t : Instant) :
    timeBlock table t = checkedCast (block table t) := by
  cases table <;> rfl

theorem timeBlock_eq_ok {table : Table} {t : Instant} {b : ℤ} :
    timeBlock table t = .ok b ↔ IsInt (block table t) ∧ b = block table t := by
  rw [timeBlock_eq, checkedCast_eq_ok]

theorem returns_timeBlock {table : Table} {t : Instant} :
    Returns (timeBlock table t) ↔ IsInt (block table t) := by
  rw [timeBlock_eq, returns_checkedCast]

theorem timeBlock_of_isInt {table : Table} {t : Instant} (h : IsInt (block table t)) :
    timeBlock table t = .ok (block table t) := timeBlock_eq_ok.mpr ⟨h, rfl⟩

/-- Blocks follow time, at every sign: truncation is monotone. -/
theorem block_mono (table : Table) {s t : Instant} (h : s.seconds ≤ t.seconds) :
    block table s ≤ block table t := Int.tdiv_le_tdiv table.unit_pos h

/-- A time between two instants lies in a block between theirs. -/
theorem block_between (table : Table) {start stop : Instant} {t : Long}
    (hstart : start.millis ≤ t.1) (hstop : t.1 ≤ stop.millis) :
    block table start ≤ block table (.ofEpochMilli t) ∧
      block table (.ofEpochMilli t) ≤ block table stop := by
  have hlow : start.seconds ≤ (Instant.ofEpochMilli t).seconds := by
    rw [Instant.seconds_eq, Instant.ofEpochMilli_seconds]
    exact Int.ediv_le_ediv (by decide) hstart
  have hhigh : (Instant.ofEpochMilli t).seconds ≤ stop.seconds := by
    rw [Instant.seconds_eq stop, Instant.ofEpochMilli_seconds]
    exact Int.ediv_le_ediv (by decide) hstop
  exact ⟨block_mono table hlow, block_mono table hhigh⟩

/-- An instant with a block is close to the epoch. -/
theorem seconds_of_isInt {table : Table} {t : Instant} (h : IsInt (block table t)) :
    -9000000000000000 ≤ t.seconds ∧ t.seconds ≤ 9000000000000000 := by
  unfold IsInt block at h
  cases table <;> simp only [Table.unit] at h <;> grind

/-- Close enough for its milliseconds to be a `long`. -/
theorem isLong_seconds_of_isInt {table : Table} {t : Instant} (h : IsInt (block table t)) :
    IsLong (t.seconds * 1000) ∧ IsLong t.millis := by
  have hn := t.nanos_lt
  have hsec := seconds_of_isInt h
  unfold IsLong Instant.millis
  omega

theorem toEpochMilli_of_isInt {table : Table} {t : Instant} {m : Long}
    (h : IsInt (block table t)) (hm : m.1 = t.millis) : t.toEpochMilli = .ok m :=
  Instant.toEpochMilli_eq hm (isLong_seconds_of_isInt h).1

/-! ### What the blocks of an interval are -/

/-- Between two blocks that exist, a capacity that is accepted leaves the
loop to decide. -/
theorem timeBlocks_eq_intLoop {table : Table} {start stop : Instant} {lo hi : ℤ}
    (hstart : timeBlock table start = .ok lo) (hstop : timeBlock table stop = .ok hi)
    (hcapacity : 0 ≤ wrapInt (hi - lo + 1)) :
    timeBlocks table start stop = intLoop lo hi := by
  rw [timeBlocks, hstart, hstop]
  simp only [bind, Except.bind, not_lt.mpr hcapacity, if_false]

/-- What `timeBlocks` has done when it returns: found both ends, accepted the
capacity and left the loop. -/
theorem intLoop_of_timeBlocks {table : Table} {start stop : Instant} {bs : List ℤ}
    (h : timeBlocks table start stop = .ok bs) :
    ∃ lo hi, timeBlock table start = .ok lo ∧ timeBlock table stop = .ok hi ∧
      0 ≤ wrapInt (hi - lo + 1) ∧ intLoop lo hi = .ok bs := by
  have hbind := h
  rw [timeBlocks, bind_eq_ok] at hbind
  obtain ⟨lo, hstart, hrest⟩ := hbind
  obtain ⟨hi, hstop, -⟩ := bind_eq_ok.mp hrest
  by_cases hcapacity : 0 ≤ wrapInt (hi - lo + 1)
  · rw [timeBlocks_eq_intLoop hstart hstop hcapacity] at h
    exact ⟨lo, hi, hstart, hstop, hcapacity, h⟩
  · rw [timeBlocks, hstart, hstop] at h
    simp [bind, Except.bind, throw, throwThe, MonadExceptOf.throw, not_le.mp hcapacity] at h

/-- `timeBlocks` returns exactly when both ends have a block, the last one
is not the largest `int`, and the number of blocks, wrapped to an `int`, is
not negative; and then it returns the consecutive blocks between them. -/
theorem timeBlocks_eq_ok {table : Table} {s t : Instant} {bs : List ℤ} :
    timeBlocks table s t = .ok bs ↔
      IsInt (block table s) ∧ IsInt (block table t) ∧ block table t < maxInt ∧
        0 ≤ wrapInt (block table t - block table s + 1) ∧
        bs = Int.range (block table s) (block table t + 1) := by
  constructor
  · intro h
    obtain ⟨lo, hi, hs, ht, hcap, hloop⟩ := intLoop_of_timeBlocks h
    obtain ⟨hlo, rfl⟩ := timeBlock_eq_ok.mp hs
    obtain ⟨hhi, rfl⟩ := timeBlock_eq_ok.mp ht
    by_cases hmax : block table t = maxInt
    · rw [hmax, intLoop_maxInt hlo] at hloop
      cases hloop
    · have hlt : block table t < maxInt := lt_of_le_of_ne hhi.2 hmax
      rw [intLoop_eq hlo hlt] at hloop
      cases hloop
      exact ⟨hlo, hhi, hlt, hcap, rfl⟩
  · rintro ⟨hlo, hhi, hlt, hcap, rfl⟩
    rw [timeBlocks_eq_intLoop (timeBlock_of_isInt hlo) (timeBlock_of_isInt hhi) hcap]
    exact intLoop_eq hlo hlt

/-- For an interval that does not run backwards the wrapped number of
blocks is negative exactly when the number itself is no `int`. -/
theorem wrapInt_count_nonneg {lo hi : ℤ} (hlo : IsInt lo) (hhi : hi < maxInt) (h : lo ≤ hi) :
    0 ≤ wrapInt (hi - lo + 1) ↔ hi - lo + 1 ≤ maxInt := by
  unfold IsInt at hlo
  unfold maxInt at *
  unfold wrapInt
  omega

/-! ### The end of the range -/

/-- An interval that ends in the largest block is never listed, unless the
wrapped number of its blocks is refused. -/
theorem timeBlocks_noReturn {table : Table} {start stop : Instant} {lo : ℤ}
    (hstart : timeBlock table start = .ok lo) (hstop : timeBlock table stop = .ok maxInt)
    (hcapacity : 0 ≤ wrapInt (maxInt - lo + 1)) :
    timeBlocks table start stop = .error .noReturn := by
  obtain ⟨hlo, hblock⟩ := timeBlock_eq_ok.mp hstart
  rw [timeBlocks_eq_intLoop hstart hstop hcapacity]
  exact intLoop_maxInt (hblock ▸ hlo)

/-- The loop is left after some number of tests, and the call returns what it
has counted: one element for each block from the first to the last. -/
def ReturnsAllBlocks (table : Table) (start stop : Instant) (lo hi : ℤ) : Prop :=
  ∃ tests bs, countUp tests lo hi = some bs ∧ timeBlocks table start stop = .ok bs ∧
    (bs.length : ℤ) = hi - lo + 1

/-- Of the blocks that are `int`s, the largest one cannot be the last of an
interval, and no interval can have more than that many. -/
theorem returnsAllBlocks_iff {table : Table} {start stop : Instant} (hle : start ≤ stop)
    {lo hi : ℤ} (hstart : timeBlock table start = .ok lo) (hstop : timeBlock table stop = .ok hi) :
    ReturnsAllBlocks table start stop lo hi ↔ hi < maxInt ∧ hi - lo + 1 ≤ maxInt := by
  obtain ⟨hlo, rfl⟩ := timeBlock_eq_ok.mp hstart
  obtain ⟨hhi, rfl⟩ := timeBlock_eq_ok.mp hstop
  have hmono : block table start ≤ block table stop := block_mono table (Instant.seconds_le hle)
  constructor
  · rintro ⟨tests, bs, -, hbs, -⟩
    obtain ⟨-, -, hmax, hcount, -⟩ := timeBlocks_eq_ok.mp hbs
    exact ⟨hmax, (wrapInt_count_nonneg hlo hmax hmono).mp hcount⟩
  · rintro ⟨hmax, hcount⟩
    have hcapacity := (wrapInt_count_nonneg hlo hmax hmono).mpr hcount
    have hleft := countUp_eq hlo hmax (Nat.lt_succ_self _)
    have hreturns := timeBlocks_eq_ok.mpr ⟨hlo, hhi, hmax, hcapacity, rfl⟩
    refine ⟨_, _, hleft, hreturns, ?_⟩
    rw [length_range]
    omega

/-- The last two blocks that an interval can have. -/
theorem returnsAllBlocks_iff_lastTwo :
    ReturnsAllBlocks .packetsTime ⟨1288490187000, 0, by decide, by decide, by decide⟩
      ⟨1288490188199, 999999999, by decide, by decide, by decide⟩ 2147483645 2147483646 :=
  (returnsAllBlocks_iff (by decide) (by decide) (by decide)).mpr (by decide)

/-- In the block after these the loop is never left. -/
theorem returnsAllBlocks_fails :
    ∃ t : Instant, t ≤ t ∧ timeBlock .packetsTime t = .ok maxInt ∧
      (∀ tests, countUp tests maxInt maxInt = none) ∧
      timeBlocks .packetsTime t t = .error .noReturn ∧
      ¬ ReturnsAllBlocks .packetsTime t t maxInt maxInt := by
  have hint : IsInt maxInt := by decide
  have hblock : timeBlock .packetsTime
      ⟨1288490188200, 0, by decide, by decide, by decide⟩ = .ok maxInt := by decide
  refine ⟨_, by decide, hblock, fun tests => countUp_maxInt tests hint,
    timeBlocks_noReturn hblock hblock (by decide), ?_⟩
  rintro ⟨tests, bs, hleft, -⟩
  rw [countUp_maxInt tests hint] at hleft
  cases hleft

end AisStore
