import AisStore.Lib.WhileLoop
import AisStore.Interval

/-!
`CassandraStats`: counting the packets of an interval.

The blocks of the interval are asked for some at a time. The first of these
statements bounds the time from below and the last from above; the others
bound it not at all, since a block strictly between the first and the last
holds only times strictly between the two ends. One round of the loop is
`countBlocks`, and `Counted` is what holds between two rounds.
-/

namespace AisStore

open Lib

/-! ### Statements -/

/-- A condition of a count, which uses one comparison more than the queries do. -/
inductive CountClause where
  | clause (c : Clause)
  | gte (column : Column) (value : ℤ)
  deriving DecidableEq, Repr

def CountClause.holds (r : Row) : CountClause → Bool
  | .clause c => c.holds r
  | .gte column value => (r.column column).any (value ≤ ·)

/-- `select().countAll().from(table).where(..)`. -/
structure CountStatement where
  table : Table
  whereClauses : List CountClause
  deriving DecidableEq, Repr

/-- The rows of a store a statement counts. -/
def CountStatement.matching (statement : CountStatement) (store : Store) : List Row :=
  (store statement.table).rows.filter fun r => statement.whereClauses.all (CountClause.holds r)

/-- The values of the `IN` condition on the time block. -/
def CountStatement.timeblocks (statement : CountStatement) : List ℤ :=
  (statement.whereClauses.findSome? fun
    | .clause (.inList .timeblock values) => some values
    | _ => none).getD []

/-- `session.executeAsync(statement).getUninterruptibly().one().getLong(0)`. -/
abbrev CountSession := CountStatement → ℕ

/-- The session counts the rows that match. -/
def CountSession.CountsWhere (session : CountSession) (store : Store) : Prop :=
  ∀ statement, session statement = (statement.matching store).length

def CountSession.ofStore (store : Store) : CountSession :=
  fun statement => (statement.matching store).length

/-! ### The program -/

/-- The name of a table. -/
def Table.toString : Table → String
  | .packetsTime => "packets_time"
  | .packetsMmsi => "packets_mmsi"
  | .packetsAreaCell1 => "packets_area_cell1"
  | .packetsAreaCell10 => "packets_area_cell10"
  | .packetsAreaUnknown => "packets_area_unknown"

/-- `Arrays.copyOfRange(original, from, to)`, for an end within the array. -/
def copyOfRange (original : List ℤ) (lo hi : ℤ) : Except Failure (List ℤ) :=
  if lo > hi then .error (.illegalArgument s!"{lo} > {hi}")
  else if lo < 0 ∨ lo > original.length then .error (.arrayIndexOutOfBounds lo)
  else .ok ((original.drop lo.toNat).take (hi - lo).toNat)

/-- `values[i]`. -/
def elementAt (values : List ℤ) (i : ℤ) : Except Failure ℤ :=
  match values[i.toNat]? with
  | some value => if i < 0 then .error (.arrayIndexOutOfBounds i) else .ok value
  | none => .error (.arrayIndexOutOfBounds i)

/-- The loop variables, the statements sent so far, and the lines printed. -/
structure CountState where
  i : ℤ
  numPackets : ℕ
  statements : List CountStatement
  lines : List String
  deriving DecidableEq, Repr

/-- The bounds on the time that the statement for the blocks from `i` on has. -/
def timeClauses (ts0 ts1 : Instant) (n step i : ℤ) : Except Failure (List CountClause) := do
  let lower ← if i = 0 then do
      let from0 ← ts0.toEpochMilli
      pure [.gte .timestamp from0.1]
    else pure []
  let upper ← if i ≥ wrapInt (n - step) then do
      let to1 ← ts1.toEpochMilli
      pure [.clause (.lt .timestamp to1.1)]
    else pure []
  return lower ++ upper

/-- One round of the loop. -/
def countBlocks (session : CountSession) (ts0 ts1 : Instant) (timeblocks : List ℤ) (n step : ℤ)
    (s : CountState) : Except Failure CountState := do
  let queryTimeBlocks ← copyOfRange timeblocks s.i (min (wrapInt (s.i + step)) n)
  let bounds ← timeClauses ts0 ts1 n step s.i
  let statement : CountStatement :=
    ⟨.packetsTime, .clause (.inList .timeblock queryTimeBlocks) :: bounds⟩
  let count := session statement
  let first ← elementAt queryTimeBlocks 0
  let last ← elementAt queryTimeBlocks (queryTimeBlocks.length - 1)
  return {
    i := wrapInt (s.i + step)
    numPackets := s.numPackets + count
    statements := s.statements ++ [statement]
    lines := s.lines ++ [s!"Timeblocks {first}..{last}: {count}"] }

/-- The last line printed. -/
def totalLine (numPackets : ℕ) : String :=
  s!"Counted a total of {numPackets} AisPackets in {Table.packetsTime.toString}."

/-- The tests of the loop are bounded as those of `intLoop` are: its variable
is an `int`, and what it is decides what it is next. -/
def printPacketsTimeStats (session : CountSession) (ts0 ts1 : Instant) (tbPerSelect : ℤ) :
    Except Failure CountState := do
  let tb0 ← timeBlock .packetsTime ts0
  let tb1 ← timeBlock .packetsTime ts1
  let n := wrapInt (tb1 - tb0 + 1)
  if n < 0 then throw (.negativeArraySize n)
  let indices ← intLoop 0 (n - 1)
  let timeblocks := indices.map fun i => wrapInt (tb0 + i)
  let step := tbPerSelect
  let s ← whileLoop (fun s => s.i < n) (countBlocks session ts0 ts1 timeblocks n step) 4294967297
    ⟨0, 0, [], []⟩
  return { s with lines := s.lines ++ [totalLine s.numPackets] }

/-! ### One statement -/

/-- The number of blocks from that of one instant to that of another. -/
def blockCount (ts0 ts1 : Instant) : ℤ := block .packetsTime ts1 - block .packetsTime ts0 + 1

/-- The row is of the interval from the first instant to before the second. -/
def Row.InInterval (ts0 ts1 : Instant) (r : Row) : Prop :=
  ts0 ≤ .ofEpochMilli r.time ∧ .ofEpochMilli r.time < ts1

instance (ts0 ts1 : Instant) : DecidablePred (Row.InInterval ts0 ts1) :=
  fun _ => inferInstanceAs (Decidable (_ ∧ _))

/-- The same with both ends cut to the millisecond, which is how the
statements have them. -/
def Row.InMillis (ts0 ts1 : Instant) (r : Row) : Prop :=
  ts0.millis ≤ r.time.1 ∧ r.time.1 < ts1.millis

instance (ts0 ts1 : Instant) : DecidablePred (Row.InMillis ts0 ts1) :=
  fun _ => inferInstanceAs (Decidable (_ ∧ _))

theorem Row.inInterval_iff {ts0 ts1 : Instant} (h0 : ts0.WholeMillis) (h1 : ts1.WholeMillis)
    {r : Row} : r.InInterval ts0 ts1 ↔ r.InMillis ts0 ts1 :=
  and_congr (Instant.le_ofEpochMilli h0) (Instant.ofEpochMilli_lt h1)

/-- No `int` the count computes overflows: the blocks of both ends, their
number, and each value of the loop variable. -/
structure NoOverflow (ts0 ts1 : Instant) (step : ℤ) : Prop where
  first : IsInt (block .packetsTime ts0)
  last : IsInt (block .packetsTime ts1)
  count : IsInt (blockCount ts0 ts1)
  next : ∀ i, 0 ≤ i → i < blockCount ts0 ts1 → step ∣ i → IsInt (i + step)

section
variable {ts0 ts1 : Instant} {step : ℤ}

theorem blockCount_pos (hle : ts0 ≤ ts1) : 0 < blockCount ts0 ts1 := by
  have hmono : block .packetsTime ts0 ≤ block .packetsTime ts1 :=
    block_mono .packetsTime (Instant.seconds_le hle)
  unfold blockCount
  omega

/-- It is enough that the last value of the loop variable is an `int`. -/
theorem noOverflow_of_le (hle : ts0 ≤ ts1) (hfirst : IsInt (block .packetsTime ts0))
    (hlast : IsInt (block .packetsTime ts1)) (hstep : 0 ≤ step)
    (hsum : blockCount ts0 ts1 + step ≤ maxInt) : NoOverflow ts0 ts1 step := by
  have hpos := blockCount_pos hle
  unfold maxInt at hsum
  refine ⟨hfirst, hlast, ?_, fun i hlow hhigh _ => ?_⟩
  · unfold IsInt
    omega
  · unfold IsInt
    omega

/-- A later block holds later times. -/
theorem millis_lt_of_block {table : Table} {s t : Instant} (h : block table s < block table t) :
    s.millis < t.millis := by
  by_contra hnot
  have hmono : block table t ≤ block table s := by
    apply block_mono
    rw [Instant.seconds_eq, Instant.seconds_eq s]
    exact Int.ediv_le_ediv (by omega) (not_lt.mp hnot)
  omega

theorem Row.InBlock.millis {table : Table} {r : Row} (h : r.InBlock table) :
    r.timeblock = block table (.ofEpochMilli r.time) ∧
      (Instant.ofEpochMilli r.time).millis = r.time.1 :=
  ⟨(timeBlock_eq_ok.mp h).2, Instant.ofEpochMilli_millis r.time⟩

/-- What the bounds of a statement ask of a row. -/
theorem timeClauses_eq (hfit : NoOverflow ts0 ts1 step) (n i : ℤ) :
    ∃ bounds, timeClauses ts0 ts1 n step i = .ok bounds ∧
      ∀ r, bounds.all (CountClause.holds r) = true ↔
        (i = 0 → ts0.millis ≤ r.time.1) ∧ (i ≥ wrapInt (n - step) → r.time.1 < ts1.millis) := by
  have hfrom := @toEpochMilli_of_isInt _ ts0
    ⟨ts0.millis, (isLong_seconds_of_isInt hfit.first).2⟩ hfit.first rfl
  have hto := @toEpochMilli_of_isInt _ ts1
    ⟨ts1.millis, (isLong_seconds_of_isInt hfit.last).2⟩ hfit.last rfl
  let lower : List CountClause := if i = 0 then [.gte .timestamp ts0.millis] else []
  let upper : List CountClause :=
    if i ≥ wrapInt (n - step) then [.clause (.lt .timestamp ts1.millis)] else []
  refine ⟨lower ++ upper, ?_, ?_⟩
  · unfold timeClauses
    rw [hfrom, hto]
    by_cases hfirst : i = 0 <;> by_cases hlast : i ≥ wrapInt (n - step)
    · simp only [lower, upper, if_pos hfirst, if_pos hlast]
      rfl
    · simp only [lower, upper, if_pos hfirst, if_neg hlast]
      rfl
    · simp only [lower, upper, if_neg hfirst, if_pos hlast]
      rfl
    · simp only [lower, upper, if_neg hfirst, if_neg hlast]
      rfl
  · intro r
    rw [List.all_append, Bool.and_eq_true]
    refine and_congr ?_ ?_
    · by_cases hfirst : i = 0 <;>
        simp [lower, hfirst, CountClause.holds, Row.column]
    · by_cases hlast : i ≥ wrapInt (n - step) <;>
        simp [upper, hlast, CountClause.holds, Clause.holds, Row.column]

theorem copyOfRange_range {lo hi i j : ℤ} (hi0 : 0 ≤ i) (hij : i ≤ j) (hj : lo + j ≤ hi) :
    copyOfRange (Int.range lo hi) i j = .ok (Int.range (lo + i) (lo + j)) := by
  have hlength := length_range lo hi
  have hbound : ¬ (i < 0 ∨ i > (Int.range lo hi).length) := by omega
  unfold copyOfRange
  rw [if_neg (not_lt.mpr hij), if_neg hbound, slice_range hi0 hij hj]

theorem elementAt_of_lt {values : List ℤ} {i : ℤ} (hi0 : 0 ≤ i) (hi : i < values.length) :
    ∃ value, elementAt values i = .ok value := by
  have hlt : i.toNat < values.length := by omega
  unfold elementAt
  rw [List.getElem?_eq_getElem hlt]
  exact ⟨_, if_neg (not_lt.mpr hi0)⟩

/-! ### One round -/

/-- Between two rounds: the statements sent ask for the blocks before `i`,
each some of them, and what they counted is the rows of the interval there. -/
structure Counted (store : Store) (ts0 ts1 : Instant) (step : ℤ) (s : CountState) : Prop where
  nonneg : 0 ≤ s.i
  dvd : step ∣ s.i
  nonempty : ∀ statement ∈ s.statements, statement.timeblocks ≠ []
  chunks : s.statements.flatMap CountStatement.timeblocks =
    Int.range (block .packetsTime ts0) (block .packetsTime ts0 + min s.i (blockCount ts0 ts1))
  total : s.numPackets = (store .packetsTime).rows.countP fun r => r.InMillis ts0 ts1 ∧
    r.timeblock < block .packetsTime ts0 + min s.i (blockCount ts0 ts1)

variable {store : Store} {session : CountSession}

theorem counted_start (hstore : ∀ r ∈ (store .packetsTime).rows, r.InBlock .packetsTime)
    (hle : ts0 ≤ ts1) : Counted store ts0 ts1 step ⟨0, 0, [], []⟩ := by
  have hpos := blockCount_pos hle
  have hmin : min 0 (blockCount ts0 ts1) = 0 := by omega
  refine ⟨le_rfl, dvd_zero step, by simp, ?_, ?_⟩
  · rw [hmin, range_eq_nil (by omega)]
    rfl
  · symm
    rw [List.countP_eq_zero]
    intro r hr hcounted
    obtain ⟨⟨hlow, hhigh⟩, hblock⟩ := of_decide_eq_true hcounted
    have hbetween := (block_between .packetsTime hlow hhigh.le).1
    rw [← (hstore r hr).millis.1] at hbetween
    rw [hmin] at hblock
    omega

/-- Counting up to a bound, and from there to the next. -/
theorem countP_lt_add {α : Type} (rows : List α) (p : α → Prop) [DecidablePred p] (f : α → ℤ)
    {a b : ℤ} (h : a ≤ b) :
    (rows.countP fun r => p r ∧ f r < a) + (rows.countP fun r => p r ∧ a ≤ f r ∧ f r < b) =
      rows.countP fun r => p r ∧ f r < b := by
  rw [List.countP_eq_countP_filter_add rows (fun r => p r ∧ f r < b) (fun r => f r < a),
    List.countP_filter, List.countP_filter]
  refine congrArg₂ _ (List.countP_congr fun r _ => ?_) (List.countP_congr fun r _ => ?_)
  · simp only [Bool.and_eq_true, decide_eq_true_eq, and_assoc]
    refine and_congr_right fun _ => ?_
    omega
  · simp only [Bool.and_eq_true, decide_eq_true_eq, and_assoc, Bool.not_eq_true',
      decide_eq_false_iff_not]
    refine and_congr_right fun _ => ?_
    omega

/-- The statement for the blocks from the `i`th to before the `j`th. -/
def chunkStatement (ts0 : Instant) (i j : ℤ) (bounds : List CountClause) : CountStatement :=
  ⟨.packetsTime, .clause (.inList .timeblock
    (Int.range (block .packetsTime ts0 + i) (block .packetsTime ts0 + j))) :: bounds⟩

/-- The rows a statement counts are those of the interval in its blocks. -/
theorem matching_chunk (hstore : ∀ r ∈ (store .packetsTime).rows, r.InBlock .packetsTime)
    (hle : ts0 ≤ ts1) (hstep : 1 ≤ step) (hfit : NoOverflow ts0 ts1 step) {i j : ℤ} (hi0 : 0 ≤ i)
    (hj : j = min (i + step) (blockCount ts0 ts1)) {bounds : List CountClause}
    (hbounds : ∀ r, bounds.all (CountClause.holds r) = true ↔
      (i = 0 → ts0.millis ≤ r.time.1) ∧
        (i ≥ wrapInt (blockCount ts0 ts1 - step) → r.time.1 < ts1.millis)) :
    ((chunkStatement ts0 i j bounds).matching store).length =
      (store .packetsTime).rows.countP fun r => r.InMillis ts0 ts1 ∧
        block .packetsTime ts0 + i ≤ r.timeblock ∧ r.timeblock < block .packetsTime ts0 + j := by
  have hpos := blockCount_pos hle
  have hcount : blockCount ts0 ts1 = block .packetsTime ts1 - block .packetsTime ts0 + 1 := rfl
  have hwrap : wrapInt (blockCount ts0 ts1 - step) = blockCount ts0 ts1 - step := by
    apply wrapInt_eq
    have hstepInt := hfit.next 0 le_rfl hpos (dvd_zero step)
    have hcountInt := hfit.count
    unfold IsInt at *
    omega
  rw [hwrap] at hbounds
  rw [CountStatement.matching, chunkStatement, ← List.countP_eq_length_filter]
  apply List.countP_congr
  intro r hr
  obtain ⟨hblock, hmillis⟩ := (hstore r hr).millis
  simp only [List.all_cons, Bool.and_eq_true, hbounds, decide_eq_true_eq, CountClause.holds,
    Clause.holds, Row.column, Option.any_some, Int.mem_range_iff]
  constructor
  · rintro ⟨⟨hlow, hhigh⟩, hfirst, hlast⟩
    -- a block after the first starts after the interval does
    have hfrom : ts0.millis ≤ r.time.1 := by
      by_cases hzero : i = 0
      · exact hfirst hzero
      · have hlater : block .packetsTime ts0 < block .packetsTime (.ofEpochMilli r.time) := by omega
        have hlt := millis_lt_of_block hlater
        omega
    -- and one before the last ends before it
    have hto : r.time.1 < ts1.millis := by
      by_cases hend : i ≥ blockCount ts0 ts1 - step
      · exact hlast hend
      · have hearlier : block .packetsTime (.ofEpochMilli r.time) < block .packetsTime ts1 := by
          omega
        have hlt := millis_lt_of_block hearlier
        omega
    exact ⟨⟨hfrom, hto⟩, hlow, hhigh⟩
  · rintro ⟨⟨hfrom, hto⟩, hlow, hhigh⟩
    exact ⟨⟨hlow, hhigh⟩, fun _ => hfrom, fun _ => hto⟩

/-- What one round does: it sends one statement, for the next blocks, and
adds what that counts. -/
theorem countBlocks_eq (hstep : 1 ≤ step) (hfit : NoOverflow ts0 ts1 step)
    {s : CountState} (hs : Counted store ts0 ts1 step s) (hi : s.i < blockCount ts0 ts1) {j : ℤ}
    (hj : j = min (s.i + step) (blockCount ts0 ts1)) :
    ∃ bounds line,
      (∀ r, bounds.all (CountClause.holds r) = true ↔
        (s.i = 0 → ts0.millis ≤ r.time.1) ∧
          (s.i ≥ wrapInt (blockCount ts0 ts1 - step) → r.time.1 < ts1.millis)) ∧
      countBlocks session ts0 ts1
          (Int.range (block .packetsTime ts0) (block .packetsTime ts1 + 1)) (blockCount ts0 ts1)
          step s =
        .ok ⟨s.i + step, s.numPackets + session (chunkStatement ts0 s.i j bounds),
          s.statements ++ [chunkStatement ts0 s.i j bounds], s.lines ++ [line]⟩ := by
  have hcount : blockCount ts0 ts1 = block .packetsTime ts1 - block .packetsTime ts0 + 1 := rfl
  have hnonneg := hs.nonneg
  have hnext : wrapInt (s.i + step) = s.i + step :=
    wrapInt_eq (hfit.next s.i hs.nonneg hi hs.dvd)
  have hcopy : copyOfRange (Int.range (block .packetsTime ts0) (block .packetsTime ts1 + 1)) s.i j =
      .ok (Int.range (block .packetsTime ts0 + s.i) (block .packetsTime ts0 + j)) :=
    copyOfRange_range hnonneg (by omega) (by omega)
  obtain ⟨bounds, hclauses, hbounds⟩ := timeClauses_eq hfit (blockCount ts0 ts1) s.i
  -- there is at least one block to ask for
  have hlength := length_range (block .packetsTime ts0 + s.i) (block .packetsTime ts0 + j)
  obtain ⟨first, hfirst⟩ := @elementAt_of_lt
    (Int.range (block .packetsTime ts0 + s.i) (block .packetsTime ts0 + j)) 0 (by omega) (by omega)
  obtain ⟨last, hlast⟩ := @elementAt_of_lt
    (Int.range (block .packetsTime ts0 + s.i) (block .packetsTime ts0 + j))
    ((Int.range (block .packetsTime ts0 + s.i) (block .packetsTime ts0 + j)).length - 1)
    (by omega) (by omega)
  let line := s!"Timeblocks {first}..{last}: {session (chunkStatement ts0 s.i j bounds)}"
  refine ⟨bounds, line, hbounds, ?_⟩
  unfold countBlocks
  rw [hnext, ← hj, hcopy, hclauses]
  simp only [bind, Except.bind, hfirst, hlast, pure, Except.pure]
  rfl

/-- One round keeps the count. -/
theorem Counted.next (hstore : ∀ r ∈ (store .packetsTime).rows, r.InBlock .packetsTime)
    (hsession : session.CountsWhere store) (hle : ts0 ≤ ts1) (hstep : 1 ≤ step)
    (hfit : NoOverflow ts0 ts1 step) {s : CountState} (hs : Counted store ts0 ts1 step s)
    (hi : s.i < blockCount ts0 ts1) {j : ℤ} (hj : j = min (s.i + step) (blockCount ts0 ts1))
    {bounds : List CountClause} {line : String}
    (hbounds : ∀ r, bounds.all (CountClause.holds r) = true ↔
      (s.i = 0 → ts0.millis ≤ r.time.1) ∧
        (s.i ≥ wrapInt (blockCount ts0 ts1 - step) → r.time.1 < ts1.millis)) :
    Counted store ts0 ts1 step
      ⟨s.i + step, s.numPackets + session (chunkStatement ts0 s.i j bounds),
        s.statements ++ [chunkStatement ts0 s.i j bounds], s.lines ++ [line]⟩ := by
  have hnonneg := hs.nonneg
  have hdone : min s.i (blockCount ts0 ts1) = s.i := by omega
  have hchunks := hs.chunks
  have htotal := hs.total
  rw [hdone] at hchunks htotal
  refine ⟨?_, Int.dvd_add hs.dvd (Int.dvd_refl step), ?_, ?_, ?_⟩
  · show 0 ≤ s.i + step
    omega
  · intro statement hmem
    rcases List.mem_append.mp hmem with hold | hnew
    · exact hs.nonempty statement hold
    · obtain rfl := List.mem_singleton.mp hnew
      have hlength := length_range (block .packetsTime ts0 + s.i) (block .packetsTime ts0 + j)
      show Int.range _ _ ≠ []
      intro hnil
      rw [hnil, List.length_nil] at hlength
      omega
  · show (s.statements ++ [_]).flatMap _ = Int.range _ (_ + min (s.i + step) _)
    rw [← hj, List.flatMap_append, hchunks, List.flatMap_singleton]
    exact range_append (by omega) (by omega)
  · show s.numPackets + session _ = _
    rw [hsession, matching_chunk hstore hle hstep hfit hnonneg hj hbounds, htotal]
    show _ = (store .packetsTime).rows.countP fun r => decide (_ ∧ _ < _ + min (s.i + step) _)
    rw [← hj]
    exact countP_lt_add _ (Row.InMillis ts0 ts1) Row.timeblock (by omega)

/-! ### The whole count -/

/-- The array of blocks is filled with the blocks of the interval. -/
theorem map_wrapInt_range {lo n : ℤ} (hlo : IsInt lo) (hhi : IsInt (lo + n - 1)) :
    ((Int.range 0 n).map fun i => wrapInt (lo + i)) = Int.range lo (lo + n) := by
  have hmap : ((Int.range 0 n).map fun i => wrapInt (lo + i)) =
      (Int.range 0 n).map fun i => lo + i := by
    apply List.map_congr_left
    intro i hi
    obtain ⟨hlow, hhigh⟩ := Int.mem_range_iff.mp hi
    apply wrapInt_eq
    unfold IsInt at *
    omega
  rw [hmap]
  unfold Int.range
  rw [List.map_map, show (lo + n - lo).toNat = (n - 0).toNat by omega]
  apply List.map_congr_left
  intro k _
  simp only [Function.comp_apply]
  omega

/-- The loop is left, and what holds between two rounds holds at its end. -/
theorem counted_loop (hstore : ∀ r ∈ (store .packetsTime).rows, r.InBlock .packetsTime)
    (hsession : session.CountsWhere store) (hle : ts0 ≤ ts1) (hstep : 1 ≤ step)
    (hfit : NoOverflow ts0 ts1 step) :
    ∃ s, whileLoop (fun s => s.i < blockCount ts0 ts1)
        (countBlocks session ts0 ts1
          (Int.range (block .packetsTime ts0) (block .packetsTime ts1 + 1))
          (blockCount ts0 ts1) step) 4294967297 ⟨0, 0, [], []⟩ = .ok s ∧
      Counted store ts0 ts1 step s ∧ blockCount ts0 ts1 ≤ s.i := by
  have hround : ∀ s, Counted store ts0 ts1 step s → decide (s.i < blockCount ts0 ts1) = true →
      ∃ s', countBlocks session ts0 ts1
          (Int.range (block .packetsTime ts0) (block .packetsTime ts1 + 1))
          (blockCount ts0 ts1) step s = .ok s' ∧ Counted store ts0 ts1 step s' ∧
        (blockCount ts0 ts1 - s'.i).toNat < (blockCount ts0 ts1 - s.i).toNat := by
    intro s hs hguard
    have hi : s.i < blockCount ts0 ts1 := of_decide_eq_true hguard
    obtain ⟨bounds, line, hbounds, hround⟩ :=
      @countBlocks_eq _ _ _ _ session hstep hfit s hs hi _ rfl
    refine ⟨_, hround, hs.next hstore hsession hle hstep hfit hi rfl hbounds, ?_⟩
    show (blockCount ts0 ts1 - (s.i + step)).toNat < _
    omega
  have htests : (blockCount ts0 ts1 - 0).toNat < 4294967297 := by
    have hcountInt := hfit.count
    unfold IsInt at hcountInt
    omega
  obtain ⟨s, hloop, hcounted, hguard⟩ := @whileLoop_ok CountState _ _ _
    (fun s => (blockCount ts0 ts1 - s.i).toNat) hround 4294967297 ⟨0, 0, [], []⟩
    (counted_start hstore hle) htests
  exact ⟨s, hloop, hcounted, not_lt.mp (of_decide_eq_false hguard)⟩

/-- After the last round all the blocks have been asked for, and a row of the
interval is in one of them. -/
theorem Counted.finished (hstore : ∀ r ∈ (store .packetsTime).rows, r.InBlock .packetsTime)
    {s : CountState} (hs : Counted store ts0 ts1 step s) (hi : blockCount ts0 ts1 ≤ s.i) :
    s.statements.flatMap CountStatement.timeblocks =
        Int.range (block .packetsTime ts0) (block .packetsTime ts1 + 1) ∧
      s.numPackets = (store .packetsTime).rows.countP fun r => r.InMillis ts0 ts1 := by
  have hend :
      block .packetsTime ts0 + min s.i (blockCount ts0 ts1) = block .packetsTime ts1 + 1 := by
    rw [min_eq_right hi, blockCount]
    omega
  have htotal := hs.total
  rw [hend] at htotal
  refine ⟨hend ▸ hs.chunks, htotal.trans (List.countP_congr ?_)⟩
  intro r hr
  rw [decide_eq_true_eq, decide_eq_true_eq, and_iff_left_iff_imp]
  rintro ⟨hlow, hhigh⟩
  have hbetween := (block_between .packetsTime hlow hhigh.le).2
  rw [← (hstore r hr).millis.1] at hbetween
  omega

theorem printPacketsTimeStats_eq
    (hstore : ∀ r ∈ (store .packetsTime).rows, r.InBlock .packetsTime)
    (hsession : session.CountsWhere store) (hle : ts0 ≤ ts1) (hstep : 1 ≤ step)
    (hfit : NoOverflow ts0 ts1 step) :
    ∃ printed, printPacketsTimeStats session ts0 ts1 step = .ok printed ∧
      printed.statements.flatMap CountStatement.timeblocks =
        Int.range (block .packetsTime ts0) (block .packetsTime ts1 + 1) ∧
      (∀ statement ∈ printed.statements, statement.timeblocks ≠ []) ∧
      printed.lines.getLast? =
        some (totalLine ((store .packetsTime).rows.countP fun r => r.InMillis ts0 ts1)) := by
  have hpos := blockCount_pos hle
  have hcount : blockCount ts0 ts1 = block .packetsTime ts1 - block .packetsTime ts0 + 1 := rfl
  have hfirst := hfit.first
  have hlast := hfit.last
  have hcountInt := hfit.count
  have hindices : intLoop 0 (blockCount ts0 ts1 - 1) = .ok (Int.range 0 (blockCount ts0 ts1)) := by
    have hlt : blockCount ts0 ts1 - 1 < maxInt := by
      unfold IsInt at hcountInt
      unfold maxInt
      omega
    rw [intLoop_eq (by decide) hlt, sub_add_cancel]
  have hblocks : ((Int.range 0 (blockCount ts0 ts1)).map fun i =>
      wrapInt (block .packetsTime ts0 + i)) =
      Int.range (block .packetsTime ts0) (block .packetsTime ts1 + 1) := by
    have hend : block .packetsTime ts0 + blockCount ts0 ts1 = block .packetsTime ts1 + 1 := by omega
    rw [map_wrapInt_range hfirst (by rw [hend, add_sub_cancel_right]; exact hlast), hend]
  obtain ⟨s, hloop, hcounted, hi⟩ := counted_loop hstore hsession hle hstep hfit
  obtain ⟨hchunks, hall⟩ := hcounted.finished hstore hi
  refine ⟨{ s with lines := s.lines ++ [totalLine s.numPackets] }, ?_, hchunks, hcounted.nonempty,
    ?_⟩
  · unfold printPacketsTimeStats
    rw [timeBlock_of_isInt hfirst, timeBlock_of_isInt hlast]
    simp only [bind, Except.bind]
    rw [← hcount, wrapInt_eq hcountInt, if_neg (not_lt.mpr hpos.le)]
    simp only [hindices, hblocks, hloop]
    rfl
  · rw [← hall]
    exact List.getLast?_concat

/-- Over rows that are in their blocks, the count returns. The statements it
sends divide the blocks from that of the start to that of the end among
them, and the total it prints is the number of rows between the two ends as
cut to milliseconds: the rows of the interval, if neither end has a part of
one. -/
theorem printPacketsTimeStats_exact
    (hstore : ∀ r ∈ (store .packetsTime).rows, r.InBlock .packetsTime)
    (hsession : session.CountsWhere store) (hle : ts0 ≤ ts1) (hstep : 1 ≤ step)
    (hfit : NoOverflow ts0 ts1 step) :
    ∃ printed, printPacketsTimeStats session ts0 ts1 step = .ok printed ∧
      printed.statements.flatMap CountStatement.timeblocks =
        Int.range (block .packetsTime ts0) (block .packetsTime ts1 + 1) ∧
      (∀ statement ∈ printed.statements, statement.timeblocks ≠ []) ∧
      printed.lines.getLast? =
        some (totalLine ((store .packetsTime).rows.countP fun r => r.InMillis ts0 ts1)) ∧
      (ts0.WholeMillis → ts1.WholeMillis → printed.lines.getLast? =
        some (totalLine ((store .packetsTime).rows.countP fun r => r.InInterval ts0 ts1))) := by
  obtain ⟨printed, hprinted, hchunks, hnonempty, htotal⟩ :=
    printPacketsTimeStats_eq hstore hsession hle hstep hfit
  refine ⟨printed, hprinted, hchunks, hnonempty, htotal, fun h0 h1 => ?_⟩
  have hcount : ((store .packetsTime).rows.countP fun r => r.InInterval ts0 ts1) =
      (store .packetsTime).rows.countP fun r => r.InMillis ts0 ts1 :=
    List.countP_congr fun r _ => by
      rw [decide_eq_true_eq, decide_eq_true_eq, Row.inInterval_iff h0 h1]
  rw [htotal, hcount]

end

/-- Half an hour, two blocks at a time, with one packet at ten past. -/
theorem printPacketsTimeStats_exact_tenPast :
    ∃ printed, printPacketsTimeStats (.ofStore tenPastStore) (.ofEpochMilli (toLong 0))
        (.ofEpochMilli (toLong 1800000)) 2 = .ok printed ∧
      printed.statements.flatMap CountStatement.timeblocks = [0, 1, 2, 3] ∧
      printed.lines.getLast? = some "Counted a total of 1 AisPackets in packets_time." := by
  let ts0 := Instant.ofEpochMilli (toLong 0)
  let ts1 := Instant.ofEpochMilli (toLong 1800000)
  have hle : ts0 ≤ ts1 := by decide
  have hfit : NoOverflow ts0 ts1 2 :=
    noOverflow_of_le hle (by decide) (by decide) (by decide) (by decide)
  have hstore : ∀ r ∈ (tenPastStore .packetsTime).rows, r.InBlock .packetsTime :=
    written_inBlocks _ _ _ .packetsTime
  have hsession : (CountSession.ofStore tenPastStore).CountsWhere tenPastStore := fun _ => rfl
  obtain ⟨printed, hprinted, hchunks, -, -, hlines⟩ :=
    printPacketsTimeStats_exact hstore hsession hle (by omega) hfit
  have hblocks :
      Int.range (block .packetsTime ts0) (block .packetsTime ts1 + 1) = [0, 1, 2, 3] := by
    decide
  have htotal : (tenPastStore .packetsTime).rows.countP (fun r => r.InInterval ts0 ts1) = 1 := by
    decide
  have hwhole := hlines (Instant.wholeMillis_ofEpochMilli _) (Instant.wholeMillis_ofEpochMilli _)
  rw [htotal] at hwhole
  exact ⟨printed, hprinted, hchunks.trans hblocks, hwhole⟩

/-- The packet of ten past is before an end half a millisecond later, and is
not counted. -/
theorem printPacketsTimeStats_partOfMilli :
    let ts0 := Instant.ofEpochMilli (toLong 0)
    let ts1 : Instant := ⟨600, 500000, by decide, by decide, by decide⟩
    (tenPastStore .packetsTime).rows.countP (fun r => r.InInterval ts0 ts1) = 1 ∧
      ∃ printed, printPacketsTimeStats (.ofStore tenPastStore) ts0 ts1 2 = .ok printed ∧
        printed.lines.getLast? = some "Counted a total of 0 AisPackets in packets_time." := by
  intro ts0 ts1
  have hle : ts0 ≤ ts1 := by decide
  have hfit : NoOverflow ts0 ts1 2 :=
    noOverflow_of_le hle (by decide) (by decide) (by decide) (by decide)
  have hstore : ∀ r ∈ (tenPastStore .packetsTime).rows, r.InBlock .packetsTime :=
    written_inBlocks _ _ _ .packetsTime
  have hsession : (CountSession.ofStore tenPastStore).CountsWhere tenPastStore := fun _ => rfl
  obtain ⟨printed, hprinted, -, -, hlines⟩ :=
    printPacketsTimeStats_eq hstore hsession hle (by omega) hfit
  have htotal : (tenPastStore .packetsTime).rows.countP (fun r => r.InMillis ts0 ts1) = 0 := by
    decide
  rw [htotal] at hlines
  exact ⟨by decide, printed, hprinted, hlines⟩

end AisStore
