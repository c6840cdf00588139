import AisStore.Lib.Paged
import AisStore.Packet
import Mathlib.Data.List.Sort
import Mathlib.Data.Prod.Lex
import Mathlib.Algebra.Order.Ring.Int

/-!
Queries as the program sees them: a select statement goes to a session, and
a paged result comes back.

The database is not part of the repository. A session is an arbitrary
function from statements to results, and the two things the program relies
on are stated over it: it evaluates the condition as written
(`EvaluatesWhere`), and it lists the rows partition by partition, in the
order of the `IN` list, with each partition in the order of its clustering
column (`ReturnsInOrder`). `Session.ofStore` is a session that does both.
-/

namespace AisStore

open Lib

/-- A condition of a `WHERE` clause. -/
inductive Clause where
  | eq (column : Column) (value : ℤ)
  | inList (column : Column) (values : List ℤ)
  | gt (column : Column) (value : ℤ)
  | lt (column : Column) (value : ℤ)
  deriving DecidableEq, Repr

structure Select where
  columns : List Column
  table : Table
  whereClauses : List Clause
  fetchSize : ℤ
  deriving DecidableEq, Repr

/-- The value of a numeric column. -/
def Row.column (r : Row) : Column → Option ℤ
  | .timeblock => some r.timeblock
  | .timestamp => some r.time.1
  | .cellid => r.cellid
  | .mmsi => r.mmsi
  | .aisdataDigest => none
  | .aisdata => none

def Clause.holds (r : Row) : Clause → Bool
  | .eq column value => r.column column = some value
  | .inList column values => (r.column column).any (· ∈ values)
  | .gt column value => (r.column column).any (value < ·)
  | .lt column value => (r.column column).any (· < value)

/-- The rows of a store a statement selects. -/
def Select.matching (select : Select) (store : Store) : List Row :=
  (store select.table).rows.filter fun r => select.whereClauses.all (Clause.holds r)

/-- The columns `time` and `aisdata` of a row, which are what every query
of the program asks for. -/
structure ResultRow where
  time : Long
  aisdata : String
  deriving DecidableEq

def Row.selected (r : Row) : ResultRow := ⟨r.time, r.aisdata⟩

/-- `session.executeAsync(select).getUninterruptibly()`. -/
abbrev Session := Select → Paged ResultRow

/-- The values of the `IN` condition on the time block. -/
def Select.timeblocks (select : Select) : List ℤ :=
  (select.whereClauses.findSome? fun
    | .inList .timeblock values => some values
    | _ => none).getD []

/-- The columns that decide which partition of its table a row is in. -/
def Row.partitionKey (table : Table) (r : Row) : Option ℤ × ℤ :=
  match table with
  | .packetsTime => (none, r.timeblock)
  | .packetsMmsi => (r.mmsi, r.timeblock)
  | .packetsAreaCell1 => (r.cellid, r.timeblock)
  | .packetsAreaCell10 => (r.cellid, r.timeblock)
  | .packetsAreaUnknown => (r.mmsi, r.timeblock)

/-- Row `a` may come before row `b` in the result of a statement. -/
def Select.InOrder (select : Select) (a b : Row) : Prop :=
  select.timeblocks.idxOf a.timeblock ≤ select.timeblocks.idxOf b.timeblock ∧
    (a.partitionKey select.table = b.partitionKey select.table → a.time.1 ≤ b.time.1)

/-- The session returns every matching row once, in some order. -/
def Session.EvaluatesWhere (session : Session) (store : Store) : Prop :=
  ∀ select, (session select).rows.Perm ((select.matching store).map Row.selected)

/-- The session returns every matching row once, partition by partition. -/
def Session.ReturnsInOrder (session : Session) (store : Store) : Prop :=
  ∀ select, ∃ rows : List Row, (session select).rows = rows.map Row.selected ∧
    rows.Perm (select.matching store) ∧ rows.Pairwise select.InOrder

theorem Session.ReturnsInOrder.evaluatesWhere {session : Session} {store : Store}
    (h : session.ReturnsInOrder store) : session.EvaluatesWhere store := by
  intro select
  obtain ⟨rows, hrows, hperm, -⟩ := h select
  rw [hrows]
  exact hperm.map Row.selected

/-! ### A session over a store

What the partition order sorts by: the place of a row's block in the `IN`
list, then its time. -/

def Select.sortKey (select : Select) (r : Row) : ℕ ×ₗ ℤ :=
  toLex (select.timeblocks.idxOf r.timeblock, r.time.1)

/-- The page size of a statement that sets none. -/
def defaultFetchSize : ℕ := 5000

def Session.ofStore (store : Store) : Session := fun select =>
  Paged.ofRows (if 0 < select.fetchSize then select.fetchSize.toNat else defaultFetchSize)
    (((select.matching store).insertionSort fun a b => select.sortKey a ≤ select.sortKey b).map
      Row.selected)

theorem Row.timeblock_eq_of_partitionKey {table : Table} {a b : Row}
    (h : a.partitionKey table = b.partitionKey table) : a.timeblock = b.timeblock := by
  cases table <;> exact congrArg Prod.snd h

theorem Select.inOrder_of_sortKey {select : Select} {a b : Row}
    (h : select.sortKey a ≤ select.sortKey b) : select.InOrder a b := by
  rcases Prod.Lex.toLex_le_toLex.mp h with hlt | ⟨heq, hle⟩
  · refine ⟨hlt.le, ?_⟩
    intro hkey
    rw [Row.timeblock_eq_of_partitionKey hkey] at hlt
    exact absurd hlt (lt_irrefl _)
  · exact ⟨heq.le, fun _ => hle⟩

theorem Session.returnsInOrder_ofStore (store : Store) :
    (Session.ofStore store).ReturnsInOrder store := by
  intro select
  let r := fun a b => select.sortKey a ≤ select.sortKey b
  have htotal : Std.Total r := ⟨fun a b => le_total (select.sortKey a) (select.sortKey b)⟩
  have htrans : IsTrans Row r := ⟨fun _ _ _ hab hbc => le_trans hab hbc⟩
  refine ⟨(select.matching store).insertionSort r, Paged.rows_ofRows .., ?_, ?_⟩
  · exact List.perm_insertionSort r _
  · exact (List.pairwise_insertionSort r _).imp Select.inOrder_of_sortKey

end AisStore
