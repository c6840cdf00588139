import Mathlib.Data.List.Basic

/-!
A result that a client receives page by page.

Some rows are at hand and the rest are in pages the client has yet to
fetch, any of which may be empty. Fetching moves rows from one place to the
other and never changes their order, so `rows`, what is left of the result,
is the only thing about a paged result that a proof has to follow: a fetch
keeps it, and taking a row removes its head.
-/

namespace AisStore.Lib

structure Paged (α : Type) where
  available : List α
  pages : List (List α)

namespace Paged

variable {α : Type}

/-- What is left of the result. -/
def rows (r : Paged α) : List α := r.available ++ r.pages.flatten

def isFullyFetched (r : Paged α) : Bool := r.pages.isEmpty

/-- Fetch the next page, if there is one. -/
def fetchMoreResults (r : Paged α) : Paged α :=
  match r.pages with
  | [] => r
  | page :: pages => ⟨r.available ++ page, pages⟩

/-- Fetch pages until a row is at hand or none is left. -/
def prepareNext (available : List α) : List (List α) → Paged α
  | [] => ⟨available, []⟩
  | page :: pages =>
      match available with
      | [] => prepareNext page pages
      | row :: rest => ⟨row :: rest, page :: pages⟩

@[simp] theorem rows_fetchMoreResults (r : Paged α) : r.fetchMoreResults.rows = r.rows := by
  obtain ⟨available, pages⟩ := r
  cases pages with
  | nil => rfl
  | cons page pages => simp [fetchMoreResults, rows]

@[simp] theorem rows_prepareNext (available : List α) (pages : List (List α)) :
    (prepareNext available pages).rows = available ++ pages.flatten := by
  induction pages generalizing available with
  | nil => rfl
  | cons page pages ih =>
      cases available with
      | nil => simpa [prepareNext] using ih page
      | cons row rest => rfl

/-- With no row at hand there is no page left to fetch either. -/
theorem pages_prepareNext {available : List α} {pages : List (List α)}
    (h : (prepareNext available pages).available = []) :
    (prepareNext available pages).pages = [] := by
  induction pages generalizing available with
  | nil => rfl
  | cons page pages ih =>
      cases available with
      | nil => exact ih h
      | cons row rest => cases h

/-- `rows` cut into a first page and further pages of `n` rows each; the
last page takes whatever is left after `count` of them. -/
def cut (n : ℕ) : ℕ → List α → List (List α)
  | 0, rest => [rest]
  | count + 1, rest => rest.take n :: cut n count (rest.drop n)

def ofRows (n : ℕ) (rows : List α) : Paged α where
  available := rows.take n
  pages := cut n (rows.length / n) (rows.drop n)

theorem flatten_cut (n count : ℕ) (rows : List α) : (cut n count rows).flatten = rows := by
  induction count generalizing rows with
  | zero => simp [cut]
  | succ count ih =>
      rw [cut, List.flatten_cons, ih]
      exact List.take_append_drop n rows

@[simp] theorem rows_ofRows (n : ℕ) (rows : List α) : (ofRows n rows).rows = rows := by
  show rows.take n ++ (cut n (rows.length / n) (rows.drop n)).flatten = rows
  rw [flatten_cut]
  exact List.take_append_drop n rows

end Paged

end AisStore.Lib
