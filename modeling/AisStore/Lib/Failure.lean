import Mathlib.Data.Int.Notation
import Mathlib.Data.List.Basic

/-!
Calls that may end without a value.

A Java method returns, throws an unchecked exception, or does neither. The
first is `Except.ok`; `Failure` collects the other two, an exception with
its message and a loop that is never left.
-/

namespace AisStore.Lib

inductive Failure where
  | illegalArgument (message : String)
  | arithmetic (message : String)
  | dateTime (message : String)
  | nullPointer
  | negativeArraySize (size : ℤ)
  | arrayIndexOutOfBounds (index : ℤ)
  | noReturn
  deriving DecidableEq, Repr

/-- The call returned a value. -/
def Returns {α : Type} (r : Except Failure α) : Prop := ∃ a, r = .ok a

/-- A value that must not be null. -/
def requireNonNull {α : Type} : Option α → Except Failure α
  | none => .error .nullPointer
  | some a => .ok a

/-- Peeling one call off a computation that returned. -/
theorem bind_eq_ok {α β : Type} {x : Except Failure α} {f : α → Except Failure β} {b : β} :
    (x >>= f) = .ok b ↔ ∃ a, x = .ok a ∧ f a = .ok b := by
  cases x <;> simp [bind, Except.bind]

/-- A call on each element, none of which fails. -/
theorem mapM_eq_ok_map {α β : Type} {f : α → Except Failure β} {g : α → β} {xs : List α}
    (h : ∀ x ∈ xs, f x = .ok (g x)) : xs.mapM f = .ok (xs.map g) := by
  induction xs with
  | nil => rfl
  | cons x xs ih =>
      have hx := h x (List.mem_cons_self ..)
      have hxs := ih fun y hy => h y (List.mem_cons_of_mem x hy)
      rw [List.mapM_cons, hx, hxs]
      rfl

/-- A call on each element returns only if each of the calls does. -/
theorem returns_of_returns_mapM {α β : Type} {f : α → Except Failure β} {xs : List α}
    (h : Returns (xs.mapM f)) : ∀ x ∈ xs, Returns (f x) := by
  induction xs with
  | nil => exact fun _ hx => nomatch hx
  | cons x xs ih =>
      obtain ⟨ys, hys⟩ := h
      rw [List.mapM_cons] at hys
      obtain ⟨y, hy, hrest⟩ := bind_eq_ok.mp hys
      obtain ⟨zs, hzs, -⟩ := bind_eq_ok.mp hrest
      intro z hz
      rcases List.mem_cons.mp hz with rfl | hz
      · exact ⟨y, hy⟩
      · exact ih ⟨zs, hzs⟩ z hz

/-- Each result of a call on every element comes from one of the elements. -/
theorem mem_of_mapM_eq_ok {α β : Type} {f : α → Except Failure β} {xs : List α} {ys : List β}
    (h : xs.mapM f = .ok ys) {y : β} (hy : y ∈ ys) : ∃ x ∈ xs, f x = .ok y := by
  induction xs generalizing ys with
  | nil =>
      cases h
      cases hy
  | cons x xs ih =>
      rw [List.mapM_cons] at h
      obtain ⟨z, hz, hrest⟩ := bind_eq_ok.mp h
      obtain ⟨zs, hzs, hys⟩ := bind_eq_ok.mp hrest
      cases hys
      rcases List.mem_cons.mp hy with rfl | hy
      · exact ⟨x, List.mem_cons_self .., hz⟩
      · obtain ⟨w, hw, hfw⟩ := ih hzs hy
        exact ⟨w, List.mem_cons_of_mem x hw, hfw⟩

end AisStore.Lib
