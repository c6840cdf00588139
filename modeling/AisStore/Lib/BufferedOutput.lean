import Mathlib.Data.List.Infix
import Mathlib.Data.List.Induction

/-!
`java.io.BufferedOutputStream`.

Bytes wait in a buffer until it runs full or is flushed. A piece that is at
least as long as the buffer goes to the file directly, behind what was
waiting; a piece that does not fit into the room left pushes out what was
waiting and waits in its place.

A property of bytes that is true of all of a piece is found in the buffer
afterwards exactly if the piece was too short to go through, so what the
buffer holds can be told from the last piece alone (`holds_writes`).
-/

namespace AisStore.Lib

structure BufferedOutput (β : Type) (capacity : ℕ) where
  file : List β
  buffer : List β
  fits : buffer.length ≤ capacity

namespace BufferedOutput

variable {β : Type} {capacity : ℕ}

/-- A new stream over a file. -/
def open_ (file : List β) : BufferedOutput β capacity := ⟨file, [], Nat.zero_le _⟩

def flush (o : BufferedOutput β capacity) : BufferedOutput β capacity :=
  ⟨o.file ++ o.buffer, [], Nat.zero_le _⟩

/-- One `write`. -/
def write (o : BufferedOutput β capacity) (piece : List β) : BufferedOutput β capacity :=
  if hlong : capacity ≤ piece.length then ⟨o.file ++ o.buffer ++ piece, [], Nat.zero_le _⟩
  else if hroom : piece.length > capacity - o.buffer.length then
    ⟨o.file ++ o.buffer, piece, by omega⟩
  else ⟨o.file, o.buffer ++ piece, by have := o.fits; rw [List.length_append]; omega⟩

/-- Several, one after the other. -/
def writes (o : BufferedOutput β capacity) (pieces : List (List β)) : BufferedOutput β capacity :=
  pieces.foldl write o

/-- Everything written so far. -/
def contents (o : BufferedOutput β capacity) : List β := o.file ++ o.buffer

@[simp] theorem contents_open (file : List β) :
    (open_ file : BufferedOutput β capacity).contents = file := List.append_nil _

@[simp] theorem contents_flush (o : BufferedOutput β capacity) : o.flush.contents = o.contents :=
  List.append_nil _

@[simp] theorem contents_write (o : BufferedOutput β capacity) (piece : List β) :
    (o.write piece).contents = o.contents ++ piece := by
  simp only [write]
  split_ifs with hlong hroom
  · exact List.append_nil _
  · rfl
  · exact (List.append_assoc _ _ _).symm

@[simp] theorem contents_writes (o : BufferedOutput β capacity) (pieces : List (List β)) :
    (o.writes pieces).contents = o.contents ++ pieces.flatten := by
  induction pieces generalizing o with
  | nil => exact (List.append_nil _).symm
  | cons piece pieces ih =>
      have hcons : o.writes (piece :: pieces) = (o.write piece).writes pieces := rfl
      rw [hcons, ih, contents_write, List.flatten_cons, List.append_assoc]

/-- What is in the file stays there. -/
theorem file_prefix_flush (o : BufferedOutput β capacity) : o.file <+: o.flush.file :=
  List.prefix_append _ _

theorem file_prefix_write (o : BufferedOutput β capacity) (piece : List β) :
    o.file <+: (o.write piece).file := by
  simp only [write]
  split_ifs with hlong hroom
  · rw [List.append_assoc]
    exact List.prefix_append _ _
  · exact List.prefix_append _ _
  · exact List.prefix_rfl

theorem file_prefix_writes (o : BufferedOutput β capacity) (pieces : List (List β)) :
    o.file <+: (o.writes pieces).file := by
  induction pieces generalizing o with
  | nil => exact List.prefix_rfl
  | cons piece pieces ih => exact (o.file_prefix_write piece).trans (ih (o.write piece))

/-! ### What the buffer holds -/

/-- Some byte in the buffer has the property. -/
def Holds (P : β → Prop) (o : BufferedOutput β capacity) : Prop := ∃ b ∈ o.buffer, P b

theorem not_holds_flush (P : β → Prop) (o : BufferedOutput β capacity) : ¬ o.flush.Holds P := by
  rintro ⟨b, hb, -⟩
  cases hb

/-- Bytes without the property bring none into the buffer. -/
theorem holds_of_holds_write {P : β → Prop} {o : BufferedOutput β capacity} {piece : List β}
    (hpiece : ∀ b ∈ piece, ¬ P b) (h : (o.write piece).Holds P) : o.Holds P := by
  obtain ⟨b, hb, hP⟩ := h
  simp only [write] at hb
  split_ifs at hb with hlong hroom
  · cases hb
  · exact absurd hP (hpiece b hb)
  · rcases List.mem_append.mp hb with hb | hb
    · exact ⟨b, hb, hP⟩
    · exact absurd hP (hpiece b hb)

theorem holds_write {P : β → Prop} (o : BufferedOutput β capacity) {piece : List β}
    (hne : piece ≠ []) (hpiece : ∀ b ∈ piece, P b) :
    (o.write piece).Holds P ↔ piece.length < capacity := by
  obtain ⟨b, hb⟩ := List.exists_mem_of_ne_nil piece hne
  simp only [write]
  split_ifs with hlong hroom
  · constructor
    · rintro ⟨b, hb, -⟩
      cases hb
    · intro h
      omega
  · exact iff_of_true ⟨b, hb, hpiece b hb⟩ (by omega)
  · exact iff_of_true ⟨b, List.mem_append_right _ hb, hpiece b hb⟩ (by omega)

theorem write_nil (o : BufferedOutput β capacity) (hcapacity : 0 < capacity) :
    o.write [] = o := by
  have hroom : ¬ ([] : List β).length > capacity - o.buffer.length := Nat.not_lt_zero _
  have hlong : ¬ capacity ≤ ([] : List β).length := Nat.not_le.mpr hcapacity
  simp only [write, dif_neg hlong, dif_neg hroom, List.append_nil]

/-- The last piece that is not empty. -/
def lastNonempty (pieces : List (List β)) : Option (List β) :=
  (pieces.filter fun piece => !piece.isEmpty).getLast?

theorem lastNonempty_concat_nil (pieces : List (List β)) :
    lastNonempty (pieces ++ [[]]) = lastNonempty pieces := by
  simp [lastNonempty, List.filter_append]

theorem lastNonempty_concat_cons (pieces : List (List β)) (b : β) (bs : List β) :
    lastNonempty (pieces ++ [b :: bs]) = some (b :: bs) := by
  simp [lastNonempty, List.filter_append]

/-- It decides what the buffer holds. -/
theorem holds_writes {P : β → Prop} (o : BufferedOutput β capacity) (hcapacity : 0 < capacity)
    {pieces : List (List β)} (hpieces : ∀ piece ∈ pieces, ∀ b ∈ piece, P b) :
    (o.writes pieces).Holds P ↔
      match lastNonempty pieces with
      | none => o.Holds P
      | some piece => piece.length < capacity := by
  induction pieces using List.reverseRecOn with
  | nil => rfl
  | append_singleton pieces piece ih =>
      have hconcat : o.writes (pieces ++ [piece]) = (o.writes pieces).write piece := by
        rw [writes, List.foldl_append]
        rfl
      have hbefore := ih fun piece' h => hpieces piece' (List.mem_append_left _ h)
      have hpiece := hpieces piece (List.mem_append_right _ (List.mem_singleton.mpr rfl))
      rw [hconcat]
      cases piece with
      | nil =>
          rw [write_nil _ hcapacity, lastNonempty_concat_nil]
          exact hbefore
      | cons b bs =>
          rw [lastNonempty_concat_cons]
          exact holds_write _ (List.cons_ne_nil b bs) hpiece

end BufferedOutput

end AisStore.Lib
