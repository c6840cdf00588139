import AisStore.Lib.JsString

/-!
Where a word can be found in a list put together from others.

The word is searched for as a contiguous part. A separator that is not in it
keeps the parts of the list apart (`infix_append_cons_iff`), so that the word
is in a list of pieces only if it is in one of them, and rewriting every
element that is not in the word to others that are not changes nothing
(`infix_flatMap_iff`).
-/

namespace AisStore.Lib

variable {α : Type} {w : List α}

/-- An element that is missing decides it. -/
theorem not_infix_of_not_mem {a : α} {s : List α} (hw : a ∈ w) (hs : a ∉ s) : ¬ w <:+: s := by
  intro h
  exact hs (h.subset hw)

/-! ### Separators -/

theorem prefix_append_cons_iff {c : α} {a b : List α} (hc : c ∉ w) :
    w <+: a ++ c :: b ↔ w <+: a := by
  induction a generalizing w with
  | nil =>
      rw [List.nil_append, List.prefix_cons_iff, List.prefix_nil]
      constructor
      · rintro (rfl | ⟨t, rfl, -⟩)
        · rfl
        · simp at hc
      · exact .inl
  | cons x a ih =>
      rw [List.cons_append, List.prefix_cons_iff, List.prefix_cons_iff]
      constructor
      · rintro (rfl | ⟨t, rfl, ht⟩)
        · exact .inl rfl
        · exact .inr ⟨t, rfl, (ih fun hmem => hc (List.mem_cons_of_mem x hmem)).mp ht⟩
      · rintro (rfl | ⟨t, rfl, ht⟩)
        · exact .inl rfl
        · exact .inr ⟨t, rfl, (ih fun hmem => hc (List.mem_cons_of_mem x hmem)).mpr ht⟩

/-- A separator keeps apart what is left and right of it. -/
theorem infix_append_cons_iff {c : α} {a b : List α} (hc : c ∉ w) :
    w <:+: a ++ c :: b ↔ w <:+: a ∨ w <:+: b := by
  induction a with
  | nil =>
      have hnil := prefix_append_cons_iff (a := []) (b := b) hc
      rw [List.nil_append] at hnil
      rw [List.nil_append, List.infix_cons_iff, hnil, List.prefix_nil, List.infix_nil]
  | cons x a ih =>
      have hcons := prefix_append_cons_iff (a := x :: a) (b := b) hc
      rw [List.cons_append] at hcons
      rw [List.cons_append, List.infix_cons_iff, List.infix_cons_iff, ih, hcons, or_assoc]

/-- Elements in front that are not the first of the word do not matter. -/
theorem infix_append_of_head_not_mem {c : α} {a s : List α} (hc : c ∉ a) :
    c :: w <:+: a ++ s ↔ c :: w <:+: s := by
  induction a with
  | nil => rfl
  | cons x a ih =>
      rw [List.mem_cons, not_or] at hc
      have hnot : ¬ c :: w <+: x :: (a ++ s) := fun h => hc.1 (List.cons_prefix_cons.mp h).1
      rw [List.cons_append, List.infix_cons_iff, or_iff_right hnot, ih hc.2]

theorem infix_append_of_disjoint {a s : List α} (ha : ∀ x ∈ a, x ∉ w) (hne : w ≠ []) :
    w <:+: a ++ s ↔ w <:+: s := by
  obtain ⟨c, w, rfl⟩ := List.exists_cons_of_ne_nil hne
  apply infix_append_of_head_not_mem
  intro hc
  exact ha c hc (by simp)

/-- A word is among pieces that each have a separator in front of them only
if one of the pieces has it. -/
theorem infix_append_flatMap_cons_iff {c : α} {a : List α} {parts : List (List α)} (hc : c ∉ w) :
    w <:+: a ++ parts.flatMap (c :: ·) ↔ w <:+: a ∨ ∃ x ∈ parts, w <:+: x := by
  induction parts generalizing a with
  | nil => simp
  | cons x parts ih =>
      rw [List.flatMap_cons, List.cons_append, infix_append_cons_iff hc, ih]
      simp

/-- A word is in pieces joined by something that has nothing of it only if it
is in one of the pieces. -/
theorem infix_intercalate_iff {sep : List α} {parts : List (List α)} (hsep : sep ≠ [])
    (hdisjoint : ∀ x ∈ sep, x ∉ w) (hne : w ≠ []) :
    w <:+: sep.intercalate parts ↔ ∃ x ∈ parts, w <:+: x := by
  obtain ⟨c, sep, rfl⟩ := List.exists_cons_of_ne_nil hsep
  induction parts with
  | nil => simp [hne]
  | cons x parts ih =>
      cases parts with
      | nil => simp
      | cons y parts =>
          rw [List.intercalate_cons_cons, List.append_assoc, List.cons_append,
            infix_append_cons_iff (hdisjoint c (by simp)),
            infix_append_of_disjoint (fun z hz => hdisjoint z (List.mem_cons_of_mem c hz)) hne, ih]
          simp

theorem infix_splitOn_iff [BEq α] [LawfulBEq α] {c : α} {s : List α} (hc : c ∉ w) (hne : w ≠ []) :
    (∃ x ∈ s.splitOn c, w <:+: x) ↔ w <:+: s := by
  rw [← infix_intercalate_iff (List.cons_ne_nil c []) (by simpa using hc) hne,
    List.intercalate_splitOn]

/-! ### Rewriting -/

/-- An element stays what it is, or it is not in the word and becomes
something that is not either. -/
def Rewrites (f : α → List α) (w : List α) : Prop :=
  ∀ x, f x = [x] ∨ (x ∉ w ∧ f x ≠ [] ∧ ∀ y ∈ f x, y ∉ w)

theorem prefix_flatMap_iff {f : α → List α} {s : List α} (hf : Rewrites f w) :
    w <+: s.flatMap f ↔ w <+: s := by
  induction s generalizing w with
  | nil => simp
  | cons x s ih =>
      cases w with
      | nil => simp
      | cons a w =>
          have hw : Rewrites f w := by
            intro y
            rcases hf y with h | ⟨hmem, hne, hall⟩
            · exact .inl h
            · refine .inr ⟨fun h => hmem (List.mem_cons_of_mem a h), hne, ?_⟩
              exact fun z hz h => hall z hz (List.mem_cons_of_mem a h)
          rcases hf x with h | ⟨hmem, hne, hall⟩
          · rw [List.flatMap_cons, h, List.singleton_append, List.cons_prefix_cons,
              List.cons_prefix_cons, ih hw]
          · obtain ⟨y, ys, hy⟩ := List.exists_cons_of_ne_nil hne
            have hay : a ≠ y := by
              rintro rfl
              exact hall a (by simp [hy]) (by simp)
            have hax : a ≠ x := by
              rintro rfl
              simp at hmem
            rw [List.flatMap_cons, hy, List.cons_append, List.cons_prefix_cons,
              List.cons_prefix_cons]
            simp [hay, hax]

theorem infix_flatMap_iff {f : α → List α} {s : List α} (hf : Rewrites f w) (hne : w ≠ []) :
    w <:+: s.flatMap f ↔ w <:+: s := by
  induction s with
  | nil => simp
  | cons x s ih =>
      rcases hf x with h | ⟨hmem, -, hall⟩
      · have hx := prefix_flatMap_iff (s := x :: s) hf
        rw [List.flatMap_cons, h, List.singleton_append] at hx ⊢
        rw [List.infix_cons_iff, List.infix_cons_iff, hx, ih]
      · have hx := infix_append_of_disjoint (a := [x]) (s := s) (w := w) (by simpa using hmem) hne
        rw [List.flatMap_cons, infix_append_of_disjoint hall hne, ih]
        exact hx.symm

/-! ### Trimming -/

theorem infix_dropWhile_iff {p : α → Bool} {s : List α} (hw : ∀ c ∈ w, p c = false)
    (hne : w ≠ []) : w <:+: s.dropWhile p ↔ w <:+: s := by
  have hdisjoint : ∀ c ∈ s.takeWhile p, c ∉ w := by
    intro c hc hmem
    have := List.mem_takeWhile_imp hc
    simp [hw c hmem] at this
  rw [← infix_append_of_disjoint hdisjoint hne, List.takeWhile_append_dropWhile]

/-- A word without white space is found in a string as in what is left of it. -/
theorem infix_trim_iff {w s : JsString} (hw : ∀ c ∈ w, isWhiteSpace c = false) (hne : w ≠ []) :
    w <:+: s.trim ↔ w <:+: s := by
  have hend : w <:+: s.trim ↔ w.reverse <:+: s.trimStart.reverse.dropWhile isWhiteSpace := by
    rw [← List.reverse_infix]
    simp [JsString.trim, JsString.trimEnd, List.rdropWhile]
  rw [hend, infix_dropWhile_iff (by simpa using hw) (by simpa using hne), List.reverse_infix]
  exact infix_dropWhile_iff hw hne

/-! ### Beginnings of pieces -/

/-- A piece between separators begins with a word if the whole does, or if a
separator stands in front of the word somewhere. -/
theorem prefix_piece_iff {c : α} {parts : List (List α)} (hc : c ∉ w)
    (hparts : ∀ x ∈ parts, c ∉ x) (hne : parts ≠ []) :
    (∃ x ∈ parts, w <+: x) ↔
      w <+: [c].intercalate parts ∨ c :: w <:+: [c].intercalate parts := by
  induction parts with
  | nil => exact absurd rfl hne
  | cons x parts ih =>
      have hx : ¬ c :: w <:+: x := not_infix_of_not_mem (by simp) (hparts x (by simp))
      cases parts with
      | nil => simp [hx]
      | cons y parts =>
          have hrest := ih (fun z hz => hparts z (List.mem_cons_of_mem x hz)) (by simp)
          rw [List.intercalate_cons_cons, List.append_assoc, List.singleton_append,
            prefix_append_cons_iff hc, infix_append_of_head_not_mem (hparts x (by simp)),
            List.infix_cons_iff, List.cons_prefix_cons, and_iff_right rfl, ← hrest]
          simp

theorem prefix_splitOn_iff {c : Char} {w s : JsString} (hc : c ∉ w) :
    (∃ x ∈ s.splitOn c, w <+: x) ↔ w <+: s ∨ c :: w <:+: s := by
  have h := prefix_piece_iff hc (fun x hx => JsString.not_mem_of_mem_splitOn hx)
    (List.splitOn_ne_nil c s)
  rwa [List.intercalate_splitOn] at h

end AisStore.Lib
