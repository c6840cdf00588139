import Mathlib.Data.List.DropRight
import Mathlib.Data.List.Infix

/-!
JavaScript strings, as their characters.

`trim` takes off what the language counts as white space, which is more than
the blank: the no-break space and the byte order mark among it. Splitting at
one character is `List.splitOn`, with the number of pieces one more than
that of the separators.
-/

namespace AisStore.Lib

/-- A string without unpaired surrogates. -/
abbrev JsString := List Char

/-- What is asked of the characters of a string is decided for these, not for
all characters. -/
instance (priority := 2000) (s : JsString) (p : Char → Prop) [DecidablePred p] :
    Decidable (∀ c ∈ s, p c) := List.decidableBAll p s

instance (priority := 2000) (s : JsString) (p : Char → Prop) [DecidablePred p] :
    Decidable (∃ c ∈ s, p c) := List.decidableBEx p s

/-- `WhiteSpace` and `LineTerminator`. -/
def isWhiteSpace (c : Char) : Bool :=
  c.toNat ∈ [0x09, 0x0A, 0x0B, 0x0C, 0x0D, 0x20, 0xA0, 0x1680, 0x2028, 0x2029, 0x202F, 0x205F,
    0x3000, 0xFEFF] || (0x2000 ≤ c.toNat && c.toNat ≤ 0x200A)

/-- The value of a hexadecimal digit. -/
def hexValue (c : Char) : Option ℕ :=
  if '0' ≤ c ∧ c ≤ '9' then some (c.toNat - 48)
  else if 'A' ≤ c ∧ c ≤ 'F' then some (c.toNat - 55)
  else if 'a' ≤ c ∧ c ≤ 'f' then some (c.toNat - 87)
  else none

namespace JsString

def trimStart (s : JsString) : JsString := s.dropWhile isWhiteSpace

def trimEnd (s : JsString) : JsString := s.rdropWhile isWhiteSpace

def trim (s : JsString) : JsString := trimEnd (trimStart s)

/-- The upper-case form of a character, for what it can be told apart by
below: the two characters outside ASCII that have an ASCII letter for it
are the long `s` and the dotless `i`. -/
def upperChar (c : Char) : Char :=
  if c = 'ſ' then 'S' else if c = 'ı' then 'I' else c.toUpper

def toUpperCase (s : JsString) : JsString := s.map upperChar

theorem trimStart_of_head {s : JsString} (h : ∀ c ∈ s.head?, isWhiteSpace c = false) :
    trimStart s = s := by
  cases s with
  | nil => rfl
  | cons c s => exact List.dropWhile_cons_of_neg (by simp [h c rfl])

/-- Nothing is taken off between two characters that are no white space. -/
theorem trim_between {c d : Char} (s : JsString) (hc : isWhiteSpace c = false)
    (hd : isWhiteSpace d = false) : trim (c :: (s ++ [d])) = c :: (s ++ [d]) := by
  have hstart : trimStart (c :: (s ++ [d])) = c :: (s ++ [d]) := by
    apply trimStart_of_head
    rintro e ⟨⟩
    exact hc
  rw [trim, hstart, trimEnd, ← List.cons_append, List.rdropWhile_concat_neg]
  simp [hd]

theorem trim_singleton (c : Char) : trim [c] = if isWhiteSpace c then [] else [c] := by
  cases hc : isWhiteSpace c with
  | true => simp [trim, trimStart, trimEnd, hc]
  | false => simp [trim, trimStart, trimEnd, List.rdropWhile_singleton, hc]

/-- What is left of a string does not begin with white space. -/
theorem isWhiteSpace_of_trim_eq_cons {c : Char} {s rest : JsString} (h : trim s = c :: rest) :
    isWhiteSpace c = false := by
  have hunder : c :: rest <+: trimStart s := h ▸ List.rdropWhile_prefix _ _
  obtain ⟨more, hmore⟩ := hunder
  have hhead := List.head?_dropWhile_not isWhiteSpace s
  rw [trimStart] at hmore
  rw [← hmore] at hhead
  simpa using hhead

theorem mem_of_mem_trim {c : Char} {s : JsString} (h : c ∈ trim s) : c ∈ s :=
  (List.dropWhile_suffix _).mem ((List.rdropWhile_prefix _ _).mem h)

/-- What is left of a string is left of a longer one. -/
theorem mem_trim_concat {c d : Char} {s : JsString} (h : c ∈ trim s) : c ∈ trim (s ++ [d]) := by
  have hne : s.dropWhile isWhiteSpace ≠ [] := by
    intro hnil
    simp [trim, trimStart, trimEnd, hnil] at h
  have hstart : trimStart (s ++ [d]) = trimStart s ++ [d] := by
    rw [trimStart, List.dropWhile_append, if_neg (by simpa using hne)]
    rfl
  rw [trim, hstart, trimEnd, List.rdropWhile_concat]
  split
  · exact h
  · exact List.mem_append_left _ ((List.rdropWhile_prefix _ _).mem h)

/-- White space is no digit of any kind. -/
theorem hexValue_of_isWhiteSpace {c : Char} (h : isWhiteSpace c = true) : hexValue c = none := by
  simp only [isWhiteSpace, List.mem_cons, List.not_mem_nil, Bool.or_eq_true, Bool.and_eq_true,
    decide_eq_true_eq, or_false] at h
  have hrange : ∀ m n : Char, n.toNat < c.toNat ∨ c.toNat < m.toNat → ¬ (m ≤ c ∧ c ≤ n) := by
    intro m n hout hin
    have hm : m.toNat ≤ c.toNat := hin.1
    have hn : c.toNat ≤ n.toNat := hin.2
    omega
  have hzero : '0'.toNat = 48 ∧ '9'.toNat = 57 ∧ 'A'.toNat = 65 ∧ 'F'.toNat = 70 ∧
      'a'.toNat = 97 ∧ 'f'.toNat = 102 := by decide
  rw [hexValue, if_neg (hrange '0' '9' (by omega)), if_neg (hrange 'A' 'F' (by omega)),
    if_neg (hrange 'a' 'f' (by omega))]

/-- White space is in no alphabet. -/
theorem upperChar_of_isWhiteSpace {c : Char} (h : isWhiteSpace c = true) : upperChar c = c := by
  have hval : c.toNat ≠ 0x17F ∧ c.toNat ≠ 0x131 ∧ ¬ (97 ≤ c.toNat ∧ c.toNat ≤ 122) := by
    simp only [isWhiteSpace, List.mem_cons, List.not_mem_nil, Bool.or_eq_true, Bool.and_eq_true,
      decide_eq_true_eq, or_false] at h
    omega
  have hlong : c ≠ 'ſ' := by
    rintro rfl
    exact hval.1 rfl
  have hdotless : c ≠ 'ı' := by
    rintro rfl
    exact hval.2.1 rfl
  rw [upperChar, if_neg hlong, if_neg hdotless]
  exact dif_neg hval.2.2

/-- No piece has a separator in it. -/
theorem of_mem_splitOnP {p : Char → Bool} {s piece : JsString} (h : piece ∈ s.splitOnP p) :
    ∀ c ∈ piece, p c = false := by
  induction s generalizing piece with
  | nil =>
      rw [List.splitOnP_nil, List.mem_singleton] at h
      simp [h]
  | cons d s ih =>
      rw [List.splitOnP_cons_eq_if_modifyHead] at h
      split at h
      · rcases List.mem_cons.mp h with rfl | h
        · simp
        · exact ih h
      next hd =>
        obtain ⟨first, others, hs⟩ := List.exists_cons_of_ne_nil (List.splitOnP_ne_nil p s)
        rw [hs, List.modifyHead_cons] at h
        rcases List.mem_cons.mp h with rfl | h
        · have hfirst : ∀ c ∈ first, p c = false := ih (by simp [hs])
          exact List.forall_mem_cons.mpr ⟨by simpa using hd, hfirst⟩
        · exact ih (by simp [hs, h])

theorem not_mem_of_mem_splitOn {c : Char} {s piece : JsString} (h : piece ∈ s.splitOn c) :
    c ∉ piece := by
  rw [List.splitOn_eq_splitOnP] at h
  intro hc
  simpa using of_mem_splitOnP h c hc

/-- Text without a separator in front goes with the first piece. -/
theorem splitOn_append_of_not_mem {c : Char} {s : JsString} (h : c ∉ s) (t : JsString) :
    (s ++ t).splitOn c = (t.splitOn c).modifyHead (s ++ ·) := by
  obtain ⟨first, others, ht⟩ := List.exists_cons_of_ne_nil (List.splitOn_ne_nil c t)
  rw [ht, List.modifyHead_cons]
  induction s with
  | nil => simpa using ht
  | cons d s ih =>
      rw [List.mem_cons, not_or] at h
      rw [List.cons_append, List.splitOn_cons_eq_if_modifyHead, if_neg (by simpa using Ne.symm h.1),
        ih h.2]
      rfl

/-- The first piece is all there is, or a separator comes after it. -/
theorem first_of_splitOnP {p : Char → Bool} {s first : JsString} {others : List JsString}
    (h : s.splitOnP p = first :: others) :
    first = s ∨ ∃ c rest, s = first ++ c :: rest ∧ p c = true := by
  induction s generalizing first others with
  | nil =>
      rw [List.splitOnP_nil, List.cons.injEq] at h
      exact .inl h.1.symm
  | cons d s ih =>
      rw [List.splitOnP_cons_eq_if_modifyHead] at h
      split at h
      next hd =>
        cases h
        exact .inr ⟨d, s, rfl, hd⟩
      · obtain ⟨second, rest, hs⟩ := List.exists_cons_of_ne_nil (List.splitOnP_ne_nil p s)
        rw [hs, List.modifyHead_cons] at h
        cases h
        rcases ih hs with rfl | ⟨c, rest, rfl, hc⟩
        · exact .inl rfl
        · exact .inr ⟨c, rest, rfl, hc⟩

theorem first_of_splitOn {c : Char} {s first : JsString} {others : List JsString}
    (h : s.splitOn c = first :: others) : first = s ∨ ∃ rest, s = first ++ c :: rest := by
  rw [List.splitOn_eq_splitOnP] at h
  rcases first_of_splitOnP h with hs | ⟨d, rest, hs, hd⟩
  · exact .inl hs
  · rw [beq_iff_eq] at hd
    exact .inr ⟨rest, hd ▸ hs⟩

/-- Two pieces are what stands left and right of a single separator. -/
theorem splitOn_eq_pair {c : Char} {s a b : JsString} :
    s.splitOn c = [a, b] ↔ s = a ++ c :: b ∧ c ∉ a ∧ c ∉ b := by
  constructor
  · intro h
    have hs : [c].intercalate (s.splitOn c) = s := List.intercalate_splitOn c
    rw [h] at hs
    refine ⟨by simpa using hs.symm, ?_, ?_⟩
    · exact not_mem_of_mem_splitOn (s := s) (by simp [h])
    · exact not_mem_of_mem_splitOn (s := s) (by simp [h])
  · rintro ⟨rfl, ha, hb⟩
    rw [List.splitOn_append_cons_self_of_not_mem ha, List.splitOn_eq_singleton hb]

/-- Splitting a string put together from pieces with a separator in front
of each splits the pieces. -/
theorem splitOn_append_flatMap_cons (c : Char) (s : JsString) (pieces : List JsString) :
    (s ++ pieces.flatMap (c :: ·)).splitOn c = s.splitOn c ++ pieces.flatMap (·.splitOn c) := by
  induction pieces generalizing s with
  | nil => simp
  | cons piece pieces ih =>
      rw [List.flatMap_cons, List.cons_append, List.splitOn_append_cons_self, ih,
        List.flatMap_cons]

theorem append_flatMap_eq_intercalate (sep first : JsString) (others : List JsString) :
    first ++ others.flatMap (sep ++ ·) = sep.intercalate (first :: others) := by
  induction others generalizing first with
  | nil => simp
  | cons second others ih =>
      rw [List.flatMap_cons, List.append_assoc, ih, List.intercalate_cons_cons, List.append_assoc]

theorem prefix_intercalate (sep first : JsString) (others : List JsString) :
    first <+: sep.intercalate (first :: others) :=
  ⟨_, append_flatMap_eq_intercalate sep first others⟩

/-- Pieces with a separator in front of each are the pieces joined, with one
separator more. -/
theorem flatMap_append_eq {sep : JsString} {pieces : List JsString} (h : pieces ≠ []) :
    pieces.flatMap (sep ++ ·) = sep ++ sep.intercalate pieces := by
  obtain ⟨first, others, rfl⟩ := List.exists_cons_of_ne_nil h
  rw [List.flatMap_cons, List.append_assoc, append_flatMap_eq_intercalate]

theorem drop_flatMap_append (sep : JsString) (pieces : List JsString) :
    (pieces.flatMap (sep ++ ·)).drop sep.length = sep.intercalate pieces := by
  by_cases h : pieces = []
  · simp [h]
  · rw [flatMap_append_eq h, List.drop_left]

end JsString

end AisStore.Lib
