import AisStore.Lib.JsString
import Mathlib.Tactic.Ring

/-!
Percent-encoding.

Encoding gives text and decoding gives bytes, which are those of the text in
UTF-8 for what was encoded (`percentDecode_encode_append`). Text that was not
encoded goes through decoding unchanged exactly when there is no escape in
it (`percentDecode_eq_utf8_iff`). Both are told by length: an escape is
longer than the byte it stands for, so that encoding makes text longer and
decoding makes it shorter wherever they do anything.
-/

namespace AisStore.Lib

/-- The bytes of a string in UTF-8. -/
def utf8 (s : JsString) : List UInt8 := s.flatMap String.utf8EncodeChar

/-- What is left as it is: the letters, the digits and nine marks. -/
def isUnreserved (c : Char) : Bool :=
  c.isAlphanum || c ∈ ['-', '_', '.', '!', '~', '*', Char.ofNat 0x27, '(', ')']

/-- A hexadecimal digit, in upper case. -/
def hexDigit (n : ℕ) : Char := (Nat.digitChar n).toUpper

def percentEncode (b : UInt8) : JsString :=
  ['%', hexDigit (b.toNat / 16), hexDigit (b.toNat % 16)]

def encodeChar (c : Char) : JsString :=
  if isUnreserved c then [c] else (String.utf8EncodeChar c).flatMap percentEncode

def encodeURIComponent (s : JsString) : JsString := s.flatMap encodeChar

/-- The byte of the escape that a string starts with. -/
def escaped : JsString → Option UInt8
  | '%' :: a :: b :: _ => do some (UInt8.ofNat (16 * (← hexValue a) + (← hexValue b)))
  | _ => none

/-- The bytes of a string, each escape read as the byte it stands for. -/
def percentDecode : JsString → List UInt8
  | [] => []
  | c :: s =>
      match escaped (c :: s) with
      | some b => b :: percentDecode (s.drop 2)
      | none => String.utf8EncodeChar c ++ percentDecode s
termination_by s => s.length

/-- There is an escape somewhere. -/
def HasEscape (s : JsString) : Prop := ∃ t, t <:+ s ∧ (escaped t).isSome

/-! ### UTF-8 -/

@[simp] theorem utf8_nil : utf8 [] = [] := rfl

theorem utf8_cons (c : Char) (s : JsString) : utf8 (c :: s) = String.utf8EncodeChar c ++ utf8 s :=
  rfl

@[simp] theorem utf8_append (s t : JsString) : utf8 (s ++ t) = utf8 s ++ utf8 t := by
  simp [utf8]

theorem length_utf8EncodeChar_pos (c : Char) : 0 < (String.utf8EncodeChar c).length := by
  rw [String.length_utf8EncodeChar]
  exact c.utf8Size_pos

/-- The characters of a string are read off its bytes one by one. -/
theorem eq_of_utf8EncodeChar_append {c d : Char} {bs bs' : List UInt8}
    (h : String.utf8EncodeChar c ++ bs = String.utf8EncodeChar d ++ bs') : c = d := by
  have hc : ((String.utf8EncodeChar c ++ bs).toByteArray).utf8DecodeChar? 0 = some c := by
    rw [List.toByteArray_append, ByteArray.utf8DecodeChar?_utf8EncodeChar_append]
  have hd : ((String.utf8EncodeChar d ++ bs').toByteArray).utf8DecodeChar? 0 = some d := by
    rw [List.toByteArray_append, ByteArray.utf8DecodeChar?_utf8EncodeChar_append]
  rw [h, hd] at hc
  exact (Option.some.inj hc).symm

theorem utf8_injective {s t : JsString} (h : utf8 s = utf8 t) : s = t := by
  induction s generalizing t with
  | nil =>
      cases t with
      | nil => rfl
      | cons d t =>
          have hlength := congrArg List.length h
          have hpos := length_utf8EncodeChar_pos d
          rw [utf8_cons, utf8_nil, List.length_append, List.length_nil] at hlength
          omega
  | cons c s ih =>
      cases t with
      | nil =>
          have hlength := congrArg List.length h
          have hpos := length_utf8EncodeChar_pos c
          rw [utf8_cons, utf8_nil, List.length_append, List.length_nil] at hlength
          omega
      | cons d t =>
          rw [utf8_cons, utf8_cons] at h
          obtain rfl := eq_of_utf8EncodeChar_append h
          rw [List.append_cancel_left_eq] at h
          rw [ih h]

/-- The bytes of a character are found in those of a string only where the
character is. -/
theorem mem_of_utf8EncodeChar_infix {c : Char} {s : JsString}
    (h : String.utf8EncodeChar c <:+: utf8 s) : c ∈ s := by
  obtain ⟨before, after, h⟩ := h
  induction s generalizing before with
  | nil =>
      have := length_utf8EncodeChar_pos c
      simp only [utf8_nil, List.append_eq_nil_iff] at h
      simp [h.1.2] at this
  | cons d s ih =>
      rw [utf8_cons, List.append_assoc] at h
      rcases Nat.lt_or_ge before.length (String.utf8EncodeChar d).length with hless | hge
      · -- the first byte of `c` is a byte of `d`, and only the first one of it can be
        have hpos := length_utf8EncodeChar_pos c
        have hfirst : (String.utf8EncodeChar d)[before.length].IsUTF8FirstByte := by
          have hbyte : (String.utf8EncodeChar d)[before.length] = (String.utf8EncodeChar c)[0] := by
            have hget := congrArg (·[before.length]?) h
            simp only [List.getElem?_append_right (Nat.le_refl _), Nat.sub_self,
              List.getElem?_append_left hless, List.getElem?_append_left hpos] at hget
            rw [List.getElem?_eq_getElem hless, List.getElem?_eq_getElem hpos] at hget
            exact (Option.some.inj hget).symm
          rw [hbyte]
          exact UInt8.isUTF8FirstByte_getElem_zero_utf8EncodeChar
        rw [UInt8.isUTF8FirstByte_getElem_utf8EncodeChar, List.length_eq_zero_iff] at hfirst
        rw [hfirst, List.nil_append] at h
        exact List.mem_cons.mpr (.inl (eq_of_utf8EncodeChar_append h))
      · obtain ⟨rest, rfl⟩ : String.utf8EncodeChar d <+: before :=
          List.prefix_of_prefix_length_le (List.prefix_append _ _)
            (h ▸ List.prefix_append _ _) hge
        rw [List.append_assoc, List.append_cancel_left_eq] at h
        exact List.mem_cons_of_mem d (ih rest (by rwa [List.append_assoc]))

/-! ### Decoding -/

theorem percentDecode_nil : percentDecode [] = [] := by
  unfold percentDecode
  rfl

theorem percentDecode_of_escaped {c : Char} {s : JsString} {b : UInt8}
    (h : escaped (c :: s) = some b) : percentDecode (c :: s) = b :: percentDecode (s.drop 2) := by
  rw [percentDecode, h]

theorem percentDecode_of_not_escaped {c : Char} {s : JsString} (h : escaped (c :: s) = none) :
    percentDecode (c :: s) = String.utf8EncodeChar c ++ percentDecode s := by
  rw [percentDecode, h]

theorem escaped_of_ne {c : Char} (s : JsString) (h : c ≠ '%') : escaped (c :: s) = none := by
  unfold escaped
  split
  next heq => exact absurd (List.cons.inj heq).1 h
  · rfl

/-- An escape is a percent sign and two hexadecimal digits. -/
theorem escaped_eq_some {s : JsString} {b : UInt8} (h : escaped s = some b) :
    ∃ x y rest, s = '%' :: x :: y :: rest ∧ (hexValue x).isSome ∧ (hexValue y).isSome ∧
      ∀ rest', escaped ('%' :: x :: y :: rest') = some b := by
  unfold escaped at h
  split at h
  next x y rest =>
    cases hx : hexValue x with
    | none => simp [hx] at h
    | some m =>
        cases hy : hexValue y with
        | none => simp [hx, hy] at h
        | some n =>
            refine ⟨x, y, rest, rfl, by simp [hx], by simp [hy], ?_⟩
            intro rest'
            simpa [escaped, hx, hy] using h
  · cases h

/-- Text without a percent sign goes through. -/
theorem percentDecode_plain_append {s : JsString} (h : '%' ∉ s) (rest : JsString) :
    percentDecode (s ++ rest) = utf8 s ++ percentDecode rest := by
  induction s with
  | nil => rfl
  | cons c s ih =>
      rw [List.mem_cons, not_or] at h
      rw [List.cons_append, percentDecode_of_not_escaped (escaped_of_ne _ (Ne.symm h.1)), ih h.2,
        utf8_cons, List.append_assoc]

theorem percentDecode_plain {s : JsString} (h : '%' ∉ s) : percentDecode s = utf8 s := by
  have := percentDecode_plain_append h []
  simpa [percentDecode_nil] using this

/-- Nothing that is no hexadecimal digit is part of an escape before it. -/
theorem percentDecode_append_cons {c : Char} (hc : hexValue c = none) (s rest : JsString) :
    percentDecode (s ++ c :: rest) = percentDecode s ++ percentDecode (c :: rest) := by
  induction s using percentDecode.induct with
  | case1 => rw [percentDecode_nil, List.nil_append, List.nil_append]
  | case2 d s b hb ih =>
      obtain ⟨x, y, s, heq, -, -, hany⟩ := escaped_eq_some hb
      cases heq
      rw [percentDecode_of_escaped hb, List.cons_append, List.cons_append, List.cons_append,
        percentDecode_of_escaped (hany _), List.drop_succ_cons, List.drop_succ_cons, List.drop_zero]
      simpa using ih
  | case3 d s hb ih =>
      have hb' : escaped (d :: (s ++ c :: rest)) = none := by
        rw [Option.eq_none_iff_forall_ne_some]
        intro b hsome
        obtain ⟨x, y, tail, heq, hx, hy, hany⟩ := escaped_eq_some hsome
        obtain ⟨rfl, heq⟩ := List.cons.inj heq
        match s, heq with
        | [], heq =>
            cases heq
            simp [hc] at hx
        | [_], heq =>
            cases heq
            simp [hc] at hy
        | _ :: _ :: tail', heq =>
            cases heq
            rw [hany] at hb
            cases hb
      rw [percentDecode_of_not_escaped hb, List.cons_append, percentDecode_of_not_escaped hb', ih,
        List.append_assoc]

/-- Decoding makes bytes fewer. -/
theorem length_percentDecode_le (s : JsString) : (percentDecode s).length ≤ (utf8 s).length := by
  induction s using percentDecode.induct with
  | case1 => simp [percentDecode_nil]
  | case2 c s b hb ih =>
      obtain ⟨x, y, s, heq, -⟩ := escaped_eq_some hb
      cases heq
      rw [percentDecode_of_escaped hb]
      simp only [utf8_cons, List.length_append, List.length_cons, List.drop_succ_cons,
        List.drop_zero] at ih ⊢
      have := length_utf8EncodeChar_pos x
      omega
  | case3 c s hb ih =>
      rw [percentDecode_of_not_escaped hb, utf8_cons, List.length_append, List.length_append]
      omega

theorem hasEscape_cons {c : Char} {s : JsString} :
    HasEscape (c :: s) ↔ (escaped (c :: s)).isSome ∨ HasEscape s := by
  constructor
  · rintro ⟨t, ht, hsome⟩
    rcases List.suffix_cons_iff.mp ht with rfl | ht
    · exact .inl hsome
    · exact .inr ⟨t, ht, hsome⟩
  · rintro (hsome | ⟨t, ht, hsome⟩)
    · exact ⟨c :: s, List.suffix_rfl, hsome⟩
    · exact ⟨t, ht.trans (List.suffix_cons c s), hsome⟩

/-- Decoding leaves text alone only if there is no escape in it. -/
theorem percentDecode_eq_utf8_iff {s : JsString} : percentDecode s = utf8 s ↔ ¬ HasEscape s := by
  induction s using percentDecode.induct with
  | case1 =>
      simp only [percentDecode_nil, utf8_nil, true_iff]
      rintro ⟨t, ht, hsome⟩
      rw [List.suffix_nil.mp ht] at hsome
      simp [escaped] at hsome
  | case2 c s b hb ih =>
      obtain ⟨x, y, rest, heq, -⟩ := escaped_eq_some hb
      cases heq
      have hescape : HasEscape ('%' :: x :: y :: rest) := hasEscape_cons.mpr (.inl (by simp [hb]))
      simp only [hescape, not_true_eq_false, iff_false]
      intro heq
      have hlength := congrArg List.length heq
      rw [percentDecode_of_escaped hb] at hlength
      have hle := length_percentDecode_le rest
      have hx := length_utf8EncodeChar_pos x
      have hy := length_utf8EncodeChar_pos y
      have hpercent := length_utf8EncodeChar_pos '%'
      simp only [utf8_cons, List.length_append, List.length_cons, List.drop_succ_cons,
        List.drop_zero] at hlength
      omega
  | case3 c s hb ih =>
      rw [percentDecode_of_not_escaped hb, utf8_cons, List.append_cancel_left_eq, ih,
        hasEscape_cons, hb]
      simp

/-- An escape does not go across a character that is not part of one. -/
theorem hasEscape_append_cons {c : Char} (hc : hexValue c = none) (hpercent : c ≠ '%')
    (s t : JsString) : HasEscape (s ++ c :: t) ↔ HasEscape s ∨ HasEscape t := by
  rw [← not_iff_not, not_or, ← percentDecode_eq_utf8_iff, ← percentDecode_eq_utf8_iff,
    ← percentDecode_eq_utf8_iff, percentDecode_append_cons hc,
    percentDecode_of_not_escaped (escaped_of_ne _ hpercent), utf8_append, utf8_cons]
  constructor
  · intro h
    have hlength := congrArg List.length h
    have hs := length_percentDecode_le s
    have ht := length_percentDecode_le t
    simp only [List.length_append] at hlength
    obtain ⟨heqs, h⟩ := List.append_inj h (by omega)
    exact ⟨heqs, List.append_cancel_left h⟩
  · rintro ⟨hs, ht⟩
    rw [hs, ht]

/-! ### Encoding -/

theorem hexValue_hexDigit {n : ℕ} (h : n < 16) : hexValue (hexDigit n) = some n := by
  revert n
  decide

theorem isUnreserved_hexDigit {n : ℕ} (h : n < 16) : isUnreserved (hexDigit n) = true := by
  revert n
  decide

theorem length_hexDigit {n : ℕ} (h : n < 16) :
    (String.utf8EncodeChar (hexDigit n)).length = 1 := by
  revert n
  decide

theorem hexDigit_mem {n : ℕ} (h : n < 16) : hexDigit n ∈ "0123456789ABCDEF".toList := by
  revert n
  decide

/-- What an encoded string is made of. -/
theorem unreserved_of_mem_encode {c : Char} {s : JsString} (h : c ∈ encodeURIComponent s) :
    isUnreserved c = true ∨ c = '%' := by
  obtain ⟨d, -, hc⟩ := List.mem_flatMap.mp h
  unfold encodeChar at hc
  split at hc
  next hd =>
    rw [List.mem_singleton] at hc
    exact .inl (hc ▸ hd)
  · obtain ⟨b, -, hc⟩ := List.mem_flatMap.mp hc
    have hb := b.toNat_lt
    simp only [percentEncode, List.mem_cons, List.not_mem_nil, or_false] at hc
    rcases hc with rfl | rfl | rfl
    · exact .inr rfl
    · exact .inl (isUnreserved_hexDigit (by omega))
    · exact .inl (isUnreserved_hexDigit (by omega))

theorem not_mem_encode {c : Char} (hc : isUnreserved c = false) (hpercent : c ≠ '%')
    (s : JsString) : c ∉ encodeURIComponent s := by
  intro hmem
  rcases unreserved_of_mem_encode hmem with h | h
  · rw [h] at hc
    cases hc
  · exact hpercent h

theorem percentDecode_percentEncode_append (b : UInt8) (rest : JsString) :
    percentDecode (percentEncode b ++ rest) = b :: percentDecode rest := by
  have hb := b.toNat_lt
  have hescaped : escaped (percentEncode b ++ rest) = some b := by
    have hsum : UInt8.ofNat (16 * (b.toNat / 16) + b.toNat % 16) = b := by
      rw [Nat.div_add_mod, UInt8.ofNat_toNat]
    simp only [percentEncode, List.cons_append, escaped,
      hexValue_hexDigit (by omega : b.toNat / 16 < 16),
      hexValue_hexDigit (by omega : b.toNat % 16 < 16)]
    exact congrArg some hsum
  exact percentDecode_of_escaped hescaped

theorem percentDecode_encodeBytes_append (bs : List UInt8) (rest : JsString) :
    percentDecode (bs.flatMap percentEncode ++ rest) = bs ++ percentDecode rest := by
  induction bs with
  | nil => rfl
  | cons b bs ih =>
      rw [List.flatMap_cons, List.append_assoc, percentDecode_percentEncode_append, ih,
        List.cons_append]

theorem percentDecode_encodeChar_append (c : Char) (rest : JsString) :
    percentDecode (encodeChar c ++ rest) = String.utf8EncodeChar c ++ percentDecode rest := by
  unfold encodeChar
  split
  next hc =>
    apply percentDecode_of_not_escaped
    apply escaped_of_ne
    rintro rfl
    exact absurd hc (by decide)
  · exact percentDecode_encodeBytes_append _ rest

/-- Encoded text comes out as it was. -/
theorem percentDecode_encode_append (s rest : JsString) :
    percentDecode (encodeURIComponent s ++ rest) = utf8 s ++ percentDecode rest := by
  induction s with
  | nil => rfl
  | cons c s ih =>
      change percentDecode (encodeChar c ++ encodeURIComponent s ++ rest) = _
      rw [List.append_assoc, percentDecode_encodeChar_append, ih, utf8_cons, List.append_assoc]

theorem length_utf8_percentEncode (b : UInt8) : (utf8 (percentEncode b)).length = 3 := by
  have hb := b.toNat_lt
  have hpercent : (String.utf8EncodeChar '%').length = 1 := by decide
  simp only [percentEncode, utf8_cons, utf8_nil, List.length_append, List.length_nil, hpercent,
    length_hexDigit (by omega : b.toNat / 16 < 16), length_hexDigit (by omega : b.toNat % 16 < 16)]

theorem length_utf8_encodeBytes (bs : List UInt8) :
    (utf8 (bs.flatMap percentEncode)).length = 3 * bs.length := by
  induction bs with
  | nil => rfl
  | cons b bs ih =>
      rw [List.flatMap_cons, utf8_append, List.length_append, length_utf8_percentEncode, ih,
        List.length_cons]
      omega

theorem length_utf8_encodeChar (c : Char) :
    (utf8 (encodeChar c)).length =
      (if isUnreserved c then 1 else 3) * (String.utf8EncodeChar c).length := by
  unfold encodeChar
  split
  · simp [utf8_cons]
  · exact length_utf8_encodeBytes _

/-- Encoding makes text longer, unless every character stays what it is. -/
theorem length_utf8_encode (s : JsString) :
    (utf8 s).length ≤ (utf8 (encodeURIComponent s)).length ∧
      ((utf8 s).length = (utf8 (encodeURIComponent s)).length →
        ∀ c ∈ s, isUnreserved c = true) := by
  induction s with
  | nil => simp [encodeURIComponent]
  | cons c s ih =>
      have hpos := length_utf8EncodeChar_pos c
      have hc := length_utf8_encodeChar c
      change _ ≤ (utf8 (encodeChar c ++ encodeURIComponent s)).length ∧
        (_ = (utf8 (encodeChar c ++ encodeURIComponent s)).length → _)
      rw [utf8_append, utf8_cons, List.length_append, List.length_append, hc]
      split
      next hunreserved =>
        refine ⟨by omega, ?_⟩
        intro heq d hd
        rcases List.mem_cons.mp hd with rfl | hd
        · exact hunreserved
        · exact ih.2 (by omega) d hd
      · refine ⟨by omega, ?_⟩
        intro heq
        omega

theorem encode_of_unreserved {s : JsString} (h : ∀ c ∈ s, isUnreserved c = true) :
    encodeURIComponent s = s := by
  induction s with
  | nil => rfl
  | cons c s ih =>
      change encodeChar c ++ encodeURIComponent s = _
      rw [encodeChar, if_pos (h c (by simp)), ih fun d hd => h d (List.mem_cons_of_mem c hd)]
      rfl

example : encodeURIComponent "Ærø & 1".toList = "%C3%86r%C3%B8%20%26%201".toList := by
  decide +kernel

end AisStore.Lib
