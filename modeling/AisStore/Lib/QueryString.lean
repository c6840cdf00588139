import AisStore.Lib.PercentEncoding

/-!
Query strings: named parameters, joined by `&`.

A form-encoded value has no `&` in it and is got back by decoding
(`formDecode_formEncode`). Which parameters are there is written nowhere
else than in their names, and still nothing is lost: over a fixed list of
distinct names, what is joined determines every value and which are left out
(`queryString_injective`). Numbers are written in decimal, bytes in
hexadecimal, both readable back.
-/

namespace AisStore.Lib

/-! ### Form encoding -/

/-- What is left as it is. -/
def isFormSafe (c : Char) : Bool := c.isAlphanum || c ∈ ['-', '_', '.', '*']

def formEncodeChar (c : Char) : JsString :=
  if isFormSafe c then [c]
  else if c = ' ' then ['+']
  else (String.utf8EncodeChar c).flatMap percentEncode

/-- `URLEncoder.encode(s, "UTF-8")`. -/
def formEncode (s : JsString) : JsString := s.flatMap formEncodeChar

/-- A plus sign stands for a blank. -/
def unplus (c : Char) : Char := if c = '+' then ' ' else c

/-- The bytes of the text that a form-encoded value stands for. -/
def formDecode (s : JsString) : List UInt8 := percentDecode (s.map unplus)

theorem unplus_hexDigit {n : ℕ} (h : n < 16) : unplus (hexDigit n) = hexDigit n := by
  revert n
  decide

theorem map_unplus_percentEncode (b : UInt8) : (percentEncode b).map unplus = percentEncode b := by
  have hb := b.toNat_lt
  show [unplus '%', unplus (hexDigit _), unplus (hexDigit _)] = percentEncode b
  rw [unplus_hexDigit (by omega), unplus_hexDigit (by omega)]
  rfl

theorem map_unplus_encodeBytes (bs : List UInt8) :
    (bs.flatMap percentEncode).map unplus = bs.flatMap percentEncode := by
  induction bs with
  | nil => rfl
  | cons b bs ih => rw [List.flatMap_cons, List.map_append, map_unplus_percentEncode, ih]

theorem formDecode_formEncodeChar_append (c : Char) (rest : JsString) :
    formDecode (formEncodeChar c ++ rest) = String.utf8EncodeChar c ++ formDecode rest := by
  rw [formDecode, List.map_append, formEncodeChar]
  split
  next hsafe =>
    have hplus : c ≠ '+' := by
      rintro rfl
      exact absurd hsafe (by decide)
    rw [List.map_singleton, unplus, if_neg hplus]
    apply percentDecode_of_not_escaped
    apply escaped_of_ne
    rintro rfl
    exact absurd hsafe (by decide)
  · split
    next hblank =>
      subst hblank
      exact percentDecode_of_not_escaped (escaped_of_ne _ (by decide))
    · rw [map_unplus_encodeBytes]
      exact percentDecode_encodeBytes_append _ _

/-- A form-encoded value comes out as it was. -/
theorem formDecode_formEncode (s : JsString) : formDecode (formEncode s) = utf8 s := by
  induction s with
  | nil => exact percentDecode_nil
  | cons c s ih =>
      show formDecode (formEncodeChar c ++ formEncode s) = _
      rw [formDecode_formEncodeChar_append, ih, utf8_cons]

theorem formEncode_injective {s t : JsString} (h : formEncode s = formEncode t) : s = t := by
  apply utf8_injective
  rw [← formDecode_formEncode s, ← formDecode_formEncode t, h]

/-- What an encoded value is made of. -/
theorem formSafe_of_mem_formEncode {c : Char} {s : JsString} (h : c ∈ formEncode s) :
    isFormSafe c = true ∨ c = '+' ∨ c = '%' := by
  have hhex : ∀ n < 16, isFormSafe (hexDigit n) = true := by decide
  obtain ⟨d, -, hc⟩ := List.mem_flatMap.mp h
  unfold formEncodeChar at hc
  split at hc
  next hd =>
    rw [List.mem_singleton] at hc
    exact .inl (hc ▸ hd)
  · split at hc
    · exact .inr (.inl (List.mem_singleton.mp hc))
    · obtain ⟨b, -, hc⟩ := List.mem_flatMap.mp hc
      have hb := b.toNat_lt
      simp only [percentEncode, List.mem_cons, List.not_mem_nil, or_false] at hc
      rcases hc with rfl | rfl | rfl
      · exact .inr (.inr rfl)
      · exact .inl (hhex _ (by omega))
      · exact .inl (hhex _ (by omega))

theorem amp_not_mem_formEncode (s : JsString) : '&' ∉ formEncode s := by
  intro h
  rcases formSafe_of_mem_formEncode h with h | h | h
  · exact absurd h (by decide)
  · exact absurd h (by decide)
  · exact absurd h (by decide)

/-! ### Numbers and bytes -/

/-- An integer in decimal. -/
def decimal (n : ℤ) : JsString :=
  if n < 0 then '-' :: Nat.toDigits 10 n.natAbs else Nat.toDigits 10 n.natAbs

theorem toDigits_injective {m n : ℕ} (h : Nat.toDigits 10 m = Nat.toDigits 10 n) : m = n := by
  rw [← Nat.ofDigitChars_ten_toDigits (n := m), h, Nat.ofDigitChars_ten_toDigits]

theorem isDigit_of_mem_decimal {n : ℤ} {c : Char} (h : c ∈ decimal n) :
    c.isDigit = true ∨ c = '-' := by
  have hdigit : ∀ {k : ℕ}, c ∈ Nat.toDigits 10 k → c.isDigit = true :=
    Nat.isDigit_of_mem_toDigits (by omega) (by omega)
  unfold decimal at h
  split at h
  · rcases List.mem_cons.mp h with rfl | h
    · exact .inr rfl
    · exact .inl (hdigit h)
  · exact .inl (hdigit h)

theorem not_mem_decimal {c : Char} (hdigit : c.isDigit = false) (hsign : c ≠ '-') (n : ℤ) :
    c ∉ decimal n := by
  intro h
  rcases isDigit_of_mem_decimal h with h | h
  · rw [hdigit] at h
    cases h
  · exact hsign h

theorem decimal_injective {m n : ℤ} (h : decimal m = decimal n) : m = n := by
  have hsign : ∀ k : ℕ, ∀ s, Nat.toDigits 10 k ≠ '-' :: s := by
    intro k s heq
    have hmem : '-' ∈ Nat.toDigits 10 k := heq ▸ List.mem_cons_self
    exact absurd (Nat.isDigit_of_mem_toDigits (by omega) (by omega) hmem) (by decide)
  unfold decimal at h
  split at h
  · split at h
    · have := toDigits_injective (List.cons.inj h).2
      omega
    · exact absurd h.symm (hsign _ _)
  · split at h
    · exact absurd h (hsign _ _)
    · have := toDigits_injective h
      omega

/-- Bytes in hexadecimal. -/
def hex (bs : List UInt8) : JsString :=
  bs.flatMap fun b => [hexDigit (b.toNat / 16), hexDigit (b.toNat % 16)]

theorem hex_injective {as bs : List UInt8} (h : hex as = hex bs) : as = bs := by
  have hdigit : ∀ {m n : ℕ}, m < 16 → n < 16 → hexDigit m = hexDigit n → m = n := by
    intro m n hm hn heq
    have := congrArg hexValue heq
    rw [hexValue_hexDigit hm, hexValue_hexDigit hn] at this
    exact Option.some.inj this
  induction as generalizing bs with
  | nil =>
      cases bs with
      | nil => rfl
      | cons b bs => cases h
  | cons a as ih =>
      cases bs with
      | nil => cases h
      | cons b bs =>
          have ha := a.toNat_lt
          have hb := b.toNat_lt
          have hcons : hexDigit (a.toNat / 16) :: hexDigit (a.toNat % 16) :: hex as =
              hexDigit (b.toNat / 16) :: hexDigit (b.toNat % 16) :: hex bs := h
          obtain ⟨hhigh, hrest⟩ := List.cons.inj hcons
          obtain ⟨hlow, htail⟩ := List.cons.inj hrest
          have hhigh := hdigit (by omega) (by omega) hhigh
          have hlow := hdigit (by omega) (by omega) hlow
          rw [UInt8.toNat_inj.mp (by omega : a.toNat = b.toNat), ih htail]

theorem hexDigit_of_mem_hex {c : Char} {bs : List UInt8} (h : c ∈ hex bs) :
    c ∈ "0123456789ABCDEF".toList := by
  obtain ⟨b, -, hc⟩ := List.mem_flatMap.mp h
  have hb := b.toNat_lt
  simp only [List.mem_cons, List.not_mem_nil, or_false] at hc
  rcases hc with rfl | rfl
  · exact hexDigit_mem (by omega)
  · exact hexDigit_mem (by omega)

/-! ### Joining parameters -/

theorem not_mem_intercalate {c : Char} {sep : JsString} {xs : List JsString} (hsep : c ∉ sep)
    (hxs : ∀ x ∈ xs, c ∉ x) : c ∉ sep.intercalate xs := by
  cases xs with
  | nil => simp
  | cons x xs =>
      rw [← JsString.append_flatMap_eq_intercalate, List.mem_append, List.mem_flatMap]
      rintro (h | ⟨y, hy, h⟩)
      · exact hxs x List.mem_cons_self h
      · rcases List.mem_append.mp h with h | h
        · exact hsep h
        · exact hxs y (List.mem_cons_of_mem _ hy) h

/-- A parameter that may be left out. -/
structure Parameter where
  name : JsString
  value : Option JsString
  deriving DecidableEq

namespace Parameter

/-- A parameter as it is written, if it is there. -/
def written (p : Parameter) : Option JsString := p.value.map fun v => p.name ++ '=' :: v

/-- What a name and a value must not have in them. -/
structure Separable (p : Parameter) : Prop where
  name : '&' ∉ p.name ∧ '=' ∉ p.name
  value : ∀ v ∈ p.value, '&' ∉ v

theorem written_inj {p q : Parameter} (hp : '=' ∉ p.name) (hq : '=' ∉ q.name) {s : JsString}
    (h : p.written = some s) (h' : q.written = some s) : p = q := by
  have htake : ∀ {name v : JsString}, '=' ∉ name →
      (name ++ '=' :: v).takeWhile (· ≠ '=') = name := by
    intro name v hname
    rw [List.takeWhile_append_of_pos fun c hc => decide_eq_true (ne_of_mem_of_not_mem hc hname)]
    simp
  obtain ⟨v, hv, rfl⟩ := Option.map_eq_some_iff.mp h
  obtain ⟨w, hw, heq⟩ := Option.map_eq_some_iff.mp h'
  have hname : q.name = p.name := by rw [← htake hq, heq, htake hp]
  rw [hname, List.append_cancel_left_eq] at heq
  rw [Parameter.mk.injEq]
  exact ⟨hname.symm, by rw [hv, hw, (List.cons.inj heq).2]⟩

/-- A parameter is its name and what is written of it. -/
theorem eq_of_written {p q : Parameter} (hname : p.name = q.name) (h : p.written = q.written) :
    p = q := by
  have hinj : Function.Injective fun v => p.name ++ '=' :: v :=
    fun v w heq => (List.cons.inj (List.append_cancel_left heq)).2
  rw [written, written, ← hname] at h
  rw [Parameter.mk.injEq]
  exact ⟨hname, Option.map_injective hinj h⟩

theorem Separable.amp_not_mem_written {p : Parameter} (hp : p.Separable) {s : JsString}
    (h : p.written = some s) : '&' ∉ s := by
  obtain ⟨v, hv, rfl⟩ := Option.map_eq_some_iff.mp h
  simp [hp.name.1, hp.value v hv]

end Parameter

/-- Everything that is there, behind what comes first. -/
def queryString (start : JsString) (ps : List Parameter) : JsString :=
  start ++ (ps.filterMap Parameter.written).flatMap ('&' :: ·)

theorem splitOn_flatMap_amp {start : JsString} {xs : List JsString} (hstart : '&' ∉ start)
    (hxs : ∀ x ∈ xs, '&' ∉ x) :
    (start ++ xs.flatMap ('&' :: ·)).splitOn '&' = start :: xs := by
  have hjoin : start ++ xs.flatMap ('&' :: ·) = ['&'].intercalate (start :: xs) :=
    JsString.append_flatMap_eq_intercalate ['&'] start xs
  rw [hjoin]
  apply List.splitOn_intercalate
  · rw [List.forall_mem_cons]
    exact ⟨hstart, hxs⟩
  · exact List.cons_ne_nil _ _

/-- A parameter is not taken for one with another name. -/
theorem not_mem_written {p : Parameter} {s : JsString} {ps : List Parameter}
    (hp : '=' ∉ p.name) (hps : ∀ q ∈ ps, '=' ∉ q.name) (hnot : p.name ∉ ps.map (·.name))
    (hs : p.written = some s) : s ∉ ps.filterMap Parameter.written := by
  intro hmem
  obtain ⟨q, hq, hwritten⟩ := List.mem_filterMap.mp hmem
  have hsame := Parameter.written_inj hp (hps q hq) hs hwritten
  exact hnot (hsame ▸ List.mem_map_of_mem hq)

/-- Distinct names, in one order: what is there determines what is not. -/
theorem eq_of_written_eq {ps qs : List Parameter} (hnames : ps.map (·.name) = qs.map (·.name))
    (hnodup : (ps.map (·.name)).Nodup) (hps : ∀ p ∈ ps, '=' ∉ p.name)
    (hqs : ∀ q ∈ qs, '=' ∉ q.name)
    (h : ps.filterMap Parameter.written = qs.filterMap Parameter.written) : ps = qs := by
  induction ps generalizing qs with
  | nil => exact (List.map_eq_nil_iff.mp hnames.symm).symm
  | cons p ps ih =>
      cases qs with
      | nil => cases hnames
      | cons q qs =>
          have hname : p.name = q.name := (List.cons.inj hnames).1
          have hnames := (List.cons.inj hnames).2
          obtain ⟨hnot, hnodup⟩ := List.nodup_cons.mp hnodup
          obtain ⟨hp, hps⟩ := List.forall_mem_cons.mp hps
          obtain ⟨hq, hqs⟩ := List.forall_mem_cons.mp hqs
          have hpq : p.written = q.written ∧
              ps.filterMap Parameter.written = qs.filterMap Parameter.written := by
            cases hpw : p.written with
            | none =>
                rw [List.filterMap_cons_none hpw] at h
                cases hqw : q.written with
                | none => exact ⟨rfl, by rwa [List.filterMap_cons_none hqw] at h⟩
                | some s =>
                    rw [List.filterMap_cons_some hqw] at h
                    have hmem := not_mem_written hq hps (hname ▸ hnot) hqw
                    exact absurd (h ▸ List.mem_cons_self) hmem
            | some s =>
                rw [List.filterMap_cons_some hpw] at h
                cases hqw : q.written with
                | none =>
                    rw [List.filterMap_cons_none hqw] at h
                    have hmem := not_mem_written hp hqs (hnames ▸ hnot) hpw
                    exact absurd (h ▸ List.mem_cons_self) hmem
                | some t =>
                    rw [List.filterMap_cons_some hqw] at h
                    exact ⟨congrArg some (List.cons.inj h).1, (List.cons.inj h).2⟩
          rw [ih hnames hnodup hps hqs hpq.2, Parameter.eq_of_written hname hpq.1]

/-- What is joined determines every parameter. -/
theorem queryString_injective {start start' : JsString} {ps qs : List Parameter}
    (hstart : '&' ∉ start) (hstart' : '&' ∉ start') (hps : ∀ p ∈ ps, p.Separable)
    (hqs : ∀ q ∈ qs, q.Separable) (hnames : ps.map (·.name) = qs.map (·.name))
    (hnodup : (ps.map (·.name)).Nodup) (h : queryString start ps = queryString start' qs) :
    start = start' ∧ ps = qs := by
  have hamp : ∀ {rs : List Parameter}, (∀ r ∈ rs, r.Separable) →
      ∀ x ∈ rs.filterMap Parameter.written, '&' ∉ x := by
    intro rs hrs x hx
    obtain ⟨r, hr, hwritten⟩ := List.mem_filterMap.mp hx
    exact (hrs r hr).amp_not_mem_written hwritten
  have hsplit := congrArg (List.splitOn '&') h
  rw [queryString, queryString, splitOn_flatMap_amp hstart (hamp hps),
    splitOn_flatMap_amp hstart' (hamp hqs)] at hsplit
  obtain ⟨hfirst, hwritten⟩ := List.cons.inj hsplit
  exact ⟨hfirst, eq_of_written_eq hnames hnodup (fun p hp => (hps p hp).name.2)
    (fun q hq => (hqs q hq).name.2) hwritten⟩

end AisStore.Lib
