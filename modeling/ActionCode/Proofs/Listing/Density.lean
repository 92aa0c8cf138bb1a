import ActionCode.Proofs.Listing.Position

namespace ActionCode

namespace Text

theorem length_le_byteLength (text : List Char) : text.length ≤ byteLength text := by
  induction text with
  | nil => exact Nat.le_refl 0
  | cons c text ih =>
    have hc := c.utf8Size_pos
    rw [List.length_cons, byteLength_cons]
    omega

end Text

namespace Listing

variable {unit text rest : List Char} {i : Instruction}

/-- The only opcode that may stand in front of nothing takes two digits. -/
theorem Code.two_le_length {digits : List Char} (h : Code digits .pushUnchecked) :
    2 ≤ digits.length := by
  obtain ⟨c, more, rfl⟩ := List.exists_cons_of_ne_nil h.ne_nil
  cases more with
  | cons d more => simp
  | nil =>
    have hc := Char.isDigit_iff_toNat.mp (h.isDigit c (by simp))
    have hvalue := h.value
    have hzero : '0'.toNat = 48 := rfl
    have hnine : '9'.toNat = 57 := rfl
    have hcode : Opcode.pushUnchecked.code = 13 := rfl
    rw [Nat.ofDigitChars_cons, Nat.ofDigitChars_nil] at hvalue
    omega

theorem Parameter.spelling_ne_nil {opcode : Opcode} {spelling : List Char}
    {parameter : WrittenParameter} (h : Parameter opcode spelling parameter)
    (hany : opcode ≠ .pushUnchecked) : spelling ≠ [] := by
  cases h with
  | quoted => simp
  | bare hbare hne => exact hne.resolve_right hany

theorem Code.three_le {digits spelling : List Char} {opcode : Opcode}
    {parameter : WrittenParameter} (hcode : Code digits opcode)
    (hparameter : Parameter opcode spelling parameter) :
    3 ≤ (digits ++ ' ' :: spelling).length := by
  have hdigits := List.length_pos_iff.mpr hcode.ne_nil
  rw [List.length_append, List.length_cons]
  by_cases hany : opcode = .pushUnchecked
  · have htwo := Code.two_le_length (hany ▸ hcode)
    omega
  · have hspelling := List.length_pos_iff.mpr (hparameter.spelling_ne_nil hany)
    omega

theorem IsUnit.length_cases (h : IsUnit unit i rest) :
    4 ≤ unit.length ∨ (3 ≤ unit.length ∧
      (rest = [] ∨ ∃ c more, rest = c :: more ∧ Blank c)) := by
  cases h with
  | mk hspelled hoperand =>
    cases hspelled with
    | mk hcode hparameter hends =>
      have hthree := hcode.three_le hparameter
      cases hends with
      | comma =>
        left
        simp only [List.length_append, List.length_cons] at hthree ⊢
        omega
      | blank hc => exact .inr ⟨by simpa using hthree, .inr ⟨_, _, rfl, hc⟩⟩
      | atEnd => exact .inr ⟨by simpa using hthree, .inl rfl⟩

theorem IsUnit.three_le (h : IsUnit unit i rest) : 3 ≤ Text.byteLength unit := by
  have hlength := Text.length_le_byteLength unit
  have hcases := h.length_cases
  omega

theorem byteLength_skipTrivia_le (text : List Char) :
    Text.byteLength (skipTrivia false text) ≤ Text.byteLength text := by
  obtain ⟨skipped, hskipped⟩ := skipTrivia_suffix text
  have hlength := Text.byteLength_append skipped (skipTrivia false text)
  rw [hskipped] at hlength
  omega

/-- A unit and what separates it from the next one take four bytes. -/
theorem length_of_readUnits {p : Program} (h : readUnits text = .ok p) :
    4 * p.length ≤ Text.byteLength (skipTrivia false text) + 1 := by
  fun_induction readUnits text generalizing p with
  | case1 =>
    obtain rfl := Except.ok.inj h
    simp
  | case2 => contradiction
  | case3 text c cs hskip i rest hread ih =>
    cases hrest : readUnits rest with
    | error stop => simp [hrest, Except.map] at h
    | ok tail =>
      rw [hrest] at h
      obtain rfl := Except.ok.inj h
      have htail := ih hrest
      obtain ⟨unit, hunit, hisUnit⟩ := readUnit_eq_ok_iff.mp hread
      have hbytes := Text.length_le_byteLength unit
      rw [hskip, hunit, Text.byteLength_append, List.length_cons]
      obtain hcomma | ⟨hthree, rfl | ⟨blank, more, rfl, hblank⟩⟩ := hisUnit.length_cases
      · have hle := byteLength_skipTrivia_le rest
        omega
      · rw [readUnits_nil] at hrest
        obtain rfl := Except.ok.inj hrest
        simp
        omega
      · -- The blank is skipped in front of the next unit, so that both share it.
        have hle := byteLength_skipTrivia_le more
        have hpos := blank.utf8Size_pos
        rw [skipTrivia_blank hblank] at htail
        rw [Text.byteLength_cons]
        omega

end Listing

end ActionCode
