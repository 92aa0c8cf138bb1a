import ActionCode.Numeral.Decimal
import ActionCode.Proofs.Text.Span

namespace ActionCode.Decimal

-- Powers are the core library's, also beside a library that brings its own.
attribute [local instance (10000)] instPowNat

def widen (d : Decimal) (k : Nat) : Decimal :=
  ⟨d.coefficient * 10 ^ k, d.exponent - k⟩

def digits (d : Decimal) : List Char :=
  Nat.toDigits 10 d.coefficient

theorem isDigit_of_mem_digits {d : Decimal} {c : Char} (hc : c ∈ d.digits) : c.isDigit = true :=
  Nat.isDigit_of_mem_toDigits (by decide) (by decide) hc

theorem digits_ne_nil (d : Decimal) : d.digits ≠ [] :=
  Nat.toDigits_ne_nil

theorem value_digits (d : Decimal) : Nat.ofDigitChars 10 d.digits 0 = d.coefficient :=
  Nat.ofDigitChars_ten_toDigits

theorem point_eq (d : Decimal) : d.point = d.digits.length + d.exponent := rfl

theorem isDigit_of_mem_zeros {n : Nat} {c : Char} (hc : c ∈ List.replicate n '0') :
    c.isDigit = true := by
  rw [List.eq_of_mem_replicate hc]
  rfl

theorem read?_point {whole fraction rest : List Char} (hw : ∀ c ∈ whole, c.isDigit = true)
    (hf : ∀ c ∈ fraction, c.isDigit = true) (hr : ∀ c ∈ rest.head?, c.isDigit = false) :
    read? (whole ++ '.' :: (fraction ++ rest)) =
      if whole ++ fraction = [] then none
      else (readExponent? rest).map fun exponent =>
        ⟨Nat.ofDigitChars 10 (whole ++ fraction) 0, exponent - fraction.length⟩ := by
  have hpoint : ∀ c ∈ ('.' :: (fraction ++ rest)).head?, c.isDigit = false := by simp
  obtain ⟨htake, hdrop⟩ := Text.span_append hw hpoint
  obtain ⟨hftake, hfdrop⟩ := Text.span_append hf hr
  simp only [read?, htake, hdrop, hftake, hfdrop]

theorem read?_whole {whole rest : List Char} (hw : ∀ c ∈ whole, c.isDigit = true)
    (hr : ∀ c ∈ rest.head?, c.isDigit = false ∧ c ≠ '.') :
    read? (whole ++ rest) =
      if whole = [] then none
      else (readExponent? rest).map fun exponent =>
        ⟨Nat.ofDigitChars 10 whole 0, exponent⟩ := by
  obtain ⟨htake, hdrop⟩ := Text.span_append hw fun c hc => (hr c hc).1
  rw [read?]
  simp only [htake, hdrop]
  split
  · exact absurd rfl (hr '.' rfl).2
  · simp

theorem read?_fixed (whole fraction : List Char) (hne : whole ≠ [])
    (hw : ∀ c ∈ whole, c.isDigit = true) (hf : ∀ c ∈ fraction, c.isDigit = true) :
    read? (whole ++ '.' :: fraction) =
      some ⟨Nat.ofDigitChars 10 (whole ++ fraction) 0, -fraction.length⟩ := by
  have hend : ∀ c ∈ ([] : List Char).head?, c.isDigit = false := by simp
  have h := read?_point hw hf hend
  simpa [readExponent?, hne] using h

theorem readExponent?_intText (n : Int) : readExponent? ('e' :: Numeral.intText n) = some n := by
  simp [readExponent?, Numeral.readInt?_intText]

theorem scientificText_of_singleton {d : Decimal} {digit : Char} (h : d.digits = [digit]) :
    d.scientificText = [digit] ++ 'e' :: Numeral.intText (d.point - 1) := by
  rw [scientificText, show Nat.toDigits 10 d.coefficient = _ from h]

theorem scientificText_of_cons {d : Decimal} {first second : Char} {rest : List Char}
    (h : d.digits = first :: second :: rest) :
    d.scientificText =
      [first] ++ '.' :: (second :: rest ++ 'e' :: Numeral.intText (d.point - 1)) := by
  rw [scientificText, show Nat.toDigits 10 d.coefficient = _ from h]
  rfl

theorem exists_digits (d : Decimal) : (∃ digit, d.digits = [digit]) ∨
    ∃ first second rest, d.digits = first :: second :: rest := by
  cases hd : d.digits with
  | nil => exact absurd hd d.digits_ne_nil
  | cons first rest =>
    cases rest with
    | nil => exact .inl ⟨first, rfl⟩
    | cons second rest => exact .inr ⟨first, second, rest, rfl⟩

theorem read?_scientificText (d : Decimal) : read? d.scientificText = some d := by
  have hpoint := d.point_eq
  have htail : ∀ c ∈ ('e' :: Numeral.intText (d.point - 1)).head?, c.isDigit = false ∧ c ≠ '.' := by
    simp
  obtain ⟨digit, hdigits⟩ | ⟨first, second, rest, hdigits⟩ := d.exists_digits
  · have hexponent : d.point - 1 = d.exponent := by
      rw [hpoint, hdigits]
      simp only [List.length_singleton]
      omega
    rw [scientificText_of_singleton hdigits, ← hdigits,
      read?_whole (fun c hc => isDigit_of_mem_digits hc) htail, if_neg d.digits_ne_nil,
      readExponent?_intText, Option.map_some, d.value_digits, hexponent]
  · have hmem : ∀ c ∈ first :: second :: rest, c.isDigit = true := fun c hc =>
      isDigit_of_mem_digits (hdigits ▸ hc)
    have hfirst : ∀ c ∈ [first], c.isDigit = true := fun c hc => hmem c (by simp_all)
    have hread := read?_point hfirst (fun c hc => hmem c (List.mem_cons_of_mem _ hc)) fun c hc =>
      (htail c hc).1
    have hvalue : Nat.ofDigitChars 10 ([first] ++ second :: rest) 0 = d.coefficient := by
      rw [← d.value_digits, hdigits, List.singleton_append]
    have hexponent : d.point - 1 - (second :: rest).length = d.exponent := by
      rw [hpoint, hdigits]
      simp only [List.length_cons]
      omega
    rw [if_neg (by simp), readExponent?_intText, Option.map_some, hvalue, hexponent] at hread
    rw [scientificText_of_cons hdigits]
    exact hread

/-- Written out, a decimal is digits around a point. Zeros that fill up to the
point count as digits of the coefficient. -/
theorem positionalText_eq (d : Decimal) : ∃ whole fraction k,
    d.positionalText = whole ++ '.' :: fraction ∧ whole ≠ [] ∧
      (∀ c ∈ whole, c.isDigit = true) ∧ (∀ c ∈ fraction, c.isDigit = true) ∧
      d.widen k = ⟨Nat.ofDigitChars 10 (whole ++ fraction) 0, -fraction.length⟩ := by
  have hpoint := d.point_eq
  have hmem : ∀ c ∈ d.digits, c.isDigit = true := fun c hc => isDigit_of_mem_digits hc
  by_cases hle : d.point ≤ 0
  · refine ⟨['0'], List.replicate d.point.natAbs '0' ++ d.digits, 0, if_pos hle, by simp, by simp,
      fun c hc => (List.mem_append.mp hc).elim isDigit_of_mem_zeros (hmem c), ?_⟩
    have hvalue : Nat.ofDigitChars 10 (['0'] ++ (List.replicate d.point.natAbs '0' ++ d.digits)) 0 =
        d.coefficient := by
      simp [Nat.ofDigitChars_append, Nat.ofDigitChars_cons, d.value_digits]
    rw [hvalue]
    simp only [widen, List.length_append, List.length_replicate, Nat.pow_zero, Nat.mul_one,
      mk.injEq, true_and]
    omega
  · by_cases hlt : d.point < d.digits.length
    · refine ⟨d.digits.take d.point.toNat, d.digits.drop d.point.toNat, 0,
        (if_neg hle).trans (if_pos hlt), ?_, fun c hc => hmem c (List.mem_of_mem_take hc),
        fun c hc => hmem c (List.mem_of_mem_drop hc), ?_⟩
      · simp only [ne_eq, List.take_eq_nil_iff, d.digits_ne_nil, or_false]
        omega
      · rw [List.take_append_drop, d.value_digits]
        simp only [widen, List.length_drop, Nat.pow_zero, Nat.mul_one, mk.injEq, true_and]
        omega
    · refine ⟨d.digits ++ List.replicate (d.point.toNat - d.digits.length) '0', ['0'],
        d.point.toNat - d.digits.length + 1, (if_neg hle).trans (if_neg hlt),
        by simp [d.digits_ne_nil],
        fun c hc => (List.mem_append.mp hc).elim (hmem c) isDigit_of_mem_zeros, by simp, ?_⟩
      have hvalue : Nat.ofDigitChars 10
          (d.digits ++ List.replicate (d.point.toNat - d.digits.length) '0' ++ ['0']) 0 =
          d.coefficient * 10 ^ (d.point.toNat - d.digits.length + 1) := by
        simp [Nat.ofDigitChars_append, Nat.ofDigitChars_cons, d.value_digits, Nat.pow_succ,
          Nat.mul_comm, Nat.mul_left_comm]
      rw [hvalue]
      simp only [widen, List.length_singleton, mk.injEq, true_and]
      omega

theorem scientificText_eq (d : Decimal) : ∃ first mantissa,
    d.scientificText = first :: mantissa ++ 'e' :: Numeral.intText (d.point - 1) ∧
      first.isDigit = true ∧ ∀ c ∈ mantissa, c.isDigit = true ∨ c = '.' := by
  have hmem : ∀ c ∈ d.digits, c.isDigit = true := fun c hc => isDigit_of_mem_digits hc
  obtain ⟨digit, hdigits⟩ | ⟨first, second, rest, hdigits⟩ := d.exists_digits
  · rw [hdigits] at hmem
    exact ⟨digit, [], scientificText_of_singleton hdigits, hmem digit (by simp), by simp⟩
  · rw [hdigits] at hmem
    refine ⟨first, '.' :: second :: rest, scientificText_of_cons hdigits, hmem first (by simp),
      fun c hc => ?_⟩
    obtain rfl | hc := List.mem_cons.mp hc
    · exact .inr rfl
    · exact .inl (hmem c (List.mem_cons_of_mem _ hc))

theorem read?_positionalText (d : Decimal) : ∃ k, read? d.positionalText = some (d.widen k) := by
  obtain ⟨whole, fraction, k, htext, hne, hw, hf, hvalue⟩ := d.positionalText_eq
  exact ⟨k, by rw [htext, read?_fixed whole fraction hne hw hf, hvalue]⟩

/-- What is written for a decimal is read as the same number. -/
theorem read?_text (layout : Layout) (d : Decimal) :
    ∃ k, read? (d.text layout) = some (d.widen k) := by
  rw [text]
  split
  · exact d.read?_positionalText
  · refine ⟨0, ?_⟩
    simp [read?_scientificText, widen]

theorem mem_intText {n : Int} {c : Char} (hc : c ∈ Numeral.intText n) :
    c.isDigit = true ∨ c = '-' := by
  cases n with
  | ofNat n => exact .inl (Nat.isDigit_of_mem_toDigits (by decide) (by decide) hc)
  | negSucc n =>
    obtain rfl | hc := List.mem_cons.mp hc
    · exact .inr rfl
    · exact .inl (Nat.isDigit_of_mem_toDigits (by decide) (by decide) hc)

theorem text_eq_cons (layout : Layout) (d : Decimal) : ∃ first rest,
    d.text layout = first :: rest ∧ first.isDigit = true ∧
      (∀ c ∈ rest, c.isDigit = true ∨ c ∈ ['.', 'e', '-']) ∧ ('.' ∈ rest ∨ 'e' ∈ rest) := by
  rw [text]
  split
  · obtain ⟨whole, fraction, -, htext, hne, hw, hf, -⟩ := d.positionalText_eq
    obtain ⟨first, rest, rfl⟩ := List.exists_cons_of_ne_nil hne
    refine ⟨first, rest ++ '.' :: fraction, htext, hw first (by simp), fun c hc => ?_, by simp⟩
    obtain hc | hc := List.mem_append.mp hc
    · exact .inl (hw c (List.mem_cons_of_mem _ hc))
    · obtain rfl | hc := List.mem_cons.mp hc
      · exact .inr (by simp)
      · exact .inl (hf c hc)
  · obtain ⟨first, mantissa, htext, hfirst, hm⟩ := d.scientificText_eq
    refine ⟨first, mantissa ++ 'e' :: Numeral.intText (d.point - 1), htext, hfirst,
      fun c hc => ?_, by simp⟩
    obtain hc | hc := List.mem_append.mp hc
    · exact (hm c hc).imp_right (by simp +contextual)
    · obtain rfl | hc := List.mem_cons.mp hc
      · exact .inr (by simp)
      · exact (mem_intText hc).imp_right (by simp +contextual)

end ActionCode.Decimal
