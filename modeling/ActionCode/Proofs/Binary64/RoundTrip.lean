import ActionCode.Proofs.Binary64.Grammar

namespace ActionCode.Binary64

theorem ofDecimal_shortestDecimal {rank : Nat} (h : rank < 0x7ff0000000000000) :
    ofDecimal false (shortestDecimal rank) = ofRank false rank := by
  rw [shortestDecimal]
  cases hfind : (candidates rank).find? fun d => ofDecimal false d = ofRank false rank with
  | none => exact ofDecimal_exactDecimal h
  | some d => simpa using List.find?_some hfind

theorem ofDecimal_of_magnitude {d : Decimal} {rank : Nat} (h : rank < 0x7ff0000000000000)
    (hd : ofDecimal false d = ofRank false rank) (negative : Bool) :
    ofDecimal negative d = ofRank negative rank := by
  obtain ⟨rank', -, hrank⟩ := exists_nearest d
  rw [hrank false, ofRank_of_lt false h] at hd
  rw [hrank negative]
  by_cases h' : rank' < 0x7ff0000000000000
  · rw [ofRank_of_lt false h'] at hd
    have heq : rank' = rank := by simpa using hd
    rw [heq]
  · rw [ofRank, dif_neg h'] at hd
    contradiction

theorem sign_signText (negative : Bool) : Numeral.Sign (signText negative) negative := by
  cases negative with
  | true => exact .minus
  | false => exact .none

theorem read?_text (x : Binary64) : read? x.text = some x := by
  cases x with
  | nan => rfl
  | infinity negative => cases negative <;> rfl
  | finite negative rank =>
    obtain ⟨k, hread⟩ := Decimal.read?_text layout (shortestDecimal rank)
    have hvalue := ofDecimal_of_magnitude rank.isLt (ofDecimal_shortestDecimal rank.isLt) negative
    rw [text, read?_decimal (sign_signText negative) (Decimal.read?_eq_some_iff.mp hread),
      ofDecimal_widen, hvalue, ofRank_of_lt negative rank.isLt]

/-- A text is made of digits and a few other characters, of which it has one
that no integer has. -/
theorem text_eq_append (x : Binary64) : ∃ negative first rest,
    x.text = signText negative ++ first :: rest ∧ first ≠ '-' ∧ first ≠ '+' ∧
      (∀ c ∈ first :: rest, c.isDigit = true ∨ c ∈ ['.', 'e', '-', 'i', 'n', 'f', 'N', 'a']) ∧
      ∃ c ∈ first :: rest, c.isDigit = false := by
  cases x with
  | nan =>
    exact ⟨false, 'N', ['a', 'N'], rfl, by decide, by decide, by simp, 'N', by simp, rfl⟩
  | infinity negative =>
    exact ⟨negative, 'i', ['n', 'f'], rfl, by decide, by decide, by simp, 'i', by simp, rfl⟩
  | finite negative rank =>
    obtain ⟨first, rest, htext, hfirst, hrest, hsign⟩ :=
      Decimal.text_eq_cons layout (shortestDecimal rank)
    obtain ⟨hminus, hplus⟩ := Numeral.ne_sign_of_isDigit hfirst
    refine ⟨negative, first, rest, by rw [text, htext], hminus, hplus, fun c hc => ?_, ?_⟩
    · obtain rfl | hc := List.mem_cons.mp hc
      · exact .inl hfirst
      · exact (hrest c hc).imp_right (List.mem_append_left ['i', 'n', 'f', 'N', 'a'])
    · obtain h | h := hsign
      · exact ⟨'.', List.mem_cons_of_mem _ h, rfl⟩
      · exact ⟨'e', List.mem_cons_of_mem _ h, rfl⟩

theorem readInt64?_text (x : Binary64) : Numeral.readInt64? x.text = none := by
  obtain ⟨negative, first, rest, htext, hminus, hplus, -, c, hc, hdigit⟩ := x.text_eq_append
  have hall : (first :: rest).all Char.isDigit = false :=
    List.all_eq_false.mpr ⟨c, hc, by simp [hdigit]⟩
  have hsplit : Numeral.splitSign (signText negative ++ first :: rest) =
      (negative, first :: rest) :=
    (sign_signText negative).splitSign_append (by simp [hminus, hplus])
  rw [Numeral.readInt64?, Numeral.readInt?, htext, hsplit]
  simp [Numeral.readNat?, hall]

theorem mem_text {x : Binary64} {c : Char} (hc : c ∈ x.text) :
    c.isDigit = true ∨ c ∈ ['.', 'e', '-', 'i', 'n', 'f', 'N', 'a'] := by
  obtain ⟨negative, first, rest, htext, -, -, hmem, -⟩ := x.text_eq_append
  rw [htext] at hc
  obtain hc | hc := List.mem_append.mp hc
  · cases negative <;> simp_all [signText]
  · exact hmem c hc

end ActionCode.Binary64
