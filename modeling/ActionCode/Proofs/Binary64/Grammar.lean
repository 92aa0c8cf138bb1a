import ActionCode.Binary64.Text
import ActionCode.Proofs.Binary64.Nearest
import ActionCode.Proofs.Decimal.Grammar

namespace ActionCode

theorem Decimal.Spelling.exists_cons {text : List Char} {d : Decimal} (h : Spelling text d) :
    ∃ c rest, text = c :: rest ∧ (c.isDigit = true ∨ c = '.') := by
  cases h with
  | whole hdigits hexponent =>
    obtain ⟨c, digits, rfl⟩ := List.exists_cons_of_ne_nil hdigits.ne_nil
    exact ⟨c, _, rfl, .inl (hdigits.isDigit c List.mem_cons_self)⟩
  | @point whole fraction _ _ _ hdigits hexponent =>
    cases whole with
    | nil => exact ⟨'.', _, rfl, .inr rfl⟩
    | cons c whole => exact ⟨c, _, rfl, .inl (hdigits.isDigit c List.mem_cons_self)⟩

namespace Binary64

/-- A word in any case or the number nearest to a decimal, behind an optional sign. What
is nearest to a magnitude out of range is infinite. -/
inductive Spelling : List Char → Binary64 → Prop where
  | infinity {sign word negative} (hsign : Numeral.Sign sign negative)
      (hword : word.map Char.toLower = "inf".toList ∨ word.map Char.toLower = "infinity".toList) :
      Spelling (sign ++ word) (.infinity negative)
  | nan {sign word negative} (hsign : Numeral.Sign sign negative)
      (hword : word.map Char.toLower = "nan".toList) : Spelling (sign ++ word) .nan
  | finite {sign text negative d rank} (hsign : Numeral.Sign sign negative)
      (hdecimal : Decimal.Spelling text d) (hnearest : Nearest (numerator d) (denominator d) rank)
      (hrank : rank < 0x7ff0000000000000) :
      Spelling (sign ++ text) (.finite negative ⟨rank, hrank⟩)
  | overflow {sign text negative d rank} (hsign : Numeral.Sign sign negative)
      (hdecimal : Decimal.Spelling text d) (hnearest : Nearest (numerator d) (denominator d) rank)
      (hrank : 0x7ff0000000000000 ≤ rank) : Spelling (sign ++ text) (.infinity negative)

theorem ofRank_of_lt (negative : Bool) {rank : Nat} (h : rank < 0x7ff0000000000000) :
    ofRank negative rank = .finite negative ⟨rank, h⟩ :=
  dif_pos h

theorem ofRank_of_ge (negative : Bool) {rank : Nat} (h : 0x7ff0000000000000 ≤ rank) :
    ofRank negative rank = .infinity negative :=
  dif_neg (Nat.not_lt.mpr h)

theorem toLower_of_isDigit {c : Char} (h : c.isDigit = true) : c.toLower = c := by
  have hle : c.val.toNat ≤ 57 := by
    simp only [Char.isDigit, Bool.and_eq_true, decide_eq_true_eq, UInt32.le_iff_toNat_le] at h
    exact h.2
  apply dif_neg
  intro hupper
  have hge : 65 ≤ c.val.toNat := UInt32.le_iff_toNat_le.mp hupper.1
  omega

theorem ne_sign_of_toLower {word rest : List Char} {c : Char}
    (h : word.map Char.toLower = c :: rest) (hc : c ≠ '-' ∧ c ≠ '+') :
    ∀ c ∈ word.head?, c ≠ '-' ∧ c ≠ '+' := by
  obtain ⟨first, word, rfl, rfl, -⟩ := List.map_eq_cons_iff.mp h
  intro c hfirst
  obtain rfl := Option.some.inj hfirst
  refine ⟨?_, ?_⟩
  · rintro rfl
    exact hc.1 rfl
  · rintro rfl
    exact hc.2 rfl

theorem read?_decimal {sign text : List Char} {negative : Bool} {d : Decimal}
    (hsign : Numeral.Sign sign negative) (h : Decimal.Spelling text d) :
    read? (sign ++ text) = some (ofDecimal negative d) := by
  have hread := Decimal.read?_eq_some_iff.mpr h
  obtain ⟨first, rest, rfl, hfirst⟩ := h.exists_cons
  have hlower : first.toLower = first := by
    obtain hdigit | rfl := hfirst
    · exact toLower_of_isDigit hdigit
    · rfl
  have hbody : ∀ c ∈ (first :: rest).head?, c ≠ '-' ∧ c ≠ '+' := by
    intro c hc
    obtain rfl := Option.some.inj hc
    obtain hdigit | rfl := hfirst
    · exact Numeral.ne_sign_of_isDigit hdigit
    · decide
  have hne : ∀ c word, c.isDigit = false → c ≠ '.' →
      (first :: rest).map Char.toLower ≠ c :: word := by
    intro c word hdigit hpoint heq
    rw [List.map_cons, hlower] at heq
    obtain ⟨rfl, -⟩ := List.cons.inj heq
    exact hfirst.elim (by simp [hdigit]) hpoint
  have hinf : ¬((first :: rest).map Char.toLower = "inf".toList ∨
      (first :: rest).map Char.toLower = "infinity".toList) :=
    not_or.mpr ⟨hne 'i' _ rfl (by decide), hne 'i' _ rfl (by decide)⟩
  have hnan : (first :: rest).map Char.toLower ≠ "nan".toList := hne 'n' _ rfl (by decide)
  rw [read?, hsign.splitSign_append hbody]
  dsimp only
  rw [if_neg hinf, if_neg hnan, hread, Option.map_some]

theorem read?_of_spelling {text : List Char} {x : Binary64} (h : Spelling text x) :
    read? text = some x := by
  cases h with
  | infinity hsign hword =>
    have hbody := hword.elim (ne_sign_of_toLower · (by decide)) (ne_sign_of_toLower · (by decide))
    rw [read?, hsign.splitSign_append hbody]
    exact if_pos hword
  | nan hsign hword =>
    rw [read?, hsign.splitSign_append (ne_sign_of_toLower hword (by decide))]
    dsimp only
    rw [hword]
    rfl
  | finite hsign hdecimal hnearest hrank =>
    rw [read?_decimal hsign hdecimal, ofDecimal_of_nearest hnearest, ofRank_of_lt _ hrank]
  | overflow hsign hdecimal hnearest hrank =>
    rw [read?_decimal hsign hdecimal, ofDecimal_of_nearest hnearest, ofRank_of_ge _ hrank]

theorem spelling_of_read? {text : List Char} {x : Binary64} (h : read? text = some x) :
    Spelling text x := by
  cases hsplit : Numeral.splitSign text with
  | mk negative body =>
    obtain ⟨sign, hsign, rfl⟩ := Numeral.exists_sign hsplit
    rw [read?, hsplit] at h
    dsimp only at h
    split at h
    · obtain rfl := Option.some.inj h
      exact .infinity hsign ‹_›
    · split at h
      · obtain rfl := Option.some.inj h
        exact .nan hsign ‹_›
      · obtain ⟨d, hread, rfl⟩ := Option.map_eq_some_iff.mp h
        have hdecimal := Decimal.read?_eq_some_iff.mp hread
        obtain ⟨rank, hnearest, hvalue⟩ := exists_nearest d
        rw [hvalue]
        obtain hrank | hrank := Nat.lt_or_ge rank 0x7ff0000000000000
        · rw [ofRank_of_lt negative hrank]
          exact .finite hsign hdecimal hnearest hrank
        · rw [ofRank_of_ge negative hrank]
          exact .overflow hsign hdecimal hnearest hrank

theorem read?_eq_some_iff {text : List Char} {x : Binary64} :
    read? text = some x ↔ Spelling text x :=
  ⟨spelling_of_read?, read?_of_spelling⟩

end Binary64

end ActionCode
