import ActionCode.Proofs.Decimal.Text
import ActionCode.Proofs.Numeral.Grammar

namespace ActionCode.Decimal

inductive ExponentSpelling : List Char → Int → Prop where
  | absent : ExponentSpelling [] 0
  | present {e text n} (he : e = 'e' ∨ e = 'E') (h : Numeral.Spelling text n) :
      ExponentSpelling (e :: text) n

/-- Digits, with a point among them, in front of them or behind them if there is one,
and an exponent. -/
inductive Spelling : List Char → Decimal → Prop where
  | whole {digits text n exponent} (hdigits : Numeral.Digits digits n)
      (hexponent : ExponentSpelling text exponent) : Spelling (digits ++ text) ⟨n, exponent⟩
  | point {whole fraction text n exponent} (hdigits : Numeral.Digits (whole ++ fraction) n)
      (hexponent : ExponentSpelling text exponent) :
      Spelling (whole ++ '.' :: (fraction ++ text)) ⟨n, exponent - fraction.length⟩

variable {text : List Char}

theorem ExponentSpelling.head {n : Int} (h : ExponentSpelling text n) :
    ∀ c ∈ text.head?, c.isDigit = false ∧ c ≠ '.' := by
  cases h with
  | absent => simp
  | present he h =>
    intro c hc
    obtain rfl := Option.some.inj hc
    obtain rfl | rfl := he <;> decide

theorem readExponent?_eq_some_iff {n : Int} :
    readExponent? text = some n ↔ ExponentSpelling text n := by
  constructor
  · intro h
    cases text with
    | nil =>
      obtain rfl := Option.some.inj h
      exact .absent
    | cons e text =>
      rw [readExponent?] at h
      split at h
      · exact .present ‹_› (Numeral.readInt?_eq_some_iff.mp h)
      · contradiction
  · intro h
    cases h with
    | absent => rfl
    | present he h => rw [readExponent?, if_pos he, Numeral.readInt?_eq_some_iff.mpr h]

theorem read?_of_spelling {d : Decimal} (h : Spelling text d) : read? text = some d := by
  cases h with
  | whole hdigits hexponent =>
    rw [read?_whole hdigits.isDigit hexponent.head, if_neg hdigits.ne_nil,
      readExponent?_eq_some_iff.mpr hexponent, hdigits.value]
    rfl
  | point hdigits hexponent =>
    obtain ⟨hwhole, hfraction⟩ := List.forall_mem_append.mp hdigits.isDigit
    rw [read?_point hwhole hfraction fun c hc => (hexponent.head c hc).1, if_neg hdigits.ne_nil,
      readExponent?_eq_some_iff.mpr hexponent, hdigits.value]
    rfl

theorem exists_digits_append (text : List Char) : ∃ digits rest, text = digits ++ rest ∧
    (∀ c ∈ digits, c.isDigit = true) ∧ ∀ c ∈ rest.head?, c.isDigit = false :=
  ⟨_, _, List.takeWhile_append_dropWhile.symm, fun _ hc => Text.of_mem_takeWhile hc,
    fun _ hc => Text.of_mem_head?_dropWhile hc⟩

theorem spelling_of_read? {d : Decimal} (h : read? text = some d) : Spelling text d := by
  obtain ⟨whole, rest, rfl, hwhole, hrest⟩ := exists_digits_append text
  by_cases hpoint : rest.head? = some '.'
  · obtain ⟨behind, rfl⟩ := List.head?_eq_some_iff.mp hpoint
    obtain ⟨fraction, rest, rfl, hfraction, hend⟩ := exists_digits_append behind
    rw [read?_point hwhole hfraction hend] at h
    split at h
    · contradiction
    · obtain ⟨exponent, hexponent, rfl⟩ := Option.map_eq_some_iff.mp h
      have hdigits := List.forall_mem_append.mpr ⟨hwhole, hfraction⟩
      exact .point ⟨‹_›, hdigits, rfl⟩ (readExponent?_eq_some_iff.mp hexponent)
  · have hend : ∀ c ∈ rest.head?, c.isDigit = false ∧ c ≠ '.' := by
      refine fun c hc => ⟨hrest c hc, ?_⟩
      rintro rfl
      exact hpoint hc
    rw [read?_whole hwhole hend] at h
    split at h
    · contradiction
    · obtain ⟨exponent, hexponent, rfl⟩ := Option.map_eq_some_iff.mp h
      exact .whole ⟨‹_›, hwhole, rfl⟩ (readExponent?_eq_some_iff.mp hexponent)

theorem read?_eq_some_iff {d : Decimal} : read? text = some d ↔ Spelling text d :=
  ⟨spelling_of_read?, read?_of_spelling⟩

end ActionCode.Decimal
