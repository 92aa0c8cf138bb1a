import ActionCode.Operand
import ActionCode.Proofs.Binary64.RoundTrip

namespace ActionCode.Operand

inductive Truth : List Char → Bool → Prop where
  | true : Truth ['t', 'r', 'u', 'e'] true
  | false : Truth ['f', 'a', 'l', 's', 'e'] false

/-- What a text stands for where any operand may be: the first of an integer of 64 bits,
a float and a truth value that it spells, and itself if it spells none. -/
inductive Guess (text : List Char) : Operand → Prop where
  | int {n : Int64} (h : Numeral.Spelling text n.toInt) : Guess text (.int n)
  | float {x} (hint : ∀ n : Int64, ¬Numeral.Spelling text n.toInt) (h : Binary64.Spelling text x) :
      Guess text (.float x)
  | bool {b} (hint : ∀ n : Int64, ¬Numeral.Spelling text n.toInt)
      (hfloat : ∀ x, ¬Binary64.Spelling text x) (h : Truth text b) : Guess text (.bool b)
  | str (hint : ∀ n : Int64, ¬Numeral.Spelling text n.toInt)
      (hfloat : ∀ x, ¬Binary64.Spelling text x) (hbool : ∀ b, ¬Truth text b) :
      Guess text (.str (String.ofList text))

theorem readBool?_eq_some_iff {text : List Char} {b : Bool} :
    readBool? text = some b ↔ Truth text b := by
  rw [readBool?]
  constructor
  · intro h
    split at h
    · obtain rfl := Option.some.inj h
      exact ‹text = _› ▸ .true
    · split at h
      · obtain rfl := Option.some.inj h
        exact ‹text = _› ▸ .false
      · contradiction
  · intro h
    cases h <;> rfl

theorem eq_none_iff_of_spelling {α : Type} {read? : Option α} {Spelling : α → Prop}
    (h : ∀ {a}, read? = some a ↔ Spelling a) : read? = none ↔ ∀ a, ¬Spelling a := by
  rw [Option.eq_none_iff_forall_ne_some]
  exact forall_congr' fun a => not_congr h

theorem guess_infer (text : List Char) : Guess text (infer text) := by
  rw [infer]
  cases hint : Numeral.readInt64? text with
  | some n => exact .int (Numeral.readInt64?_eq_some_iff.mp hint)
  | none =>
    have hint := (eq_none_iff_of_spelling Numeral.readInt64?_eq_some_iff).mp hint
    cases hfloat : Binary64.read? text with
    | some x => exact .float hint (Binary64.read?_eq_some_iff.mp hfloat)
    | none =>
      have hfloat := (eq_none_iff_of_spelling Binary64.read?_eq_some_iff).mp hfloat
      cases hbool : readBool? text with
      | some b => exact .bool hint hfloat (readBool?_eq_some_iff.mp hbool)
      | none =>
        exact .str hint hfloat ((eq_none_iff_of_spelling readBool?_eq_some_iff).mp hbool)

theorem infer_of_guess {text : List Char} {operand : Operand} (h : Guess text operand) :
    infer text = operand := by
  have hnoInt : Numeral.readInt64? text = none ↔ _ :=
    eq_none_iff_of_spelling Numeral.readInt64?_eq_some_iff
  have hnoFloat : Binary64.read? text = none ↔ _ :=
    eq_none_iff_of_spelling Binary64.read?_eq_some_iff
  have hnoBool : readBool? text = none ↔ _ := eq_none_iff_of_spelling readBool?_eq_some_iff
  rw [infer]
  cases h with
  | int h => rw [Numeral.readInt64?_eq_some_iff.mpr h]
  | float hint h => rw [hnoInt.mpr hint, Binary64.read?_eq_some_iff.mpr h]
  | bool hint hfloat h => rw [hnoInt.mpr hint, hnoFloat.mpr hfloat, readBool?_eq_some_iff.mpr h]
  | str hint hfloat hbool => rw [hnoInt.mpr hint, hnoFloat.mpr hfloat, hnoBool.mpr hbool]

theorem infer_eq_iff {text : List Char} {operand : Operand} :
    infer text = operand ↔ Guess text operand :=
  ⟨fun h => h ▸ guess_infer text, infer_of_guess⟩

theorem toList_int (n : Int64) : (int n).text.toList = Numeral.intText n.toInt := by
  simp [text]

theorem toList_float (x : Binary64) : (float x).text.toList = x.text := by
  simp [text]

theorem infer_int (n : Int64) : infer (int n).text.toList = .int n := by
  rw [toList_int, infer, Numeral.readInt64?_intText]

theorem infer_float (x : Binary64) : infer (float x).text.toList = .float x := by
  rw [toList_float, infer, x.readInt64?_text, x.read?_text]

theorem readBool?_bool (b : Bool) : readBool? (bool b).text.toList = some b := by
  cases b <;> rfl

theorem infer_bool (b : Bool) : infer (bool b).text.toList = .bool b := by
  cases b <;> rfl

theorem text_ne_empty {operand : Operand} (h : infer operand.text.toList = operand)
    (hne : operand ≠ .str "") : operand.text ≠ "" := by
  intro hempty
  rw [hempty] at h
  exact hne h.symm

theorem text_ne_zero {operand : Operand} (h : infer operand.text.toList = operand)
    (hne : operand ≠ .int 0) : operand.text ≠ "0" := by
  intro hzero
  rw [hzero] at h
  exact hne h.symm

theorem infer_eq_str_iff {token : List Char} {text : String} :
    infer token = .str text ↔ String.ofList token = text ∧ Numeral.readInt64? token = none ∧
      Binary64.read? token = none ∧ readBool? token = none := by
  rw [infer]
  cases Numeral.readInt64? token with
  | some n => simp
  | none =>
    cases Binary64.read? token with
    | some x => simp
    | none => cases readBool? token <;> simp

/-- Operands that count as equal are equal, unless they are floats. -/
theorem eq_or_float_of_canonical {a b : Option Operand} (h : a.map canonical = b.map canonical) :
    a = b ∨ ∃ x y, a = some (.float x) ∧ b = some (.float y) := by
  obtain _ | a := a <;> obtain _ | b := b
  · exact .inl rfl
  · contradiction
  · contradiction
  · cases a <;> cases b <;> simp_all [canonical]

end ActionCode.Operand
