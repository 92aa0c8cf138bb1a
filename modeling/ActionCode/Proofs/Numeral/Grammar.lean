import ActionCode.Numeral.Integer

namespace ActionCode.Numeral

inductive Sign : List Char → Bool → Prop where
  | minus : Sign ['-'] true
  | plus : Sign ['+'] false
  | none : Sign [] false

structure Digits (digits : List Char) (n : Nat) : Prop where
  ne_nil : digits ≠ []
  isDigit : ∀ c ∈ digits, c.isDigit = true
  value : Nat.ofDigitChars 10 digits 0 = n

inductive Spelling : List Char → Int → Prop where
  | mk {sign digits negative n} (hsign : Sign sign negative) (hdigits : Digits digits n) :
      Spelling (sign ++ digits) (if negative then -(n : Int) else n)

theorem ne_sign_of_isDigit {c : Char} (h : c.isDigit = true) : c ≠ '-' ∧ c ≠ '+' := by
  refine ⟨?_, ?_⟩
  · rintro rfl
    contradiction
  · rintro rfl
    contradiction

theorem Digits.head_ne_sign {digits : List Char} {n : Nat} (h : Digits digits n) :
    ∀ c ∈ digits.head?, c ≠ '-' ∧ c ≠ '+' := fun c hc =>
  ne_sign_of_isDigit (h.isDigit c (List.mem_of_mem_head? hc))

theorem Sign.splitSign_append {sign body : List Char} {negative : Bool} (h : Sign sign negative)
    (hbody : ∀ c ∈ body.head?, c ≠ '-' ∧ c ≠ '+') :
    splitSign (sign ++ body) = (negative, body) := by
  cases h with
  | minus | plus => rfl
  | none =>
    cases body with
    | nil => rfl
    | cons c body =>
      obtain ⟨hminus, hplus⟩ := hbody c rfl
      rw [List.nil_append]
      unfold splitSign
      split
      · exact absurd (List.cons.inj ‹_›).1 hminus
      · exact absurd (List.cons.inj ‹_›).1 hplus
      · rfl

theorem exists_sign {text body : List Char} {negative : Bool}
    (h : splitSign text = (negative, body)) : ∃ sign, Sign sign negative ∧ text = sign ++ body := by
  unfold splitSign at h
  split at h <;> obtain ⟨rfl, rfl⟩ := Prod.mk.inj h
  · exact ⟨['-'], .minus, rfl⟩
  · exact ⟨['+'], .plus, rfl⟩
  · exact ⟨[], .none, rfl⟩

theorem readNat?_eq_some_iff {text : List Char} {n : Nat} :
    readNat? text = some n ↔ Digits text n := by
  rw [readNat?]
  constructor
  · intro h
    split at h
    · obtain ⟨hne, hall⟩ := ‹_ ∧ _›
      exact ⟨hne, List.all_eq_true.mp hall, Option.some.inj h⟩
    · contradiction
  · rintro ⟨hne, hdigit, rfl⟩
    exact if_pos ⟨hne, List.all_eq_true.mpr hdigit⟩

theorem readInt?_eq_some_iff {text : List Char} {n : Int} :
    readInt? text = some n ↔ Spelling text n := by
  constructor
  · intro h
    cases hsplit : splitSign text with
    | mk negative digits =>
      rw [readInt?, hsplit] at h
      obtain ⟨m, hread, rfl⟩ := Option.map_eq_some_iff.mp h
      obtain ⟨sign, hsign, rfl⟩ := exists_sign hsplit
      exact .mk hsign (readNat?_eq_some_iff.mp hread)
  · rintro ⟨hsign, hdigits⟩
    rw [readInt?, hsign.splitSign_append hdigits.head_ne_sign]
    dsimp only
    rw [readNat?_eq_some_iff.mpr hdigits, Option.map_some]

theorem readInt64?_eq_some_iff {text : List Char} {n : Int64} :
    readInt64? text = some n ↔ Spelling text n.toInt := by
  rw [readInt64?, Option.bind_eq_some_iff]
  constructor
  · rintro ⟨m, hread, hrange⟩
    split at hrange
    · obtain ⟨hlo, hhi⟩ := ‹_ ∧ _›
      obtain rfl := Option.some.inj hrange
      rw [Int64.toInt_ofInt_of_le hlo (Int.lt_of_le_of_lt hhi (by decide))]
      exact readInt?_eq_some_iff.mp hread
    · contradiction
  · intro h
    refine ⟨n.toInt, readInt?_eq_some_iff.mpr h, ?_⟩
    rw [if_pos ⟨n.minValue_le_toInt, n.toInt_le⟩, Int64.ofInt_toInt]

end ActionCode.Numeral
