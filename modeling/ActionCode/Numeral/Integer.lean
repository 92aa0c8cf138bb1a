namespace ActionCode.Numeral

/-- Takes a leading sign off; `true` stands for minus. -/
def splitSign : List Char → Bool × List Char
  | '-' :: rest => (true, rest)
  | '+' :: rest => (false, rest)
  | text => (false, text)

def readNat? (text : List Char) : Option Nat :=
  if text ≠ [] ∧ text.all Char.isDigit then some (Nat.ofDigitChars 10 text 0) else none

def readInt? (text : List Char) : Option Int :=
  let (negative, digits) := splitSign text
  (readNat? digits).map fun n : Nat => if negative then -(n : Int) else n

def readInt64? (text : List Char) : Option Int64 :=
  (readInt? text).bind fun n =>
    if Int64.minValue.toInt ≤ n ∧ n ≤ Int64.maxValue.toInt then some (Int64.ofInt n) else none

def intText : Int → List Char
  | .ofNat n => Nat.toDigits 10 n
  | .negSucc n => '-' :: Nat.toDigits 10 (n + 1)

theorem splitSign_of_isDigit {c : Char} (hc : c.isDigit = true) (rest : List Char) :
    splitSign (c :: rest) = (false, c :: rest) := by
  unfold splitSign
  split
  · simp_all [Char.isDigit]
  · simp_all [Char.isDigit]
  · rfl

theorem splitSign_toDigits (n : Nat) :
    splitSign (Nat.toDigits 10 n) = (false, Nat.toDigits 10 n) := by
  cases h : Nat.toDigits 10 n with
  | nil => exact absurd h Nat.toDigits_ne_nil
  | cons c rest =>
    have hc : c ∈ Nat.toDigits 10 n := by simp [h]
    exact splitSign_of_isDigit (Nat.isDigit_of_mem_toDigits (by decide) (by decide) hc) rest

theorem readNat?_toDigits (n : Nat) : readNat? (Nat.toDigits 10 n) = some n := by
  have hd : ∀ c ∈ Nat.toDigits 10 n, c.isDigit = true := fun c hc =>
    Nat.isDigit_of_mem_toDigits (by decide) (by decide) hc
  rw [readNat?, if_pos ⟨Nat.toDigits_ne_nil, List.all_eq_true.mpr hd⟩,
    Nat.ofDigitChars_ten_toDigits]

theorem readInt?_intText (n : Int) : readInt? (intText n) = some n := by
  cases n with
  | ofNat n => simp [readInt?, intText, splitSign_toDigits, readNat?_toDigits]
  | negSucc n => simp [readInt?, intText, splitSign, readNat?_toDigits, Int.negSucc_eq]

theorem readInt64?_intText (n : Int64) : readInt64? (intText n.toInt) = some n := by
  rw [readInt64?, readInt?_intText, Option.bind_some,
    if_pos ⟨n.minValue_le_toInt, n.toInt_le⟩, Int64.ofInt_toInt]

end ActionCode.Numeral
