import ActionCode.Numeral.Integer

namespace ActionCode

-- Powers are the core library's, also beside a library that brings its own.
attribute [local instance (10000)] instPowNat

/-- The number `coefficient * 10 ^ exponent`. -/
structure Decimal where
  coefficient : Nat
  exponent : Int
  deriving DecidableEq, Repr

namespace Decimal

def size (d : Decimal) : Nat :=
  (Nat.toDigits 10 d.coefficient).length

/-- Where the point stands, counted from the front of the coefficient's digits:
the number is `0.d₁d₂… * 10 ^ point`. -/
def point (d : Decimal) : Int :=
  d.size + d.exponent

def trim (d : Decimal) : Decimal :=
  if d.coefficient = 0 then ⟨0, 0⟩
  else if d.coefficient % 10 = 0 then trim ⟨d.coefficient / 10, d.exponent + 1⟩
  else d
termination_by d.coefficient
decreasing_by omega

/-- The two numbers around a number that do without its last `cut` digits, the
nearer one first; of two equally near ones the larger comes first. -/
def neighbours (d : Decimal) (cut : Nat) : List Decimal :=
  let unit := 10 ^ cut
  let below : Decimal := ⟨d.coefficient / unit, d.exponent + cut⟩
  let above : Decimal := ⟨d.coefficient / unit + 1, d.exponent + cut⟩
  if 2 * (d.coefficient % unit) < unit then [below, above] else [above, below]

/-- From `10 ^ (leastPoint - 1)` up to `10 ^ greatestPoint` a number is written
out, outside with an exponent. -/
structure Layout where
  leastPoint : Int
  greatestPoint : Int

def positionalText (d : Decimal) : List Char :=
  let digits := Nat.toDigits 10 d.coefficient
  let point := d.point
  if point ≤ 0 then '0' :: '.' :: (List.replicate point.natAbs '0' ++ digits)
  else if point < digits.length then
    digits.take point.toNat ++ '.' :: digits.drop point.toNat
  else digits ++ List.replicate (point.toNat - digits.length) '0' ++ ['.', '0']

/-- One digit, the others behind a point if there are any, and the exponent
without sign or padding unless it is negative. -/
def scientificText (d : Decimal) : List Char :=
  let exponent := 'e' :: Numeral.intText (d.point - 1)
  match Nat.toDigits 10 d.coefficient with
  | first :: second :: rest => first :: '.' :: second :: rest ++ exponent
  | digits => digits ++ exponent

def text (layout : Layout) (d : Decimal) : List Char :=
  if layout.leastPoint ≤ d.point ∧ d.point ≤ layout.greatestPoint then d.positionalText
  else d.scientificText

def readExponent? : List Char → Option Int
  | [] => some 0
  | c :: rest => if c = 'e' ∨ c = 'E' then Numeral.readInt? rest else none

/-- Reads digits with at most one point among, before or behind them, and an
optional exponent. -/
def read? (text : List Char) : Option Decimal :=
  let whole := text.takeWhile Char.isDigit
  let (fraction, rest) :=
    match text.dropWhile Char.isDigit with
    | '.' :: rest => (rest.takeWhile Char.isDigit, rest.dropWhile Char.isDigit)
    | rest => ([], rest)
  if whole ++ fraction = [] then none
  else (readExponent? rest).map fun exponent =>
    ⟨Nat.ofDigitChars 10 (whole ++ fraction) 0, exponent - fraction.length⟩

end Decimal

end ActionCode
