import ActionCode.Binary64.Basic

namespace ActionCode.Binary64

-- Powers are the core library's, also beside a library that brings its own.
attribute [local instance (10000)] instPowNat

/-- The magnitude of a rank as a decimal. A negative power of two is a power of
five over one of ten. -/
def exactDecimal (rank : Nat) : Decimal :=
  let places := 1074 - scale rank
  ⟨significand rank * 2 ^ (scale rank - 1074) * 5 ^ places, -places⟩

/-- The decimals worth trying for a magnitude, by their number of digits.
Seventeen digits tell any two magnitudes apart. -/
def candidates (rank : Nat) : List Decimal :=
  let exact := exactDecimal rank
  let size := exact.size
  ((List.range 17).flatMap fun n => exact.neighbours (size - (n + 1))).map Decimal.trim

def shortestDecimal (rank : Nat) : Decimal :=
  ((candidates rank).find? fun d => ofDecimal false d = ofRank false rank).getD (exactDecimal rank)

def layout : Decimal.Layout := ⟨-3, 16⟩

def signText (negative : Bool) : List Char :=
  if negative then ['-'] else []

def text : Binary64 → List Char
  | .nan => "NaN".toList
  | .infinity negative => signText negative ++ "inf".toList
  | .finite negative rank => signText negative ++ (shortestDecimal rank).text layout

def read? (text : List Char) : Option Binary64 :=
  let (negative, body) := Numeral.splitSign text
  let word := body.map Char.toLower
  if word = "inf".toList ∨ word = "infinity".toList then some (.infinity negative)
  else if word = "nan".toList then some .nan
  else (Decimal.read? body).map (ofDecimal negative)

end ActionCode.Binary64
