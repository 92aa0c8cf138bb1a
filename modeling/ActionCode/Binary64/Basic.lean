import ActionCode.Numeral.Decimal

namespace ActionCode

-- Powers are the core library's, also beside a library that brings its own.
attribute [local instance (10000)] instPowNat

/-- An IEEE 754 binary64 number. The rank of a finite one counts its magnitude
up from zero among all finite magnitudes; there is one value for all NaNs. -/
inductive Binary64 where
  | nan
  | infinity (negative : Bool)
  | finite (negative : Bool) (rank : Fin (0x7ff0000000000000))
  deriving DecidableEq, Repr

namespace Binary64

def zero : Binary64 := .finite false ⟨0, by decide⟩

def canonical : Binary64 → Binary64
  | .finite negative rank => if rank.val = 0 then zero else .finite negative rank
  | x => x

/-- Equal as numbers: both zeros agree, and a NaN agrees with itself. -/
def same (x y : Binary64) : Bool :=
  x.canonical = y.canonical

def ofBits (bits : UInt64) : Binary64 :=
  let negative := decide (0x8000000000000000 ≤ bits.toNat)
  let rank := bits.toNat % 0x8000000000000000
  if h : rank < 0x7ff0000000000000 then .finite negative ⟨rank, h⟩
  else if rank = 0x7ff0000000000000 then .infinity negative
  else .nan

/-- The bits of a number; of those of a NaN, the quiet one without payload. -/
def toBits : Binary64 → UInt64
  | .nan => 0x7ff8000000000000
  | .infinity negative => signBit negative + 0x7ff0000000000000
  | .finite negative rank => signBit negative + UInt64.ofNat rank.val
where
  signBit (negative : Bool) : UInt64 := if negative then 0x8000000000000000 else 0

/-- How often the distance between neighbours has doubled at a rank. It does so
with every `2 ^ 52` ranks, but for the first time at `2 ^ 53`. -/
def scale (rank : Nat) : Nat :=
  rank / 0x10000000000000 - 1

def significand (rank : Nat) : Nat :=
  if rank < 0x10000000000000 then rank else 0x10000000000000 + rank % 0x10000000000000

/-- The magnitude of a rank, as a multiple of the least one, `2 ^ -1074`. -/
def magnitude (rank : Nat) : Nat :=
  significand rank * 2 ^ scale rank

def roundQuotient (a b : Nat) : Nat :=
  let quotient := a / b
  let remainder := a % b
  if 2 * remainder < b then quotient
  else if b < 2 * remainder then quotient + 1
  else quotient + quotient % 2

/-- The rank of the magnitude nearest to `a / b` times the least one. A rank
beyond the finite ones means that the nearest is out of range. -/
def roundRank (a b : Nat) : Nat :=
  let scale := Nat.log2 (a / b) - 52
  scale * 0x10000000000000 + roundQuotient a (b * 2 ^ scale)

def ofRank (negative : Bool) (rank : Nat) : Binary64 :=
  if h : rank < 0x7ff0000000000000 then .finite negative ⟨rank, h⟩ else .infinity negative

/-- The number nearest to a decimal. From `10 ^ 310` on all decimals are out of
range and below `10 ^ -330` all round to zero, so that those far outside need
no arithmetic. -/
def ofDecimal (negative : Bool) (d : Decimal) : Binary64 :=
  if d.coefficient = 0 ∨ d.point < -330 then .ofRank negative 0
  else if 310 < d.point then .infinity negative
  else
    let a := d.coefficient * 10 ^ d.exponent.toNat * 2 ^ (1074 : Nat)
    .ofRank negative (roundRank a (10 ^ (-d.exponent).toNat))

end Binary64

end ActionCode
