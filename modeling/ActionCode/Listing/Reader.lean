import ActionCode.Listing.Unit

namespace ActionCode.Listing

structure Stop where
  rest : List Char
  error : ReadError
  deriving DecidableEq, Repr

def readUnits (text : List Char) : Except Stop Program :=
  match _hs : skipTrivia false text with
  | [] => .ok []
  | c :: cs =>
    match _hu : readUnit (c :: cs) with
    | .error error => .error ⟨c :: cs, error⟩
    | .ok (i, rest) => (readUnits rest).map (i :: ·)
termination_by text.length
decreasing_by
  have h₁ := length_lt_of_readUnit _hu
  have h₂ := length_skipTrivia_le false text
  rw [_hs] at h₂
  omega

def read (text : String) : Except ReadError Program :=
  match readUnits text.toList with
  | .ok program => .ok program
  | .error stop => .error (stop.error.shift (offset text.toList stop.rest))

end ActionCode.Listing
