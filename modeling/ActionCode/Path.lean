import ActionCode.Text.Bytes

namespace ActionCode

inductive PathError where
  | notFound
  | notDirectory
  | isDirectory
  | nameTooLong
  | nulCharacter
  deriving DecidableEq, Repr

def PathError.message : PathError → String
  | .notFound => "No such file or directory (os error 2)"
  | .notDirectory => "Not a directory (os error 20)"
  | .isDirectory => "Is a directory (os error 21)"
  | .nameTooLong => "File name too long (os error 36)"
  | .nulCharacter => "file name contained an unexpected NUL byte"

inductive PathPart where
  | stay
  | up
  | name (text : List Char)
  deriving DecidableEq, Repr

def PathPart.ofText (text : List Char) : PathPart :=
  if text = ['.'] then .stay
  else if text = ['.', '.'] then .up
  else .name text

/-- A path, taken apart at its slashes. Several slashes in a row count as one,
and one at the end says that the path leads to a directory. -/
structure Path where
  parts : List PathPart
  toDirectory : Bool
  deriving DecidableEq, Repr

namespace Path

def nameLimit : Nat := 255

def limit : Nat := 4095

/-- Reads a path. No path holds a NUL, however long it is. -/
def parse (text : String) : Except PathError Path :=
  if '\x00' ∈ text.toList then .error .nulCharacter
  else if limit < Text.byteLength text.toList then .error .nameTooLong
  else
    let pieces := text.toList.splitOn '/'
    .ok ⟨(pieces.filter fun piece => piece ≠ []).map .ofText, pieces.getLast? = some []⟩

end Path

/-- Where a file is: its name, and how many levels above the folder at hand the
directory is that holds it. -/
structure Place where
  level : Nat
  name : String
  deriving DecidableEq, Repr

def Place.ofName (level : Nat) (name : List Char) : Except PathError Place :=
  if Path.nameLimit < Text.byteLength name then .error .nameTooLong
  else .ok ⟨level, String.ofList name⟩

end ActionCode
