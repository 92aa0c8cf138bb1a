import ActionCode.Proofs.Listing.Bare
import ActionCode.Proofs.Listing.Denotation

namespace ActionCode.Listing

/-- Blanks and comments in front of `rest`. A comment runs through the end of its
line, or to the end of the whole text. -/
inductive Trivia : List Char → List Char → Prop where
  | none {rest} : Trivia [] rest
  | blank {c skipped rest} (hc : Blank c) (h : Trivia skipped rest) :
      Trivia (c :: skipped) rest
  | comment {line skipped rest} (hline : '\n' ∉ line) (h : Trivia skipped rest) :
      Trivia ('/' :: '/' :: (line ++ '\n' :: skipped)) rest
  | lastComment {line} (hline : '\n' ∉ line) : Trivia ('/' :: '/' :: line) []

inductive Literal : List Char → List Char → Prop where
  | nil : Literal [] []
  | plain {c written text} (hquote : c ≠ '"') (hescape : c ≠ '\\') (h : Literal written text) :
      Literal (c :: written) (c :: text)
  | lineFeed {written text} (h : Literal written text) :
      Literal ('\\' :: 'n' :: written) ('\n' :: text)
  | carriageReturn {written text} (h : Literal written text) :
      Literal ('\\' :: 'r' :: written) ('\r' :: text)
  | tab {written text} (h : Literal written text) :
      Literal ('\\' :: 't' :: written) ('\t' :: text)
  | escaped {c written text} (hn : c ≠ 'n') (hr : c ≠ 'r') (ht : c ≠ 't')
      (h : Literal written text) : Literal ('\\' :: c :: written) (c :: text)

structure Code (digits : List Char) (opcode : Opcode) : Prop where
  ne_nil : digits ≠ []
  isDigit : ∀ c ∈ digits, c.isDigit = true
  value : Nat.ofDigitChars 10 digits 0 = opcode.code

inductive Parameter (opcode : Opcode) : List Char → WrittenParameter → Prop where
  | quoted {written text} (h : Literal written text) :
      Parameter opcode ('"' :: (written ++ ['"'])) (.quoted text)
  | bare {token} (h : Bare token) (hne : token ≠ [] ∨ opcode = .pushUnchecked) :
      Parameter opcode token (.bare token)

/-- What ends a parameter in front of `rest`. A comma belongs to the unit, a blank
does not. -/
inductive Ends : List Char → List Char → Prop where
  | comma {rest} : Ends [','] rest
  | blank {c rest} (hc : Blank c) : Ends [] (c :: rest)
  | atEnd : Ends [] []

/-- A unit in front of `rest`, whatever operand its parameter stands for. -/
inductive Spelled : List Char → Opcode → WrittenParameter → List Char → Prop where
  | mk {digits spelling stop rest opcode parameter} (hcode : Code digits opcode)
      (hparameter : Parameter opcode spelling parameter) (hends : Ends stop rest) :
      Spelled (digits ++ ' ' :: (spelling ++ stop)) opcode parameter rest

inductive IsUnit : List Char → Instruction → List Char → Prop where
  | mk {unit rest opcode parameter operand?} (h : Spelled unit opcode parameter rest)
      (hoperand : Denotes opcode.kind parameter operand?) : IsUnit unit ⟨opcode, operand?⟩ rest

inductive Units : List Char → List (List Char × Instruction) → Prop where
  | done {skipped} (h : Trivia skipped []) : Units skipped []
  | cons {skipped unit rest i units} (hskipped : Trivia skipped (unit ++ rest))
      (hunit : IsUnit unit i rest) (h : Units rest units) :
      Units (skipped ++ (unit ++ rest)) ((unit, i) :: units)

end ActionCode.Listing
