import ActionCode.Opcode

namespace ActionCode

/-- Why a text is no listing. Offsets count bytes from the start of the text
that is read. -/
inductive ReadError where
  | expectedOpcode (offset : Nat)
  | unknownOpcode (code offset : Nat)
  | expectedOperand (offset : Nat)
  | unterminatedString (offset : Nat)
  | expectedSeparator (offset : Nat)
  | invalidOperand (text : String) (opcode : Opcode)
  | name (error : NameError)
  deriving DecidableEq, Repr

namespace ReadError

def message : ReadError → String
  | .expectedOpcode offset => s!"expected opcode number at offset {offset}"
  | .unknownOpcode code offset => s!"unknown opcode {code} at offset {offset}"
  | .expectedOperand offset => s!"expected operand after opcode at offset {offset}"
  | .unterminatedString offset => s!"unterminated string starting at offset {offset}"
  | .expectedSeparator offset => s!"expected ', ' separator at offset {offset}"
  | .invalidOperand text opcode => s!"invalid operand '{text}' for {opcode.title}"
  | .name error => error.message

/-- The same error in a text that has `n` more bytes in front. -/
def shift (n : Nat) : ReadError → ReadError
  | .expectedOpcode offset => .expectedOpcode (n + offset)
  | .unknownOpcode code offset => .unknownOpcode code (n + offset)
  | .expectedOperand offset => .expectedOperand (n + offset)
  | .unterminatedString offset => .unterminatedString (n + offset)
  | .expectedSeparator offset => .expectedSeparator (n + offset)
  | .invalidOperand text opcode => .invalidOperand text opcode
  | .name error => .name error

end ReadError

end ActionCode
