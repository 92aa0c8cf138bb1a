import ActionCode.Event
import ActionCode.Proofs.Numeral.Word
import ActionCode.Proofs.Text.Place

namespace ActionCode

namespace Listing.ByteReader

def commentEnd (text : String) (place : Nat) (rest : String) : Nat :=
  match Text.splitFirst '\n' rest.toList with
  | some (line, _) => place + Text.byteLength line + 1
  | none => (Text.bytes text).length

def skipOne? (text : String) (place : Nat) : Option (Option Nat) :=
  match Text.peek? text place with
  | none => some none
  | some byte =>
    if isBlank byte then some (some (place + 1))
    else if byte = '/' then
      (Text.rest? text place).map fun rest =>
        if ['/', '/'] <+: rest.toList then some (commentEnd text place rest) else none
    else some none

def skip? (text : String) : Nat → Nat → Option Nat
  | 0, _ => none
  | rounds + 1, place => do
    match ← skipOne? text place with
    | none => return place
    | some next => skip? text rounds next

def opcode? (text : String) (place : Nat) :
    Option (List Event × Except ReadError (Opcode × Nat)) := do
  let (digits, gap) ← Text.run? Char.isDigit text place
  if digits = "" then return ([], .error (.expectedOpcode place))
  let code := Numeral.saturated digits.toList
  match Opcode.ofWord? code with
  | none =>
    return ([.unknownOpcode code.toNat place], .error (.unknownOpcode code.toNat place))
  | some opcode => return ([], .ok (opcode, gap))

def parameter? (text : String) (opcode : Opcode) (place : Nat) :
    Option (Except ReadError (WrittenParameter × Nat)) :=
  if Text.peek? text place = some '"' then do
    let body ← Text.rest? text (place + 1)
    match Text.Quoted.decode body.toList with
    | none => return .error (.unterminatedString place)
    | some (content, rest) => return .ok (.quoted content, place + 1 + offset body.toList rest)
  else do
    let (token, stop) ← Text.run? isBare text place
    if token = "" ∧ opcode.kind ≠ .any then return .error (.expectedOperand place)
    return .ok (.bare token.toList, stop)

def separator (text : String) (place : Nat) : Except ReadError Nat :=
  match Text.peek? text place with
  | none => .ok place
  | some byte =>
    if byte = ',' then .ok (place + 1)
    else if isBlank byte then .ok place
    else .error (.expectedSeparator place)

def unit? (text : String) (place : Nat) :
    Option (List Event × Except ReadError (Instruction × Nat)) := do
  let (events, opcode) ← opcode? text place
  match opcode with
  | .error error => return (events, .error error)
  | .ok (opcode, gap) =>
    if Text.peek? text gap ≠ some ' ' then return (events, .error (.expectedOperand gap))
    let parameter ← parameter? text opcode (gap + 1)
    return (events, do
      let (parameter, stop) ← parameter
      let next ← separator text stop
      let operand? ← parameter.operand opcode
      return (⟨opcode, operand?⟩, next))

def units? (text : String) : Nat → Nat → Option (List Event × Except ReadError Program)
  | 0, _ => none
  | rounds + 1, place => do
    let start ← skip? text (rounds + 1) place
    if (Text.bytes text).length ≤ start then return ([], .ok [])
    let (events, unit) ← unit? text start
    match unit with
    | .error error => return (events, .error error)
    | .ok (i, next) => do
      let (later, rest) ← units? text rounds next
      return (events ++ later, rest.map (i :: ·))

/-- Reads a compact listing back, with the events of doing so, as a reader does that
goes through the bytes of the text and knows where it is by their number. There is
no answer if it has to cut the text elsewhere than between two characters, or if a
loop is not through in the rounds that it has. -/
def read? (rounds : Nat) (text : String) : Option (List Event × Except ReadError Program) :=
  units? text rounds 0

end Listing.ByteReader

end ActionCode
