import ActionCode.Binary64.Text
import ActionCode.Opcode

namespace ActionCode

inductive Operand where
  | int (value : Int64)
  | float (value : Binary64)
  | str (value : String)
  | bool (value : Bool)
  | name (value : Name)
  deriving DecidableEq

namespace Operand

def kind : Operand → OperandKind
  | .int _ => .int
  | .float _ => .float
  | .str _ => .str
  | .bool _ => .bool
  | .name value => .name value.verb

def boolText : Bool → String
  | true => "true"
  | false => "false"

def text : Operand → String
  | .int value => String.ofList (Numeral.intText value.toInt)
  | .float value => String.ofList value.text
  | .str value => value
  | .bool value => boolText value
  | .name value => value.text

def int? : Operand → Option Int64
  | .int value => some value
  | _ => none

def str? : Operand → Option String
  | .str value => some value
  | _ => none

def name? : Operand → Option Name
  | .name value => some value
  | _ => none

def canonical : Operand → Operand
  | .float value => .float value.canonical
  | operand => operand

/-- Equality of operands, in which both float zeros are one. -/
def same (a b : Operand) : Bool :=
  a.canonical = b.canonical

def distinct (operands : List Operand) : List Operand :=
  (operands.map canonical).eraseDups

def readBool? (text : List Char) : Option Bool :=
  if text = "true".toList then some true
  else if text = "false".toList then some false
  else none

/-- Bare text of unknown kind: an integer if it reads as one, else a float,
else a truth value, else the text itself. -/
def infer (text : List Char) : Operand :=
  match Numeral.readInt64? text with
  | some value => .int value
  | none =>
    match Binary64.read? text with
    | some value => .float value
    | none =>
      match readBool? text with
      | some value => .bool value
      | none => .str (String.ofList text)

end Operand

end ActionCode
