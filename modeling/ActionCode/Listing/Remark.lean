import ActionCode.Instruction
import ActionCode.Text.Quoted

namespace ActionCode

/-- A text without its first word; a text of one word stays. -/
def Text.dropWord (text : String) : String :=
  match splitFirst ' ' text.toList with
  | some (_, rest) => String.ofList rest
  | none => text

namespace Instruction

/-- The operand as listings show it: a literal between quotes for strings and
comments, a target for names, plain text otherwise, and `0` where there is none. -/
def parameter (i : Instruction) : String :=
  match i.operand? with
  | none => "0"
  | some operand =>
    match i.opcode with
    | .comment | .pushString => String.ofList (Text.Quoted.encode operand.text.toList)
    | .set | .call | .new =>
      match operand with
      | .name name => name.target
      | other => Text.dropWord other.text
    | _ => operand.text

/-- A noun in the plural unless the operand is the integer one. -/
def counted (i : Instruction) (noun : String) : String :=
  if i.operand?.bind Operand.int? = some 1 then noun else noun ++ "s"

def remark (i : Instruction) : String :=
  let n := i.parameter
  match i.opcode with
  | .nop => "Deliberate void instruction"
  | .comment => "USER COMMENT"
  | .reserveStack => "Reserves " ++ n ++ " " ++ i.counted "space" ++ " on the stack."
  | .reserveRegister => "Reserves " ++ n ++ " " ++ i.counted "space" ++ " on the register."
  | .set => "Runs the " ++ n ++ " function"
  | .dup => "Copies top value " ++ n ++ " " ++ i.counted "time" ++ ", aka a peek and push"
  | .register => "Registers top object to index " ++ n ++ " after popping it off the stack"
  | .unregister => "Unregisters object at index " ++ n
  | .pushRegister => "Pushes object in register ID: " ++ n ++ " onto the stack"
  | .pushLong => "Pushes long integer " ++ n ++ " onto the stack"
  | .pushDouble => "Pushes double " ++ n ++ " onto the stack"
  | .pushString => "Pushes string " ++ n ++ " onto the stack"
  | .pushBool => "Pushes boolean " ++ n ++ " onto the stack"
  | .pushUnchecked =>
    "Performs an unsafe push, pushing " ++ n ++ " onto the stack regardless of its type"
  | .call => "Performs a getter call on " ++ n ++ " and pushes the values onto the stack"
  | .new => "Performs a constructor call on " ++ n ++ " and pushes the new object onto the stack"
  | .pop => "Pops top object off the stack " ++ n ++ " " ++ i.counted "time"

end Instruction

end ActionCode
