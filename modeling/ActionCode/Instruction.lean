import ActionCode.Operand

namespace ActionCode

/-- An opcode with an operand or without. Nothing ties the two together. -/
structure Instruction where
  opcode : Opcode
  operand? : Option Operand
  deriving DecidableEq

abbrev Program := List Instruction

namespace Instruction

def same (a b : Instruction) : Bool :=
  a.opcode = b.opcode && a.operand?.map Operand.canonical = b.operand?.map Operand.canonical

def nop : Instruction := ⟨.nop, none⟩

def comment (text : String) : Instruction := ⟨.comment, some (.str text)⟩

def reserveStack (count : Int64) : Instruction := ⟨.reserveStack, some (.int count)⟩

def reserveRegister (count : Int64) : Instruction := ⟨.reserveRegister, some (.int count)⟩

def set (name : Name) : Instruction := ⟨.set, some (.name name)⟩

def dup (count : Int64) : Instruction := ⟨.dup, some (.int count)⟩

def register (index : Int64) : Instruction := ⟨.register, some (.int index)⟩

def unregister (index : Int64) : Instruction := ⟨.unregister, some (.int index)⟩

def pushRegister (index : Int64) : Instruction := ⟨.pushRegister, some (.int index)⟩

def pushLong (value : Int64) : Instruction := ⟨.pushLong, some (.int value)⟩

def pushDouble (value : Binary64) : Instruction := ⟨.pushDouble, some (.float value)⟩

def pushString (value : String) : Instruction := ⟨.pushString, some (.str value)⟩

def pushBool (value : Bool) : Instruction := ⟨.pushBool, some (.bool value)⟩

def pushUnchecked (operand : Operand) : Instruction := ⟨.pushUnchecked, some operand⟩

def call (name : Name) : Instruction := ⟨.call, some (.name name)⟩

/-- Makes an object; the name's verb is not looked at. -/
def construct (name : Name) : Instruction := ⟨.new, some (.name name)⟩

def pop (count : Int64) : Instruction := ⟨.pop, some (.int count)⟩

end Instruction

def Program.same (a b : Program) : Bool :=
  a.length = b.length && (a.zip b).all fun (x, y) => x.same y

end ActionCode
