import ActionCode.Name

namespace ActionCode

inductive Opcode where
  | nop
  | comment
  | reserveStack
  | reserveRegister
  | set
  | dup
  | register
  | unregister
  | pushRegister
  | pushLong
  | pushDouble
  | pushString
  | pushBool
  | pushUnchecked
  | call
  | new
  | pop
  deriving DecidableEq, Repr

/-- The operands an opcode is meant for; names are those with one verb. -/
inductive OperandKind where
  | none
  | int
  | float
  | str
  | bool
  | name (verb : Verb)
  | any
  deriving DecidableEq, Repr

namespace Opcode

/-- All opcodes; an opcode's code is its place in this list. -/
def all : List Opcode :=
  [nop, comment, reserveStack, reserveRegister, set, dup, register, unregister, pushRegister,
    pushLong, pushDouble, pushString, pushBool, pushUnchecked, call, new, pop]

def code : Opcode → Nat
  | nop => 0
  | comment => 1
  | reserveStack => 2
  | reserveRegister => 3
  | set => 4
  | dup => 5
  | register => 6
  | unregister => 7
  | pushRegister => 8
  | pushLong => 9
  | pushDouble => 10
  | pushString => 11
  | pushBool => 12
  | pushUnchecked => 13
  | call => 14
  | new => 15
  | pop => 16

def ofCode? (code : Nat) : Option Opcode :=
  all[code]?

@[simp] theorem ofCode?_code (opcode : Opcode) : ofCode? opcode.code = some opcode := by
  cases opcode <;> rfl

theorem code_getElem_all (n : Nat) (h : n < all.length) : (all.get ⟨n, h⟩).code = n := by
  have hall : ∀ k : Fin all.length, (all.get k).code = k.val := by decide
  exact hall ⟨n, h⟩

theorem code_of_ofCode? {n : Nat} {opcode : Opcode} (h : ofCode? n = some opcode) :
    opcode.code = n := by
  obtain ⟨hn, rfl⟩ := List.getElem?_eq_some_iff.mp h
  exact code_getElem_all n hn

def mnemonic : Opcode → String
  | nop => "NOP"
  | comment => "COMMENT"
  | reserveStack => "RESERVE_STACK"
  | reserveRegister => "RESERVE_REGISTER"
  | set => "SET"
  | dup => "DUP"
  | register => "REGISTER"
  | unregister => "UNREGISTER"
  | pushRegister => "PUSH_REGISTER"
  | pushLong => "PUSH_LONG"
  | pushDouble => "PUSH_DOUBLE"
  | pushString => "PUSH_STRING"
  | pushBool => "PUSH_BOOL"
  | pushUnchecked => "PUSH_UNCHECKED"
  | call => "CALL"
  | new => "NEW"
  | pop => "POP"

def title : Opcode → String
  | nop => "Nop"
  | comment => "Comment"
  | reserveStack => "ReserveStack"
  | reserveRegister => "ReserveRegister"
  | set => "Set"
  | dup => "Dup"
  | register => "Register"
  | unregister => "Unregister"
  | pushRegister => "PushRegister"
  | pushLong => "PushLong"
  | pushDouble => "PushDouble"
  | pushString => "PushString"
  | pushBool => "PushBool"
  | pushUnchecked => "PushUnchecked"
  | call => "Call"
  | new => "New"
  | pop => "Pop"

def kind : Opcode → OperandKind
  | nop => .none
  | comment | pushString => .str
  | reserveStack | reserveRegister | dup | register | unregister | pushRegister | pushLong | pop =>
    .int
  | pushDouble => .float
  | pushBool => .bool
  | pushUnchecked => .any
  | set => .name .set
  | call => .name .get
  | new => .name .new

def verb? (opcode : Opcode) : Option Verb :=
  match opcode.kind with
  | .name verb => some verb
  | _ => none

end Opcode

end ActionCode
