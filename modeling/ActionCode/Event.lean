import ActionCode.Listing.Reader
import ActionCode.Options

namespace ActionCode

inductive EmitError where
  | io (message : String)
  | closed
  deriving DecidableEq, Repr

def EmitError.message : EmitError → String
  | .io message => s!"failed to write IR: {message}"
  | .closed => "emitter sink is closed"

inductive Event where
  | registeringAction (name : Name) (arity : Nat)
  | replacingAction (name : Name)
  | arityConflict (name : Name) (existing requested kept : Nat)
  | skippingAction (name : Name)
  | registeringConstructor (name : Name)
  | replacingConstructor (name : Name)
  | skippingConstructor (name : Name)
  | unregisteredAction (name : Name)
  | unregisteredConstructor (name : Name)
  | clearingRegistry (actions : Nat)
  | emittedHeader (mode : Mode)
  | emitted (count : Nat) (mode : Mode)
  | openedTarget (path : String) (mode : WriteMode)
  | flushFailed (error : EmitError)
  | unknownOpcode (code offset : Nat)
  deriving DecidableEq, Repr

inductive Level where
  | debug
  | info
  | warn
  | error
  deriving DecidableEq, Repr

def Level.text : Level → String
  | .debug => "DEBUG"
  | .info => "INFO"
  | .warn => "WARN"
  | .error => "ERROR"

namespace Event

def level : Event → Level
  | registeringAction .. | registeringConstructor .. | unregisteredAction ..
  | unregisteredConstructor .. | clearingRegistry .. | openedTarget .. => .debug
  | emittedHeader .. | emitted .. => .info
  | replacingAction .. | arityConflict .. | skippingAction .. | replacingConstructor ..
  | skippingConstructor .. => .warn
  | flushFailed .. | unknownOpcode .. => .error

def message : Event → String
  | registeringAction .. => "registering action"
  | replacingAction .. => "action already registered, replacing callback"
  | arityConflict .. => "arity conflict on re-registration, keeping the larger value"
  | skippingAction .. => "skipping registration with an empty type or member name"
  | registeringConstructor .. => "registering constructor"
  | replacingConstructor .. => "constructor already registered, replacing callback"
  | skippingConstructor .. => "skipping constructor registration with an empty type name"
  | unregisteredAction .. => "unregistered action"
  | unregisteredConstructor .. => "unregistered constructor"
  | clearingRegistry .. => "clearing action registry"
  | emittedHeader .. => "emitted bytecode IR (header only)"
  | emitted .. => "emitted bytecode IR"
  | openedTarget .. => "opened IR target"
  | flushFailed .. => "failed to flush IR sink on drop"
  | unknownOpcode .. => "unknown opcode in IR"

/-- The named values of an event, as text. A path is left out, since it is another one on
another machine. -/
def fields : Event → List (String × String)
  | registeringAction name arity => [("name", name.text), ("arity", toString arity)]
  | arityConflict name existing requested kept =>
    [("name", name.text), ("existing", toString existing), ("requested", toString requested),
      ("kept", toString kept)]
  | replacingAction name | skippingAction name | registeringConstructor name
  | replacingConstructor name | skippingConstructor name | unregisteredAction name
  | unregisteredConstructor name => [("name", name.text)]
  | clearingRegistry actions => [("actions", toString actions)]
  | emittedHeader mode => [("count", "0"), ("mode", mode.title)]
  | emitted count mode => [("count", toString count), ("mode", mode.title)]
  | openedTarget _ mode => [("write_mode", mode.title)]
  | flushFailed error => [("err", error.message)]
  | unknownOpcode code offset => [("code", toString code), ("offset", toString offset)]

def numbers : Event → List (String × Nat)
  | registeringAction _ arity => [("arity", arity)]
  | arityConflict _ existing requested kept =>
    [("existing", existing), ("requested", requested), ("kept", kept)]
  | clearingRegistry actions => [("actions", actions)]
  | emittedHeader _ => [("count", 0)]
  | emitted count _ => [("count", count)]
  | unknownOpcode code offset => [("code", code), ("offset", offset)]
  | replacingAction _ | skippingAction _ | registeringConstructor _ | replacingConstructor _
  | skippingConstructor _ | unregisteredAction _ | unregisteredConstructor _ | openedTarget ..
  | flushFailed _ => []

/-- A number is shown in decimal, and nothing else is shown under its label. -/
theorem mem_fields_iff_of_number {e : Event} {label : String} {n : Nat}
    (h : (label, n) ∈ e.numbers) (text : String) :
    (label, text) ∈ e.fields ↔ text = toString n := by
  cases e with
  | registeringAction | clearingRegistry | emitted =>
    obtain ⟨rfl, rfl⟩ := Prod.mk.inj (List.mem_singleton.mp h)
    simp [fields]
  | emittedHeader =>
    obtain ⟨rfl, rfl⟩ := Prod.mk.inj (List.mem_singleton.mp h)
    have hzero : "0" = Nat.repr 0 := rfl
    simp [fields, hzero]
  | unknownOpcode =>
    simp only [numbers, List.mem_cons, Prod.mk.injEq, List.not_mem_nil, or_false] at h
    obtain ⟨rfl, rfl⟩ | ⟨rfl, rfl⟩ := h <;> simp [fields]
  | arityConflict =>
    simp only [numbers, List.mem_cons, Prod.mk.injEq, List.not_mem_nil, or_false] at h
    obtain ⟨rfl, rfl⟩ | ⟨rfl, rfl⟩ | ⟨rfl, rfl⟩ := h <;> simp [fields]
  | _ => contradiction

end Event

def ReadError.events : ReadError → List Event
  | .unknownOpcode code offset => [.unknownOpcode code offset]
  | _ => []

def Listing.readEvents (text : String) : List Event :=
  match read text with
  | .ok _ => []
  | .error error => error.events

/-- What a request leaves behind: the new state, the answer, and the events on
the way, oldest first. -/
structure Outcome (σ α : Type) where
  state : σ
  answer : α
  events : List Event

def Outcome.trace {σ ρ α : Type} (step : σ → ρ → Outcome σ α) (s : σ) :
    List ρ → List (Outcome σ α)
  | [] => []
  | request :: rest =>
    let outcome := step s request
    outcome :: trace step outcome.state rest

end ActionCode
