import ActionCode.Registry.Description

namespace ActionCode

abbrev Stack := List Int64

inductive Command where
  | push (value : Int64)
  | pop
  | fail (message : String)
  deriving DecidableEq

def Command.run : List Command → Stack → Stack × Except ActionError Unit
  | [], stack => (stack, .ok ())
  | .push value :: rest, stack => run rest (value :: stack)
  | .pop :: rest, _ :: stack => run rest stack
  | .pop :: _, [] => ([], .error (.failed "stack underflow"))
  | .fail message :: _, stack => (stack, .error (.failed message))

/-- A registry at work on a stack. Handles hold actions apart from the registry,
and keep them whatever happens to the names they came from. -/
structure Host where
  registry : Registry Stack
  stack : Stack
  handles : Table String (Action Stack)
  /-- The serial number of the next action. -/
  serial : Nat

namespace Host

inductive Request where
  | registerGetter (type member : String) (arity : Nat) (script : List Command)
  | registerSetter (type member : String) (arity : Nat) (script : List Command)
  | registerConstructor (type : String) (script : List Command)
  | unregisterGetter (type member : String)
  | unregisterSetter (type member : String)
  | unregisterConstructor (type : String)
  | clear
  | lookup (name : Name)
  | find (name : Name)
  | call (name : Name)
  | callText (text : String)
  | names
  | describe
  | save (name : Name) (handle : String)
  | make (handle : String) (script : List Command)
  | callHandle (handle : String)
  | same (a b : String)
  | describeHandle (handle : String)
  deriving DecidableEq

inductive Reply where
  | done
  | flag (value : Bool)
  | entry (contains action : Bool) (arity? : Option Nat)
  | names (texts : List String)
  | description (text : String)
  deriving DecidableEq, Repr

inductive Error where
  | action (error : ActionError)
  | name (error : NameError)
  | unknownHandle (handle : String)
  deriving DecidableEq, Repr

def empty : Host := ⟨.empty, [], .empty, 0⟩

def newAction (h : Host) (script : List Command) : Action Stack :=
  ⟨h.serial, Command.run script⟩

def change (h : Host) (change : Registry.Change Stack) : Outcome Host (Except Error Reply) :=
  let outcome := h.registry.step change
  ⟨{ h with registry := outcome.state }, .ok .done, outcome.events⟩

/-- Registers a new action. It has its own serial number even if the registry
leaves it out. -/
def register (h : Host) (script : List Command) (entry : Action Stack → Registry.Change Stack) :
    Outcome Host (Except Error Reply) :=
  { h with serial := h.serial + 1 }.change (entry (h.newAction script))

def settle (h : Host) (result : Stack × Except ActionError Unit) :
    Outcome Host (Except Error Reply) :=
  ⟨{ h with stack := result.1 }, (result.2.map fun _ => .done).mapError .action, []⟩

def withHandle (h : Host) (handle : String)
    (act : Action Stack → Outcome Host (Except Error Reply)) : Outcome Host (Except Error Reply) :=
  match h.handles.find? handle with
  | none => ⟨h, .error (.unknownHandle handle), []⟩
  | some action => act action

def step (h : Host) : Request → Outcome Host (Except Error Reply)
  | .registerGetter type member arity script =>
    h.register script (.registerGetter type member arity)
  | .registerSetter type member arity script =>
    h.register script (.registerSetter type member arity)
  | .registerConstructor type script => h.register script (.registerConstructor type)
  | .unregisterGetter type member => h.change (.unregisterGetter type member)
  | .unregisterSetter type member => h.change (.unregisterSetter type member)
  | .unregisterConstructor type => h.change (.unregisterConstructor type)
  | .clear => h.change .clear
  | .lookup name =>
    let r := h.registry
    ⟨h, .ok (.entry (r.contains name) (r.action? name).isSome (r.arity? name)), []⟩
  | .find name => ⟨h, .ok (.flag (h.registry.action? name).isSome), []⟩
  | .call name => h.settle (h.registry.call name h.stack)
  | .callText text =>
    match Name.parse text with
    | .error error => ⟨h, .error (.name error), []⟩
    | .ok name => h.settle (h.registry.call name h.stack)
  | .names => ⟨h, .ok (.names h.registry.sortedTexts), []⟩
  | .describe => ⟨h, .ok (.description h.registry.description), []⟩
  | .save name handle =>
    match h.registry.action? name with
    | none => ⟨h, .ok (.flag false), []⟩
    | some action => ⟨{ h with handles := h.handles.insert handle action }, .ok (.flag true), []⟩
  | .make handle script =>
    let handles := h.handles.insert handle (h.newAction script)
    ⟨{ h with handles, serial := h.serial + 1 }, .ok .done, []⟩
  | .callHandle handle => h.withHandle handle fun action => h.settle (action.run h.stack)
  | .same a b =>
    h.withHandle a fun left => h.withHandle b fun right => ⟨h, .ok (.flag (left.same right)), []⟩
  | .describeHandle handle =>
    h.withHandle handle fun action => ⟨h, .ok (.description action.description), []⟩

end Host

end ActionCode
