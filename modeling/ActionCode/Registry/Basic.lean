import ActionCode.Action
import ActionCode.Event
import ActionCode.Table

namespace ActionCode

/-- The actions of a host under their names. Getters and setters have an arity,
the number of values they push or pop; constructors have none. -/
structure Registry (κ : Type) where
  actions : Table Name (Action κ)
  arities : Table Name Nat

namespace Registry

variable {κ : Type}

def empty : Registry κ := ⟨.empty, .empty⟩

inductive Change (κ : Type) where
  | registerGetter (type member : String) (arity : Nat) (action : Action κ)
  | registerSetter (type member : String) (arity : Nat) (action : Action κ)
  | registerConstructor (type : String) (action : Action κ)
  | unregisterGetter (type member : String)
  | unregisterSetter (type member : String)
  | unregisterConstructor (type : String)
  | clear

/-- Enters an action with an arity. The newest action counts, but the greatest
arity of all that were asked for. A name with an empty part is left out. -/
def registerMember (r : Registry κ) (name : Name) (arity : Nat) (action : Action κ) :
    Outcome (Registry κ) Unit :=
  if name.WellFormed then
    let replacing := if r.actions.contains name then [.replacingAction name] else []
    let (kept, conflict) :=
      match r.arities.find? name with
      | none => (arity, [])
      | some existing =>
        let kept := max existing arity
        (kept, if existing = arity then [] else [.arityConflict name existing arity kept])
    ⟨⟨r.actions.insert name action, r.arities.insert name kept⟩, (),
      .registeringAction name arity :: (replacing ++ conflict)⟩
  else ⟨r, (), [.skippingAction name]⟩

def registerConstructor (r : Registry κ) (name : Name) (action : Action κ) :
    Outcome (Registry κ) Unit :=
  if name.WellFormed then
    let replacing := if r.actions.contains name then [.replacingConstructor name] else []
    ⟨⟨r.actions.insert name action, r.arities⟩, (), .registeringConstructor name :: replacing⟩
  else ⟨r, (), [.skippingConstructor name]⟩

def unregisterMember (r : Registry κ) (name : Name) : Outcome (Registry κ) Unit :=
  let removed := r.actions.contains name || r.arities.contains name
  ⟨⟨r.actions.erase name, r.arities.erase name⟩, (),
    if removed then [.unregisteredAction name] else []⟩

def unregisterConstructor (r : Registry κ) (name : Name) : Outcome (Registry κ) Unit :=
  ⟨⟨r.actions.erase name, r.arities⟩, (),
    if r.actions.contains name then [.unregisteredConstructor name] else []⟩

def step (r : Registry κ) : Change κ → Outcome (Registry κ) Unit
  | .registerGetter type member arity action => r.registerMember (.getter type member) arity action
  | .registerSetter type member arity action => r.registerMember (.setter type member) arity action
  | .registerConstructor type action => r.registerConstructor (.constructor type) action
  | .unregisterGetter type member => r.unregisterMember (.getter type member)
  | .unregisterSetter type member => r.unregisterMember (.setter type member)
  | .unregisterConstructor type => r.unregisterConstructor (.constructor type)
  | .clear => ⟨empty, (), [.clearingRegistry r.actions.size]⟩

def action? (r : Registry κ) (name : Name) : Option (Action κ) :=
  r.actions.find? name

def arity? (r : Registry κ) (name : Name) : Option Nat :=
  r.arities.find? name

def contains (r : Registry κ) (name : Name) : Bool :=
  r.actions.contains name

def size (r : Registry κ) : Nat :=
  r.actions.size

def names (r : Registry κ) : List Name :=
  r.actions.keys

def sortedTexts (r : Registry κ) : List String :=
  (r.names.map Name.text).mergeSort fun a b => decide (a ≤ b)

def call (r : Registry κ) (name : Name) (context : κ) : κ × Except ActionError Unit :=
  match r.action? name with
  | none => (context, .error (.notRegistered name))
  | some action => action.run context

end Registry

end ActionCode
