import ActionCode.Host
import ActionCode.Proofs.Registry.History

namespace ActionCode

abbrev Callback (κ : Type) := κ → κ × Except ActionError Unit

/-- A registry at work on a context of any kind. Handles hold actions apart from the
registry. -/
structure Dispatcher (κ : Type) where
  registry : Registry κ
  context : κ
  handles : Table String (Action κ)
  /-- The serial number of the next action. -/
  serial : Nat

namespace Registry

variable {κ : Type}

def Registration.numbered (serial : Nat) (g : Registration κ) : Registration κ :=
  ⟨g.arity?, ⟨serial, g.action.run⟩⟩

def Change.numbered (serial : Nat) : Change κ → Change κ
  | .registerGetter type member arity action =>
    .registerGetter type member arity ⟨serial, action.run⟩
  | .registerSetter type member arity action =>
    .registerSetter type member arity ⟨serial, action.run⟩
  | .registerConstructor type action => .registerConstructor type ⟨serial, action.run⟩
  | .unregisterGetter type member => .unregisterGetter type member
  | .unregisterSetter type member => .unregisterSetter type member
  | .unregisterConstructor type => .unregisterConstructor type
  | .clear => .clear

@[simp] theorem Change.name?_numbered (serial : Nat) (change : Change κ) :
    (change.numbered serial).name? = change.name? := by
  cases change <;> rfl

@[simp] theorem Change.registration?_numbered (serial : Nat) (change : Change κ) :
    (change.numbered serial).registration? =
      change.registration?.map (Registration.numbered serial) := by
  cases change <;> rfl

@[simp] theorem Change.removes_numbered (serial : Nat) (change : Change κ) (k : Name) :
    (change.numbered serial).removes k = change.removes k := by
  simp [removes]

@[simp] theorem Change.registers?_numbered (serial : Nat) (change : Change κ) (k : Name) :
    (change.numbered serial).registers? k =
      (change.registers? k).map (Registration.numbered serial) := by
  simp only [registers?, name?_numbered, registration?_numbered]
  split <;> rfl

end Registry

namespace Dispatcher

variable {κ : Type}

/-- A registration brings a callback along. The action that runs it is made by the
request, so that the serial number of the one in the change does not count. -/
inductive Request (κ : Type) where
  | update (change : Registry.Change κ)
  | call (name : Name)
  | save (name : Name) (handle : String)
  | make (handle : String) (callback : Callback κ)
  | callHandle (handle : String)
  | same (a b : String)

def Request.callback? : Request κ → Option (Callback κ)
  | .update change => change.registration?.map fun g => g.action.run
  | .make _ callback => some callback
  | .call _ | .save .. | .callHandle _ | .same .. => none

def Request.makesAction (request : Request κ) : Bool :=
  request.callback?.isSome

/-- Whether a request does no more with actions than run or compare them. -/
def Request.usesActions : Request κ → Bool
  | .call _ | .callHandle _ | .same .. => true
  | .update _ | .save .. | .make .. => false

def start (context : κ) : Dispatcher κ := ⟨.empty, context, .empty, 0⟩

def settle (d : Dispatcher κ) (result : κ × Except ActionError Unit) :
    Outcome (Dispatcher κ) (Except Host.Error Host.Reply) :=
  ⟨{ d with context := result.1 }, (result.2.map fun _ => .done).mapError .action, []⟩

def withHandle (d : Dispatcher κ) (handle : String)
    (act : Action κ → Outcome (Dispatcher κ) (Except Host.Error Host.Reply)) :
    Outcome (Dispatcher κ) (Except Host.Error Host.Reply) :=
  match d.handles.find? handle with
  | none => ⟨d, .error (.unknownHandle handle), []⟩
  | some action => act action

def step (d : Dispatcher κ) (request : Request κ) :
    Outcome (Dispatcher κ) (Except Host.Error Host.Reply) :=
  match request with
  | .update change =>
    let outcome := d.registry.step (change.numbered d.serial)
    let serial := d.serial + request.makesAction.toNat
    ⟨{ d with registry := outcome.state, serial }, .ok .done, outcome.events⟩
  | .call name => d.settle (d.registry.call name d.context)
  | .save name handle =>
    match d.registry.action? name with
    | none => ⟨d, .ok (.flag false), []⟩
    | some action => ⟨{ d with handles := d.handles.insert handle action }, .ok (.flag true), []⟩
  | .make handle callback =>
    let handles := d.handles.insert handle ⟨d.serial, callback⟩
    ⟨{ d with handles, serial := d.serial + 1 }, .ok .done, []⟩
  | .callHandle handle => d.withHandle handle fun action => d.settle (action.run d.context)
  | .same a b =>
    d.withHandle a fun left => d.withHandle b fun right => ⟨d, .ok (.flag (left.same right)), []⟩

def after (context : κ) (run : List (Request κ)) : Dispatcher κ :=
  Outcome.final step (start context) run

@[simp] theorem after_nil (context : κ) : after context [] = start context := rfl

@[simp] theorem after_concat (context : κ) (run : List (Request κ)) (request : Request κ) :
    after context (run ++ [request]) = ((after context run).step request).state := by
  rw [after, Outcome.final_append]
  rfl

theorem withHandle_of_find? {d : Dispatcher κ} {handle : String} {action : Action κ}
    (h : d.handles.find? handle = some action)
    (act : Action κ → Outcome (Dispatcher κ) (Except Host.Error Host.Reply)) :
    d.withHandle handle act = act action := by
  rw [withHandle, h]

theorem exists_context_of_withHandle (d : Dispatcher κ) (handle : String)
    {act : Action κ → Outcome (Dispatcher κ) (Except Host.Error Host.Reply)}
    (hact : ∀ action, ∃ context, (act action).state = { d with context }) :
    ∃ context, (d.withHandle handle act).state = { d with context } := by
  rw [withHandle]
  cases d.handles.find? handle with
  | none => exact ⟨d.context, rfl⟩
  | some action => exact hact action

/-- To use actions changes nothing but the context. -/
theorem exists_context_of_usesActions (d : Dispatcher κ) (request : Request κ)
    (h : request.usesActions = true) : ∃ context, (d.step request).state = { d with context } := by
  cases request with
  | call name => exact ⟨_, rfl⟩
  | callHandle handle => exact d.exists_context_of_withHandle handle fun action => ⟨_, rfl⟩
  | same a b =>
    refine d.exists_context_of_withHandle a fun left => ?_
    exact d.exists_context_of_withHandle b fun right => ⟨d.context, rfl⟩
  | update | save | make => contradiction

theorem serial_step (d : Dispatcher κ) (request : Request κ) :
    (d.step request).state.serial = d.serial + request.makesAction.toNat := by
  cases request with
  | update | make => rfl
  | save name handle =>
    simp only [step]
    split <;> rfl
  | call name => rfl
  | callHandle handle =>
    obtain ⟨context, hstate⟩ := d.exists_context_of_usesActions (.callHandle handle) rfl
    rw [hstate]
    rfl
  | same a b =>
    obtain ⟨context, hstate⟩ := d.exists_context_of_usesActions (.same a b) rfl
    rw [hstate]
    rfl

theorem action?_update (d : Dispatcher κ) (change : Registry.Change κ) (k : Name) :
    (d.step (.update change)).state.registry.action? k =
      if change.removes k then none
      else if k.WellFormed then
        ((change.registers? k).map fun g => ⟨d.serial, g.action.run⟩).or (d.registry.action? k)
      else d.registry.action? k := by
  have hstep := Registry.action?_step d.registry (change.numbered d.serial) k
  rw [Registry.Change.removes_numbered, Registry.Change.registers?_numbered,
    Option.map_map] at hstep
  exact hstep

end Dispatcher

end ActionCode
