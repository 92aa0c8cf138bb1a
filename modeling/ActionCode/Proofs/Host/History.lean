import ActionCode.Host
import ActionCode.Proofs.Registry.History

namespace ActionCode

namespace Host

/-- The change to the registry that a request asks for. An action that it
brings along is made with the serial number at hand. -/
def Request.change? (serial : Nat) : Request → Option (Registry.Change Stack)
  | .registerGetter type member arity script =>
    some (.registerGetter type member arity ⟨serial, Command.run script⟩)
  | .registerSetter type member arity script =>
    some (.registerSetter type member arity ⟨serial, Command.run script⟩)
  | .registerConstructor type script =>
    some (.registerConstructor type ⟨serial, Command.run script⟩)
  | .unregisterGetter type member => some (.unregisterGetter type member)
  | .unregisterSetter type member => some (.unregisterSetter type member)
  | .unregisterConstructor type => some (.unregisterConstructor type)
  | .clear => some .clear
  | .lookup _ | .find _ | .call _ | .callText _ | .names | .describe | .save .. | .make ..
  | .callHandle _ | .same .. | .describeHandle _ => none

def Request.makesAction : Request → Bool
  | .registerGetter .. | .registerSetter .. | .registerConstructor .. | .make .. => true
  | .unregisterGetter .. | .unregisterSetter .. | .unregisterConstructor _ | .clear | .lookup _
  | .find _ | .call _ | .callText _ | .names | .describe | .save .. | .callHandle _ | .same ..
  | .describeHandle _ => false

def changes : Nat → List Request → List (Registry.Change Stack)
  | _, [] => []
  | serial, request :: rest =>
    (request.change? serial).toList ++ changes (serial + request.makesAction.toNat) rest

theorem withHandle_registry (h : Host) (handle : String)
    {act : Action Stack → Outcome Host (Except Error Reply)}
    (hact : ∀ action,
      (act action).state.registry = h.registry ∧ (act action).state.serial = h.serial) :
    (h.withHandle handle act).state.registry = h.registry ∧
      (h.withHandle handle act).state.serial = h.serial := by
  rw [withHandle]
  cases h.handles.find? handle with
  | none => exact ⟨rfl, rfl⟩
  | some action => exact hact action

/-- Nothing but the changes touches the registry; calls and lookups do not. -/
theorem step_registry (h : Host) (request : Request) :
    (h.step request).state.registry =
        Outcome.final Registry.step h.registry (request.change? h.serial).toList ∧
      (h.step request).state.serial = h.serial + request.makesAction.toNat := by
  cases request with
  | callText text =>
    simp only [step]
    split <;> exact ⟨rfl, rfl⟩
  | save name handle =>
    simp only [step]
    split <;> exact ⟨rfl, rfl⟩
  | callHandle handle => exact h.withHandle_registry handle fun action => ⟨rfl, rfl⟩
  | same a b =>
    exact h.withHandle_registry a fun left => h.withHandle_registry b fun right => ⟨rfl, rfl⟩
  | describeHandle handle => exact h.withHandle_registry handle fun action => ⟨rfl, rfl⟩
  | _ => exact ⟨rfl, rfl⟩

theorem final_registry (h : Host) (requests : List Request) :
    (Outcome.final step h requests).registry =
      Outcome.final Registry.step h.registry (changes h.serial requests) := by
  induction requests generalizing h with
  | nil => rfl
  | cons request rest ih =>
    obtain ⟨hregistry, hserial⟩ := h.step_registry request
    rw [Outcome.final_cons, ih, hregistry, hserial, changes, Outcome.final_append]

end Host

/-- A registry that is changed any number of times reflects these changes, and
so does that of a host, whatever is looked up, called or saved in between. -/
theorem Registry.reflects_history :
    (∀ (κ : Type) (changes : List (Change κ)), (after changes).Reflects changes) ∧
      ∀ requests : List Host.Request,
        (Outcome.final Host.step .empty requests).registry.Reflects (Host.changes 0 requests) := by
  refine ⟨fun κ => reflects_after, fun requests => ?_⟩
  rw [Host.final_registry]
  exact reflects_after _

end ActionCode
