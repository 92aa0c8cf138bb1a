import ActionCode.Name

namespace ActionCode

inductive ActionError where
  | notRegistered (name : Name)
  | failed (message : String)
  deriving DecidableEq, Repr

def ActionError.message : ActionError → String
  | .notRegistered name => s!"no action registered for '{name.text}'"
  | .failed message => s!"action failed: {message}"

/-- A callback of the host on contexts in `κ`. It changes the context even where
it fails. The serial number tells when it was made: copies of an action share
it, and two actions that do the same do not. -/
structure Action (κ : Type) where
  serial : Nat
  run : κ → κ × Except ActionError Unit

def Action.same {κ : Type} (a b : Action κ) : Bool :=
  a.serial = b.serial

def Action.description {κ : Type} (_ : Action κ) : String :=
  "NativeAction \x7b .. \x7d"

end ActionCode
