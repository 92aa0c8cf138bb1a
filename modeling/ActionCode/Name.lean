import ActionCode.Text.Split

namespace ActionCode

inductive Verb where
  | get
  | set
  | new
  deriving DecidableEq, Repr

inductive NameError where
  | unknownVerb (word : String)
  | missingVerb (text : String)
  | missingMember (text : String)
  | emptyComponent (text : String)
  deriving DecidableEq, Repr

def NameError.message : NameError → String
  | .unknownVerb word => s!"unknown action verb '{word}'"
  | .missingVerb text => s!"missing verb separator in '{text}'"
  | .missingMember text => s!"missing member in '{text}'"
  | .emptyComponent text => s!"empty component in '{text}'"

def Verb.text : Verb → String
  | .get => "get"
  | .set => "set"
  | .new => "new"

def Verb.parse (word : String) : Except NameError Verb :=
  if word = "get" then .ok .get
  else if word = "set" then .ok .set
  else if word = "new" then .ok .new
  else .error (.unknownVerb word)

theorem Verb.parse_text (verb : Verb) : Verb.parse verb.text = .ok verb := by
  cases verb <;> rfl

/-- The name of a host action: reading or writing a member of a type, or making
an object of a type. Its parts may be any text. -/
inductive Name where
  | getter (type member : String)
  | setter (type member : String)
  | constructor (type : String)
  deriving DecidableEq, Repr

namespace Name

def verb : Name → Verb
  | .getter _ _ => .get
  | .setter _ _ => .set
  | .constructor _ => .new

def type : Name → String
  | .getter type _ | .setter type _ | .constructor type => type

def member? : Name → Option String
  | .getter _ member | .setter _ member => some member
  | .constructor _ => none

def target : Name → String
  | .getter type member | .setter type member => type ++ "::" ++ member
  | .constructor type => type

def text (name : Name) : String :=
  name.verb.text ++ " " ++ name.target

def WellFormed (name : Name) : Prop :=
  name.type ≠ "" ∧ name.member? ≠ some ""

instance (name : Name) : Decidable name.WellFormed :=
  inferInstanceAs (Decidable (_ ∧ _))

/-- Takes a target apart at its last `::`; `full` is the text to blame. -/
def splitTarget (full target : String) : Except NameError (String × String) :=
  match Text.splitLastPath target.toList with
  | none => .error (.missingMember full)
  | some (type, member) =>
    if type = [] ∨ member = [] then .error (.emptyComponent full)
    else .ok (String.ofList type, String.ofList member)

def ofTarget (verb : Verb) (target : String) : Except NameError Name :=
  let full := verb.text ++ " " ++ target
  match verb with
  | .get => (splitTarget full target).map fun (type, member) => .getter type member
  | .set => (splitTarget full target).map fun (type, member) => .setter type member
  | .new => if target = "" then .error (.emptyComponent full) else .ok (.constructor target)

/-- Reads a verb, a space and a target. An unknown verb counts before anything
that is wrong with the target. -/
def parse (text : String) : Except NameError Name :=
  match Text.splitFirst ' ' text.toList with
  | none => .error (.missingVerb text)
  | some (word, target) => do
    let verb ← Verb.parse (String.ofList word)
    ofTarget verb (String.ofList target)

end Name

end ActionCode
