import ActionCode.Registry.Basic

namespace ActionCode

namespace Text

/-- A character of a described text. Quotes, backslashes and the control
characters of ASCII are escaped, those without a letter of their own by their
hexadecimal code. Described texts are ASCII, and others are kept as they are. -/
def describeChar : Char → List Char
  | '"' => ['\\', '"']
  | '\\' => ['\\', '\\']
  | '\n' => ['\\', 'n']
  | '\r' => ['\\', 'r']
  | '\t' => ['\\', 't']
  | '\x00' => ['\\', '0']
  | c =>
    if c.toNat < 32 ∨ c.toNat = 127 then
      ['\\', 'u', '\x7b'] ++ Nat.toDigits 16 c.toNat ++ ['\x7d']
    else [c]

def describe (text : String) : String :=
  String.ofList ('"' :: (text.toList.flatMap describeChar ++ ['"']))

def describeFields (title : String) (fields : List (String × String)) : String :=
  let parts := fields.map fun (label, value) => label ++ ": " ++ value
  title ++ " \x7b " ++ ", ".intercalate parts ++ " \x7d"

end Text

def Verb.title : Verb → String
  | .get => "Get"
  | .set => "Set"
  | .new => "New"

def Name.description (name : Name) : String :=
  let member :=
    match name.member? with
    | none => "None"
    | some member => "Some(" ++ Text.describe member ++ ")"
  Text.describeFields "ActionName"
    [("verb", name.verb.title), ("type_name", Text.describe name.type), ("member", member)]

/-- The number of actions and the arity of each name, the newest first. -/
def Registry.description {κ : Type} (r : Registry κ) : String :=
  let arities := r.arities.entries.map fun (name, arity) =>
    name.description ++ ": " ++ toString arity
  Text.describeFields "ActionRegistry"
    [("actions", toString r.size), ("arities", "\x7b" ++ ", ".intercalate arities ++ "\x7d")]

end ActionCode
