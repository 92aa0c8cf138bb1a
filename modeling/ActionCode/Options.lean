namespace ActionCode

/-- How a program is listed: a line with a remark for each instruction, or one
stream without remarks. -/
inductive Mode where
  | annotated
  | compact
  deriving DecidableEq, Repr

inductive WriteMode where
  | truncate
  | append
  deriving DecidableEq, Repr

structure Options where
  mode : Mode := .annotated
  writeMode : WriteMode := .truncate
  deriving DecidableEq, Repr

namespace Mode

def ofRemarks (remarks : Bool) : Mode :=
  if remarks then .annotated else .compact

def hasRemarks : Mode → Bool
  | .annotated => true
  | .compact => false

def title : Mode → String
  | .annotated => "Annotated"
  | .compact => "Compact"

end Mode

def WriteMode.title : WriteMode → String
  | .truncate => "Truncate"
  | .append => "Append"

end ActionCode
