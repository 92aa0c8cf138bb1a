import ActionCode.Listing.Remark
import ActionCode.Options

namespace ActionCode.Listing

def generatedLine : String :=
  "// This file is generated from compiled bytecode. Do not edit it by hand."

def overwriteLine : String :=
  "// Any changes will be overwritten the next time the bytecode is regenerated."

def parameterWidth : Nat := 50

def remarkWidth : Nat := 10

def blanks (n : Nat) : String :=
  String.ofList (List.replicate n ' ')

def padRight (width : Nat) (text : String) : String :=
  text ++ blanks (width - text.length)

def padLeft (width : Nat) (text : String) : String :=
  blanks (width - text.length) ++ text

def codeText (opcode : Opcode) : String :=
  String.ofList (Nat.toDigits 10 opcode.code)

def wideCodeText (opcode : Opcode) : String :=
  if opcode.code < 10 then "0" ++ codeText opcode else codeText opcode

def annotatedLine (i : Instruction) : String :=
  wideCodeText i.opcode ++ ";" ++ padRight parameterWidth i.parameter ++ ";" ++
    padLeft remarkWidth i.remark ++ "\n"

def compactUnit (i : Instruction) : String :=
  codeText i.opcode ++ " " ++ i.parameter

/-- A comma and a space end every unit but the last, which ends with a space. -/
def compactPieces : Program → List String
  | [] => []
  | [i] => [compactUnit i, " "]
  | i :: rest => compactUnit i :: ", " :: compactPieces rest

def bodyPieces (mode : Mode) (program : Program) : List String :=
  match mode with
  | .annotated => program.map annotatedLine
  | .compact => compactPieces program

def headerPieces : List String :=
  [generatedLine, "\n", overwriteLine, "\n"]

/-- The pieces in which a listing is written, one after the other. Where there
is no program the header stands alone. -/
def pieces (mode : Mode) (program : Option Program) : List String :=
  headerPieces ++ (program.map (bodyPieces mode)).getD []

def text (mode : Mode) (program : Option Program) : String :=
  String.join (pieces mode program)

end ActionCode.Listing
