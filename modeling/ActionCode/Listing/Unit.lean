import ActionCode.Instruction
import ActionCode.Listing.ReadError
import ActionCode.Text.Bytes
import ActionCode.Text.Quoted

namespace ActionCode.Listing

def isBlank (c : Char) : Bool :=
  c = ' ' || c = '\t' || c = '\n' || c = '\x0c' || c = '\r'

def skipTrivia (inComment : Bool) : List Char → List Char
  | [] => []
  | c :: rest =>
    if inComment then skipTrivia (c ≠ '\n') rest
    else if isBlank c then skipTrivia false rest
    else
      match c, rest with
      | '/', '/' :: line => skipTrivia true line
      | _, _ => c :: rest

theorem length_skipTrivia_le (inComment : Bool) (text : List Char) :
    (skipTrivia inComment text).length ≤ text.length := by
  fun_induction skipTrivia inComment text <;> grind

inductive WrittenParameter where
  | quoted (text : List Char)
  | bare (token : List Char)
  deriving DecidableEq, Repr

def offset (text rest : List Char) : Nat :=
  Text.byteLength text - Text.byteLength rest

/-- Reads a run of digits as an opcode's code. A code is reported up to 32 bits,
and a greater one as the greatest of these. -/
def readOpcode (text : List Char) : Except ReadError (Opcode × List Char) :=
  let digits := text.takeWhile Char.isDigit
  let code := Nat.ofDigitChars 10 digits 0
  if digits = [] then .error (.expectedOpcode 0)
  else
    match Opcode.ofCode? code with
    | none => .error (.unknownOpcode (min code (UInt32.size - 1)) 0)
    | some opcode => .ok (opcode, text.dropWhile Char.isDigit)

def readGap : List Char → Except ReadError (List Char)
  | ' ' :: rest => .ok rest
  | _ => .error (.expectedOperand 0)

def isBare (c : Char) : Bool :=
  c ≠ ',' && !isBlank c

/-- Reads a literal or a bare token. Only an opcode that takes any operand may
have an empty token. -/
def readParameter (opcode : Opcode) : List Char → Except ReadError (WrittenParameter × List Char)
  | '"' :: body =>
    match Text.Quoted.decode body with
    | none => .error (.unterminatedString 0)
    | some (text, rest) => .ok (.quoted text, rest)
  | text =>
    let token := text.takeWhile isBare
    if token = [] ∧ opcode.kind ≠ .any then .error (.expectedOperand 0)
    else .ok (.bare token, text.dropWhile isBare)

/-- Takes a comma, and leaves a blank where it is. -/
def readSeparator : List Char → Except ReadError (List Char)
  | [] => .ok []
  | c :: rest =>
    if c = ',' then .ok rest
    else if isBlank c then .ok (c :: rest)
    else .error (.expectedSeparator 0)

def placeholder : List Char := ['0']

/-- The operand that a bare token stands for. Integers have precedence over the
placeholder, and so has the guess at an operand of any kind. -/
def bareOperand (opcode : Opcode) (token : List Char) : Except ReadError (Option Operand) :=
  let invalid : ReadError := .invalidOperand (String.ofList token) opcode
  let known (operand? : Option Operand) : Except ReadError (Option Operand) :=
    if operand?.isSome then .ok operand? else .error invalid
  match opcode.kind with
  | .none => .ok none
  | .any => .ok (some (.infer token))
  | .int => known ((Numeral.readInt64? token).map .int)
  | .float => if token = placeholder then .ok none else known ((Binary64.read? token).map .float)
  | .bool => if token = placeholder then .ok none else known ((Operand.readBool? token).map .bool)
  | .str => if token = placeholder then .ok none else .error invalid
  | .name verb =>
    if token = placeholder then .ok none
    else
      match Name.ofTarget verb (String.ofList token) with
      | .ok name => .ok (some (.name name))
      | .error error => .error (.name error)

def quotedOperand (opcode : Opcode) (text : List Char) : Except ReadError (Option Operand) :=
  match opcode.kind with
  | .none => .ok none
  | .str | .any => .ok (some (.str (String.ofList text)))
  | _ => .error (.invalidOperand (String.ofList text) opcode)

def WrittenParameter.operand (opcode : Opcode) :
    WrittenParameter → Except ReadError (Option Operand)
  | .quoted text => quotedOperand opcode text
  | .bare token => bareOperand opcode token

/-- Reads one instruction and what separates it from the next. Whether the
operand is right counts only when the separator is. -/
def readUnit (text : List Char) : Except ReadError (Instruction × List Char) := do
  let (opcode, gap) ← readOpcode text
  let start ← (readGap gap).mapError (·.shift (offset text gap))
  let (parameter, stop) ← (readParameter opcode start).mapError (·.shift (offset text start))
  let rest ← (readSeparator stop).mapError (·.shift (offset text stop))
  let operand? ← parameter.operand opcode
  return (⟨opcode, operand?⟩, rest)

theorem length_le_of_readOpcode {text gap : List Char} {opcode : Opcode}
    (h : readOpcode text = .ok (opcode, gap)) : gap.length ≤ text.length := by
  unfold readOpcode at h
  dsimp only at h
  split at h
  · contradiction
  · split at h
    · contradiction
    · cases h
      exact (List.dropWhile_suffix _).length_le

theorem length_lt_of_readGap {gap start : List Char} (h : readGap gap = .ok start) :
    start.length < gap.length := by
  unfold readGap at h
  split at h
  · cases h
    simp
  · contradiction

theorem length_le_of_readParameter {opcode : Opcode} {start stop : List Char}
    {parameter : WrittenParameter} (h : readParameter opcode start = .ok (parameter, stop)) :
    stop.length ≤ start.length := by
  unfold readParameter at h
  split at h
  · split at h
    · contradiction
    · rename_i hd
      cases h
      have := Text.Quoted.length_lt_of_decode hd
      simp only [List.length_cons]
      omega
  · dsimp only at h
    split at h
    · contradiction
    · cases h
      exact (List.dropWhile_suffix _).length_le

theorem length_le_of_readSeparator {stop rest : List Char} (h : readSeparator stop = .ok rest) :
    rest.length ≤ stop.length := by
  unfold readSeparator at h
  split at h
  · cases h
    simp
  · split at h
    · cases h
      simp
    · split at h
      · cases h
        simp
      · contradiction

@[simp] theorem mapError_ok {α ε ε' : Type} (f : ε → ε') (a : α) :
    (Except.ok a).mapError f = .ok a := rfl

@[simp] theorem mapError_error {α ε ε' : Type} (f : ε → ε') (error : ε) :
    (Except.error error : Except ε α).mapError f = .error (f error) := rfl

theorem mapError_eq_ok_iff {α : Type} {f : ReadError → ReadError} {x : Except ReadError α} {a : α} :
    x.mapError f = .ok a ↔ x = .ok a := by
  cases x <;> simp

theorem bind_eq_ok_iff {α β : Type} {x : Except ReadError α} {f : α → Except ReadError β} {b : β} :
    x >>= f = .ok b ↔ ∃ a, x = .ok a ∧ f a = .ok b := by
  cases x <;> simp [bind, Except.bind]

theorem length_lt_of_readUnit {text rest : List Char} {i : Instruction}
    (h : readUnit text = .ok (i, rest)) : rest.length < text.length := by
  obtain ⟨⟨opcode, gap⟩, hopcode, h⟩ := bind_eq_ok_iff.mp h
  obtain ⟨start, hgap, h⟩ := bind_eq_ok_iff.mp h
  obtain ⟨⟨parameter, stop⟩, hparameter, h⟩ := bind_eq_ok_iff.mp h
  obtain ⟨after, hseparator, h⟩ := bind_eq_ok_iff.mp h
  obtain ⟨operand?, -, h⟩ := bind_eq_ok_iff.mp h
  cases h
  have h₁ := length_le_of_readOpcode hopcode
  have h₂ := length_lt_of_readGap (mapError_eq_ok_iff.mp hgap)
  have h₃ := length_le_of_readParameter (mapError_eq_ok_iff.mp hparameter)
  have h₄ := length_le_of_readSeparator (mapError_eq_ok_iff.mp hseparator)
  omega

end ActionCode.Listing
