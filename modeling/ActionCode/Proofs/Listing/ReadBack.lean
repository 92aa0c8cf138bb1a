import ActionCode.Listing.Remark
import ActionCode.Proofs.Listing.Unit

namespace ActionCode.Instruction

/-- A parameter shows by itself where it ends: as a literal, or as a bare text,
which is empty only where a parameter may be. -/
def Delimited (i : Instruction) : Prop :=
  (i.opcode = .comment ∨ i.opcode = .pushString) ∨
    (Listing.Bare i.parameter.toList ∧ (i.parameter ≠ "" ∨ i.opcode = .pushUnchecked))

instance (i : Instruction) : Decidable i.Delimited :=
  inferInstanceAs (Decidable (_ ∨ _))

def orInvalid (i : Instruction) : Option Operand → Except ReadError (Option Operand)
  | some operand => .ok (some operand)
  | none => .error (.invalidOperand i.parameter i.opcode)

def operandBack (i : Instruction) : Except ReadError (Option Operand) :=
  let token := i.parameter.toList
  match i.opcode.kind with
  | .none => .ok none
  | .str => .ok (i.operand?.map fun operand => .str operand.text)
  | .int => i.orInvalid ((Numeral.readInt64? token).map .int)
  | .float =>
    if i.parameter = "0" then .ok none else i.orInvalid ((Binary64.read? token).map .float)
  | .bool =>
    if i.parameter = "0" then .ok none else i.orInvalid ((Operand.readBool? token).map .bool)
  | .name verb =>
    if i.parameter = "0" then .ok none
    else ((Name.ofTarget verb i.parameter).map fun name => some (.name name)).mapError .name
  | .any =>
    let literal? := (Numeral.readInt64? token).map Operand.int <|>
      (Binary64.read? token).map Operand.float <|> (Operand.readBool? token).map Operand.bool
    .ok (some (literal?.getD (.str i.parameter)))

def readBack (i : Instruction) : Except ReadError Instruction :=
  i.operandBack.map fun operand? => ⟨i.opcode, operand?⟩

def written (i : Instruction) : Listing.WrittenParameter :=
  match i.opcode.kind, i.operand? with
  | .str, some operand => .quoted operand.text.toList
  | _, _ => .bare i.parameter.toList

theorem parameter_of_none {i : Instruction} (h : i.operand? = none) : i.parameter = "0" := by
  simp [parameter, h]

theorem kind_eq_str_iff {opcode : Opcode} :
    opcode.kind = .str ↔ opcode = .comment ∨ opcode = .pushString := by
  cases opcode <;> simp [Opcode.kind]

theorem parameter_of_str {i : Instruction} (hkind : i.opcode.kind = .str) {operand : Operand}
    (h : i.operand? = some operand) :
    i.parameter.toList = Text.Quoted.encode operand.text.toList := by
  obtain ⟨opcode, operand?⟩ := i
  obtain rfl : operand? = some operand := h
  obtain rfl | rfl := kind_eq_str_iff.mp hkind <;> simp [parameter]

theorem written_of_str {i : Instruction} (hkind : i.opcode.kind = .str) {operand : Operand}
    (h : i.operand? = some operand) : i.written = .quoted operand.text.toList := by
  simp [written, hkind, h]

theorem written_of_bare {i : Instruction} (h : i.opcode.kind ≠ .str ∨ i.operand? = none) :
    i.written = .bare i.parameter.toList := by
  rw [written]
  split
  · simp_all
  · rfl

theorem literal_escape_append (c : Char) {written text : List Char}
    (h : Listing.Literal written text) :
    Listing.Literal (Text.Quoted.escape c ++ written) (c :: text) := by
  unfold Text.Quoted.escape
  split
  · exact .escaped (by decide) (by decide) (by decide) h
  · exact .escaped (by decide) (by decide) (by decide) h
  · exact .lineFeed h
  · exact .carriageReturn h
  · exact .tab h
  · exact .plain ‹_› ‹_› h

theorem literal_flatMap_escape (text : List Char) :
    Listing.Literal (text.flatMap Text.Quoted.escape) text := by
  induction text with
  | nil => exact .nil
  | cons c text ih => exact literal_escape_append c ih

theorem Delimited.parameter {i : Instruction} (h : i.Delimited) :
    Listing.Parameter i.opcode i.parameter.toList i.written := by
  by_cases hkind : i.opcode.kind = .str
  · cases ho : i.operand? with
    | none =>
      rw [written_of_bare (.inr ho), parameter_of_none ho]
      exact .bare (by decide) (.inl (by decide))
    | some operand =>
      rw [written_of_str hkind ho, parameter_of_str hkind ho]
      exact .quoted (literal_flatMap_escape _)
  · rw [written_of_bare (.inl hkind)]
    obtain hstr | ⟨hbare, hne⟩ := h
    · exact absurd (kind_eq_str_iff.mpr hstr) hkind
    · exact .bare hbare (hne.imp_left (by simp))

theorem infer_eq (token : List Char) :
    Operand.infer token = ((Numeral.readInt64? token).map Operand.int <|>
      (Binary64.read? token).map Operand.float <|>
        (Operand.readBool? token).map Operand.bool).getD (.str (String.ofList token)) := by
  rw [Operand.infer]
  cases Numeral.readInt64? token with
  | some n => rfl
  | none =>
    cases Binary64.read? token with
    | some x => rfl
    | none => cases Operand.readBool? token <;> rfl

theorem placeholder_iff {text : String} : text.toList = Listing.placeholder ↔ text = "0" := by
  rw [← String.toList_inj]
  rfl

theorem operand_written (i : Instruction) : i.written.operand i.opcode = i.operandBack := by
  by_cases hstr : i.opcode.kind = .str
  · cases ho : i.operand? with
    | none =>
      rw [written_of_bare (.inr ho), parameter_of_none ho]
      simp [operandBack, hstr, ho, Listing.WrittenParameter.operand, Listing.bareOperand,
        Listing.placeholder]
    | some operand =>
      rw [written_of_str hstr ho]
      simp [operandBack, hstr, ho, Listing.WrittenParameter.operand, Listing.quotedOperand]
  · rw [written_of_bare (.inl hstr)]
    simp only [Listing.WrittenParameter.operand, Listing.bareOperand, operandBack, orInvalid,
      placeholder_iff, String.ofList_toList]
    cases hkind : i.opcode.kind with
    | none => rfl
    | str => exact absurd hkind hstr
    | int => cases Numeral.readInt64? i.parameter.toList <;> rfl
    | float =>
      dsimp only
      split
      · rfl
      · cases Binary64.read? i.parameter.toList <;> rfl
    | bool =>
      dsimp only
      split
      · rfl
      · cases Operand.readBool? i.parameter.toList <;> rfl
    | name verb =>
      dsimp only
      split
      · rfl
      · cases Name.ofTarget verb i.parameter <;> rfl
    | any => rw [infer_eq, String.ofList_toList]

end ActionCode.Instruction
