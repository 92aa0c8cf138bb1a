import ActionCode.Listing.Unit
import ActionCode.Proofs.Name.Grammar
import ActionCode.Proofs.Operand.Inference

namespace ActionCode

theorem Name.ofTarget_eq_ok_iff_spelling {verb : Verb} {target : String} {n : Name} :
    ofTarget verb target = .ok n ↔ Spelling (verb.text ++ " " ++ target) n := by
  rw [← parse_join, parse_eq_ok_iff, spelling_iff]

theorem Name.ofTarget_eq_error_iff {verb : Verb} {target : String} {error : NameError} :
    ofTarget verb target = .error error ↔ Refusal (verb.text ++ " " ++ target) error :=
  ⟨refusal_of_ofTarget, fun h => (parse_join verb target).symm.trans (parse_of_refusal h)⟩

namespace Listing

/-- What a parameter stands for where an operand of a kind belongs. Only an integer and
an operand of any kind may be `0`, which stands for no operand elsewhere, and only a text
and an operand of any kind may be between quotes. -/
inductive Denotes : OperandKind → WrittenParameter → Option Operand → Prop where
  | ignored {parameter} : Denotes .none parameter none
  | absent {kind} (hint : kind ≠ .int) (hany : kind ≠ .any) : Denotes kind (.bare ['0']) none
  | int {token} {n : Int64} (h : Numeral.Spelling token n.toInt) :
      Denotes .int (.bare token) (some (.int n))
  | float {token x} (hne : token ≠ ['0']) (h : Binary64.Spelling token x) :
      Denotes .float (.bare token) (some (.float x))
  | bool {token b} (h : Operand.Truth token b) : Denotes .bool (.bare token) (some (.bool b))
  | name {verb token name} (hne : token ≠ ['0'])
      (h : Name.Spelling (verb.text ++ " " ++ String.ofList token) name) :
      Denotes (.name verb) (.bare token) (some (.name name))
  | str {text} : Denotes .str (.quoted text) (some (.str (String.ofList text)))
  | quoted {text} : Denotes .any (.quoted text) (some (.str (String.ofList text)))
  | guessed {token operand} (h : Operand.Guess token operand) :
      Denotes .any (.bare token) (some operand)

/-- Why a parameter stands for nothing. A name is refused for what is wrong with it, any
other operand for its text. -/
inductive Misfit (opcode : Opcode) : WrittenParameter → ReadError → Prop where
  | name {verb token error} (hkind : opcode.kind = .name verb) (hne : token ≠ ['0'])
      (h : Name.Refusal (verb.text ++ " " ++ String.ofList token) error) :
      Misfit opcode (.bare token) (.name error)
  | bare {token} (hkind : ∀ verb, opcode.kind ≠ .name verb)
      (h : ∀ operand?, ¬Denotes opcode.kind (.bare token) operand?) :
      Misfit opcode (.bare token) (.invalidOperand (String.ofList token) opcode)
  | quoted {text} (h : ∀ operand?, ¬Denotes opcode.kind (.quoted text) operand?) :
      Misfit opcode (.quoted text) (.invalidOperand (String.ofList text) opcode)

variable {opcode : Opcode} {token : List Char} {operand? : Option Operand} {error : ReadError}

theorem exists_of_known {α : Type} {read? : Option α} {build : α → Operand} {error : ReadError}
    (h : (if (read?.map build).isSome then .ok (read?.map build) else .error error) =
      Except.ok operand?) : ∃ value, read? = some value ∧ operand? = some (build value) := by
  cases read? with
  | none => contradiction
  | some value => exact ⟨value, rfl, (Except.ok.inj h).symm⟩

theorem denotes_of_placeholder {kind : OperandKind} (hint : kind ≠ .int) (hany : kind ≠ .any)
    (hzero : token = placeholder) (h : (Except.ok none : Except ReadError _) = .ok operand?) :
    Denotes kind (.bare token) operand? := by
  obtain rfl := Except.ok.inj h
  exact hzero ▸ .absent hint hany

theorem denotes_of_bareOperand (h : bareOperand opcode token = .ok operand?) :
    Denotes opcode.kind (.bare token) operand? := by
  rw [bareOperand] at h
  cases hkind : opcode.kind with
  | none =>
    simp only [hkind] at h
    obtain rfl := Except.ok.inj h
    exact .ignored
  | any =>
    simp only [hkind] at h
    obtain rfl := Except.ok.inj h
    exact .guessed (Operand.infer_eq_iff.mp rfl)
  | int =>
    simp only [hkind] at h
    obtain ⟨n, hread, rfl⟩ := exists_of_known h
    exact .int (Numeral.readInt64?_eq_some_iff.mp hread)
  | float =>
    simp only [hkind] at h
    split at h
    · exact denotes_of_placeholder (by simp) (by simp) ‹_› h
    · obtain ⟨x, hread, rfl⟩ := exists_of_known h
      exact .float ‹_› (Binary64.read?_eq_some_iff.mp hread)
  | bool =>
    simp only [hkind] at h
    split at h
    · exact denotes_of_placeholder (by simp) (by simp) ‹_› h
    · obtain ⟨b, hread, rfl⟩ := exists_of_known h
      exact .bool (Operand.readBool?_eq_some_iff.mp hread)
  | str =>
    simp only [hkind] at h
    split at h
    · exact denotes_of_placeholder (by simp) (by simp) ‹_› h
    · contradiction
  | name verb =>
    simp only [hkind] at h
    split at h
    · exact denotes_of_placeholder (by simp) (by simp) ‹_› h
    · split at h
      · obtain rfl := Except.ok.inj h
        exact .name ‹_› (Name.ofTarget_eq_ok_iff_spelling.mp ‹_›)
      · contradiction

theorem denotes_of_operand {parameter : WrittenParameter}
    (h : parameter.operand opcode = .ok operand?) : Denotes opcode.kind parameter operand? := by
  cases parameter with
  | bare token => exact denotes_of_bareOperand h
  | quoted text =>
    change quotedOperand opcode text = .ok operand? at h
    rw [quotedOperand] at h
    split at h <;> rename_i hkind
    · obtain rfl := Except.ok.inj h
      exact hkind ▸ .ignored
    · obtain rfl := Except.ok.inj h
      exact hkind ▸ .str
    · obtain rfl := Except.ok.inj h
      exact hkind ▸ .quoted
    · contradiction

theorem operand_of_denotes {parameter : WrittenParameter}
    (h : Denotes opcode.kind parameter operand?) : parameter.operand opcode = .ok operand? := by
  generalize hkind : opcode.kind = kind at h
  cases h with
  | ignored =>
    cases parameter <;> simp [WrittenParameter.operand, bareOperand, quotedOperand, hkind]
  | absent hint hany =>
    rw [WrittenParameter.operand, bareOperand]
    cases kind with
    | int => contradiction
    | any => contradiction
    | none => simp only [hkind]
    | float | bool | str | name verb =>
      simp only [hkind]
      exact if_pos rfl
  | int h =>
    have hread := Numeral.readInt64?_eq_some_iff.mpr h
    simp [WrittenParameter.operand, bareOperand, hkind, hread]
  | float hne h =>
    have hread := Binary64.read?_eq_some_iff.mpr h
    simp [WrittenParameter.operand, bareOperand, placeholder, hkind, hne, hread]
  | @bool token b h =>
    have hne : token ≠ ['0'] := by
      rintro rfl
      cases h
    have hread := Operand.readBool?_eq_some_iff.mpr h
    simp [WrittenParameter.operand, bareOperand, placeholder, hkind, hne, hread]
  | name hne h =>
    have hname := Name.ofTarget_eq_ok_iff_spelling.mpr h
    simp [WrittenParameter.operand, bareOperand, placeholder, hkind, hne, hname]
  | str | quoted => simp [WrittenParameter.operand, quotedOperand, hkind]
  | guessed h => simp [WrittenParameter.operand, bareOperand, hkind, Operand.infer_eq_iff.mpr h]

theorem operand_eq_ok_iff {parameter : WrittenParameter} :
    parameter.operand opcode = .ok operand? ↔ Denotes opcode.kind parameter operand? :=
  ⟨denotes_of_operand, operand_of_denotes⟩

theorem not_denotes_of_operand {parameter : WrittenParameter}
    (h : parameter.operand opcode = .error error) (operand? : Option Operand) :
    ¬Denotes opcode.kind parameter operand? := by
  intro hdenotes
  rw [operand_of_denotes hdenotes] at h
  contradiction

theorem bareOperand_eq_error (h : bareOperand opcode token = .error error) :
    (∃ verb cause, opcode.kind = .name verb ∧ token ≠ ['0'] ∧
      Name.ofTarget verb (String.ofList token) = .error cause ∧ error = .name cause) ∨
    (∀ verb, opcode.kind ≠ .name verb) ∧
      error = .invalidOperand (String.ofList token) opcode := by
  rw [bareOperand] at h
  cases hkind : opcode.kind with
  | none | any => simp [hkind] at h
  | int =>
    simp only [hkind] at h
    split at h
    · contradiction
    · exact .inr ⟨by simp, (Except.error.inj h).symm⟩
  | float | bool =>
    simp only [hkind] at h
    split at h
    · contradiction
    · split at h
      · contradiction
      · exact .inr ⟨by simp, (Except.error.inj h).symm⟩
  | str =>
    simp only [hkind] at h
    split at h
    · contradiction
    · exact .inr ⟨by simp, (Except.error.inj h).symm⟩
  | name verb =>
    simp only [hkind] at h
    split at h
    · contradiction
    · split at h
      · contradiction
      · exact .inl ⟨verb, _, rfl, ‹_›, ‹_›, (Except.error.inj h).symm⟩

theorem misfit_of_operand {parameter : WrittenParameter}
    (h : parameter.operand opcode = .error error) : Misfit opcode parameter error := by
  have hnone := not_denotes_of_operand h
  cases parameter with
  | bare token =>
    obtain ⟨verb, cause, hkind, hne, hname, rfl⟩ | ⟨hkind, rfl⟩ := bareOperand_eq_error h
    · exact .name hkind hne (Name.ofTarget_eq_error_iff.mp hname)
    · exact .bare hkind hnone
  | quoted text =>
    change quotedOperand opcode text = .error error at h
    rw [quotedOperand] at h
    split at h
    · contradiction
    · contradiction
    · contradiction
    · obtain rfl := Except.error.inj h
      exact .quoted hnone

theorem operand_of_misfit {parameter : WrittenParameter} (h : Misfit opcode parameter error) :
    parameter.operand opcode = .error error := by
  cases h with
  | name hkind hne h =>
    have hname := Name.ofTarget_eq_error_iff.mpr h
    simp [WrittenParameter.operand, bareOperand, placeholder, hkind, hne, hname]
  | @bare token hkind hnone =>
    cases h : (WrittenParameter.bare token).operand opcode with
    | ok operand? => exact absurd (denotes_of_operand h) (hnone operand?)
    | error error =>
      cases misfit_of_operand h with
      | name hname => exact absurd hname (hkind _)
      | bare => rfl
  | @quoted text hnone =>
    cases h : (WrittenParameter.quoted text).operand opcode with
    | ok operand? => exact absurd (denotes_of_operand h) (hnone operand?)
    | error error =>
      cases misfit_of_operand h
      rfl

theorem operand_eq_error_iff {parameter : WrittenParameter} :
    parameter.operand opcode = .error error ↔ Misfit opcode parameter error :=
  ⟨misfit_of_operand, operand_of_misfit⟩

example : (WrittenParameter.bare ['0']).operand .pushDouble = .ok none ∧
    (WrittenParameter.bare ['0']).operand .pushLong = .ok (some (.int 0)) := ⟨rfl, rfl⟩

end Listing

end ActionCode
