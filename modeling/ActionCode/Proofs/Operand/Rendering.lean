import ActionCode.Proofs.Binary64.Bits
import ActionCode.Proofs.Listing.Bare

namespace ActionCode.Operand

theorem exists_infer_float (bits : UInt64) :
    ∃ y, infer (float (.ofBits bits)).text.toList = .float y ∧
      if Binary64.IsNan bits then Binary64.IsNan y.toBits else y.toBits = bits := by
  refine ⟨.ofBits bits, infer_float _, ?_⟩
  split
  · rw [Binary64.ofBits_of_isNan ‹_›]
    decide
  · exact Binary64.toBits_ofBits ‹_›

theorem toList_text_ne_nil {operand : Operand} (h : infer operand.text.toList = operand)
    (hne : operand ≠ .str "") : operand.text.toList ≠ [] :=
  mt String.toList_eq_nil_iff.mp (text_ne_empty h hne)

theorem toList_text_ne_placeholder {operand : Operand} (h : infer operand.text.toList = operand)
    (hne : operand ≠ .int 0) : operand.text.toList ≠ Listing.placeholder :=
  fun hzero => text_ne_zero h hne (String.toList_inj.mp hzero)

/-- A literal's text stands in a listing without quotes and is read there as the same
literal. A float's is neither an integer nor the placeholder. -/
theorem infer_text_of_literal :
    (∀ n : Int64, let text := (int n).text.toList
      infer text = .int n ∧ text ≠ [] ∧ Listing.Bare text) ∧
    (∀ bits : UInt64, let text := (float (.ofBits bits)).text.toList
      (∃ y, infer text = .float y ∧
        if Binary64.IsNan bits then Binary64.IsNan y.toBits else y.toBits = bits) ∧
      text ≠ [] ∧ Listing.Bare text ∧ Numeral.readInt64? text = none ∧
      text ≠ Listing.placeholder) ∧
    ∀ b : Bool, let text := (bool b).text.toList
      infer text = .bool b ∧ text ≠ [] ∧ Listing.Bare text := by
  refine ⟨fun n => ?_, fun bits => ?_, fun b => ?_⟩
  · have hinfer := infer_int n
    exact ⟨hinfer, toList_text_ne_nil hinfer (by simp), Listing.bare_int n⟩
  · have hinfer := infer_float (.ofBits bits)
    have hread : Numeral.readInt64? (float (.ofBits bits)).text.toList = none := by
      rw [toList_float, Binary64.readInt64?_text]
    exact ⟨exists_infer_float bits, toList_text_ne_nil hinfer (by simp), Listing.bare_float _,
      hread, toList_text_ne_placeholder hinfer (by simp)⟩
  · have hinfer := infer_bool b
    exact ⟨hinfer, toList_text_ne_nil hinfer (by simp), Listing.bare_bool b⟩

example : (float (.ofBits 0x4341c37937e08000)).text = "1e16" ∧
    (float (.ofBits 0x8000000000000001)).text = "-5e-324" := by
  decide +kernel

end ActionCode.Operand
