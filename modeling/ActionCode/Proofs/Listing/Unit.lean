import ActionCode.Proofs.Listing.Literal
import Mathlib.Logic.Basic

namespace ActionCode.Listing

theorem isBare_of_mem_head? {stop rest : List Char} (h : Ends stop rest) :
    ∀ c ∈ (stop ++ rest).head?, isBare c = false := by
  cases h with
  | comma => simp [isBare]
  | blank hc => simpa using isBare_eq_false_iff.mpr (.inr hc)
  | atEnd => simp

theorem readSeparator_of_ends {stop rest : List Char} (h : Ends stop rest) :
    readSeparator (stop ++ rest) = .ok rest := by
  cases h with
  | comma => rfl
  | @blank c rest hc =>
    have hcomma : c ≠ ',' := by
      rintro rfl
      contradiction
    simp [readSeparator, hcomma, isBlank_iff.mpr hc]
  | atEnd => rfl

theorem exists_ends {text rest : List Char} (h : readSeparator text = .ok rest) :
    ∃ stop, text = stop ++ rest ∧ Ends stop rest := by
  unfold readSeparator at h
  split at h
  · obtain rfl := Except.ok.inj h
    exact ⟨[], rfl, .atEnd⟩
  · split at h
    · rename_i hc
      obtain rfl := Except.ok.inj h
      exact ⟨[','], by rw [hc]; rfl, .comma⟩
    · split at h
      · rename_i hb
        obtain rfl := Except.ok.inj h
        exact ⟨[], rfl, .blank (isBlank_iff.mp hb)⟩
      · contradiction

theorem kind_eq_any_iff {opcode : Opcode} : opcode.kind = .any ↔ opcode = .pushUnchecked := by
  cases opcode <;> simp [Opcode.kind]

theorem readParameter_of_head_ne {opcode : Opcode} {text : List Char} (h : text.head? ≠ some '"') :
    readParameter opcode text =
      if text.takeWhile isBare = [] ∧ opcode.kind ≠ .any then .error (.expectedOperand 0)
      else .ok (.bare (text.takeWhile isBare), text.dropWhile isBare) := by
  unfold readParameter
  split
  · simp at h
  · rfl

theorem readParameter_of_parameter {opcode : Opcode} {spelling stop : List Char}
    {parameter : WrittenParameter} (h : Parameter opcode spelling parameter)
    (hs : ∀ c ∈ stop.head?, isBare c = false) :
    readParameter opcode (spelling ++ stop) = .ok (parameter, stop) := by
  cases h with
  | quoted h => simp [readParameter, h.decode]
  | @bare token h hne =>
    have hhead : (spelling ++ stop).head? ≠ some '"' := by
      cases spelling with
      | nil =>
        intro hquote
        exact absurd (hs '"' hquote) (by decide)
      | cons c spelling => exact h.no_quote
    obtain ⟨htake, hdrop⟩ := Text.span_append (fun c hc => h.isBare hc) hs
    have hne' : ¬(spelling = [] ∧ opcode.kind ≠ .any) := by
      rw [ne_eq, kind_eq_any_iff]
      rintro ⟨hnil, hany⟩
      exact hne.elim (fun h => h hnil) hany
    rw [readParameter_of_head_ne hhead, htake, hdrop, if_neg hne']

theorem exists_parameter {opcode : Opcode} {text stop : List Char} {parameter : WrittenParameter}
    (h : readParameter opcode text = .ok (parameter, stop)) :
    ∃ spelling, text = spelling ++ stop ∧ Parameter opcode spelling parameter := by
  by_cases hhead : text.head? = some '"'
  · obtain ⟨body, rfl⟩ := List.head?_eq_some_iff.mp hhead
    cases hd : Text.Quoted.decode body with
    | none => simp [readParameter, hd] at h
    | some parts =>
      obtain ⟨text, rest⟩ := parts
      simp only [readParameter, hd, Except.ok.injEq, Prod.mk.injEq] at h
      obtain ⟨rfl, rfl⟩ := h
      obtain ⟨written, rfl, hliteral⟩ := exists_literal hd
      exact ⟨'"' :: (written ++ ['"']), by simp, .quoted hliteral⟩
  · rw [readParameter_of_head_ne hhead] at h
    split at h
    · contradiction
    · rename_i hne
      obtain ⟨rfl, rfl⟩ := Prod.mk.inj (Except.ok.inj h)
      rw [ne_eq, kind_eq_any_iff, not_and_or, not_not] at hne
      refine ⟨text.takeWhile isBare, List.takeWhile_append_dropWhile.symm, .bare ?_ hne⟩
      refine bare_of_isBare (fun c hc => Text.of_mem_takeWhile hc) fun hq => hhead ?_
      rw [List.head?_takeWhile] at hq
      exact (Option.filter_eq_some_iff.mp hq).1

theorem readOpcode_of_code {digits gap : List Char} {opcode : Opcode} (h : Code digits opcode)
    (hgap : ∀ c ∈ gap.head?, c.isDigit = false) :
    readOpcode (digits ++ gap) = .ok (opcode, gap) := by
  obtain ⟨htake, hdrop⟩ := Text.span_append h.isDigit hgap
  have hcode : Opcode.ofCode? (Nat.ofDigitChars 10 digits 0) = some opcode := by
    rw [h.value, Opcode.ofCode?_code]
  rw [readOpcode]
  simp only [htake, hdrop, if_neg h.ne_nil, hcode]

theorem exists_code {text gap : List Char} {opcode : Opcode}
    (h : readOpcode text = .ok (opcode, gap)) :
    ∃ digits, text = digits ++ gap ∧ Code digits opcode := by
  unfold readOpcode at h
  dsimp only at h
  split at h
  · contradiction
  · rename_i hne
    split at h
    · contradiction
    · rename_i hcode
      obtain ⟨rfl, rfl⟩ := Prod.mk.inj (Except.ok.inj h)
      exact ⟨text.takeWhile Char.isDigit, List.takeWhile_append_dropWhile.symm, hne,
        fun c hc => Text.of_mem_takeWhile hc, (Opcode.code_of_ofCode? hcode).symm⟩

theorem exists_gap {gap start : List Char} (h : readGap gap = .ok start) : gap = ' ' :: start := by
  unfold readGap at h
  split at h
  · rw [Except.ok.inj h]
  · contradiction

/-- A spelled unit is read for what its parameter stands for, and its operand is
the last thing that can be wrong. -/
theorem readUnit_of_spelled {unit rest : List Char} {opcode : Opcode} {parameter : WrittenParameter}
    (h : Spelled unit opcode parameter rest) :
    readUnit (unit ++ rest) =
      (parameter.operand opcode).map fun operand? => (⟨opcode, operand?⟩, rest) := by
  cases h with
  | @mk digits spelling stop _ _ _ hcode hparameter hends =>
    have hopcode := readOpcode_of_code hcode
      (show ∀ c ∈ (' ' :: (spelling ++ (stop ++ rest))).head?, c.isDigit = false by simp)
    have hread := readParameter_of_parameter hparameter (isBare_of_mem_head? hends)
    have hseparator := readSeparator_of_ends hends
    rw [readUnit]
    simp only [List.append_assoc, List.cons_append, hopcode, readGap, hread, hseparator, bind,
      Except.bind, mapError_ok, pure, Except.pure]
    cases parameter.operand opcode <;> rfl

theorem readUnit_eq_ok_iff {text rest : List Char} {i : Instruction} :
    readUnit text = .ok (i, rest) ↔ ∃ unit, text = unit ++ rest ∧ IsUnit unit i rest := by
  refine ⟨?_, ?_⟩
  · intro h
    obtain ⟨⟨opcode, gap⟩, hopcode, h⟩ := bind_eq_ok_iff.mp h
    obtain ⟨start, hgap, h⟩ := bind_eq_ok_iff.mp h
    obtain ⟨⟨parameter, stop⟩, hparameter, h⟩ := bind_eq_ok_iff.mp h
    obtain ⟨after, hseparator, h⟩ := bind_eq_ok_iff.mp h
    obtain ⟨operand?, hoperand, h⟩ := bind_eq_ok_iff.mp h
    obtain ⟨rfl, rfl⟩ := Prod.mk.inj (Except.ok.inj h)
    obtain ⟨digits, rfl, hcode⟩ := exists_code hopcode
    obtain rfl := exists_gap (mapError_eq_ok_iff.mp hgap)
    obtain ⟨spelling, rfl, hspelled⟩ := exists_parameter (mapError_eq_ok_iff.mp hparameter)
    obtain ⟨ending, rfl, hends⟩ := exists_ends (mapError_eq_ok_iff.mp hseparator)
    refine ⟨digits ++ ' ' :: (spelling ++ ending), by simp, .mk (.mk hcode hspelled hends) ?_⟩
    exact operand_eq_ok_iff.mp hoperand
  · rintro ⟨unit, rfl, hunit⟩
    cases hunit with
    | mk hspelled hoperand =>
      rw [readUnit_of_spelled hspelled, operand_eq_ok_iff.mpr hoperand]
      rfl

end ActionCode.Listing
