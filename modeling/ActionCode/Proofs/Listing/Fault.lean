import ActionCode.Proofs.Listing.Front
import ActionCode.Proofs.Listing.Lines
import ActionCode.Proofs.Numeral.Word
import ActionCode.Proofs.Text.Bytes

namespace ActionCode

def ReadError.offset? : ReadError → Option Nat
  | .expectedOpcode offset => some offset
  | .unknownOpcode _ offset => some offset
  | .expectedOperand offset => some offset
  | .unterminatedString offset => some offset
  | .expectedSeparator offset => some offset
  | .invalidOperand _ _ => none
  | .name _ => none

theorem ReadError.offset?_shift (error : ReadError) (n : Nat) :
    (error.shift n).offset? = error.offset?.map (n + ·) := by
  cases error <;> rfl

namespace Listing

structure DigitRun (digits rest : List Char) : Prop where
  ne_nil : digits ≠ []
  isDigit : ∀ c ∈ digits, c.isDigit = true
  ends : ∀ c ∈ rest.head?, c.isDigit = false

/-- Why a unit cannot be read: what is taken of it before the error is found, what
stands at that place, and the error, whose offset is counted from there. -/
inductive Fault : List Char → List Char → ReadError → Prop where
  | noCode {c rest} (hdigit : c.isDigit = false) (hblank : ¬Blank c)
      (hslashes : ¬['/', '/'] <+: c :: rest) : Fault [] (c :: rest) (.expectedOpcode 0)
  | unknownCode {digits rest} (hrun : DigitRun digits rest)
      (hcode : 16 < Nat.ofDigitChars 10 digits 0) :
      Fault [] (digits ++ rest)
        (.unknownOpcode (min (Nat.ofDigitChars 10 digits 0) (UInt32.size - 1)) 0)
  | noGap {digits rest opcode} (hcode : Code digits opcode)
      (hrest : ∀ c ∈ rest.head?, c ≠ ' ' ∧ c.isDigit = false) :
      Fault digits rest (.expectedOperand 0)
  | noParameter {digits rest opcode} (hcode : Code digits opcode) (hany : opcode ≠ .pushUnchecked)
      (hrest : ∀ c ∈ rest.head?, c = ',' ∨ Blank c) :
      Fault (digits ++ [' ']) rest (.expectedOperand 0)
  | openLiteral {digits body opcode} (hcode : Code digits opcode)
      (hopen : ∀ written text rest, Literal written text → body ≠ written ++ '"' :: rest) :
      Fault (digits ++ [' ']) ('"' :: body) (.unterminatedString 0)
  | noSeparator {digits written text opcode c rest} (hcode : Code digits opcode)
      (hliteral : Literal written text) (hcomma : c ≠ ',') (hblank : ¬Blank c) :
      Fault (digits ++ ' ' :: '"' :: (written ++ ['"'])) (c :: rest) (.expectedSeparator 0)
  | operand {unit rest opcode parameter error} (hspelled : Spelled unit opcode parameter rest)
      (hoperand : Misfit opcode parameter error) : Fault unit rest error

theorem readGap_eq_error_iff {gap : List Char} {error : ReadError} :
    readGap gap = .error error ↔ gap.head? ≠ some ' ' ∧ error = .expectedOperand 0 := by
  unfold readGap
  split
  · simp
  · rename_i hgap
    have hhead : gap.head? ≠ some ' ' := by
      intro hhead
      obtain ⟨rest, rfl⟩ := List.head?_eq_some_iff.mp hhead
      exact hgap rest rfl
    simp [hhead, eq_comm]

theorem decode_eq_none_iff {body : List Char} :
    Text.Quoted.decode body = none ↔
      ∀ written text rest, Literal written text → body ≠ written ++ '"' :: rest := by
  refine ⟨?_, fun h => ?_⟩
  · rintro h written text rest hliteral rfl
    rw [hliteral.decode] at h
    contradiction
  · cases hd : Text.Quoted.decode body with
    | none => rfl
    | some parts =>
      obtain ⟨text, rest⟩ := parts
      obtain ⟨written, hbody, hliteral⟩ := exists_literal hd
      exact absurd hbody (h written text rest hliteral)

theorem readParameter_eq_error_iff {opcode : Opcode} {start : List Char} {error : ReadError} :
    readParameter opcode start = .error error ↔
      (∃ body, start = '"' :: body ∧ Text.Quoted.decode body = none ∧
        error = .unterminatedString 0) ∨
      ((∀ c ∈ start.head?, isBare c = false) ∧ opcode ≠ .pushUnchecked ∧
        error = .expectedOperand 0) := by
  by_cases hhead : start.head? = some '"'
  · obtain ⟨body, rfl⟩ := List.head?_eq_some_iff.mp hhead
    have hbare : isBare '"' = true := by decide
    cases hd : Text.Quoted.decode body <;> simp [readParameter, hd, hbare, @eq_comm _ error]
  · have hbody : ∀ body, start ≠ '"' :: body := by
      rintro body rfl
      exact hhead rfl
    have hempty : (start.takeWhile isBare = [] ∧ opcode.kind ≠ .any) ↔
        (∀ c ∈ start.head?, isBare c = false) ∧ opcode ≠ .pushUnchecked := by
      rw [Text.takeWhile_eq_nil_iff, ne_eq, kind_eq_any_iff]
    rw [readParameter_of_head_ne hhead, if_congr hempty rfl rfl]
    split
    · simp_all [@eq_comm _ error]
    · rename_i hne
      simp only [reduceCtorEq, hbody, false_and, exists_false, false_or, false_iff]
      exact fun h => hne ⟨h.1, h.2.1⟩

theorem readSeparator_eq_error_iff {stop : List Char} {error : ReadError} :
    readSeparator stop = .error error ↔
      ∃ c rest, stop = c :: rest ∧ isBare c = true ∧ error = .expectedSeparator 0 := by
  cases stop with
  | nil => simp [readSeparator]
  | cons c rest =>
    by_cases hcomma : c = ','
    · simp [readSeparator, hcomma, isBare]
    · cases hblank : isBlank c <;>
        simp [readSeparator, hcomma, hblank, isBare, @eq_comm _ error]

theorem readOpcode_eq_error_iff {text : List Char} {error : ReadError} :
    readOpcode text = .error error ↔
      ((∀ c ∈ text.head?, c.isDigit = false) ∧ error = .expectedOpcode 0) ∨
      ∃ digits rest, text = digits ++ rest ∧ DigitRun digits rest ∧
        16 < Nat.ofDigitChars 10 digits 0 ∧
        error = .unknownOpcode (min (Nat.ofDigitChars 10 digits 0) (UInt32.size - 1)) 0 := by
  refine ⟨fun h => ?_, ?_⟩
  · unfold readOpcode at h
    dsimp only at h
    split at h
    · rename_i hnil
      exact .inl ⟨Text.takeWhile_eq_nil_iff.mp hnil, (Except.error.inj h).symm⟩
    · rename_i hne
      split at h
      · rename_i hcode
        refine .inr ⟨_, _, List.takeWhile_append_dropWhile.symm, ⟨hne, ?_, ?_⟩,
          Opcode.ofCode?_eq_none_iff.mp hcode, (Except.error.inj h).symm⟩
        · exact fun c hc => Text.of_mem_takeWhile hc
        · exact fun c hc => Text.of_mem_head?_dropWhile hc
      · contradiction
  · rintro (⟨hhead, rfl⟩ | ⟨digits, rest, rfl, hrun, hcode, rfl⟩)
    · rw [readOpcode]
      simp only [Text.takeWhile_eq_nil_iff.mpr hhead, if_true]
    · obtain ⟨htake, -⟩ := Text.span_append hrun.isDigit hrun.ends
      rw [readOpcode]
      simp only [htake, if_neg hrun.ne_nil, Opcode.ofCode?_eq_none_iff.mpr hcode]

theorem mapError_eq_error_iff {α : Type} {f : ReadError → ReadError} {x : Except ReadError α}
    {error : ReadError} :
    x.mapError f = .error error ↔ ∃ cause, x = .error cause ∧ error = f cause := by
  cases x <;> simp [@eq_comm _ error]

theorem bind_eq_error_iff {α β : Type} {x : Except ReadError α} {f : α → Except ReadError β}
    {error : ReadError} :
    x >>= f = .error error ↔ x = .error error ∨ ∃ a, x = .ok a ∧ f a = .error error := by
  cases x <;> simp [bind, Except.bind]

theorem digitRun_of_readOpcode {text gap : List Char} {opcode : Opcode}
    (h : readOpcode text = .ok (opcode, gap)) :
    ∃ digits, text = digits ++ gap ∧ Code digits opcode ∧ DigitRun digits gap := by
  obtain ⟨digits, rfl, hcode⟩ := exists_code h
  refine ⟨digits, rfl, hcode, hcode.ne_nil, hcode.isDigit, ?_⟩
  unfold readOpcode at h
  dsimp only at h
  split at h
  · contradiction
  · split at h
    · contradiction
    · obtain ⟨-, hgap⟩ := Prod.mk.inj (Except.ok.inj h)
      intro c hc
      rw [← hgap] at hc
      exact Text.of_mem_head?_dropWhile hc

theorem head?_of_readParameter {opcode : Opcode} {start stop token : List Char}
    (h : readParameter opcode start = .ok (.bare token, stop)) :
    ∀ c ∈ stop.head?, isBare c = false := by
  unfold readParameter at h
  split at h
  · split at h <;> simp at h
  · dsimp only at h
    split at h
    · contradiction
    · obtain ⟨-, rfl⟩ := Prod.mk.inj (Except.ok.inj h)
      exact fun c hc => Text.of_mem_head?_dropWhile hc

theorem Misfit.offset?_eq_none {opcode : Opcode} {parameter : WrittenParameter}
    {error : ReadError} (h : Misfit opcode parameter error) : error.offset? = none := by
  cases h <;> rfl

theorem offset?_of_operand {opcode : Opcode} {parameter : WrittenParameter} {error : ReadError}
    (h : parameter.operand opcode = .error error) : error.offset? = none :=
  (operand_eq_error_iff.mp h).offset?_eq_none

theorem shift_of_offset? {error : ReadError} (h : error.offset? = none) (n : Nat) :
    error.shift n = error := by
  cases error <;> first | rfl | contradiction

variable {text : List Char} {error : ReadError}

theorem Fault.skip {taken rest : List Char} {cause : ReadError} (h : Fault taken rest cause) :
    skipTrivia false (taken ++ rest) = taken ++ rest := by
  cases h with
  | noCode hdigit hblank hslashes => exact skipTrivia_eq_self_iff.mpr ⟨hblank, hslashes⟩
  | unknownCode hrun hcode => exact skipTrivia_of_isDigit hrun.ne_nil hrun.isDigit _
  | noGap hcode hrest => exact hcode.skip _
  | noParameter hcode hany hrest | openLiteral hcode hopen =>
    rw [List.append_assoc]
    exact hcode.skip _
  | noSeparator hcode hliteral hcomma hblank =>
    rw [List.append_assoc]
    exact hcode.skip _
  | operand hspelled hoperand => exact hspelled.skip

theorem Fault.ne_nil {taken rest : List Char} {cause : ReadError} (h : Fault taken rest cause) :
    taken ++ rest ≠ [] := by
  cases h with
  | unknownCode hrun hcode => simp [hrun.ne_nil]
  | noGap hcode hrest => simp [hcode.ne_nil]
  | operand hspelled hoperand =>
    cases hspelled
    simp
  | _ => simp

theorem readUnit_of_code {digits : List Char} {opcode : Opcode} (hcode : Code digits opcode)
    (start : List Char) :
    readUnit ((digits ++ [' ']) ++ start) = do
      let (parameter, stop) ← (readParameter opcode start).mapError
        (·.shift (Text.byteLength (digits ++ [' '])))
      let rest ← (readSeparator stop).mapError
        (·.shift (offset ((digits ++ [' ']) ++ start) stop))
      let operand? ← parameter.operand opcode
      return (⟨opcode, operand?⟩, rest) := by
  have hopcode : readOpcode ((digits ++ [' ']) ++ start) = .ok (opcode, ' ' :: start) := by
    rw [List.append_assoc]
    exact readOpcode_of_code hcode (by simp)
  rw [readUnit_of_opcode hopcode rfl, offset_append_right]

theorem Fault.readUnit {taken rest : List Char} {cause : ReadError} (h : Fault taken rest cause) :
    readUnit (taken ++ rest) = .error (cause.shift (Text.byteLength taken)) := by
  cases h with
  | noCode hdigit hblank hslashes =>
    exact bind_eq_error_iff.mpr (.inl (readOpcode_eq_error_iff.mpr (.inl ⟨by simpa, rfl⟩)))
  | unknownCode hrun hcode =>
    exact bind_eq_error_iff.mpr
      (.inl (readOpcode_eq_error_iff.mpr (.inr ⟨_, _, List.nil_append _, hrun, hcode, rfl⟩)))
  | noGap hcode hrest =>
    have hopcode := readOpcode_of_code hcode fun c hc => (hrest c hc).2
    have hspace : rest.head? ≠ some ' ' := fun hc => (hrest ' ' hc).1 rfl
    have hgap := readGap_eq_error_iff.mpr ⟨hspace, rfl⟩
    simp [Listing.readUnit, hopcode, hgap, bind, Except.bind, offset_append_right]
  | @noParameter digits _ opcode hcode hany hrest =>
    have hparameter := readParameter_eq_error_iff.mpr
      (.inr ⟨fun c hc => isBare_eq_false_iff.mpr (hrest c hc), hany, rfl⟩)
    rw [readUnit_of_code hcode, hparameter]
    rfl
  | openLiteral hcode hopen =>
    have hdecode := decode_eq_none_iff.mpr hopen
    rw [readUnit_of_code hcode, readParameter_eq_error_iff.mpr (.inl ⟨_, rfl, hdecode, rfl⟩)]
    rfl
  | @noSeparator digits written text opcode c rest hcode hliteral hcomma hblank =>
    have hparameter : readParameter opcode ('"' :: (written ++ '"' :: c :: rest)) =
        .ok (.quoted text, c :: rest) := by simp [readParameter, hliteral.decode]
    have hseparator := readSeparator_eq_error_iff.mpr
      ⟨c, rest, rfl, isBare_eq_true_iff.mpr ⟨hcomma, hblank⟩, rfl⟩
    have hsplit : digits ++ ' ' :: '"' :: (written ++ ['"']) ++ c :: rest =
        (digits ++ [' ']) ++ '"' :: (written ++ '"' :: c :: rest) := by simp
    rw [hsplit, readUnit_of_code hcode, hparameter, ← hsplit]
    simp only [mapError_ok, bind, Except.bind, hseparator, mapError_error, offset_append_right]
  | operand hspelled hoperand =>
    rw [readUnit_of_spelled hspelled, operand_eq_error_iff.mpr hoperand,
      shift_of_offset? hoperand.offset?_eq_none]
    rfl

/-- What cannot be read has a fault. The stages of reading are taken one by one, as
each can fail only behind those before it. -/
theorem exists_fault (hskip : skipTrivia false text = text) (hne : text ≠ [])
    (h : readUnit text = .error error) : ∃ taken rest cause, text = taken ++ rest ∧
      Fault taken rest cause ∧ error = cause.shift (Text.byteLength taken) := by
  obtain hopcode | ⟨⟨opcode, gap⟩, hopcode, hbehindOpcode⟩ := bind_eq_error_iff.mp h
  · obtain ⟨hdigit, rfl⟩ | ⟨digits, rest, rfl, hrun, hcode, rfl⟩ :=
      readOpcode_eq_error_iff.mp hopcode
    · obtain ⟨c, rest, rfl⟩ := List.exists_cons_of_ne_nil hne
      obtain ⟨hblank, hslashes⟩ := skipTrivia_eq_self_iff.mp hskip
      exact ⟨[], _, _, rfl, .noCode (hdigit c rfl) hblank hslashes, rfl⟩
    · exact ⟨[], _, _, rfl, .unknownCode hrun hcode, rfl⟩
  obtain ⟨digits, rfl, hcode, hrun⟩ := digitRun_of_readOpcode hopcode
  obtain hgap | ⟨start, hgap, hbehindGap⟩ := bind_eq_error_iff.mp hbehindOpcode
  · obtain ⟨cause, hread, rfl⟩ := mapError_eq_error_iff.mp hgap
    obtain ⟨hspace, rfl⟩ := readGap_eq_error_iff.mp hread
    refine ⟨digits, gap, _, rfl, .noGap hcode fun c hc => ⟨?_, hrun.ends c hc⟩, ?_⟩
    · rintro rfl
      exact hspace hc
    · rw [offset_append_right]
  obtain rfl := exists_gap (mapError_eq_ok_iff.mp hgap)
  have hstart : digits ++ ' ' :: start = (digits ++ [' ']) ++ start := by simp
  obtain hparameter | ⟨⟨parameter, stop⟩, hparameter, hbehindParameter⟩ :=
    bind_eq_error_iff.mp hbehindGap
  · obtain ⟨cause, hread, rfl⟩ := mapError_eq_error_iff.mp hparameter
    rw [hstart, offset_append_right]
    obtain ⟨body, rfl, hopen, rfl⟩ | ⟨hhead, hany, rfl⟩ := readParameter_eq_error_iff.mp hread
    · exact ⟨_, _, _, rfl, .openLiteral hcode (decode_eq_none_iff.mp hopen), rfl⟩
    · exact ⟨_, _, _, rfl,
        .noParameter hcode hany fun c hc => isBare_eq_false_iff.mp (hhead c hc), rfl⟩
  have hread := mapError_eq_ok_iff.mp hparameter
  obtain ⟨spelling, rfl, hspelled⟩ := exists_parameter hread
  obtain hseparator | ⟨rest, hseparator, hbehindSeparator⟩ :=
    bind_eq_error_iff.mp hbehindParameter
  · obtain ⟨cause, hstop, rfl⟩ := mapError_eq_error_iff.mp hseparator
    obtain ⟨c, rest, rfl, hc, rfl⟩ := readSeparator_eq_error_iff.mp hstop
    cases hspelled with
    | @quoted written content hliteral =>
      obtain ⟨hcomma, hblank⟩ := isBare_eq_true_iff.mp hc
      have hsplit : digits ++ ' ' :: ('"' :: (written ++ ['"']) ++ c :: rest) =
          (digits ++ ' ' :: '"' :: (written ++ ['"'])) ++ c :: rest := by simp
      rw [hsplit, offset_append_right]
      exact ⟨_, _, _, rfl, .noSeparator hcode hliteral hcomma hblank, rfl⟩
    | bare => exact absurd (head?_of_readParameter hread c rfl) (by simp [hc])
  obtain ⟨ending, rfl, hends⟩ := exists_ends (mapError_eq_ok_iff.mp hseparator)
  obtain hoperand | ⟨operand?, -, hreturn⟩ := bind_eq_error_iff.mp hbehindSeparator
  · refine ⟨digits ++ ' ' :: (spelling ++ ending), rest, error, by simp,
      .operand (.mk hcode hspelled hends) (operand_eq_error_iff.mp hoperand), ?_⟩
    exact (shift_of_offset? (offset?_of_operand hoperand) _).symm
  · contradiction

theorem Fault.offset_eq_zero {taken rest : List Char} {cause : ReadError}
    (h : Fault taken rest cause) {offset : Nat} (hoffset : cause.offset? = some offset) :
    offset = 0 := by
  cases h with
  | operand hspelled hoperand => simp [hoperand.offset?_eq_none] at hoffset
  | _ => exact (Option.some.inj hoffset).symm

theorem Fault.spelled {taken rest : List Char} {cause : ReadError} (h : Fault taken rest cause)
    (hoffset : cause.offset? = none) : ∃ opcode parameter, Spelled taken opcode parameter rest := by
  cases h with
  | operand hspelled hoperand => exact ⟨_, _, hspelled⟩
  | _ => contradiction

theorem readUnits_eq_error_iff_fault {text : List Char} {stop : Stop} :
    readUnits text = .error stop ↔
      ∃ front p taken rest cause, text = front ++ (taken ++ rest) ∧
        Front front p (taken ++ rest) ∧ Fault taken rest cause ∧
          stop = ⟨taken ++ rest, cause.shift (Text.byteLength taken)⟩ := by
  rw [readUnits_eq_error_iff]
  refine ⟨?_, ?_⟩
  · rintro ⟨⟨front, p, htext, hfront⟩, hskip, hne, hread⟩
    obtain ⟨taken, rest, cause, hsplit, hfault, herror⟩ := exists_fault hskip hne hread
    rw [hsplit] at htext hfront
    exact ⟨front, p, taken, rest, cause, htext, hfront, hfault, by rw [← hsplit, ← herror]⟩
  · rintro ⟨front, p, taken, rest, cause, htext, hfront, hfault, rfl⟩
    exact ⟨⟨front, p, htext, hfront⟩, hfault.skip, hfault.ne_nil, hfault.readUnit⟩

theorem read_eq_error_iff {text : String} {error : ReadError} :
    read text = .error error ↔ ∃ front p taken rest cause,
      text.toList = front ++ (taken ++ rest) ∧ Front front p (taken ++ rest) ∧
        Fault taken rest cause ∧ error = cause.shift (Text.byteLength (front ++ taken)) := by
  have hshift : ∀ {front taken rest : List Char} {cause : ReadError},
      text.toList = front ++ (taken ++ rest) →
        (cause.shift (Text.byteLength taken)).shift (offset text.toList (taken ++ rest)) =
          cause.shift (Text.byteLength (front ++ taken)) := by
    intro front taken rest cause htext
    rw [ReadError.shift_shift, htext, offset_append_right, Text.byteLength_append]
  refine ⟨fun h => ?_, ?_⟩
  · cases hunits : readUnits text.toList with
    | ok p => cases (read_eq_ok_iff.mpr hunits).symm.trans h
    | error stop =>
      rw [read_of_error hunits] at h
      obtain ⟨front, p, taken, rest, cause, htext, hfront, hfault, rfl⟩ :=
        readUnits_eq_error_iff_fault.mp hunits
      exact ⟨front, p, taken, rest, cause, htext, hfront, hfault,
        (Except.error.inj h).symm.trans (hshift htext)⟩
  · rintro ⟨front, p, taken, rest, cause, htext, hfront, hfault, rfl⟩
    have hunits := readUnits_eq_error_iff_fault.mpr
      ⟨front, p, taken, rest, cause, htext, hfront, hfault, rfl⟩
    rw [read_of_error hunits, hshift htext]

/-- Reading fails with the fault of the first unit that has one, behind units that
can be read. The offset in an error is that of the place where the fault is found:
it is within the text and between two characters, and not before the unit. An error
without an offset is that of a unit which is whole, with what ends it. -/
theorem read_error_at_fault (text : String) (error : ReadError) :
    read text = .error error ↔ ∃ front p taken rest cause,
      text.toList = front ++ (taken ++ rest) ∧ Front front p (taken ++ rest) ∧
        Fault taken rest cause ∧ error = cause.shift (Text.byteLength (front ++ taken)) ∧
        (∀ offset, error.offset? = some offset → offset = Text.byteLength (front ++ taken) ∧
          Text.byteLength front ≤ offset ∧ offset ≤ (Text.bytes text).length ∧
          (⟨offset⟩ : String.Pos.Raw).IsValid text) ∧
        (error.offset? = none → ∃ opcode parameter, Spelled taken opcode parameter rest) := by
  refine ⟨fun h => ?_, ?_⟩
  · obtain ⟨front, p, taken, rest, cause, htext, hfront, hfault, herror⟩ := read_eq_error_iff.mp h
    refine ⟨front, p, taken, rest, cause, htext, hfront, hfault, herror, ?_, ?_⟩
    · intro offset hoffset
      rw [herror, ReadError.offset?_shift] at hoffset
      obtain ⟨start, hstart, rfl⟩ := Option.map_eq_some_iff.mp hoffset
      obtain rfl := hfault.offset_eq_zero hstart
      have hvalid := Text.isValid_byteLength (htext.trans (List.append_assoc ..).symm)
      have hlength := Text.length_bytes text
      simp only [htext, Text.byteLength_append] at hlength
      refine ⟨rfl, ?_, ?_, hvalid⟩ <;> simp only [Text.byteLength_append] <;> omega
    · intro hoffset
      rw [herror, ReadError.offset?_shift, Option.map_eq_none_iff] at hoffset
      exact hfault.spelled hoffset
  · rintro ⟨front, p, taken, rest, cause, htext, hfront, hfault, herror, -, -⟩
    exact read_eq_error_iff.mpr ⟨front, p, taken, rest, cause, htext, hfront, hfault, herror⟩

end Listing

end ActionCode
