import ActionCode.Proofs.Listing.ByteReader
import ActionCode.Proofs.Listing.Density
import ActionCode.Proofs.Listing.Fault

namespace ActionCode.Listing

theorem toNat_lt_of_isBlank {c : Char} (h : isBlank c = true) : c.toNat < 128 := by
  cases isBlank_iff.mp h <;> decide

theorem toNat_lt_of_isDigit {c : Char} (h : c.isDigit = true) : c.toNat < 128 := by
  have hc := Char.isDigit_iff_toNat.mp h
  have hnine : '9'.toNat = 57 := rfl
  omega

theorem asciiOnly_of_lt {p : Char → Bool} (h : ∀ c, p c = true → c.toNat < 128) :
    Text.AsciiOnly p := by
  have hfalse : ∀ c : Char, 128 ≤ c.toNat → p c = false := by
    intro c hc
    rw [Bool.eq_false_iff]
    exact fun hp => absurd (h c hp) (Nat.not_lt.mpr hc)
  intro c d hc hd
  rw [hfalse c hc, hfalse d hd]

theorem asciiOnly_isBlank : Text.AsciiOnly isBlank :=
  asciiOnly_of_lt fun _ => toNat_lt_of_isBlank

theorem asciiOnly_isDigit : Text.AsciiOnly Char.isDigit :=
  asciiOnly_of_lt fun _ => toNat_lt_of_isDigit

theorem asciiOnly_isBare : Text.AsciiOnly isBare := by
  intro c d hc hd
  have hcomma : ∀ c : Char, 128 ≤ c.toNat → c ≠ ',' := by
    rintro c hc rfl
    exact absurd hc (by decide)
  rw [isBare, isBare, asciiOnly_isBlank c d hc hd]
  simp [hcomma c hc, hcomma d hd]

theorem byteLength_of_isBlank {c : Char} (h : isBlank c = true) : Text.byteLength [c] = 1 := by
  cases isBlank_iff.mp h <;> rfl

namespace ByteReader

variable {text : String} {place : Nat} {rest : List Char}

/-- What is read in front of some rest, with the place of this rest in the whole text.
Errors count from the place where reading began. -/
def located {α : Type} (text : String) (place : Nat) :
    Except ReadError (α × List Char) → Except ReadError (α × Nat)
  | .ok (value, after) => .ok (value, offset text.toList after)
  | .error error => .error (error.shift place)

theorem located_eq_error_iff {α : Type} {outcome : Except ReadError (α × List Char)}
    {error : ReadError} : located text place outcome = .error error ↔
      ∃ cause, outcome = .error cause ∧ error = cause.shift place := by
  cases outcome <;> simp [located, @eq_comm _ error]

def reported {α : Type} : Except ReadError α → List Event × Except ReadError α
  | .ok a => ([], .ok a)
  | .error error => (error.events, .error error)

theorem eq_offset (h : Text.At text place rest) : place = offset text.toList rest := by
  have hlength := h.add_byteLength
  rw [Text.length_bytes] at hlength
  rw [offset]
  omega

theorem at_of_suffix (h : Text.At text place rest) {after : List Char} (hafter : after <:+ rest) :
    Text.At text (offset text.toList after) after := by
  obtain ⟨taken, rfl⟩ := hafter
  have hskip := h.skip
  rwa [eq_offset hskip] at hskip

theorem shift_offset (h : Text.At text place rest) {after : List Char} (hafter : after <:+ rest)
    (error : ReadError) :
    (error.shift (offset rest after)).shift place = error.shift (offset text.toList after) := by
  obtain ⟨taken, rfl⟩ := hafter
  rw [ReadError.shift_shift, offset_append_right, ← eq_offset h.skip]

theorem commentEnd_cases {line : List Char} (h : Text.At text place ('/' :: '/' :: line)) :
    ∃ behind, Text.At text (commentEnd text place (String.ofList ('/' :: '/' :: line))) behind ∧
      place < commentEnd text place (String.ofList ('/' :: '/' :: line)) ∧
      skipTrivia false ('/' :: '/' :: line) = skipTrivia false behind := by
  have hslash := '/'.utf8Size_pos
  cases hsplit : Text.splitFirst '\n' line with
  | none =>
    have hend : commentEnd text place (String.ofList ('/' :: '/' :: line)) =
        (Text.bytes text).length := by simp [commentEnd, Text.splitFirst, hsplit]
    have hline := Text.splitFirst_eq_none_iff.mp hsplit
    have hlength := h.add_byteLength
    have hnil := @Text.At.skip text place [] ('/' :: '/' :: line) (by simpa using h)
    rw [hlength, ← hend] at hnil
    rw [Text.byteLength_cons] at hlength
    exact ⟨[], hnil, by omega, by simpa using (Trivia.lastComment hline).skip⟩
  | some parts =>
    obtain ⟨front, behind⟩ := parts
    obtain ⟨rfl, hfront⟩ := Text.eq_append_of_splitFirst hsplit
    have hnewline : '\n'.utf8Size = 1 := rfl
    have hend : commentEnd text place (String.ofList ('/' :: '/' :: (front ++ '\n' :: behind))) =
        place + Text.byteLength ('/' :: '/' :: (front ++ ['\n'])) := by
      simp [commentEnd, Text.splitFirst, hsplit, hnewline, Nat.add_assoc]
    have hbehind := @Text.At.skip text place behind ('/' :: '/' :: (front ++ ['\n']))
      (by simpa using h)
    rw [hend]
    refine ⟨behind, hbehind, by rw [Text.byteLength_cons]; omega, ?_⟩
    simpa using (@Trivia.comment front [] behind hfront .none).skip

theorem skipOne?_of_slash {line : List Char} (h : Text.At text place ('/' :: line)) :
    skipOne? text place = some (if ['/', '/'] <+: '/' :: line then
      some (commentEnd text place (String.ofList ('/' :: line))) else none) := by
  have hpeek := (h.peek?_eq_iff (show '/'.toNat < 128 by decide)).mpr rfl
  have hblank : isBlank '/' = false := by decide
  simp only [skipOne?, hpeek, hblank, Bool.false_eq_true, if_false, if_true, h.rest?,
    Option.map_some, String.toList_ofList]

theorem skipOne?_cases (h : Text.At text place rest) :
    (skipOne? text place = some none ∧ skipTrivia false rest = rest) ∨
      ∃ next behind, skipOne? text place = some (some next) ∧ Text.At text next behind ∧
        place < next ∧ skipTrivia false rest = skipTrivia false behind := by
  cases rest with
  | nil => exact .inl ⟨by rw [skipOne?, h.peek?_nil], by rw [skipTrivia]⟩
  | cons c rest =>
    obtain ⟨byte, hpeek, hshows⟩ := h.peek?_cons
    have hblank := hshows.test asciiOnly_isBlank
    have hslash := hshows.eq_iff (show '/'.toNat < 128 by decide)
    cases hc : isBlank c with
    | true =>
      have hskip := skipTrivia_blank (isBlank_iff.mp hc) rest
      refine .inr ⟨place + 1, rest, ?_, ?_, Nat.lt_succ_self place, hskip⟩
      · simp only [skipOne?, hpeek, hblank, hc, if_true]
      · rw [← byteLength_of_isBlank hc]
        exact h.skip
    | false =>
      by_cases hcomment : ['/', '/'] <+: c :: rest
      · obtain ⟨line, hline⟩ := hcomment
        rw [← hline] at h ⊢
        obtain ⟨behind, hbehind, hlt, hskip⟩ := commentEnd_cases h
        have hstep := skipOne?_of_slash h
        rw [if_pos ⟨line, rfl⟩] at hstep
        exact .inr ⟨_, behind, hstep, hbehind, hlt, hskip⟩
      · refine .inl ⟨?_, skipTrivia_eq_self_iff.mpr ⟨isBlank_eq_false_iff.mp hc, hcomment⟩⟩
        by_cases hc' : c = '/'
        · subst hc'
          rw [skipOne?_of_slash h, if_neg hcomment]
        · simp [skipOne?, hpeek, hblank, hc, hslash, hc']

theorem skip?_eq {rounds : Nat} (h : Text.At text place rest)
    (hrounds : Text.byteLength rest < rounds) :
    skip? text rounds place = some (offset text.toList (skipTrivia false rest)) := by
  induction rounds generalizing place rest with
  | zero => contradiction
  | succ rounds ih =>
    obtain ⟨hstep, hskip⟩ | ⟨next, behind, hstep, hbehind, hlt, hskip⟩ := skipOne?_cases h
    · rw [skip?, hstep, hskip, ← eq_offset h]
      rfl
    · have hlength := h.add_byteLength
      have hlength' := hbehind.add_byteLength
      have hnext := ih hbehind (by omega)
      rw [skip?, hstep, hskip]
      exact hnext

theorem opcode?_eq (h : Text.At text place rest) :
    opcode? text place = some (reported (located text place (readOpcode rest))) := by
  have hgap : place + Text.byteLength (rest.takeWhile Char.isDigit) =
      offset text.toList (rest.dropWhile Char.isDigit) := by
    have hsplit := h
    rw [← @List.takeWhile_append_dropWhile _ Char.isDigit rest] at hsplit
    exact eq_offset hsplit.skip
  rw [opcode?, h.run? asciiOnly_isDigit, hgap, readOpcode]
  by_cases hnil : rest.takeWhile Char.isDigit = []
  · simp [hnil, located, reported, ReadError.events, ReadError.shift]
  · have hne : String.ofList (rest.takeWhile Char.isDigit) ≠ "" := by simpa using hnil
    simp only [Option.bind_eq_bind, Option.bind_some, if_neg hne, if_neg hnil,
      String.toList_ofList, Opcode.ofWord?_saturated, Numeral.toNat_saturated]
    cases Opcode.ofCode? (Nat.ofDigitChars 10 (rest.takeWhile Char.isDigit) 0) <;> rfl

theorem parameter?_eq {opcode : Opcode} (h : Text.At text place rest) :
    parameter? text opcode place = some (located text place (readParameter opcode rest)) := by
  have hquote := h.peek?_eq_iff (show '"'.toNat < 128 by decide)
  rw [parameter?]
  by_cases hhead : rest.head? = some '"'
  · obtain ⟨body, rfl⟩ := List.head?_eq_some_iff.mp hhead
    have hbody : Text.At text (place + 1) body := @Text.At.skip text place body ['"'] h
    rw [if_pos (hquote.mpr hhead), hbody.rest?, readParameter]
    simp only [Option.bind_eq_bind, Option.bind_some, String.toList_ofList]
    cases hd : Text.Quoted.decode body with
    | none => rfl
    | some parts =>
      obtain ⟨content, after⟩ := parts
      obtain ⟨written, rfl, -⟩ := exists_literal hd
      have hbehind : place + 1 + offset (written ++ '"' :: after) after =
          offset text.toList after := by
        rw [List.append_cons] at hbody ⊢
        rw [offset_append_right, eq_offset hbody.skip]
      exact congrArg (fun stop => some (Except.ok (WrittenParameter.quoted content, stop))) hbehind
  · have hstop : place + Text.byteLength (rest.takeWhile isBare) =
        offset text.toList (rest.dropWhile isBare) := by
      have hsplit := h
      rw [← @List.takeWhile_append_dropWhile _ isBare rest] at hsplit
      exact eq_offset hsplit.skip
    have hempty : String.ofList (rest.takeWhile isBare) = "" ↔ rest.takeWhile isBare = [] := by
      simp
    rw [if_neg (hquote.not.mpr hhead), readParameter_of_head_ne hhead, h.run? asciiOnly_isBare,
      hstop]
    simp only [Option.bind_eq_bind, Option.bind_some, hempty, String.toList_ofList]
    split <;> rfl

theorem separator_eq (h : Text.At text place rest) :
    separator text place =
      ((readSeparator rest).map (offset text.toList)).mapError (·.shift place) := by
  cases rest with
  | nil =>
    rw [separator, h.peek?_nil, readSeparator, eq_offset h]
    rfl
  | cons c rest =>
    obtain ⟨byte, hpeek, hshows⟩ := h.peek?_cons
    have hblank := hshows.test asciiOnly_isBlank
    have hcomma := hshows.eq_iff (show ','.toNat < 128 by decide)
    rw [separator, hpeek, readSeparator]
    simp only [hblank, hcomma]
    by_cases hc : c = ','
    · have hnext : Text.At text (place + 1) rest := @Text.At.skip text place rest [','] (hc ▸ h)
      rw [if_pos hc, if_pos hc, eq_offset hnext]
      rfl
    · rw [if_neg hc, if_neg hc]
      cases isBlank c with
      | true =>
        rw [if_pos rfl, if_pos rfl, eq_offset h]
        rfl
      | false => rfl

theorem reported_of_events {α : Type} {outcome : Except ReadError α}
    (h : ∀ error, outcome = .error error → error.events = []) :
    reported outcome = ([], outcome) := by
  cases outcome with
  | ok a => rfl
  | error error => rw [reported, h error rfl]

theorem events_of_offset? {error : ReadError} (h : error.offset? = none) : error.events = [] := by
  cases error <;> first | rfl | contradiction

theorem events_of_readUnit {opcode : Opcode} {gap : List Char} {error : ReadError}
    (hopcode : readOpcode rest = .ok (opcode, gap)) (h : readUnit rest = .error error) (n : Nat) :
    (error.shift n).events = [] := by
  obtain hcode | ⟨unit, -, hbehindOpcode⟩ := bind_eq_error_iff.mp h
  · cases hopcode.symm.trans hcode
  obtain hgap | ⟨start, -, hbehindGap⟩ := bind_eq_error_iff.mp hbehindOpcode
  · obtain ⟨cause, hread, rfl⟩ := mapError_eq_error_iff.mp hgap
    obtain ⟨-, rfl⟩ := readGap_eq_error_iff.mp hread
    rfl
  obtain hparameter | ⟨⟨parameter, stop⟩, -, hbehindParameter⟩ := bind_eq_error_iff.mp hbehindGap
  · obtain ⟨cause, hread, rfl⟩ := mapError_eq_error_iff.mp hparameter
    obtain ⟨body, -, -, rfl⟩ | ⟨-, -, rfl⟩ := readParameter_eq_error_iff.mp hread <;> rfl
  obtain hseparator | ⟨after, -, hbehindSeparator⟩ := bind_eq_error_iff.mp hbehindParameter
  · obtain ⟨cause, hread, rfl⟩ := mapError_eq_error_iff.mp hseparator
    obtain ⟨c, more, -, -, rfl⟩ := readSeparator_eq_error_iff.mp hread
    rfl
  obtain hoperand | ⟨operand?, -, hreturn⟩ := bind_eq_error_iff.mp hbehindSeparator
  · have hoffset := offset?_of_operand hoperand
    rw [shift_of_offset? hoffset, events_of_offset? hoffset]
  · contradiction

/-- Behind the space the two readers go the same way, with the same errors at the
same places. -/
theorem behind_gap_eq (h : Text.At text place rest) {start : List Char} (hstart : start <:+ rest)
    (opcode : Opcode) :
    (do
      let (parameter, stop) ← located text (offset text.toList start) (readParameter opcode start)
      let next ← separator text stop
      let operand? ← parameter.operand opcode
      return (⟨opcode, operand?⟩, next) : Except ReadError (Instruction × Nat)) =
    located text place (do
      let (parameter, stop) ← (readParameter opcode start).mapError (·.shift (offset rest start))
      let after ← (readSeparator stop).mapError (·.shift (offset rest stop))
      let operand? ← parameter.operand opcode
      return (⟨opcode, operand?⟩, after)) := by
  cases hparameter : readParameter opcode start with
  | error error => exact congrArg Except.error (shift_offset h hstart error).symm
  | ok parts =>
    obtain ⟨parameter, stop⟩ := parts
    obtain ⟨spelling, rfl, -⟩ := exists_parameter hparameter
    have hstop : stop <:+ rest := (List.suffix_append spelling stop).trans hstart
    simp only [located, mapError_ok, bind, Except.bind, separator_eq (at_of_suffix h hstop)]
    cases readSeparator stop with
    | error error => exact congrArg Except.error (shift_offset h hstop error).symm
    | ok after =>
      cases hoperand : parameter.operand opcode with
      | error error =>
        have hoffset := offset?_of_operand hoperand
        simp [Except.map, shift_of_offset? hoffset]
      | ok operand? => rfl

theorem unit?_of_no_gap {opcode : Opcode} {gap : Nat}
    (hopcode : opcode? text place = some ([], .ok (opcode, gap)))
    (hgap : Text.peek? text gap ≠ some ' ') :
    unit? text place = some ([], .error (.expectedOperand gap)) := by
  simp [unit?, hopcode, hgap]

theorem unit?_of_gap {opcode : Opcode} {gap : Nat}
    {outcome : Except ReadError (WrittenParameter × Nat)}
    (hopcode : opcode? text place = some ([], .ok (opcode, gap)))
    (hgap : Text.peek? text gap = some ' ')
    (hparameter : parameter? text opcode (gap + 1) = some outcome) :
    unit? text place = some ([], do
      let (parameter, stop) ← outcome
      let next ← separator text stop
      let operand? ← parameter.operand opcode
      return (⟨opcode, operand?⟩, next)) := by
  simp [unit?, hopcode, hgap, hparameter]

theorem unit?_eq (h : Text.At text place rest) :
    unit? text place = some (reported (located text place (readUnit rest))) := by
  have hcode := opcode?_eq h
  cases hopcode : readOpcode rest with
  | error error =>
    rw [unit?, hcode, readUnit, hopcode]
    rfl
  | ok parts =>
    obtain ⟨opcode, gap⟩ := parts
    have hevents : ∀ error, located text place (readUnit rest) = .error error →
        error.events = [] := by
      intro error herror
      obtain ⟨cause, hread, rfl⟩ := located_eq_error_iff.mp herror
      exact events_of_readUnit hopcode hread place
    rw [reported_of_events hevents]
    rw [hopcode] at hcode
    obtain ⟨digits, rfl, -⟩ := exists_code hopcode
    have hsuffix := List.suffix_append digits gap
    have hgap := at_of_suffix h hsuffix
    have hspace := hgap.peek?_eq_iff (show ' '.toNat < 128 by decide)
    cases hread : readGap gap with
    | error error =>
      obtain ⟨hhead, rfl⟩ := readGap_eq_error_iff.mp hread
      have hunit : readUnit (digits ++ gap) =
          .error (.shift (offset (digits ++ gap) gap) (.expectedOperand 0)) := by
        simp [readUnit, hopcode, hread, bind, Except.bind]
      rw [unit?_of_no_gap hcode (hspace.not.mpr hhead), hunit, located, shift_offset h hsuffix]
      rfl
    | ok start =>
      obtain rfl := exists_gap hread
      have hstart : Text.At text (offset text.toList (' ' :: start) + 1) start :=
        @Text.At.skip text _ start [' '] hgap
      have hsuffix' : start <:+ digits ++ ' ' :: start := (List.suffix_cons ' ' start).trans hsuffix
      have hbehind := behind_gap_eq h hsuffix' opcode
      rw [unit?_of_gap hcode (hspace.mpr rfl) (parameter?_eq hstart), eq_offset hstart, readUnit,
        hopcode]
      exact congrArg (fun outcome => some ([], outcome)) hbehind

def stopped (text : String) (outcome : Except Stop Program) : Except ReadError Program :=
  outcome.mapError fun stop => stop.error.shift (offset text.toList stop.rest)

theorem stopped_readUnits (text : String) : stopped text (readUnits text.toList) = read text := by
  rw [stopped, read]
  cases readUnits text.toList <;> rfl

theorem byteLength_lt_of_readUnit {i : Instruction} {after : List Char}
    (h : readUnit rest = .ok (i, after)) : Text.byteLength after + 3 ≤ Text.byteLength rest := by
  obtain ⟨unit, rfl, hunit⟩ := readUnit_eq_ok_iff.mp h
  have hthree := hunit.three_le
  rw [Text.byteLength_append]
  omega

theorem units?_eq {rounds : Nat} (h : Text.At text place rest)
    (hrounds : Text.byteLength rest < rounds) :
    units? text rounds place = some (reported (stopped text (readUnits rest))) := by
  induction rounds generalizing place rest with
  | zero => contradiction
  | succ rounds ih =>
    have hstart := at_of_suffix h (skipTrivia_suffix rest)
    have hlength := hstart.add_byteLength
    rw [units?, skip?_eq h hrounds]
    simp only [Option.bind_eq_bind, Option.bind_some]
    by_cases hnil : skipTrivia false rest = []
    · rw [hnil, Text.byteLength_nil] at hlength
      rw [if_pos (by rw [hnil]; omega), readUnits_of_skip_nil hnil]
      rfl
    · obtain ⟨c, more, hskip⟩ := List.exists_cons_of_ne_nil hnil
      have hpos := c.utf8Size_pos
      have hlt : offset text.toList (skipTrivia false rest) < (Text.bytes text).length := by
        rw [← hlength, hskip, Text.byteLength_cons]
        omega
      rw [if_neg (Nat.not_le.mpr hlt), unit?_eq hstart]
      cases hread : readUnit (skipTrivia false rest) with
      | error error =>
        rw [readUnits_of_error hnil hread]
        rfl
      | ok unit =>
        obtain ⟨i, after⟩ := unit
        have hle := byteLength_lt_of_readUnit hread
        have hle' := byteLength_skipTrivia_le rest
        have hafter := at_of_suffix hstart (suffix_of_readUnit hread)
        rw [readUnits_of_ok hread]
        simp only [located, reported, Option.bind_some, ih hafter (by omega)]
        cases readUnits after with
        | error stop => rfl
        | ok p => rfl

/-- A unit is read in front of characters only, since its digits have been cut out. -/
theorem exists_at_of_unit? {unit : List Event × Except ReadError (Instruction × Nat)}
    (h : unit? text place = some unit) : ∃ rest, Text.At text place rest := by
  cases hrun : Text.run? Char.isDigit text place with
  | none => simp [unit?, opcode?, hrun] at h
  | some run =>
    obtain ⟨digits, hslice, -⟩ := Option.map_eq_some_iff.mp hrun
    exact Text.exists_at_of_slice? hslice

theorem next_of_unit? {events : List Event} {i : Instruction} {next : Nat}
    (h : unit? text place = some (events, .ok (i, next))) :
    place + 3 ≤ next ∧ ∃ after, Text.At text next after := by
  obtain ⟨rest, hrest⟩ := exists_at_of_unit? h
  rw [unit?_eq hrest] at h
  cases hread : readUnit rest with
  | error error => simp [hread, located, reported] at h
  | ok unit =>
    obtain ⟨j, after⟩ := unit
    have hnext : offset text.toList after = next := by
      simp only [hread, located, reported, Option.some.injEq, Prod.mk.injEq, Except.ok.injEq] at h
      exact h.2.2
    have hafter := at_of_suffix hrest (suffix_of_readUnit hread)
    rw [hnext] at hafter
    have hlength := hrest.add_byteLength
    have hlength' := hafter.add_byteLength
    have hle := byteLength_lt_of_readUnit hread
    exact ⟨by omega, after, hafter⟩

theorem next_of_skipOne? {next : Nat} (h : Text.At text place rest)
    (hstep : skipOne? text place = some (some next)) :
    place < next ∧ ∃ behind, Text.At text next behind := by
  obtain ⟨hnone, -⟩ | ⟨next', behind, hsome, hbehind, hlt, -⟩ := skipOne?_cases h
  · cases hnone.symm.trans hstep
  · obtain rfl := Option.some.inj (Option.some.inj (hsome.symm.trans hstep))
    exact ⟨hlt, behind, hbehind⟩

/-- A step of skipping goes forward, also from a place inside of a character. -/
theorem lt_of_skipOne? {next : Nat} (h : skipOne? text place = some (some next)) :
    place < next ∧ next ≤ (Text.bytes text).length := by
  cases hpeek : Text.peek? text place with
  | none => simp [skipOne?, hpeek] at h
  | some byte =>
    obtain ⟨b, hb, -⟩ := Option.map_eq_some_iff.mp hpeek
    have hlt := (List.getElem?_eq_some_iff.mp hb).1
    cases hblank : isBlank byte with
    | true =>
      simp only [skipOne?, hpeek, hblank, if_true, Option.some.injEq] at h
      omega
    | false =>
      cases hslice : Text.rest? text place with
      | none => simp [skipOne?, hpeek, hblank, hslice] at h
      | some part =>
        obtain ⟨rest, hrest⟩ := Text.exists_at_of_slice? hslice
        obtain ⟨hnext, behind, hbehind⟩ := next_of_skipOne? hrest h
        have hlength := hbehind.add_byteLength
        exact ⟨hnext, by omega⟩

end ByteReader

variable {text : String}

theorem read?_eq {rounds : Nat} (hrounds : (Text.bytes text).length < rounds) :
    ByteReader.read? rounds text = some (readEvents text, read text) := by
  rw [Text.length_bytes] at hrounds
  rw [ByteReader.read?, ByteReader.units?_eq (.start text) hrounds, ByteReader.stopped_readUnits,
    readEvents]
  cases read text <;> rfl

theorem length_of_read {p : Program} (h : read text = .ok p) :
    4 * p.length ≤ (Text.bytes text).length + 1 := by
  have hunits := length_of_readUnits (read_eq_ok_iff.mp h)
  have hle := byteLength_skipTrivia_le text.toList
  rw [Text.length_bytes]
  omega

/-- The reader of bytes gives the answer that there is for every text. All that it
cuts out of the text begins and ends between two characters, a unit takes three bytes
or more, and what is skipped in a step one or more, so that its loops end. What is
read has no more than an instruction for every four bytes of the text, but for the
last, which needs nothing to separate it. -/
theorem byte_reader_total (text : String) :
    (∀ rounds, (Text.bytes text).length < rounds →
      ByteReader.read? rounds text = some (readEvents text, read text)) ∧
    (∀ start stop part, Text.slice? text start stop = some part →
      start ≤ stop ∧ stop ≤ (Text.bytes text).length ∧
        (⟨start⟩ : String.Pos.Raw).IsValid text ∧ (⟨stop⟩ : String.Pos.Raw).IsValid text) ∧
    (∀ place events i next, ByteReader.unit? text place = some (events, .ok (i, next)) →
      place + 3 ≤ next ∧ next ≤ (Text.bytes text).length ∧
        (⟨next⟩ : String.Pos.Raw).IsValid text) ∧
    (∀ place next, ByteReader.skipOne? text place = some (some next) →
      place < next ∧ next ≤ (Text.bytes text).length ∧
        ((⟨place⟩ : String.Pos.Raw).IsValid text → (⟨next⟩ : String.Pos.Raw).IsValid text)) ∧
    ∀ p, read text = .ok p → 4 * p.length ≤ (Text.bytes text).length + 1 := by
  refine ⟨fun rounds => read?_eq, ?_, ?_, ?_, fun p => length_of_read⟩
  · intro start stop part hslice
    obtain ⟨hle, hstart, hstop⟩ := Text.of_slice? hslice
    obtain ⟨rest, hrest⟩ := Text.At.of_isValid hstop
    have hlength := hrest.add_byteLength
    exact ⟨hle, by omega, hstart, hstop⟩
  · intro place events i next hunit
    obtain ⟨hthree, after, hafter⟩ := ByteReader.next_of_unit? hunit
    have hlength := hafter.add_byteLength
    exact ⟨hthree, by omega, hafter.isValid⟩
  · intro place next hstep
    obtain ⟨hlt, hle⟩ := ByteReader.lt_of_skipOne? hstep
    refine ⟨hlt, hle, fun hvalid => ?_⟩
    obtain ⟨rest, hrest⟩ := Text.At.of_isValid hvalid
    obtain ⟨-, behind, hbehind⟩ := ByteReader.next_of_skipOne? hrest hstep
    exact hbehind.isValid

theorem byte_reader_total_shared_blank :
    let p : Program := [.pushUnchecked (.str ""), .pushUnchecked (.str "é")]
    (11 < 12 ∧ ByteReader.read? 12 "13  13 \"é\"" = some ([], .ok p) ∧
      readEvents "13  13 \"é\"" = [] ∧ read "13  13 \"é\"" = .ok p ∧ 4 * 2 ≤ 11 + 1) ∧
    (Text.slice? "13  13 \"é\"" 8 10 = some "é" ∧ Text.slice? "13  13 \"é\"" 8 9 = none ∧
      (⟨8⟩ : String.Pos.Raw).IsValid "13  13 \"é\"" ∧
      (⟨10⟩ : String.Pos.Raw).IsValid "13  13 \"é\"") ∧
    (ByteReader.unit? "13  13 \"é\"" 4 = some ([], .ok (.pushUnchecked (.str "é"), 11)) ∧
      4 + 3 ≤ 11) ∧
    ByteReader.skipOne? "13  13 \"é\"" 3 = some (some 4) ∧
      (⟨4⟩ : String.Pos.Raw).IsValid "13  13 \"é\"" := by
  obtain ⟨hread, hslice, hunit, hskip, hdensity⟩ := byte_reader_total "13  13 \"é\""
  have hanswer : ByteReader.read? 12 "13  13 \"é\"" =
      some ([], .ok [.pushUnchecked (.str ""), .pushUnchecked (.str "é")]) := rfl
  have hpart : Text.slice? "13  13 \"é\"" 8 10 = some "é" := rfl
  have hnext : ByteReader.unit? "13  13 \"é\"" 4 =
      some ([], .ok (.pushUnchecked (.str "é"), 11)) := rfl
  have hstep : ByteReader.skipOne? "13  13 \"é\"" 3 = some (some 4) := rfl
  have hboth := Option.some.inj ((hread 12 (by decide)).symm.trans hanswer)
  obtain ⟨hevents, hp⟩ := Prod.mk.inj hboth
  obtain ⟨-, -, hstart, hstop⟩ := hslice 8 10 "é" hpart
  obtain ⟨hthree, -, -⟩ := hunit 4 [] (.pushUnchecked (.str "é")) 11 hnext
  obtain ⟨-, -, hvalid⟩ := hskip 3 4 hstep
  exact ⟨⟨by decide, hanswer, hevents, hp, hdensity _ hp⟩, ⟨hpart, rfl, hstart, hstop⟩,
    ⟨hnext, hthree⟩, hstep, hvalid (by decide)⟩

end ActionCode.Listing
