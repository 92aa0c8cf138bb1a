import ActionCode.Event
import ActionCode.Proofs.Listing.Position

namespace ActionCode

namespace Listing

def WholeLines (text : List Char) : Prop :=
  text = [] ∨ text.getLast? = some '\n'

instance (text : List Char) : Decidable (WholeLines text) :=
  inferInstanceAs (Decidable (_ ∨ _))

namespace WholeLines

variable {text rest : List Char}

theorem eq_of_getLast? (h : WholeLines text) {c : Char} (hc : text.getLast? = some c) :
    c = '\n' := by
  obtain rfl | hlf := h
  · contradiction
  · exact Option.some.inj (hc.symm.trans hlf)

theorem of_suffix (h : WholeLines text) (hrest : rest <:+ text) : WholeLines rest := by
  obtain ⟨front, rfl⟩ := hrest
  cases hlast : rest.getLast? with
  | none => exact .inl (List.getLast?_eq_none_iff.mp hlast)
  | some c =>
    obtain rfl := h.eq_of_getLast? (c := c) (by rw [List.getLast?_append, hlast]; rfl)
    exact .inr hlast

theorem lineFeed_mem (h : WholeLines text) (hne : text ≠ []) : '\n' ∈ text :=
  List.mem_of_getLast? (h.resolve_left hne)

theorem ne_nil (h : WholeLines (text ++ rest)) {c : Char} (hc : text.getLast? = some c)
    (hne : c ≠ '\n') : rest ≠ [] := by
  rintro rfl
  rw [List.append_nil] at h
  exact hne (h.eq_of_getLast? hc)

end WholeLines

/-- Trivia ends in front of something, or goes on in what follows. -/
theorem skipTrivia_append {inComment : Bool} {text : List Char} (hlines : WholeLines text)
    (hstart : inComment = false ∨ text ≠ []) (more : List Char) :
    skipTrivia inComment (text ++ more) =
      if skipTrivia inComment text = [] then skipTrivia false more
      else skipTrivia inComment text ++ more := by
  fun_induction skipTrivia inComment text with
  | case1 inComment => simp_all
  | case2 c rest ih =>
    have hrest := hlines.of_suffix (List.suffix_cons c rest)
    rw [List.cons_append, skipTrivia_line]
    refine ih hrest ?_
    by_cases hnil : rest = []
    · subst hnil
      exact .inl (by simp [hlines.eq_of_getLast? (c := c) rfl])
    · exact .inr hnil
  | case3 inComment c rest hc hb ih =>
    rw [Bool.not_eq_true] at hc
    rw [hc, List.cons_append, skipTrivia_blank (isBlank_iff.mp hb)]
    exact ih (hlines.of_suffix (List.suffix_cons c rest)) (.inl rfl)
  | case4 inComment hc line hb ih =>
    rw [Bool.not_eq_true] at hc
    rw [hc, List.cons_append, List.cons_append, skipTrivia_slashes]
    refine ih (hlines.of_suffix ⟨['/', '/'], rfl⟩) (.inr ?_)
    rintro rfl
    exact absurd (hlines.eq_of_getLast? rfl) (by decide)
  | case5 inComment c rest hc hb hne =>
    rw [Bool.not_eq_true] at hc hb
    rw [if_neg (List.cons_ne_nil c rest), hc, List.cons_append, skipTrivia.eq_def]
    simp only [Bool.false_eq_true, if_false, hb]
    split
    · rename_i line hline
      cases rest with
      | nil => exact absurd (hlines.eq_of_getLast? rfl) (by decide)
      | cons d rest =>
        obtain ⟨rfl, -⟩ := List.cons.inj hline
        exact absurd rfl (hne rest rfl)
    · rfl

theorem readOpcode_append {text : List Char} (hlines : WholeLines text) (hne : text ≠ [])
    (more : List Char) :
    readOpcode (text ++ more) =
      (readOpcode text).map fun (opcode, gap) => (opcode, gap ++ more) := by
  obtain ⟨htake, hdrop, -⟩ := Text.span_append_of_mem (hlines.lineFeed_mem hne)
    (show Char.isDigit '\n' = false by decide) more
  unfold readOpcode
  simp only [htake, hdrop]
  split
  · rfl
  · split <;> rfl

theorem Code.ne_nil_of_wholeLines {digits gap : List Char} {opcode : Opcode}
    (hcode : Code digits opcode) (hlines : WholeLines (digits ++ gap)) : gap ≠ [] := by
  refine hlines.ne_nil (List.getLast?_eq_some_getLast hcode.ne_nil) fun hlf => ?_
  have hdigit := hcode.isDigit _ (List.getLast_mem hcode.ne_nil)
  rw [hlf] at hdigit
  contradiction

theorem readGap_append {gap : List Char} (hne : gap ≠ []) (more : List Char) :
    readGap (gap ++ more) = (readGap gap).map (· ++ more) := by
  obtain ⟨c, gap, rfl⟩ := List.exists_cons_of_ne_nil hne
  by_cases hc : c = ' '
  · subst hc
    rfl
  · simp [readGap, hc, Except.map]

theorem readParameter_append {opcode : Opcode} {text : List Char} (hlines : WholeLines text)
    (hne : text ≠ []) (hclosed : ∀ n, readParameter opcode text ≠ .error (.unterminatedString n))
    (more : List Char) :
    readParameter opcode (text ++ more) =
      (readParameter opcode text).map fun (parameter, stop) => (parameter, stop ++ more) := by
  by_cases hquote : text.head? = some '"'
  · obtain ⟨body, rfl⟩ := List.head?_eq_some_iff.mp hquote
    cases hd : Text.Quoted.decode body with
    | none => exact absurd (by simp [readParameter, hd]) (hclosed 0)
    | some parts =>
      obtain ⟨content, stop⟩ := parts
      obtain ⟨written, rfl, hliteral⟩ := exists_literal hd
      simp [readParameter, hliteral.decode, Except.map]
  · have hquote' : (text ++ more).head? ≠ some '"' := by
      rwa [List.head?_append, Option.or_of_isSome (by simpa using hne)]
    obtain ⟨htake, hdrop, -⟩ := Text.span_append_of_mem (hlines.lineFeed_mem hne)
      (show isBare '\n' = false by decide) more
    rw [readParameter_of_head_ne hquote, readParameter_of_head_ne hquote', htake, hdrop]
    split <;> rfl

theorem readSeparator_append {stop : List Char} (hne : stop ≠ []) (more : List Char) :
    readSeparator (stop ++ more) = (readSeparator stop).map (· ++ more) := by
  obtain ⟨c, stop, rfl⟩ := List.exists_cons_of_ne_nil hne
  simp only [List.cons_append, readSeparator]
  split
  · rfl
  · split <;> rfl

/-- A parameter holds no line feed outside a literal, so it ends before a line does. -/
theorem ne_nil_of_readParameter {opcode : Opcode} {text stop : List Char}
    {parameter : WrittenParameter} (hlines : WholeLines text) (hne : text ≠ [])
    (h : readParameter opcode text = .ok (parameter, stop)) : stop ≠ [] := by
  rintro rfl
  obtain ⟨spelling, htext, hparameter⟩ := exists_parameter h
  rw [List.append_nil] at htext
  subst htext
  cases hparameter with
  | @quoted written =>
    exact absurd (hlines.eq_of_getLast? (List.getLast?_concat (l := '"' :: written))) (by decide)
  | bare hbare => exact absurd (hbare.no_blank _ (hlines.lineFeed_mem hne)) (by decide)

theorem readUnit_of_opcode {text gap start : List Char} {opcode : Opcode}
    (hopcode : readOpcode text = .ok (opcode, gap)) (hgap : readGap gap = .ok start) :
    readUnit text = do
      let (parameter, stop) ←
        (readParameter opcode start).mapError (·.shift (offset text start))
      let rest ← (readSeparator stop).mapError (·.shift (offset text stop))
      let operand? ← parameter.operand opcode
      return (⟨opcode, operand?⟩, rest) := by
  simp [readUnit, hopcode, hgap, bind, Except.bind]

/-- What a unit of whole lines is read for is not changed by what follows, unless
it leaves a literal open. -/
theorem readUnit_append {text : List Char} (hlines : WholeLines text) (hne : text ≠ [])
    (hclosed : ∀ n, readUnit text ≠ .error (.unterminatedString n)) (more : List Char) :
    readUnit (text ++ more) = (readUnit text).map fun (i, rest) => (i, rest ++ more) := by
  have hopcodeMore := readOpcode_append hlines hne more
  cases hopcode : readOpcode text with
  | error error =>
    rw [hopcode] at hopcodeMore
    rw [readUnit, readUnit, hopcodeMore, hopcode]
    rfl
  | ok unit =>
    obtain ⟨opcode, gap⟩ := unit
    rw [hopcode] at hopcodeMore
    obtain ⟨digits, htext, hcode⟩ := exists_code hopcode
    rw [htext] at hlines
    have hgapLines := hlines.of_suffix (List.suffix_append digits gap)
    have hgapMore := readGap_append (hcode.ne_nil_of_wholeLines hlines) more
    cases hgap : readGap gap with
    | error error =>
      rw [hgap] at hgapMore
      rw [readUnit, readUnit, hopcodeMore, hopcode]
      simp [bind, Except.bind, Except.map, hgap, hgapMore, offset_append_append]
    | ok start =>
      rw [hgap] at hgapMore
      obtain rfl := exists_gap hgap
      have hstartLines := hgapLines.of_suffix (List.suffix_cons ' ' start)
      have hstart : start ≠ [] := @WholeLines.ne_nil [' '] start hgapLines ' ' rfl (by decide)
      have hliteral : ∀ n, readParameter opcode start ≠ .error (.unterminatedString n) := by
        intro n hopen
        refine hclosed (offset text start + n) ?_
        rw [readUnit_of_opcode hopcode hgap, hopen]
        rfl
      rw [readUnit_of_opcode hopcode hgap, readUnit_of_opcode hopcodeMore hgapMore,
        readParameter_append hstartLines hstart hliteral]
      cases hparameter : readParameter opcode start with
      | error error => simp [bind, Except.bind, Except.map, offset_append_append]
      | ok parsed =>
        obtain ⟨parameter, stop⟩ := parsed
        have hstop := ne_nil_of_readParameter hstartLines hstart hparameter
        simp only [Except.map, mapError_ok, offset_append_append, bind, Except.bind,
          readSeparator_append hstop]
        cases readSeparator stop with
        | error error => rfl
        | ok rest => cases parameter.operand opcode <;> rfl

theorem skipTrivia_append_of_ne_nil {text : List Char} (hlines : WholeLines text)
    (hne : skipTrivia false text ≠ []) (more : List Char) :
    skipTrivia false (text ++ more) = skipTrivia false text ++ more := by
  rw [skipTrivia_append hlines (.inl rfl), if_neg hne]

theorem readUnits_append {text : List Char} (hlines : WholeLines text) (more : List Char) :
    (∀ p, readUnits text = .ok p →
      readUnits (text ++ more) = (readUnits more).map (p ++ ·)) ∧
    ∀ stop, readUnits text = .error stop → (∀ n, stop.error ≠ .unterminatedString n) →
      readUnits (text ++ more) = .error ⟨stop.rest ++ more, stop.error⟩ := by
  fun_induction readUnits text with
  | case1 text hskip =>
    have hmore := skipTrivia_append hlines (.inl rfl) more
    rw [if_pos hskip] at hmore
    refine ⟨fun p hp => ?_, fun stop hstop => by contradiction⟩
    obtain rfl := Except.ok.inj hp
    rw [readUnits_skip hmore]
    cases readUnits more <;> rfl
  | case2 text c cs hskip error hread =>
    have hmore := skipTrivia_append_of_ne_nil hlines (by simp [hskip]) more
    have hunitLines := hlines.of_suffix (skipTrivia_suffix text)
    rw [← hskip] at hread
    refine ⟨fun p hp => by contradiction, fun stop hstop hclosed => ?_⟩
    obtain rfl := Except.error.inj hstop
    have hunit := readUnit_append hunitLines (by simp [hskip])
      (fun n hopen => hclosed n (Except.error.inj (hread.symm.trans hopen))) more
    rw [hread, ← hmore] at hunit
    rw [readUnits_of_error (by simp [hmore, hskip]) hunit, hmore, hskip]
  | case3 text c cs hskip i rest hread ih =>
    have hmore := skipTrivia_append_of_ne_nil hlines (by simp [hskip]) more
    have hunitLines := hlines.of_suffix (skipTrivia_suffix text)
    rw [← hskip] at hread
    have hunit := readUnit_append hunitLines (by simp [hskip]) (by simp [hread]) more
    rw [hread, ← hmore] at hunit
    obtain ⟨hok, herror⟩ := ih (hunitLines.of_suffix (suffix_of_readUnit hread))
    rw [readUnits_of_ok hunit]
    cases hrest : readUnits rest with
    | ok tail =>
      rw [hok tail hrest]
      refine ⟨fun p hp => ?_, fun stop hstop => by contradiction⟩
      obtain rfl := Except.ok.inj hp
      cases readUnits more <;> rfl
    | error stop =>
      refine ⟨fun p hp => by contradiction, fun stop' hstop hclosed => ?_⟩
      obtain rfl := Except.error.inj hstop
      rw [herror stop hrest hclosed]
      rfl

theorem read_append_of_ok {lines text : String} (hlines : WholeLines lines.toList) {p : Program}
    (hp : read lines = .ok p) :
    read (lines ++ text) =
      ((read text).map (p ++ ·)).mapError (·.shift (Text.bytes lines).length) := by
  have hunits := (readUnits_append hlines text.toList).1 p (read_eq_ok_iff.mp hp)
  rw [← String.toList_append] at hunits
  cases htext : readUnits text.toList with
  | ok q =>
    rw [htext] at hunits
    rw [read_eq_ok_iff.mpr hunits, read_eq_ok_iff.mpr htext]
    rfl
  | error stop =>
    rw [htext] at hunits
    rw [read_of_error_append String.toList_append (suffix_of_readUnits htext) hunits,
      read_of_error htext, Text.length_bytes]
    rfl

theorem read_append_of_error {lines text : String} (hlines : WholeLines lines.toList)
    {error : ReadError} (herror : read lines = .error error)
    (hclosed : ∀ offset, error ≠ .unterminatedString offset) :
    read (lines ++ text) = .error error := by
  cases hstop : readUnits lines.toList with
  | ok p => cases (read_eq_ok_iff.mpr hstop).symm.trans herror
  | error stop =>
    rw [read_of_error hstop] at herror
    obtain rfl := Except.error.inj herror
    have hunits := (readUnits_append hlines text.toList).2 stop hstop fun n hopen =>
      hclosed _ (by rw [hopen]; rfl)
    rw [← String.toList_append] at hunits
    rw [read_of_error hunits, String.toList_append, offset_append_append]

end Listing

def Event.shift (n : Nat) : Event → Event
  | .unknownOpcode code offset => .unknownOpcode code (n + offset)
  | event => event

theorem ReadError.events_shift (n : Nat) (error : ReadError) :
    (error.shift n).events = error.events.map (Event.shift n) := by
  cases error <;> rfl

namespace Listing

/-- Whole lines can be read apart from what follows them. If they are read without
an error, the rest gives the instructions or the error that it gives alone, the
error so much later as the lines are long. An error in the lines is the error of
the whole, unless it is a literal that they leave open. The events are those of
the error. -/
theorem read_lines_append (lines text : String) (hlines : WholeLines lines.toList) :
    let n := (Text.bytes lines).length
    (∀ p, read lines = .ok p →
      (∀ q, read text = .ok q → read (lines ++ text) = .ok (p ++ q)) ∧
      (∀ error, read text = .error error → read (lines ++ text) = .error (error.shift n)) ∧
      readEvents (lines ++ text) = (readEvents text).map (Event.shift n)) ∧
    ∀ error, read lines = .error error → (∀ offset, error ≠ .unterminatedString offset) →
      read (lines ++ text) = .error error ∧ readEvents (lines ++ text) = readEvents lines := by
  intro n
  refine ⟨fun p hp => ?_, fun error herror hclosed => ?_⟩
  · have hread := @read_append_of_ok lines text hlines p hp
    refine ⟨fun q hq => ?_, fun error herror => ?_, ?_⟩
    · rw [hread, hq]
      rfl
    · rw [hread, herror]
      rfl
    · rw [readEvents, readEvents, hread]
      cases read text with
      | ok q => rfl
      | error error => exact error.events_shift n
  · have hread := @read_append_of_error lines text hlines error herror hclosed
    exact ⟨hread, by rw [readEvents, readEvents, hread, herror]⟩

theorem read_lines_append_unknown :
    let lines := "// \"\n013 \n9 1, \n"
    let bad := "17 0,\n"
    let p : Program := [.pushUnchecked (.str ""), .pushLong 1]
    (WholeLines lines.toList ∧ read lines = .ok p ∧
      read (lines ++ lines) = .ok (p ++ p) ∧
      read (lines ++ bad) = .error (.unknownOpcode 17 16) ∧
      readEvents (lines ++ bad) = [.unknownOpcode 17 16]) ∧
      WholeLines bad.toList ∧ read (bad ++ lines) = .error (.unknownOpcode 17 0) ∧
      readEvents (bad ++ lines) = [.unknownOpcode 17 0] := by
  intro lines bad p
  have hlines : WholeLines lines.toList := by decide
  have hbad : WholeLines bad.toList := by decide
  have hread : read lines = .ok p := by
    have htoList : lines.toList = ['/', '/', ' ', '"', '\n', '0', '1', '3', ' ', '\n', '9', ' ',
      '1', ',', ' ', '\n'] := by decide
    have hfirst : readUnit (skipTrivia false lines.toList) =
        .ok (.pushUnchecked (.str ""), ['\n', '9', ' ', '1', ',', ' ', '\n']) := by
      rw [htoList]
      rfl
    have hsecond : readUnit (skipTrivia false ['\n', '9', ' ', '1', ',', ' ', '\n']) =
        .ok (.pushLong 1, [' ', '\n']) := rfl
    rw [read_eq_ok_iff, readUnits_of_ok hfirst, readUnits_of_ok hsecond, readUnits_of_skip_nil rfl]
    rfl
  have hreadBad : read bad = .error (.unknownOpcode 17 0) := by
    have htoList : bad.toList = ['1', '7', ' ', '0', ',', '\n'] := by decide
    have hunits : readUnits bad.toList = .error ⟨bad.toList, .unknownOpcode 17 0⟩ := by
      rw [htoList]
      exact readUnits_of_error (by decide) rfl
    rw [read_of_error hunits]
    simp [offset, ReadError.shift]
  have hevents : readEvents bad = [.unknownOpcode 17 0] := by
    rw [readEvents, hreadBad]
    rfl
  have hn : (Text.bytes lines).length = 16 := by decide
  obtain ⟨hok, herror, heventsAfter⟩ := (read_lines_append lines bad hlines).1 p hread
  obtain ⟨hboth, -⟩ := (read_lines_append lines lines hlines).1 p hread
  obtain ⟨hbefore, heventsBefore⟩ := (read_lines_append bad lines hbad).2 _ hreadBad (by simp)
  have hafter := herror _ hreadBad
  rw [hevents] at heventsAfter heventsBefore
  rw [hn] at hafter heventsAfter
  exact ⟨⟨hlines, hread, hboth p hread, hafter, heventsAfter⟩, hbad, hbefore, heventsBefore⟩

end Listing

end ActionCode
