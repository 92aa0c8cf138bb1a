import ActionCode.Proofs.Emitter.Session
import ActionCode.Proofs.Listing.Stream
import ActionCode.Proofs.Text.Bytes

namespace ActionCode.Listing

theorem Ends.append {stop rest : List Char} (h : Ends stop rest) (hne : rest ≠ [])
    (more : List Char) : Ends stop (rest ++ more) := by
  cases h with
  | comma => exact .comma
  | blank hc => exact .blank hc
  | atEnd => contradiction

theorem Spelled.append {unit rest : List Char} {opcode : Opcode} {parameter : WrittenParameter}
    (h : Spelled unit opcode parameter rest) (hne : rest ≠ []) (more : List Char) :
    Spelled unit opcode parameter (rest ++ more) := by
  cases h with
  | mk hcode hparameter hends => exact .mk hcode hparameter (hends.append hne more)

theorem IsUnit.append {unit rest : List Char} {i : Instruction} (h : IsUnit unit i rest)
    (hne : rest ≠ []) (more : List Char) : IsUnit unit i (rest ++ more) := by
  cases h with
  | mk hspelled hoperand => exact .mk (hspelled.append hne more) hoperand

theorem Trivia.append {skipped rest : List Char} (h : Trivia skipped rest) (hne : rest ≠ [])
    (more : List Char) : Trivia skipped (rest ++ more) := by
  induction h with
  | none => exact .none
  | blank hc h ih => exact .blank hc (ih hne)
  | comment hline h ih => exact .comment hline (ih hne)
  | lastComment => contradiction

theorem skipTrivia_unit_append {text unit rest : List Char} {i : Instruction}
    (hskip : skipTrivia false text = unit ++ rest) (hunit : IsUnit unit i rest)
    (more : List Char) : skipTrivia false (text ++ more) = unit ++ (rest ++ more) := by
  obtain ⟨skipped, htext, htrivia⟩ := exists_trivia_skipTrivia text
  obtain ⟨parameter, hspelled⟩ := hunit.spelled
  rw [hskip] at htext htrivia
  rw [htext, List.append_assoc, (htrivia.append hunit.ne_nil more).skip, List.append_assoc,
    hspelled.skip_append]

theorem ne_nil_of_readUnits {text : List Char} {p : Program} (h : readUnits text = .ok p)
    (hne : skipTrivia false text ≠ []) : p ≠ [] := by
  obtain ⟨units, hunits, rfl⟩ := exists_units h
  obtain ⟨-, hskip⟩ | ⟨_, _, _, _, rfl, -⟩ := hunits.inversion
  · contradiction
  · simp

theorem dropLast_cons_prefix {i : Instruction} {q r : Program} (h : q.dropLast <+: r) :
    (i :: q).dropLast <+: i :: r := by
  cases q with
  | nil => simp
  | cons j q => simpa using h

/-- What is left of a text that is cut anywhere gives no more instructions than the
text, and the same ones but for the last. -/
theorem readUnits_cut {front text : List Char} (hfront : front <+: text) {q r : Program}
    (hq : readUnits front = .ok q) (hr : readUnits text = .ok r) :
    q.length ≤ r.length ∧ q.dropLast <+: r := by
  fun_induction readUnits front generalizing text q r with
  | case1 front hskip =>
    obtain rfl := Except.ok.inj hq
    simp
  | case2 => contradiction
  | case3 front c cs hskip i rest hread ih =>
    obtain ⟨more, rfl⟩ := hfront
    obtain ⟨unit, hsplit, hunit⟩ := readUnit_eq_ok_iff.mp hread
    have hskipMore := skipTrivia_unit_append (hskip.trans hsplit) hunit more
    by_cases hrest : rest = []
    · -- The cut is right behind a unit, which need not end there in the whole text.
      subst hrest
      rw [readUnits_nil] at hq
      obtain rfl := Except.ok.inj hq
      have hne : skipTrivia false (front ++ more) ≠ [] := by
        rw [hskipMore, ← List.append_assoc]
        exact List.append_ne_nil_of_left_ne_nil hunit.ne_nil _
      exact ⟨List.length_pos_iff.mpr (ne_nil_of_readUnits hr hne), by simp⟩
    · have hreadMore := readUnit_eq_ok_iff.mpr ⟨unit, rfl, hunit.append hrest more⟩
      rw [readUnits_of_ok (hskipMore ▸ hreadMore)] at hr
      cases hback : readUnits (rest ++ more) with
      | error stop => simp [hback, Except.map] at hr
      | ok r' =>
        cases hleft : readUnits rest with
        | error stop => simp [hleft, Except.map] at hq
        | ok q' =>
          rw [hback] at hr
          rw [hleft] at hq
          obtain rfl := Except.ok.inj hr
          obtain rfl := Except.ok.inj hq
          obtain ⟨hlength, hdropLast⟩ := ih (List.prefix_append rest more) hleft hback
          exact ⟨Nat.succ_le_succ hlength, dropLast_cons_prefix hdropLast⟩

theorem taken_session_emit {terms : SinkTerms} (hprogressive : terms.Progressive)
    (program? : Option Program) :
    (Emitter.session terms [.emit program? .compact]).sink.taken =
      terms.cut (Text.bytes (emitted .compact program?).1) := by
  rw [(Emitter.keeps_session hprogressive _).taken_eq, emitted_eq]
  simp [Emitter.issued, Emitter.Request.releases, Emitter.Request.text]

/-- A listing that is cut off gives at most as many instructions as were listed,
and if it can be read at all, only the last one can be wrong. So it is with what
a sink holds that has no room for the whole listing. -/
theorem read_cut (p : Program) (hp : ∀ i ∈ p, i.Delimited) (r : Program)
    (hr : read (emitted .compact (some p)).1 = .ok r) :
    (∀ front : String, Text.bytes front <+: Text.bytes (emitted .compact (some p)).1 →
      ∀ q, read front = .ok q → q.length ≤ p.length ∧ q.dropLast <+: r) ∧
    ∀ terms : SinkTerms, terms.Progressive → ∀ front,
      Text.ofBytes? (Emitter.session terms [.emit (some p) .compact]).sink.taken = some front →
        ∀ q, read front = .ok q → q.length ≤ p.length ∧ q.dropLast <+: r := by
  have hback := (read_emitted p hp).1
  rw [hr] at hback
  have hlength := length_of_mapM_readBack hback.symm
  have hcut : ∀ front : String, Text.bytes front <+: Text.bytes (emitted .compact (some p)).1 →
      ∀ q, read front = .ok q → q.length ≤ p.length ∧ q.dropLast <+: r := by
    intro front hfront q hq
    rw [← hlength]
    exact readUnits_cut (Text.toList_prefix_of_bytes hfront) (read_eq_ok_iff.mp hq)
      (read_eq_ok_iff.mp hr)
  refine ⟨hcut, fun terms hprogressive front hfront => hcut front ?_⟩
  rw [Text.bytes_of_ofBytes? hfront, taken_session_emit hprogressive]
  exact List.take_prefix _ _

/-- A sink with too little room for the last digit. -/
theorem read_cut_digit :
    let p : Program := [.pushLong 1, .pushLong 23]
    let front := text .compact none ++ "9 1, 9 2"
    let terms : SinkTerms := ⟨some (Text.bytes front).length, some 5, true, none, none⟩
    let e := Emitter.session terms [.emit (some p) .compact]
    (∀ i ∈ p, i.Delimited) ∧ read (emitted .compact (some p)).1 = .ok p ∧
      terms.Progressive ∧ Text.ofBytes? e.sink.taken = some front ∧
      read front = .ok [.pushLong 1, .pushLong 2] ∧ [Instruction.pushLong 1] <+: p := by
  intro p front terms e
  have hp : ∀ i ∈ p, i.Delimited := by decide
  have hr : read (emitted .compact (some p)).1 = .ok p := (read_emitted p hp).1.trans rfl
  have hterms : terms.Progressive := by decide
  have hwhole : (emitted .compact (some p)).1 = front ++ "3 " := by
    have hstream : stream p = "9 1, 9 2".toList ++ "3 ".toList := by decide
    rw [emitted_eq, ← String.toList_inj, String.toList_append, String.toList_append,
      toList_text_compact, toList_text_compact, Option.getD_some, hstream]
    simp [stream_nil]
  have hfront : Text.ofBytes? e.sink.taken = some front := by
    rw [taken_session_emit hterms, hwhole, Text.bytes_append, SinkTerms.cut]
    simp [terms]
  have hread : read front = .ok [.pushLong 1, .pushLong 2] := by
    have hunits : readUnits front.toList = readUnits ['9', ' ', '1', ',', ' ', '9', ' ', '2'] := by
      have hbody : "9 1, 9 2".toList = ['9', ' ', '1', ',', ' ', '9', ' ', '2'] := by decide
      rw [String.toList_append, toList_text_compact, Option.getD_none, stream_nil, List.append_nil,
        hbody]
      exact (trivia_header _).readUnits
    have hfirst : readUnit (skipTrivia false ['9', ' ', '1', ',', ' ', '9', ' ', '2']) =
        .ok (.pushLong 1, [' ', '9', ' ', '2']) := rfl
    have hsecond : readUnit (skipTrivia false [' ', '9', ' ', '2']) = .ok (.pushLong 2, []) := rfl
    rw [read_eq_ok_iff, hunits, readUnits_of_ok hfirst, readUnits_of_ok hsecond, readUnits_nil]
    rfl
  obtain ⟨-, hprefix⟩ := (read_cut p hp p hr).2 terms hterms front hfront _ hread
  exact ⟨hp, hr, hterms, hfront, hread, hprefix⟩

end ActionCode.Listing
