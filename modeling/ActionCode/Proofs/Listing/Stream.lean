import ActionCode.Emitter.Memory
import ActionCode.Proofs.Listing.Reading
import ActionCode.Proofs.Listing.ReadBack

namespace ActionCode.Listing

def stream (p : Program) : List Char :=
  (String.join (compactPieces p)).toList

def unitText (i : Instruction) : List Char :=
  (compactUnit i).toList

def header : List Char :=
  (String.join headerPieces).toList

theorem toList_text_compact (program? : Option Program) :
    (text .compact program?).toList = header ++ stream (program?.getD []) := by
  cases program? with
  | none => simp [text, pieces, header, stream, compactPieces]
  | some p => simp [text, pieces, header, stream, bodyPieces, String.join_append]

theorem trivia_header (rest : List Char) : Trivia header rest := by
  have hgenerated : generatedLine.toList = '/' :: '/' :: generatedLine.toList.drop 2 := by
    simp [generatedLine]
  have hoverwrite : overwriteLine.toList = '/' :: '/' :: overwriteLine.toList.drop 2 := by
    simp [overwriteLine]
  have hheader : header = generatedLine.toList ++ '\n' :: (overwriteLine.toList ++ ['\n']) := by
    simp [header, headerPieces]
  rw [hheader, hgenerated, hoverwrite]
  exact .comment (by simp [generatedLine]) (.comment (by simp [overwriteLine]) .none)

theorem readUnits_emitted (program? : Option Program) :
    readUnits (emitted .compact program?).1.toList = readUnits (stream (program?.getD [])) := by
  rw [emitted_eq, toList_text_compact]
  exact (trivia_header _).readUnits

theorem unitText_eq (i : Instruction) :
    unitText i = Nat.toDigits 10 i.opcode.code ++ ' ' :: i.parameter.toList := by
  simp [unitText, compactUnit, codeText]

theorem code_toDigits (opcode : Opcode) : Code (Nat.toDigits 10 opcode.code) opcode where
  ne_nil := Nat.toDigits_ne_nil
  isDigit _ hc := Nat.isDigit_of_mem_toDigits (by decide) (by decide) hc
  value := Nat.ofDigitChars_ten_toDigits

theorem stream_nil : stream [] = [] := rfl

/-- Behind each unit comes a comma, unless it is the last one, and a space. -/
theorem stream_cons (i : Instruction) (p : Program) (rest : List Char) : ∃ stop,
    stream (i :: p) ++ rest = (unitText i ++ stop) ++ ' ' :: (stream p ++ rest) ∧
      Ends stop (' ' :: (stream p ++ rest)) := by
  cases p with
  | nil => exact ⟨[], by simp [stream, compactPieces, unitText], .blank .space⟩
  | cons j p => exact ⟨[','], by simp [stream, compactPieces, unitText], .comma⟩

def ending (p : Program) : List Char :=
  if p = [] then [' '] else [',', ' ']

theorem stream_cons_eq (i : Instruction) (p : Program) :
    stream (i :: p) = unitText i ++ (ending p ++ stream p) := by
  cases p with
  | nil => simp [stream, compactPieces, unitText, ending]
  | cons j p => simp [stream, compactPieces, unitText, ending]

theorem spelled_unitText {i : Instruction} (h : i.Delimited) {stop rest : List Char}
    (hends : Ends stop rest) : Spelled (unitText i ++ stop) i.opcode i.written rest := by
  have hspelled := Spelled.mk (code_toDigits i.opcode) h.parameter hends
  simpa [unitText_eq] using hspelled

theorem readUnits_stream_cons {i : Instruction} (h : i.Delimited) (p : Program)
    (rest : List Char) :
    readUnits (stream (i :: p) ++ rest) =
      match i.readBack with
      | .ok j => (readUnits (stream p ++ rest)).map (j :: ·)
      | .error error => .error ⟨stream (i :: p) ++ rest, error⟩ := by
  obtain ⟨stop, hstream, hends⟩ := stream_cons i p rest
  have hspelled := spelled_unitText h hends
  have hskip := hspelled.skip
  have hread := readUnit_of_spelled hspelled
  rw [Instruction.operand_written] at hread
  -- The space behind a unit is trivia in front of the next one.
  have hspace : readUnits (' ' :: (stream p ++ rest)) = readUnits (stream p ++ rest) :=
    readUnits_skip (skipTrivia_blank .space _)
  rw [hstream, Instruction.readBack]
  cases hback : i.operandBack with
  | ok operand? =>
    rw [hback, ← hskip] at hread
    rw [readUnits_of_ok hread, hspace]
    rfl
  | error error =>
    rw [hback, ← hskip] at hread
    rw [readUnits_of_error (by rw [hskip]; simp) hread, hskip]
    rfl

theorem readUnits_stream_append {front q : Program} (h : ∀ i ∈ front, i.Delimited)
    (hback : front.mapM Instruction.readBack = .ok q) (p : Program) (rest : List Char) :
    readUnits (stream (front ++ p) ++ rest) = (readUnits (stream p ++ rest)).map (q ++ ·) := by
  induction front generalizing q with
  | nil =>
    obtain rfl := Except.ok.inj hback
    cases hr : readUnits (stream p ++ rest) <;> simp [hr, Except.map]
  | cons i front ih =>
    rw [List.mapM_cons] at hback
    obtain ⟨j, hj, hback⟩ := bind_eq_ok_iff.mp hback
    obtain ⟨tail, htail, hback⟩ := bind_eq_ok_iff.mp hback
    obtain rfl := Except.ok.inj hback
    have hfront := ih (fun k hk => h k (by simp [hk])) htail
    rw [List.cons_append, readUnits_stream_cons (h i (by simp)), hj]
    dsimp only
    rw [hfront]
    cases readUnits (stream p ++ rest) <;> rfl

theorem readUnits_stream {p q : Program} (h : ∀ i ∈ p, i.Delimited)
    (hback : p.mapM Instruction.readBack = .ok q) (rest : List Char) :
    readUnits (stream p ++ rest) = (readUnits rest).map (q ++ ·) := by
  have happend := readUnits_stream_append h hback [] rest
  rwa [List.append_nil, stream_nil, List.nil_append] at happend

theorem readUnits_stream_end {p q : Program} (h : ∀ i ∈ p, i.Delimited)
    (hback : p.mapM Instruction.readBack = .ok q) : readUnits (stream p) = .ok q := by
  have hstream := readUnits_stream h hback []
  rw [List.append_nil, readUnits_nil] at hstream
  simpa [Except.map] using hstream

theorem length_of_mapM_readBack {p q : Program} (h : p.mapM Instruction.readBack = .ok q) :
    q.length = p.length := by
  induction p generalizing q with
  | nil =>
    obtain rfl := Except.ok.inj h
    rfl
  | cons i p ih =>
    rw [List.mapM_cons] at h
    obtain ⟨j, -, h⟩ := bind_eq_ok_iff.mp h
    obtain ⟨tail, htail, h⟩ := bind_eq_ok_iff.mp h
    obtain rfl := Except.ok.inj h
    rw [List.length_cons, List.length_cons, ih htail]

theorem exists_front_of_mapM_error {α β ε : Type} {f : α → Except ε β} {l : List α} {error : ε}
    (h : l.mapM f = .error error) :
    ∃ front a back done, l = front ++ a :: back ∧ front.mapM f = .ok done ∧ f a = .error error := by
  induction l with
  | nil => contradiction
  | cons a l ih =>
    rw [List.mapM_cons] at h
    cases ha : f a with
    | error first =>
      rw [ha] at h
      obtain rfl := Except.error.inj h
      exact ⟨[], a, l, [], rfl, rfl, ha⟩
    | ok b =>
      cases hl : l.mapM f with
      | ok tail => simp [ha, hl, bind, Except.bind, pure, Except.pure] at h
      | error later =>
        simp only [ha, hl, bind, Except.bind] at h
        obtain ⟨front, c, back, done, rfl, hdone, hc⟩ := ih (hl.trans h)
        refine ⟨a :: front, c, back, b :: done, rfl, ?_, hc⟩
        rw [List.mapM_cons, ha, hdone]
        rfl

theorem shift_of_readBack {i : Instruction} {error : ReadError} (h : i.readBack = .error error)
    (n : Nat) : error.shift n = error := by
  have hinvalid : ∀ {operand?}, (i.orInvalid operand?).map (Instruction.mk i.opcode) =
      .error error → error.shift n = error := by
    intro operand? h
    cases operand? with
    | some operand => contradiction
    | none =>
      obtain rfl := Except.error.inj h
      rfl
  unfold Instruction.readBack Instruction.operandBack at h
  cases hkind : i.opcode.kind with
  | none | str | any => simp [hkind, Except.map] at h
  | int =>
    simp only [hkind] at h
    exact hinvalid h
  | float | bool =>
    simp only [hkind] at h
    split at h
    · contradiction
    · exact hinvalid h
  | name verb =>
    simp only [hkind] at h
    split at h
    · contradiction
    · cases hname : Name.ofTarget verb i.parameter with
      | ok name => simp [hname, Except.map] at h
      | error cause =>
        rw [hname] at h
        obtain rfl := Except.error.inj h
        rfl

theorem readBack_of_none (opcode : Opcode) :
    Instruction.readBack ⟨opcode, none⟩ = .ok ⟨opcode,
      if opcode.kind = .int ∨ opcode.kind = .any then some (.int 0) else none⟩ := by
  cases opcode <;> rfl

/-- Each instruction is read for itself, and the first that does not read back is
the error. The text for no operand is an integer where one may stand. -/
theorem read_emitted (p : Program) (h : ∀ i ∈ p, i.Delimited) :
    read (emitted .compact (some p)).1 = p.mapM Instruction.readBack ∧
      ∀ opcode : Opcode, Instruction.readBack ⟨opcode, none⟩ = .ok ⟨opcode,
        if opcode.kind = .int ∨ opcode.kind = .any then some (.int 0) else none⟩ := by
  refine ⟨?_, readBack_of_none⟩
  have hunits := readUnits_emitted (some p)
  rw [Option.getD_some] at hunits
  cases hback : p.mapM Instruction.readBack with
  | ok q => rw [read_eq_ok_iff, hunits, readUnits_stream_end h hback]
  | error error =>
    obtain ⟨front, i, back, q, rfl, hfront, hi⟩ := exists_front_of_mapM_error hback
    have hstream := readUnits_stream_append (fun j hj => h j (by simp [hj])) hfront (i :: back) []
    rw [readUnits_stream_cons (h i (by simp)), hi, List.append_nil] at hstream
    rw [read, hunits, hstream]
    exact congrArg Except.error (shift_of_readBack hi _)

theorem read_emitted_foreign_operands :
    let p : Program := [⟨.nop, some (.int 5)⟩, ⟨.pushString, some (.bool true)⟩,
      ⟨.set, some (.name (.getter "Type" "member"))⟩, ⟨.pop, none⟩,
      ⟨.pushUnchecked, some (.str "")⟩]
    let bad : Program := [⟨.pushDouble, some (.str "x")⟩, ⟨.call, some (.str "y")⟩]
    (∀ i ∈ p ++ bad, i.Delimited) ∧
      read (emitted .compact (some p)).1 = .ok [⟨.nop, none⟩, ⟨.pushString, some (.str "true")⟩,
        ⟨.set, some (.name (.setter "Type" "member"))⟩, ⟨.pop, some (.int 0)⟩,
        ⟨.pushUnchecked, some (.str "")⟩] ∧
      read (emitted .compact (some (p ++ bad))).1 = .error (.invalidOperand "x" .pushDouble) := by
  intro p bad
  have hp : ∀ i ∈ p, i.Delimited := by decide
  have hbad : ∀ i ∈ p ++ bad, i.Delimited := by decide
  exact ⟨hbad, (read_emitted p hp).1.trans rfl, (read_emitted _ hbad).1.trans rfl⟩

end ActionCode.Listing
