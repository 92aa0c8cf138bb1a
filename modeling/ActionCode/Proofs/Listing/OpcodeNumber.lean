import ActionCode.Proofs.Listing.ByteReading

namespace ActionCode.Listing

variable {text : String} {front digits rest : List Char} {p : Program} {opcode : Opcode}

theorem DigitRun.unique {others more : List Char} (h : DigitRun digits rest)
    (h' : DigitRun others more) (heq : digits ++ rest = others ++ more) : digits = others := by
  obtain ⟨htake, -⟩ := Text.span_append h.isDigit h.ends
  obtain ⟨htake', -⟩ := Text.span_append h'.isDigit h'.ends
  rw [← htake, heq, htake']

theorem exists_opcode_of_le {n : Nat} (h : n ≤ 16) : ∃ opcode : Opcode, opcode.code = n := by
  cases hcode : Opcode.ofCode? n with
  | none => exact absurd (Opcode.ofCode?_eq_none_iff.mp hcode) (Nat.not_lt.mpr h)
  | some opcode => exact ⟨opcode, Opcode.code_of_ofCode? hcode⟩

theorem opcode_of_readUnit {text gap after : List Char} {i : Instruction}
    (hopcode : readOpcode text = .ok (opcode, gap)) (h : readUnit text = .ok (i, after)) :
    i.opcode = opcode := by
  obtain ⟨⟨opcode', gap'⟩, hopcode', h⟩ := bind_eq_ok_iff.mp h
  obtain ⟨start, -, h⟩ := bind_eq_ok_iff.mp h
  obtain ⟨⟨parameter, stop⟩, -, h⟩ := bind_eq_ok_iff.mp h
  obtain ⟨rest, -, h⟩ := bind_eq_ok_iff.mp h
  obtain ⟨operand?, -, h⟩ := bind_eq_ok_iff.mp h
  obtain ⟨rfl, -⟩ := Prod.mk.inj (Except.ok.inj h)
  exact (Prod.mk.inj (Except.ok.inj (hopcode'.symm.trans hopcode))).1

theorem opcode_of_front (hfront : Front front p (digits ++ rest)) (hrun : DigitRun digits rest)
    (hopcode : readOpcode (digits ++ rest) = .ok (opcode, rest)) {q : Program}
    (h : readUnits (front ++ (digits ++ rest)) = .ok q) :
    ∃ i, q[p.length]? = some i ∧ i.opcode = opcode := by
  rw [hfront.readUnits] at h
  cases hback : readUnits (digits ++ rest) with
  | error stop => simp [hback, Except.map] at h
  | ok back =>
    obtain ⟨i, after, tail, hread, rfl⟩ := exists_unit_of_readUnits
      (skipTrivia_of_isDigit hrun.ne_nil hrun.isDigit rest) (by simp [hrun.ne_nil]) hback
    rw [hback] at h
    obtain rfl := Except.ok.inj h
    exact ⟨i, by simp, opcode_of_readUnit hopcode hread⟩

theorem Fault.unknownCode_cases {taken : List Char} {cause : ReadError} (h : Fault taken rest cause)
    {n code offset : Nat} (hcause : cause.shift n = .unknownOpcode code offset) :
    ∃ digits more, taken = [] ∧ rest = digits ++ more ∧ DigitRun digits more ∧
      16 < Nat.ofDigitChars 10 digits 0 ∧ n = offset := by
  cases h with
  | unknownCode hrun hcode =>
    obtain ⟨-, hoffset⟩ := ReadError.unknownOpcode.inj hcause
    exact ⟨_, _, rfl, rfl, hrun, hcode, hoffset⟩
  | operand hspelled hoperand =>
    have hnone := hoperand.offset?_eq_none
    rw [shift_of_offset? hnone] at hcause
    rw [hcause] at hnone
    contradiction
  | _ => contradiction

theorem read_ne_unknownOpcode (htext : text.toList = front ++ (digits ++ rest))
    (hrun : DigitRun digits rest) (hcode : Nat.ofDigitChars 10 digits 0 ≤ 16) (code : Nat) :
    read text ≠ .error (.unknownOpcode code (Text.byteLength front)) := by
  intro h
  obtain ⟨front', p', taken, more, cause, htext', -, hfault, herror⟩ := read_eq_error_iff.mp h
  obtain ⟨others, after, rfl, rfl, hrun', hcode', hlength⟩ := hfault.unknownCode_cases herror.symm
  rw [List.append_nil] at hlength
  have hsame := Text.At.unique ⟨front, htext, rfl⟩ ⟨front', htext', hlength⟩
  rw [hrun.unique hrun' hsame] at hcode
  omega

theorem readEvents_of_unknownOpcode {code offset : Nat}
    (h : read text = .error (.unknownOpcode code offset)) :
    readEvents text = [.unknownOpcode code offset] := by
  rw [readEvents, h]
  rfl

theorem readEvents_eq_nil (h : ∀ code offset, read text ≠ .error (.unknownOpcode code offset)) :
    readEvents text = [] := by
  rw [readEvents]
  cases hread : read text with
  | ok p => rfl
  | error error =>
    cases error with
    | unknownOpcode code offset => exact absurd hread (h code offset)
    | _ => rfl

theorem readOpcode_of_run (hrun : DigitRun digits rest)
    (hcode : opcode.code = Nat.ofDigitChars 10 digits 0) :
    readOpcode (digits ++ rest) = .ok (opcode, rest) :=
  readOpcode_of_code ⟨hrun.ne_nil, hrun.isDigit, hcode.symm⟩ hrun.ends

theorem byte_opcode_of_run (htext : text.toList = front ++ (digits ++ rest))
    (hopcode : readOpcode (digits ++ rest) = .ok (opcode, rest)) :
    ByteReader.opcode? text (Text.byteLength front) =
      some ([], .ok (opcode, Text.byteLength (front ++ digits))) := by
  have hplace : Text.At text (Text.byteLength front) (digits ++ rest) := ⟨front, htext, rfl⟩
  rw [ByteReader.opcode?_eq hplace, hopcode, Text.byteLength_append,
    ByteReader.eq_offset hplace.skip]
  rfl

/-- Digits where a unit is expected are read for the number they stand for, however
many there are. Up to 16 it is the code of an opcode, which is that of the unit; a
greater number is none, and is reported up to 32 bits. The same holds if the number
has to fit into a word, and then into a byte. An unknown opcode is all that is told to an
observer, once, with the code and the place that are in the error. -/
theorem read_opcode_number (text : String) :
    (∀ front p digits rest n, text.toList = front ++ (digits ++ rest) →
      Front front p (digits ++ rest) → DigitRun digits rest → n = Nat.ofDigitChars 10 digits 0 →
      (n ≤ 16 → ∃ opcode : Opcode, opcode.code = n ∧
        readOpcode (digits ++ rest) = .ok (opcode, rest) ∧
        ByteReader.opcode? text (Text.byteLength front) =
          some ([], .ok (opcode, Text.byteLength (front ++ digits))) ∧
        (∀ q, read text = .ok q → ∃ i, q[p.length]? = some i ∧ i.opcode = opcode) ∧
        ∀ code, read text ≠ .error (.unknownOpcode code (Text.byteLength front))) ∧
      (16 < n →
        read text = .error (.unknownOpcode (min n (UInt32.size - 1)) (Text.byteLength front)) ∧
        ByteReader.opcode? text (Text.byteLength front) =
          some ([.unknownOpcode (min n (UInt32.size - 1)) (Text.byteLength front)],
            .error (.unknownOpcode (min n (UInt32.size - 1)) (Text.byteLength front))))) ∧
    ByteReader.read? ((Text.bytes text).length + 1) text = some (readEvents text, read text) ∧
    (∀ code offset, read text = .error (.unknownOpcode code offset) →
      readEvents text = [.unknownOpcode code offset] ∧
        (Event.unknownOpcode code offset).level = .error) ∧
    ((∀ code offset, read text ≠ .error (.unknownOpcode code offset)) → readEvents text = []) := by
  refine ⟨?_, read?_eq (Nat.lt_succ_self _), fun code offset h =>
    ⟨readEvents_of_unknownOpcode h, rfl⟩, readEvents_eq_nil⟩
  rintro front p digits rest n htext hfront hrun rfl
  refine ⟨fun hcode => ?_, fun hcode => ⟨?_, ?_⟩⟩
  · obtain ⟨opcode, hopcode⟩ := exists_opcode_of_le hcode
    have hread := readOpcode_of_run hrun hopcode
    refine ⟨opcode, hopcode, hread, byte_opcode_of_run htext hread, fun q hq => ?_,
      read_ne_unknownOpcode htext hrun hcode⟩
    rw [read_eq_ok_iff, htext] at hq
    exact opcode_of_front hfront hrun hread hq
  · refine read_eq_error_iff.mpr ⟨front, p, [], digits ++ rest, _, htext, hfront,
      .unknownCode hrun hcode, ?_⟩
    rw [List.append_nil]
    rfl
  · have hplace : Text.At text (Text.byteLength front) (digits ++ rest) := ⟨front, htext, rfl⟩
    have hread := readOpcode_eq_error_iff.mpr (.inr ⟨digits, rest, rfl, hrun, hcode, rfl⟩)
    rw [ByteReader.opcode?_eq hplace, hread]
    rfl

/-- Neither `2 ^ 8 + 9` nor `2 ^ 32 + 9` is taken for 9, which may begin with zeros. -/
theorem read_opcode_number_beyond :
    let i : Instruction := .pushLong 1
    (Nat.ofDigitChars 10 "00009".toList 0 = 9 ∧ Opcode.pushLong.code = 9 ∧
      read "9 1,00009 3" = .ok [i, .pushLong 3] ∧
      (∃ j, [i, .pushLong 3][1]? = some j ∧ j.opcode = .pushLong) ∧
      readEvents "9 1,00009 3" = []) ∧
    (Nat.ofDigitChars 10 "265".toList 0 = UInt8.size + 9 ∧
      read "9 1,265 3" = .error (.unknownOpcode 265 4) ∧
      readEvents "9 1,265 3" = [.unknownOpcode 265 4]) ∧
    Nat.ofDigitChars 10 "4294967305".toList 0 = UInt32.size + 9 ∧
      read "9 1,4294967305 3" = .error (.unknownOpcode (UInt32.size - 1) 4) ∧
      readEvents "9 1,4294967305 3" = [.unknownOpcode (UInt32.size - 1) 4] := by
  intro i
  have hspelled : ∀ rest, Spelled ['9', ' ', '1', ','] .pushLong (.bare ['1']) rest := fun rest =>
    @Spelled.mk ['9'] ['1'] [','] rest .pushLong (.bare ['1'])
      ⟨by decide, List.all_eq_true.mp rfl, rfl⟩ (.bare (by decide) (.inl (by decide))) .comma
  have hoperand : Denotes .int (.bare ['1']) (some (.int 1)) :=
    .int (Numeral.readInt64?_eq_some_iff.mp rfl)
  have hfront : ∀ rest, Front ['9', ' ', '1', ','] [i] rest := fun rest =>
    @Front.cons [] ['9', ' ', '1', ','] [] rest i [] .none (.mk (hspelled rest) hoperand)
      (.nil rest)
  have hrun : ∀ digits : List Char, digits ≠ [] → digits.all Char.isDigit = true →
      DigitRun digits [' ', '3'] := fun digits hne hall =>
    ⟨hne, List.all_eq_true.mp hall, by simp⟩
  obtain ⟨hknown, hbytes, -⟩ := read_opcode_number "9 1,00009 3"
  obtain ⟨hbeyondByte, -, hreported, -⟩ := read_opcode_number "9 1,265 3"
  obtain ⟨hbeyondWord, -, hreported', -⟩ := read_opcode_number "9 1,4294967305 3"
  have hanswer : ByteReader.read? ((Text.bytes "9 1,00009 3").length + 1) "9 1,00009 3" =
      some ([], .ok [i, .pushLong 3]) := rfl
  obtain ⟨hevents, hread⟩ := Prod.mk.inj (Option.some.inj (hbytes.symm.trans hanswer))
  obtain ⟨opcode, hcode, -, -, htaken, -⟩ :=
    (hknown _ [i] _ _ 9 rfl (hfront _) (hrun "00009".toList (by decide) (by decide)) rfl).1
      (by decide)
  obtain ⟨j, hj, hopcode⟩ := htaken _ hread
  obtain ⟨hbyte, -⟩ :=
    (hbeyondByte _ [i] _ _ 265 rfl (hfront _) (hrun "265".toList (by decide) (by decide)) rfl).2
      (by decide)
  obtain ⟨hword, -⟩ := (hbeyondWord _ [i] _ _ 4294967305 rfl (hfront _)
    (hrun "4294967305".toList (by decide) (by decide)) rfl).2 (by decide)
  have hlong : opcode = .pushLong :=
    Option.some.inj ((Opcode.ofCode?_code opcode).symm.trans (congrArg Opcode.ofCode? hcode))
  exact ⟨⟨rfl, rfl, hread, ⟨j, hj, hopcode.trans hlong⟩, hevents⟩,
    ⟨rfl, hbyte, (hreported _ _ hbyte).1⟩, rfl, hword, (hreported' _ _ hword).1⟩

end ActionCode.Listing
