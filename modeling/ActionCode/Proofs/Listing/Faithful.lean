import ActionCode.Proofs.Listing.Stream
import ActionCode.Proofs.Name.Target
import ActionCode.Proofs.Operand.Inference

namespace ActionCode

namespace Instruction

/-- An instruction that its listing keeps: the operand is one for the opcode, and
its text stands for nothing else at that place. -/
def Faithful (i : Instruction) : Prop :=
  match i.operand? with
  | none => i.opcode.kind ≠ .int ∧ i.opcode.kind ≠ .any
  | some (.int _) => i.opcode.kind = .int ∨ i.opcode.kind = .any
  | some (.float _) => i.opcode.kind = .float ∨ i.opcode.kind = .any
  | some (.bool _) => i.opcode.kind = .bool ∨ i.opcode.kind = .any
  | some (.str text) => i.opcode.kind = .str ∨ (i.opcode.kind = .any ∧ Listing.Bare text.toList ∧
      Numeral.readInt64? text.toList = none ∧ Binary64.read? text.toList = none ∧
        Operand.readBool? text.toList = none)
  | some (.name name) => i.opcode.kind = .name name.verb ∧ name.WellFormed ∧ name.Separable ∧
      Listing.Bare name.target.toList ∧ name ≠ .constructor "0"

instance : DecidablePred Faithful
  | ⟨_, none⟩ => inferInstanceAs (Decidable (_ ∧ _))
  | ⟨_, some (.int _)⟩ => inferInstanceAs (Decidable (_ ∨ _))
  | ⟨_, some (.float _)⟩ => inferInstanceAs (Decidable (_ ∨ _))
  | ⟨_, some (.bool _)⟩ => inferInstanceAs (Decidable (_ ∨ _))
  | ⟨_, some (.str _)⟩ => inferInstanceAs (Decidable (_ ∨ _))
  | ⟨_, some (.name _)⟩ => inferInstanceAs (Decidable (_ ∧ _))

example : Faithful (.pushUnchecked (.str "")) ∧ ¬Faithful (.pushUnchecked (.str "\"")) := by decide

theorem parameter_of_name {opcode : Opcode} {name : Name} (h : opcode.kind = .name name.verb) :
    parameter ⟨opcode, some (.name name)⟩ = name.target := by
  cases opcode <;> simp [Opcode.kind] at h <;> rfl

theorem parameter_of_plain {opcode : Opcode} (operand : Operand)
    (h : opcode.kind ∈ [.none, .int, .float, .bool, .any]) :
    parameter ⟨opcode, some operand⟩ = operand.text := by
  cases opcode <;> simp [Opcode.kind] at h <;> rfl

theorem operandBack_of_any {i : Instruction} (h : i.opcode.kind = .any) :
    i.operandBack = .ok (some (.infer i.parameter.toList)) := by
  simp [operandBack, h, infer_eq]

theorem delimited_of_plain {opcode : Opcode} {operand : Operand}
    (h : opcode.kind ∈ [.none, .int, .float, .bool, .any])
    (hbare : Listing.Bare operand.text.toList) (hne : operand.text ≠ "" ∨ opcode.kind = .any) :
    Delimited ⟨opcode, some operand⟩ := by
  have hparameter := parameter_of_plain operand h
  refine .inr ⟨hparameter ▸ hbare, ?_⟩
  rw [hparameter]
  exact hne.imp_right Listing.kind_eq_any_iff.mp

theorem delimited_of_none (opcode : Opcode) : Delimited ⟨opcode, none⟩ := by
  rw [Delimited, parameter_of_none rfl]
  exact .inr ⟨by decide, .inl (by decide)⟩

theorem Faithful.delimited {i : Instruction} (h : i.Faithful) : i.Delimited := by
  obtain ⟨opcode, _ | operand⟩ := i
  · exact delimited_of_none opcode
  · cases operand with
    | int n =>
      have hne := Operand.text_ne_empty (Operand.infer_int n) (by simp)
      obtain hkind | hkind := h <;>
        exact delimited_of_plain (by simp [hkind]) (Listing.bare_int n) (.inl hne)
    | float x =>
      have hne := Operand.text_ne_empty (Operand.infer_float x) (by simp)
      obtain hkind | hkind := h <;>
        exact delimited_of_plain (by simp [hkind]) (Listing.bare_float x) (.inl hne)
    | bool b =>
      have hne := Operand.text_ne_empty (Operand.infer_bool b) (by simp)
      obtain hkind | hkind := h <;>
        exact delimited_of_plain (by simp [hkind]) (Listing.bare_bool b) (.inl hne)
    | str text =>
      obtain hkind | ⟨hkind, hbare, -⟩ := h
      · exact .inl (kind_eq_str_iff.mp hkind)
      · exact delimited_of_plain (by simp [hkind]) hbare (.inr hkind)
    | name name =>
      obtain ⟨hkind, hwell, -, hbare, -⟩ := h
      have hparameter := parameter_of_name hkind
      exact .inr ⟨hparameter ▸ hbare, .inl (hparameter ▸ hwell.target_ne_empty)⟩

theorem operandBack_of_infer {opcode : Opcode} {operand : Operand} (hkind : opcode.kind = .any)
    (hinfer : Operand.infer operand.text.toList = operand) :
    operandBack ⟨opcode, some operand⟩ = .ok (some operand) := by
  rw [operandBack_of_any hkind, parameter_of_plain operand (by simp [hkind]),
    hinfer]

theorem Faithful.operandBack {i : Instruction} (h : i.Faithful) :
    i.operandBack = .ok i.operand? := by
  obtain ⟨opcode, _ | operand⟩ := i
  · cases hkind : opcode.kind with
    | int => exact absurd hkind h.1
    | any => exact absurd hkind h.2
    | none | str | float | bool | name verb =>
      simp [Instruction.operandBack, hkind, parameter_of_none]
  · cases operand with
    | int n =>
      obtain hkind | hkind := h
      · have hparameter := parameter_of_plain (.int n) (show opcode.kind ∈ _ by simp [hkind])
        simp [Instruction.operandBack, hkind, hparameter, Operand.toList_int,
          Numeral.readInt64?_intText, orInvalid]
      · exact operandBack_of_infer hkind (Operand.infer_int n)
    | float x =>
      obtain hkind | hkind := h
      · have hparameter := parameter_of_plain (.float x) (show opcode.kind ∈ _ by simp [hkind])
        have hzero := Operand.text_ne_zero (Operand.infer_float x) (by simp)
        simp [Instruction.operandBack, hkind, hparameter, hzero, Operand.toList_float,
          x.read?_text, orInvalid]
      · exact operandBack_of_infer hkind (Operand.infer_float x)
    | bool b =>
      obtain hkind | hkind := h
      · have hparameter := parameter_of_plain (.bool b) (show opcode.kind ∈ _ by simp [hkind])
        have hzero := Operand.text_ne_zero (Operand.infer_bool b) (by simp)
        simp [Instruction.operandBack, hkind, hparameter, hzero, Operand.readBool?_bool, orInvalid]
      · exact operandBack_of_infer hkind (Operand.infer_bool b)
    | str text =>
      obtain hkind | ⟨hkind, -, hinfer⟩ := h
      · simp [Instruction.operandBack, hkind, Operand.text]
      · refine operandBack_of_infer hkind (Operand.infer_eq_str_iff.mpr ⟨?_, hinfer⟩)
        simp [Operand.text]
    | name name =>
      obtain ⟨hkind, hwell, hseparable, -, hne⟩ := h
      have hzero : name.target ≠ "0" := fun hzero => hne (Name.target_eq_zero_iff.mp hzero)
      have hname := Name.ofTarget_eq_ok_iff.mpr ⟨rfl, rfl, hwell, hseparable⟩
      simp [Instruction.operandBack, hkind, parameter_of_name hkind, hzero, hname, Except.map]

theorem Faithful.readBack {i : Instruction} (h : i.Faithful) : i.readBack = .ok i := by
  rw [Instruction.readBack, h.operandBack]
  rfl

end Instruction

namespace Listing

/-- A literal that begins with what it is to hold never holds that: each escape
moves what it escapes from the front to the back, and the end is never met. -/
theorem Literal.append_ne {written text : List Char} (h : Literal written text) (ahead : List Char)
    (hne : ahead ≠ []) (hahead : ∀ c ∈ ahead, c = '"' ∨ c = '\\') {stop : Char}
    (hstop : isBare stop = false) (after rest : List Char) :
    text ++ stop :: after ≠ ahead ++ (written ++ rest) := by
  induction h generalizing ahead with
  | nil =>
    intro heq
    obtain ⟨c, ahead, rfl⟩ := List.exists_cons_of_ne_nil hne
    obtain rfl := (List.cons.inj heq).1
    obtain rfl | rfl := hahead stop (by simp) <;> contradiction
  | plain hquote hescape h ih =>
    intro heq
    obtain ⟨c, ahead, rfl⟩ := List.exists_cons_of_ne_nil hne
    obtain rfl := (List.cons.inj heq).1
    exact (hahead _ (by simp)).elim hquote hescape
  | lineFeed h ih | carriageReturn h ih | tab h ih =>
    intro heq
    obtain ⟨c, ahead, rfl⟩ := List.exists_cons_of_ne_nil hne
    obtain rfl := (List.cons.inj heq).1
    obtain h | h := hahead _ (List.mem_cons_self ..) <;> contradiction
  | @escaped d written text hn hr ht h ih =>
    intro heq
    obtain ⟨c, ahead, rfl⟩ := List.exists_cons_of_ne_nil hne
    obtain ⟨rfl, heq⟩ := List.cons.inj heq
    -- The escaped character comes from the front, and its backslash goes with it to the back.
    have hmoved : ∀ e ∈ ahead ++ ['\\', d], e = '"' ∨ e = '\\' := by
      intro e he
      obtain he | he := List.mem_append.mp he
      · exact hahead e (List.mem_cons_of_mem _ he)
      · obtain rfl | rfl : e = '\\' ∨ e = d := by simpa using he
        · exact .inr rfl
        · exact hahead e (by simp)
    exact ih _ (by simp) hmoved (by simpa using heq)

theorem faithful_of_bare {opcode : Opcode} {token : List Char} {operand? : Option Operand}
    (hbare : Bare token) (h : Denotes opcode.kind (.bare token) operand?) :
    Instruction.Faithful ⟨opcode, operand?⟩ := by
  generalize hkind : opcode.kind = kind at h
  cases h with
  | ignored => exact ⟨by simp [hkind], by simp [hkind]⟩
  | absent hint hany => exact ⟨hkind ▸ hint, hkind ▸ hany⟩
  | int h | float hne h | bool h => exact .inl hkind
  | name hne h =>
    obtain ⟨rfl, htarget, hwell, hseparable⟩ :=
      Name.ofTarget_eq_ok_iff.mp (Name.ofTarget_eq_ok_iff_spelling.mpr h)
    have htoken := String.toList_inj.mpr htarget
    rw [String.toList_ofList] at htoken
    refine ⟨hkind, hwell, hseparable, htoken ▸ hbare, ?_⟩
    rintro rfl
    exact hne htoken.symm
  | guessed h =>
    cases h with
    | int h | float hint h | bool hint hfloat h => exact .inr hkind
    | str hint hfloat hbool =>
      have hinfer := Operand.infer_eq_iff.mpr (.str hint hfloat hbool)
      refine .inr ⟨hkind, ?_⟩
      rw [String.toList_ofList]
      exact ⟨hbare, (Operand.infer_eq_str_iff.mp hinfer).2⟩

theorem faithful_of_quoted {opcode : Opcode} {text : List Char} {operand? : Option Operand}
    (h : Denotes opcode.kind (.quoted text) operand?) : Instruction.Faithful ⟨opcode, operand?⟩ ∨
      (opcode.kind = .any ∧ operand? = some (.str (String.ofList text))) := by
  generalize hkind : opcode.kind = kind at h
  cases h with
  | ignored => exact .inl ⟨by simp [hkind], by simp [hkind]⟩
  | str => exact .inl (.inl hkind)
  | quoted => exact .inr ⟨rfl, rfl⟩

theorem exists_parameter_of_readUnit {i j : Instruction} {after rest : List Char}
    (h : readUnit (unitText i ++ after) = .ok (j, rest)) :
    j.opcode = i.opcode ∧ ∃ parameter spelling stop,
      i.parameter.toList ++ after = spelling ++ stop ∧
        Parameter i.opcode spelling parameter ∧ Denotes i.opcode.kind parameter j.operand? := by
  have hgap : ∀ c ∈ (' ' :: (i.parameter.toList ++ after)).head?, c.isDigit = false := by simp
  have hopcode := readOpcode_of_code (code_toDigits i.opcode) hgap
  obtain ⟨⟨opcode, gap⟩, hopcode', h⟩ := bind_eq_ok_iff.mp h
  obtain ⟨start, hgap', h⟩ := bind_eq_ok_iff.mp h
  obtain ⟨⟨parameter, stop⟩, hparameter, h⟩ := bind_eq_ok_iff.mp h
  obtain ⟨separated, -, h⟩ := bind_eq_ok_iff.mp h
  obtain ⟨operand?, hoperand, h⟩ := bind_eq_ok_iff.mp h
  obtain ⟨rfl, -⟩ := Prod.mk.inj (Except.ok.inj h)
  rw [unitText_eq, List.append_assoc, List.cons_append, hopcode] at hopcode'
  obtain ⟨rfl, rfl⟩ := Prod.mk.inj (Except.ok.inj hopcode')
  obtain rfl := Except.ok.inj (mapError_eq_ok_iff.mp hgap')
  obtain ⟨spelling, htext, hspelled⟩ := exists_parameter (mapError_eq_ok_iff.mp hparameter)
  exact ⟨rfl, parameter, spelling, stop, htext, hspelled, operand_eq_ok_iff.mp hoperand⟩

end Listing

theorem Instruction.Faithful.of_same {i j : Instruction} (h : j.Faithful) (hsame : j.same i) :
    i.Faithful := by
  obtain ⟨opcode, operand?⟩ := i
  obtain ⟨opcode', operand'?⟩ := j
  simp only [same, Bool.and_eq_true, decide_eq_true_eq] at hsame
  obtain ⟨rfl, hoperand⟩ := hsame
  obtain rfl | ⟨x, y, rfl, rfl⟩ := Operand.eq_or_float_of_canonical hoperand
  · exact h
  · exact h

namespace Listing

theorem faithful_of_readUnit {i j : Instruction} {c : Char} {after rest : List Char}
    (hc : isBare c = false) (h : readUnit (unitText i ++ c :: after) = .ok (j, rest))
    (hsame : j.same i) : i.Faithful := by
  obtain ⟨hopcode, parameter, spelling, stop, htext, hparameter, hoperand⟩ :=
    exists_parameter_of_readUnit h
  rw [← hopcode] at hoperand
  cases hparameter with
  | bare hbare hne => exact (faithful_of_bare hbare hoperand).of_same hsame
  | @quoted written text hliteral =>
    obtain hfaithful | ⟨hkind, hj⟩ := faithful_of_quoted hoperand
    · exact hfaithful.of_same hsame
    · have hi : i.operand? = some (.str (String.ofList text)) := by
        simp only [Instruction.same, Bool.and_eq_true, decide_eq_true_eq] at hsame
        obtain heq | ⟨x, y, hfloat, -⟩ := Operand.eq_or_float_of_canonical hsame.2
        · exact heq.symm.trans hj
        · simp [hj] at hfloat
      have hparameter : i.parameter.toList = text := by
        obtain ⟨opcode, operand?⟩ := i
        obtain rfl : operand? = _ := hi
        obtain rfl : j.opcode = opcode := hopcode
        rw [Instruction.parameter_of_plain _ (by simp [hkind])]
        simp [Operand.text]
      have hne := hliteral.append_ne ['"'] (by simp) (by simp) hc after ('"' :: stop)
      rw [hparameter] at htext
      exact absurd htext (by simpa using hne)

theorem mapM_readBack_of_faithful {p : Program} (h : ∀ i ∈ p, i.Faithful) :
    p.mapM Instruction.readBack = .ok p := by
  induction p with
  | nil => rfl
  | cons i p ih =>
    rw [List.mapM_cons, (h i (by simp)).readBack, ih fun j hj => h j (by simp [hj])]
    rfl

theorem readUnits_of_faithful {p : Program} (h : ∀ i ∈ p, i.Faithful) :
    readUnits (stream p) = .ok p :=
  readUnits_stream_end (fun i hi => (h i hi).delimited) (mapM_readBack_of_faithful h)

theorem same_cons_iff {j i : Instruction} {q p : Program} :
    Program.same (j :: q) (i :: p) = true ↔ j.same i = true ∧ Program.same q p = true := by
  simp [Program.same, and_left_comm]

theorem same_self (p : Program) : Program.same p p = true := by
  induction p with
  | nil => rfl
  | cons i p ih => exact same_cons_iff.mpr ⟨by simp [Instruction.same], ih⟩

/-- A program that comes back as it was consists of faithful instructions: what is
read first is the first of them, and once that is faithful its unit ends where
the next one begins. -/
theorem faithful_of_readUnits {p q : Program} (h : readUnits (stream p) = .ok q)
    (hsame : Program.same q p = true) : ∀ i ∈ p, i.Faithful := by
  induction p generalizing q with
  | nil => simp
  | cons i p ih =>
    obtain ⟨stop, hstream, hends⟩ := stream_cons i p []
    -- Whatever the first unit is read for, a comma or a blank stands behind its text.
    obtain ⟨c, after, hc, hafter⟩ : ∃ c after, isBare c = false ∧
        stop ++ ' ' :: (stream p ++ []) = c :: after := by
      cases hends with
      | comma => exact ⟨',', _, rfl, rfl⟩
      | blank => exact ⟨' ', _, rfl, rfl⟩
    rw [List.append_nil, List.append_assoc, hafter] at hstream
    have hskip : skipTrivia false (unitText i ++ c :: after) = unitText i ++ c :: after := by
      rw [unitText_eq, List.append_assoc]
      exact (code_toDigits i.opcode).skip _
    obtain ⟨j, rest, tail, hread, rfl⟩ :=
      exists_unit_of_readUnits hskip (by simp) (hstream ▸ h)
    obtain ⟨hj, htail⟩ := same_cons_iff.mp hsame
    have hi : i.Faithful := faithful_of_readUnit hc hread hj
    -- Now that the first instruction is delimited, the rest is read from where it starts.
    have hnext := readUnits_stream_cons hi.delimited p []
    simp only [List.append_nil, hi.readBack, h] at hnext
    cases hp : readUnits (stream p) with
    | error stop => simp [hp, Except.map] at hnext
    | ok next =>
      rw [hp] at hnext
      obtain ⟨-, rfl⟩ := List.cons.inj (Except.ok.inj hnext)
      intro k hk
      obtain rfl | hk := List.mem_cons.mp hk
      · exact hi
      · exact ih hp htail k hk

/-- A program comes back from its listing as it was if and only if each of its
instructions is faithful. It makes no difference whether float zeros count as
one. -/
theorem read_emitted_self_iff (p : Program) :
    (read (emitted .compact (some p)).1 = .ok p ↔ ∀ i ∈ p, i.Faithful) ∧
      ((∃ q, read (emitted .compact (some p)).1 = .ok q ∧ Program.same q p = true) ↔
        ∀ i ∈ p, i.Faithful) := by
  have hread : ∀ q, read (emitted .compact (some p)).1 = .ok q ↔ readUnits (stream p) = .ok q := by
    intro q
    rw [read_eq_ok_iff, readUnits_emitted, Option.getD_some]
  have hfaithful : ∀ q, readUnits (stream p) = .ok q → Program.same q p = true →
      ∀ i ∈ p, i.Faithful := fun q => faithful_of_readUnits
  simp only [hread]
  refine ⟨?_, ?_⟩
  · exact ⟨fun h => hfaithful p h (same_self p), readUnits_of_faithful⟩
  · exact ⟨fun ⟨q, h, hsame⟩ => hfaithful q h hsame,
      fun h => ⟨p, readUnits_of_faithful h, same_self p⟩⟩

end Listing

end ActionCode
