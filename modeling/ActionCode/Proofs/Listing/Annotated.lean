import ActionCode.Proofs.Listing.Faithful

namespace ActionCode

namespace Instruction

/-- An instruction that its line shows in full: the parameter stays within the line,
and there is none to show where the remark does not repeat it. -/
def Tabular (i : Instruction) : Prop :=
  '\n' ∉ i.parameter.toList ∧ (i.opcode = .nop → i.operand? = none)

instance : DecidablePred Tabular := fun i =>
  inferInstanceAs (Decidable ('\n' ∉ i.parameter.toList ∧ (i.opcode = .nop → i.operand? = none)))

theorem operand?_of_one {i : Instruction} (h : i.operand?.bind Operand.int? = some 1) :
    i.operand? = some (.int 1) := by
  cases ho : i.operand? with
  | none => simp [ho] at h
  | some operand =>
    cases operand with
    | int n => simpa [ho, Operand.int?] using h
    | float x | str text | bool b | name name => simp [ho, Operand.int?] at h

theorem lineFeed_notMem_remark {i : Instruction} (h : '\n' ∉ i.parameter.toList) :
    '\n' ∉ i.remark.toList := by
  have hcounted : ∀ noun : String, '\n' ∉ noun.toList → '\n' ∉ (i.counted noun).toList := by
    intro noun hnoun
    rw [counted]
    split <;> simp [hnoun]
  -- The texts are taken as lists of characters; to decode them is slow.
  have htext : ∀ text : List Char, '\n' ∉ text → '\n' ∉ (String.ofList text).toList := by
    intro text htext
    rwa [String.toList_ofList]
  have hspace := hcounted "space" (htext _ (by decide))
  have htime := hcounted "time" (htext _ (by decide))
  cases hopcode : i.opcode <;>
    simp only [remark, hopcode, String.toList_append, List.mem_append, not_or, h, hspace, htime,
      not_false_eq_true, and_true]
  all_goals and_intros <;> exact htext _ (by decide)

theorem length_counted {i : Instruction} (hkind : i.opcode.kind = .int) :
    ∃ dropped, (dropped = 0 ∨ (dropped = 1 ∧ i.parameter = "1")) ∧
      ∀ noun, (i.counted noun).length + dropped = noun.length + 1 := by
  by_cases hone : i.operand?.bind Operand.int? = some 1
  · have hparameter : i.parameter = "1" := by
      obtain ⟨opcode, operand?⟩ := i
      obtain rfl : operand? = _ := operand?_of_one hone
      exact (parameter_of_plain (.int 1) (by simp [hkind])).trans rfl
    refine ⟨1, .inr ⟨rfl, hparameter⟩, fun noun => ?_⟩
    rw [counted, if_pos hone]
  · refine ⟨0, .inl rfl, fun noun => ?_⟩
    rw [counted, if_neg hone, String.length_append]
    rfl

/-- A remark repeats the parameter once between texts of the opcode, which are
shorter by a letter where they count one thing. -/
theorem length_remark {i : Instruction} (hnop : i.opcode ≠ .nop) (hcomment : i.opcode ≠ .comment) :
    ∃ dropped, (dropped = 0 ∨ (dropped = 1 ∧ i.parameter = "1")) ∧
      i.remark.length + dropped + 1 =
        (remark ⟨i.opcode, none⟩).length + i.parameter.length := by
  have hzero : "0".length = 1 := rfl
  cases hopcode : i.opcode with
  | nop | comment => contradiction
  | reserveStack | reserveRegister | dup | pop =>
    have hkind : i.opcode.kind = .int := by
      rw [hopcode]
      rfl
    obtain ⟨dropped, hone, hcounted⟩ := length_counted hkind
    have hplural : ∀ noun, (counted ⟨i.opcode, none⟩ noun).length = noun.length + 1 := fun noun =>
      String.length_append noun "s"
    refine ⟨dropped, hone, ?_⟩
    have hspace := hcounted "space"
    have htime := hcounted "time"
    rw [hopcode] at hplural
    simp only [remark, hopcode, parameter_of_none, String.length_append, hplural]
    omega
  | _ =>
    refine ⟨0, .inl rfl, ?_⟩
    simp only [remark, hopcode, parameter_of_none, String.length_append]
    omega

theorem le_length_remark (i : Instruction) : Listing.remarkWidth ≤ i.remark.length := by
  have hwidth : Listing.remarkWidth = 10 := rfl
  cases hopcode : i.opcode
  all_goals
    simp only [remark, hopcode, String.length_append]
    repeat rw [String.length_ofList]
    simp only [List.length_cons]
    omega

end Instruction

namespace Listing

theorem length_blanks (n : Nat) : (blanks n).length = n := by
  simp [blanks]

theorem length_padRight (width : Nat) (text : String) :
    (padRight width text).length = max width text.length := by
  rw [padRight, String.length_append, length_blanks]
  omega

theorem padLeft_of_le {width : Nat} {text : String} (h : width ≤ text.length) :
    padLeft width text = text := by
  simp [padLeft, blanks, Nat.sub_eq_zero_of_le h]

theorem value_wideCodeText (opcode : Opcode) :
    Nat.ofDigitChars 10 (wideCodeText opcode).toList 0 = opcode.code := by
  cases opcode <;> rfl

theorem length_wideCodeText (opcode : Opcode) : (wideCodeText opcode).toList.length = 2 := by
  cases opcode <;> rfl

def columns (i : Instruction) : List Char :=
  (padRight parameterWidth i.parameter).toList ++ ';' :: i.remark.toList

def line (i : Instruction) : List Char :=
  (wideCodeText i.opcode).toList ++ ';' :: columns i

theorem toList_annotatedLine (i : Instruction) : (annotatedLine i).toList = line i ++ ['\n'] := by
  rw [annotatedLine, padLeft_of_le i.le_length_remark]
  simp [line, columns]

theorem toList_text_annotated (p : Program) :
    (text .annotated (some p)).toList = header ++ (p.map line).flatMap (· ++ ['\n']) := by
  have hlines : (String.join (p.map annotatedLine)).toList =
      (p.map line).flatMap (· ++ ['\n']) := by
    induction p with
    | nil => rfl
    | cons i p ih => simp [toList_annotatedLine, ih]
  simp [text, pieces, header, bodyPieces, String.join_append, hlines]

theorem lineFeed_notMem_line {i : Instruction} (h : '\n' ∉ i.parameter.toList) :
    '\n' ∉ line i := by
  have hcode : '\n' ∉ (wideCodeText i.opcode).toList := by cases i.opcode <;> decide
  simp [line, columns, padRight, blanks, hcode, h, Instruction.lineFeed_notMem_remark h]

theorem line_inj {i j : Instruction} (h : line i = line j) :
    i.opcode = j.opcode ∧ columns i = columns j := by
  have hlength : (wideCodeText i.opcode).toList.length = (wideCodeText j.opcode).toList.length := by
    rw [length_wideCodeText, length_wideCodeText]
  obtain ⟨hcode, hrest⟩ := List.append_inj h hlength
  have hvalue := congrArg (Nat.ofDigitChars 10 · 0) hcode
  simp only [value_wideCodeText] at hvalue
  have hopcode := congrArg Opcode.ofCode? hvalue
  simp only [Opcode.ofCode?_code, Option.some.injEq] at hopcode
  exact ⟨hopcode, (List.cons.inj hrest).2⟩

theorem eq_of_padRight_eq {width : Nat} {a b : String} (ha : a.toList.getLast? ≠ some ' ')
    (hb : b.toList.getLast? ≠ some ' ') (h : padRight width a = padRight width b) : a = b := by
  have hstrip : ∀ c : String, c.toList.getLast? ≠ some ' ' →
      (padRight width c).toList.reverse.dropWhile (· = ' ') = c.toList.reverse := by
    intro c hc
    have hblanks : ∀ d ∈ List.replicate (width - c.length) ' ', decide (d = ' ') = true := by
      simp
    have hrest : ∀ d ∈ c.toList.reverse.head?, decide (d = ' ') = false := by
      intro d hd
      rw [List.head?_reverse] at hd
      simp only [decide_eq_false_iff_not]
      rintro rfl
      exact hc hd
    simpa [padRight, blanks] using (Text.span_append hblanks hrest).2
  have hreverse := hstrip a ha
  rw [h, hstrip b hb] at hreverse
  rw [← String.toList_inj]
  exact (List.reverse_inj.mp hreverse).symm

theorem getLast?_parameter_of_comment {i : Instruction} (h : i.opcode = .comment) :
    i.parameter.toList.getLast? ≠ some ' ' := by
  cases ho : i.operand? with
  | none =>
    rw [Instruction.parameter_of_none ho]
    decide
  | some operand =>
    rw [Instruction.parameter_of_str (by rw [h]; rfl) ho, Text.Quoted.encode, ← List.cons_append,
      List.getLast?_concat]
    decide

theorem length_columns (i : Instruction) :
    (columns i).length = max parameterWidth i.parameter.length + 1 + i.remark.length := by
  rw [columns, List.length_append, List.length_cons, String.length_toList, String.length_toList,
    length_padRight]
  omega

theorem parameter_eq_of_length {i j : Instruction} (h : columns i = columns j)
    (hlength : i.parameter.length = j.parameter.length) : i.parameter = j.parameter := by
  have hfront : ∀ k : Instruction, k.parameter.toList <+: columns k := by
    intro k
    rw [columns, padRight, String.toList_append, List.append_assoc]
    exact List.prefix_append _ _
  have hlength' : i.parameter.toList.length = j.parameter.toList.length := by
    rw [String.length_toList, String.length_toList, hlength]
  have hprefix := List.prefix_of_prefix_length_le (h ▸ hfront i) (hfront j) hlength'.le
  rw [← String.toList_inj]
  exact hprefix.eq_of_length hlength'

theorem columns_ne_of_empty {i j : Instruction} (hi : i.parameter = "1")
    (hj : j.parameter.length = 0) : columns i ≠ columns j := by
  intro h
  rw [String.length_eq_zero_iff] at hj
  rw [columns, columns, padRight, padRight, hi, hj] at h
  exact absurd (List.cons.inj h).1 (by decide)

/-- The parameter is told by the columns. Lines of one length have parameters of
one length, since the remark repeats them; but for a letter that is dropped from
it, which would only an empty parameter make up for. -/
theorem columns_inj {i j : Instruction} (hi : i.opcode = .nop → i.operand? = none)
    (hj : j.opcode = .nop → j.operand? = none) (hopcode : i.opcode = j.opcode)
    (h : columns i = columns j) : i.parameter = j.parameter := by
  by_cases hnop : i.opcode = .nop
  · have hi' := Instruction.parameter_of_none (hi hnop)
    have hj' := Instruction.parameter_of_none (hj (hopcode ▸ hnop))
    rw [hi', hj']
  by_cases hcomment : i.opcode = .comment
  · have hcomment' : j.opcode = .comment := hopcode ▸ hcomment
    have hremark : i.remark = j.remark := by simp only [Instruction.remark, hcomment, hcomment']
    rw [columns, columns, hremark] at h
    have hpad := String.toList_inj.mp (List.append_cancel_right h)
    exact eq_of_padRight_eq (getLast?_parameter_of_comment hcomment)
      (getLast?_parameter_of_comment hcomment') hpad
  obtain ⟨droppedᵢ, hdroppedᵢ, hremarkᵢ⟩ := Instruction.length_remark hnop hcomment
  obtain ⟨droppedⱼ, hdroppedⱼ, hremarkⱼ⟩ :=
    Instruction.length_remark (hopcode ▸ hnop) (hopcode ▸ hcomment)
  have hlength := congrArg List.length h
  rw [length_columns, length_columns] at hlength
  rw [hopcode] at hremarkᵢ
  have hwidth : parameterWidth = 50 := rfl
  have hone : "1".length = 1 := rfl
  obtain rfl | ⟨rfl, hi⟩ := hdroppedᵢ <;> obtain rfl | ⟨rfl, hj⟩ := hdroppedⱼ
  · exact parameter_eq_of_length h (by omega)
  · have hlengthⱼ := congrArg String.length hj
    exact absurd h.symm (columns_ne_of_empty hj (by omega))
  · have hlengthᵢ := congrArg String.length hi
    exact absurd h (columns_ne_of_empty hi (by omega))
  · rw [hi, hj]

theorem line_determines {i j : Instruction} (hi : i.Tabular) (hj : j.Tabular)
    (h : line i = line j) : i.opcode = j.opcode ∧ i.parameter = j.parameter := by
  obtain ⟨hopcode, hcolumns⟩ := line_inj h
  exact ⟨hopcode, columns_inj hi.2 hj.2 hopcode hcolumns⟩

theorem stream_congr {p q : Program} (h : p.map unitText = q.map unitText) :
    stream p = stream q := by
  induction p generalizing q with
  | nil =>
    cases q with
    | nil => rfl
    | cons j q => simp at h
  | cons i p ih =>
    cases q with
    | nil => simp at h
    | cons j q =>
      obtain ⟨hunit, hrest⟩ := List.cons.inj h
      have hnil : p = [] ↔ q = [] := by
        rw [← List.map_eq_nil_iff (f := unitText), hrest, List.map_eq_nil_iff]
      rw [stream_cons_eq, stream_cons_eq, hunit, ih hrest, ending, ending, if_congr hnil rfl rfl]

/-- An annotated listing holds all that a compact one does: programs with one
annotated listing have the same opcodes and the same parameters in the same places,
and so they have one compact listing. -/
theorem emitted_annotated_inj (p q : Program) (hp : ∀ i ∈ p, i.Tabular) (hq : ∀ i ∈ q, i.Tabular)
    (h : (emitted .annotated (some p)).1 = (emitted .annotated (some q)).1) :
    p.length = q.length ∧
      (∀ k (hk : k < p.length) (hk' : k < q.length),
        p[k].opcode = q[k].opcode ∧ p[k].parameter = q[k].parameter) ∧
      (emitted .compact (some p)).1 = (emitted .compact (some q)).1 := by
  have hnotMem : ∀ {r : Program}, (∀ i ∈ r, i.Tabular) → ∀ l ∈ r.map line, '\n' ∉ l := by
    intro r hr l hl
    obtain ⟨i, hi, rfl⟩ := List.mem_map.mp hl
    exact lineFeed_notMem_line (hr i hi).1
  have hlines : p.map line = q.map line := by
    simp only [emitted_eq] at h
    have htext := congrArg String.toList h
    rw [toList_text_annotated, toList_text_annotated] at htext
    exact Text.eq_of_lines_eq (hnotMem hp) (hnotMem hq) (List.append_cancel_left htext)
  have hlength : p.length = q.length := by simpa using congrArg List.length hlines
  have hpoint : ∀ k (hk : k < p.length) (hk' : k < q.length),
      p[k].opcode = q[k].opcode ∧ p[k].parameter = q[k].parameter := by
    intro k hk hk'
    have hline := List.getElem_of_eq hlines (by simpa using hk)
    rw [List.getElem_map, List.getElem_map] at hline
    exact line_determines (hp _ (List.getElem_mem hk)) (hq _ (List.getElem_mem hk')) hline
  have hunits : p.map unitText = q.map unitText := by
    apply List.ext_getElem (by simpa using hlength)
    intro k hk hk'
    rw [List.length_map] at hk hk'
    obtain ⟨hopcode, hparameter⟩ := hpoint k hk hk'
    rw [List.getElem_map, List.getElem_map, unitText_eq, unitText_eq, hopcode, hparameter]
  refine ⟨hlength, hpoint, ?_⟩
  rw [emitted_eq, emitted_eq, ← String.toList_inj, toList_text_compact, toList_text_compact]
  exact congrArg (header ++ ·) (stream_congr hunits)

theorem emitted_annotated_inj_operands :
    let p : Program := [⟨.pop, none⟩, ⟨.set, some (.str "set A::b; ")⟩]
    let q : Program := [⟨.pop, some (.int 0)⟩, ⟨.set, some (.name (.setter "A" "b; "))⟩]
    (emitted .annotated (some p)).1 = (emitted .annotated (some q)).1 ∧ p ≠ q ∧
      (emitted .compact (some p)).1 = (emitted .compact (some q)).1 := by
  intro p q
  have hpop : annotatedLine ⟨.pop, none⟩ = annotatedLine ⟨.pop, some (.int 0)⟩ := by
    have hparameter :
        (Instruction.mk .pop none).parameter = (Instruction.mk .pop (some (.int 0))).parameter := by
      decide
    have hcounted : (Instruction.mk .pop none).counted "time" =
        (Instruction.mk .pop (some (.int 0))).counted "time" := by decide
    simp only [annotatedLine, Instruction.remark, hparameter, hcounted]
  have hset : annotatedLine ⟨.set, some (.str "set A::b; ")⟩ =
      annotatedLine ⟨.set, some (.name (.setter "A" "b; "))⟩ := by
    have hparameter : (Instruction.mk .set (some (.str "set A::b; "))).parameter =
        (Instruction.mk .set (some (.name (.setter "A" "b; ")))).parameter := by decide
    simp only [annotatedLine, Instruction.remark, hparameter]
  have htext : (emitted .annotated (some p)).1 = (emitted .annotated (some q)).1 := by
    simp only [emitted_eq, text, pieces, Option.map_some, bodyPieces, p, q, List.map_cons, hpop,
      hset]
  have hp : ∀ i ∈ p, i.Tabular := by decide
  have hq : ∀ i ∈ q, i.Tabular := by decide
  exact ⟨htext, by decide, (emitted_annotated_inj p q hp hq htext).2.2⟩

end Listing

end ActionCode
