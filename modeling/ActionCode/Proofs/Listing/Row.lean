import ActionCode.Proofs.Listing.Annotated
import ActionCode.Proofs.Text.Quoted

namespace ActionCode

namespace Text

/-- Lines that end with a line feed each hold as many of them as there are lines,
if there is none within a line. -/
theorem count_lines_eq_iff (lines : List (List Char)) :
    (lines.flatMap (· ++ ['\n'])).count '\n' = lines.length ↔ ∀ line ∈ lines, '\n' ∉ line := by
  have hcount : (lines.flatMap (· ++ ['\n'])).count '\n' =
      (lines.map (·.count '\n')).sum + lines.length := by
    induction lines with
    | nil => rfl
    | cons line lines ih =>
      have hline : (line ++ ['\n']).count '\n' = line.count '\n' + 1 := by simp
      rw [List.flatMap_cons, List.count_append, hline, ih, List.map_cons, List.sum_cons,
        List.length_cons]
      omega
  have hsum : (lines.map (·.count '\n')).sum = 0 ↔ ∀ line ∈ lines, '\n' ∉ line := by
    simp [List.sum_eq_zero_iff_forall_eq_nat, List.count_eq_zero]
  rw [hcount, ← hsum]
  omega

theorem splitOn_lines {lines : List (List Char)} (h : ∀ line ∈ lines, '\n' ∉ line) :
    (lines.flatMap (· ++ ['\n'])).splitOn '\n' = lines ++ [[]] := by
  have hjoin : ['\n'].intercalate (lines ++ [[]]) = lines.flatMap (· ++ ['\n']) := by
    induction lines with
    | nil => rfl
    | cons line lines ih =>
      rw [List.cons_append, List.flatMap_cons, ← ih fun l hl => h l (by simp [hl])]
      cases lines <;> simp [List.intercalate, List.intersperse]
  rw [← hjoin]
  apply List.splitOn_intercalate
  · simpa [or_imp, forall_and] using h
  · simp

end Text

namespace Instruction

/-- The operand of an instruction breaks the line it is listed on: it is shown
without quotes, and there is a line feed in it. -/
def BreaksLine (i : Instruction) : Prop :=
  i.opcode ≠ .comment ∧ i.opcode ≠ .pushString ∧ i.operand?.isSome ∧ '\n' ∈ i.parameter.toList

instance : DecidablePred BreaksLine := fun i =>
  inferInstanceAs (Decidable (i.opcode ≠ .comment ∧ i.opcode ≠ .pushString ∧ i.operand?.isSome ∧
    '\n' ∈ i.parameter.toList))

theorem breaksLine_iff {i : Instruction} : i.BreaksLine ↔ '\n' ∈ i.parameter.toList := by
  refine ⟨fun h => h.2.2.2, fun hmem => ?_⟩
  cases ho : i.operand? with
  | none =>
    rw [parameter_of_none ho] at hmem
    exact absurd hmem (by decide)
  | some operand =>
    have hkind : i.opcode.kind ≠ .str := by
      intro hkind
      rw [parameter_of_str hkind ho] at hmem
      exact Text.Quoted.notMem_encode (.inl rfl) _ hmem
    rw [ne_eq, kind_eq_str_iff, not_or] at hkind
    exact ⟨hkind.1, hkind.2, by rw [ho]; rfl, hmem⟩

end Instruction

namespace Listing

/-- The columns of an instruction in a line of an annotated listing: its code in two
digits, its parameter in fifty characters or more, and its remark. -/
structure Row (i : Instruction) (row : List Char) : Prop where
  code : Nat.ofDigitChars 10 (row.take 2) 0 = i.opcode.code
  isDigit : ∀ c ∈ row.take 2, c.isDigit = true
  codeEnd : row[2]? = some ';'
  parameter : (row.drop 3).take (max 50 i.parameter.length) =
    (padRight 50 i.parameter).toList
  parameterEnd : row[3 + max 50 i.parameter.length]? = some ';'
  remark : row.drop (4 + max 50 i.parameter.length) = i.remark.toList

theorem isDigit_wideCodeText (opcode : Opcode) :
    ∀ c ∈ (wideCodeText opcode).toList, c.isDigit = true := by
  have hall : (wideCodeText opcode).toList.all Char.isDigit = true := by cases opcode <;> decide
  exact List.all_eq_true.mp hall

theorem row_line (i : Instruction) : Row i (line i) := by
  have hcode := length_wideCodeText i.opcode
  have hcolumn : (padRight 50 i.parameter).toList.length = max 50 i.parameter.length := by
    rw [String.length_toList, length_padRight]
  have htake : (line i).take 2 = (wideCodeText i.opcode).toList := by
    rw [line, ← hcode, List.take_left]
  have hdrop : (line i).drop 3 =
      (padRight 50 i.parameter).toList ++ ';' :: i.remark.toList := by
    have hcolumns : (line i).drop (2 + 1) = columns i := by
      rw [line, ← List.drop_drop, ← hcode, List.drop_left]
      rfl
    exact hcolumns
  have hend : (line i).drop (3 + max 50 i.parameter.length) = ';' :: i.remark.toList := by
    rw [← List.drop_drop, hdrop, ← hcolumn, List.drop_left]
  refine ⟨?_, ?_, ?_, ?_, ?_, ?_⟩
  · rw [htake, value_wideCodeText]
  · rw [htake]
    exact isDigit_wideCodeText i.opcode
  · rw [line, List.getElem?_append_right hcode.le, hcode]
    rfl
  · rw [hdrop, ← hcolumn, List.take_left]
  · rw [← List.head?_drop, hend]
    rfl
  · have hrest := congrArg (List.drop 1) hend
    rw [List.drop_drop] at hrest
    rw [show 4 + max 50 i.parameter.length = 3 + max 50 i.parameter.length + 1 by omega, hrest]
    rfl

theorem lineFeed_mem_line_iff {i : Instruction} : '\n' ∈ line i ↔ i.BreaksLine := by
  rw [Instruction.breaksLine_iff]
  refine ⟨fun h => not_imp_not.mp lineFeed_notMem_line h, fun h => ?_⟩
  simp [line, columns, padRight, h]

theorem count_annotatedLine_eq_one_iff {i : Instruction} :
    (annotatedLine i).toList.count '\n' = 1 ↔ ¬i.BreaksLine := by
  rw [toList_annotatedLine, ← lineFeed_mem_line_iff, ← List.count_eq_zero]
  simp

theorem not_breaksLine_of_quoted {i : Instruction}
    (h : i.opcode = .pushString ∨ i.opcode = .comment) : ¬i.BreaksLine :=
  fun hbreaks => h.elim hbreaks.2.1 hbreaks.1

def rows (p : Program) : List (List Char) :=
  generatedLine.toList :: overwriteLine.toList :: p.map line

theorem toList_text_rows (p : Program) :
    (text .annotated (some p)).toList = (rows p).flatMap (· ++ ['\n']) := by
  rw [toList_text_annotated, rows, List.flatMap_cons, List.flatMap_cons]
  simp [header, headerPieces]

theorem lineFeed_notMem_rows_iff {p : Program} :
    (∀ row ∈ rows p, '\n' ∉ row) ↔ ∀ i ∈ p, ¬i.BreaksLine := by
  have hgenerated : '\n' ∉ generatedLine.toList := by simp [generatedLine]
  have hoverwrite : '\n' ∉ overwriteLine.toList := by simp [overwriteLine]
  simp [rows, hgenerated, hoverwrite, lineFeed_mem_line_iff]

/-- An annotated listing is two lines and one for each instruction exactly if no
operand breaks its line, and a quoted one never does. The lines behind the header
are then those of the instructions in their order, each with its columns in place. -/
theorem annotated_lines (p : Program) :
    let text := (emitted .annotated (some p)).1.toList
    (text.count '\n' = 2 + p.length ↔ ∀ i ∈ p, ¬i.BreaksLine) ∧
      (∀ i : Instruction, i.opcode = .pushString ∨ i.opcode = .comment →
        (annotatedLine i).toList.count '\n' = 1) ∧
      ((∀ i ∈ p, ¬i.BreaksLine) → (text.splitOn '\n').length = 2 + p.length + 1 ∧
        ∀ k (hk : k < p.length), ∃ row, (text.splitOn '\n')[2 + k]? = some row ∧
          row ++ ['\n'] = (annotatedLine p[k]).toList ∧ Row p[k] row) := by
  intro text
  have htext : text = (rows p).flatMap (· ++ ['\n']) := by
    rw [← toList_text_rows]
    exact congrArg (fun outcome => outcome.1.toList) (emitted_eq .annotated (some p))
  have hlength : (rows p).length = 2 + p.length := by
    simp [rows]
    omega
  refine ⟨?_, fun i hi => count_annotatedLine_eq_one_iff.mpr (not_breaksLine_of_quoted hi), ?_⟩
  · rw [htext, ← hlength, Text.count_lines_eq_iff, lineFeed_notMem_rows_iff]
  · intro hp
    rw [htext, Text.splitOn_lines (lineFeed_notMem_rows_iff.mpr hp)]
    refine ⟨by rw [List.length_append, hlength]; rfl, fun k hk => ?_⟩
    refine ⟨line p[k], ?_, (toList_annotatedLine p[k]).symm, row_line p[k]⟩
    have hrow : (rows p)[2 + k]? = (p.map line)[k]? := by
      rw [rows, Nat.add_comm]
      rfl
    rw [List.getElem?_append_left (by omega), hrow, List.getElem?_map, List.getElem?_eq_getElem hk]
    rfl

/-- A comment with a line feed keeps its line, an unquoted text with one does not. -/
theorem annotated_lines_comment :
    let p : Program := [.comment "a\nb;", ⟨.nop, some (.str " ; ")⟩]
    let broken : Program := p ++ [.pushUnchecked (.str "a\nb")]
    ((∀ i ∈ p, ¬i.BreaksLine) ∧ (emitted .annotated (some p)).1.toList.count '\n' = 4 ∧
      ∃ row, ((emitted .annotated (some p)).1.toList.splitOn '\n')[3]? = some row ∧
        Row ⟨.nop, some (.str " ; ")⟩ row) ∧
      (emitted .annotated (some broken)).1.toList.count '\n' ≠ 5 := by
  intro p broken
  have hp : ∀ i ∈ p, ¬i.BreaksLine := by decide
  have hbroken : ¬∀ i ∈ broken, ¬i.BreaksLine := by decide
  obtain ⟨hcount, -, hrows⟩ := annotated_lines p
  obtain ⟨row, hrow, -, hcolumns⟩ := (hrows hp).2 1 (by decide)
  exact ⟨⟨hp, hcount.mpr hp, row, hrow, hcolumns⟩,
    fun hfive => hbroken ((annotated_lines broken).1.mp hfive)⟩

end Listing

end ActionCode
