import ActionCode.Text.Split

namespace ActionCode.Text

variable {p : Char → Bool}

theorem span_append {run rest : List Char} (hrun : ∀ c ∈ run, p c = true)
    (hrest : ∀ c ∈ rest.head?, p c = false) :
    (run ++ rest).takeWhile p = run ∧ (run ++ rest).dropWhile p = rest := by
  rw [List.takeWhile_append_of_pos hrun, List.dropWhile_append_of_pos hrun]
  cases rest with
  | nil => simp
  | cons c rest => simp [hrest c (by simp)]

theorem span_append_of_mem {text : List Char} {c : Char} (hmem : c ∈ text) (hc : p c = false)
    (more : List Char) :
    (text ++ more).takeWhile p = text.takeWhile p ∧
      (text ++ more).dropWhile p = text.dropWhile p ++ more ∧ text.dropWhile p ≠ [] := by
  induction text with
  | nil => contradiction
  | cons d text ih =>
    cases hd : p d with
    | false => simp [hd]
    | true =>
      have hcd : c ≠ d := by
        rintro rfl
        exact Bool.false_ne_true (hc.symm.trans hd)
      simpa [hd] using ih ((List.mem_cons.mp hmem).resolve_left hcd)

theorem of_mem_takeWhile {text : List Char} {c : Char} (hc : c ∈ text.takeWhile p) : p c = true :=
  List.all_eq_true.mp List.all_takeWhile c hc

theorem of_mem_head?_dropWhile {text : List Char} {c : Char} (hc : c ∈ (text.dropWhile p).head?) :
    p c = false := by
  have hnot := List.head?_dropWhile_not p text
  rwa [Option.mem_def.mp hc] at hnot

theorem takeWhile_eq_nil_iff {text : List Char} :
    text.takeWhile p = [] ↔ ∀ c ∈ text.head?, p c = false := by
  cases text with
  | nil => simp
  | cons c text => cases hc : p c <;> simp [hc]

theorem splitFirst_eq_none_iff {sep : Char} {text : List Char} :
    splitFirst sep text = none ↔ sep ∉ text := by
  induction text with
  | nil => simp [splitFirst]
  | cons c text ih =>
    by_cases hc : c = sep
    · simp [splitFirst, hc]
    · simp [splitFirst, hc, Ne.symm hc, ih]

/-- Lines are told by the text that they make up, each with its end. -/
theorem eq_of_lines_eq {lines others : List (List Char)} (h : ∀ line ∈ lines, '\n' ∉ line)
    (h' : ∀ line ∈ others, '\n' ∉ line)
    (heq : lines.flatMap (· ++ ['\n']) = others.flatMap (· ++ ['\n'])) : lines = others := by
  induction lines generalizing others with
  | nil =>
    cases others with
    | nil => rfl
    | cons other others => simp at heq
  | cons line lines ih =>
    cases others with
    | nil => simp at heq
    | cons other others =>
      simp only [List.flatMap_cons, List.append_assoc, List.singleton_append] at heq
      have hsplit := congrArg (splitFirst '\n') heq
      rw [splitFirst_append (h line (by simp)), splitFirst_append (h' other (by simp))] at hsplit
      obtain ⟨rfl, hrest⟩ := Prod.mk.inj (Option.some.inj hsplit)
      have hlines := ih (fun l hl => h l (by simp [hl])) (fun l hl => h' l (by simp [hl])) hrest
      rw [hlines]

end ActionCode.Text
