import ActionCode.Proofs.Listing.Grammar

namespace ActionCode.Listing

theorem skipTrivia_line (c : Char) (rest : List Char) :
    skipTrivia true (c :: rest) = skipTrivia (c ≠ '\n') rest := by
  rw [skipTrivia.eq_def]
  simp

theorem skipTrivia_comment {line : List Char} (hline : '\n' ∉ line) (rest : List Char) :
    skipTrivia true (line ++ '\n' :: rest) = skipTrivia false rest := by
  induction line with
  | nil => simpa using skipTrivia_line '\n' rest
  | cons c line ih =>
    rw [List.mem_cons, not_or] at hline
    have hc : c ≠ '\n' := Ne.symm hline.1
    rw [List.cons_append, skipTrivia_line, decide_eq_true hc]
    exact ih hline.2

theorem skipTrivia_lastComment {line : List Char} (hline : '\n' ∉ line) :
    skipTrivia true line = [] := by
  induction line with
  | nil => rw [skipTrivia]
  | cons c line ih =>
    rw [List.mem_cons, not_or] at hline
    have hc : c ≠ '\n' := Ne.symm hline.1
    rw [skipTrivia_line, decide_eq_true hc]
    exact ih hline.2

theorem skipTrivia_blank {c : Char} (hc : Blank c) (rest : List Char) :
    skipTrivia false (c :: rest) = skipTrivia false rest := by
  rw [skipTrivia.eq_def]
  simp [isBlank_iff.mpr hc]

theorem skipTrivia_slashes (rest : List Char) :
    skipTrivia false ('/' :: '/' :: rest) = skipTrivia true rest := by
  rw [skipTrivia.eq_def]
  simp [isBlank]

theorem skipTrivia_eq_self_iff {c : Char} {rest : List Char} :
    skipTrivia false (c :: rest) = c :: rest ↔ ¬Blank c ∧ ¬['/', '/'] <+: c :: rest := by
  rw [← isBlank_eq_false_iff]
  have hshorter : ∀ inComment (short : List Char), short.length < (c :: rest).length →
      skipTrivia inComment short ≠ c :: rest := by
    intro inComment short hlength heq
    have hle := length_skipTrivia_le inComment short
    rw [heq] at hle
    omega
  cases hblank : isBlank c with
  | true => simpa [skipTrivia_blank (isBlank_iff.mp hblank)] using hshorter false rest (by simp)
  | false =>
    by_cases hslashes : ['/', '/'] <+: c :: rest
    · obtain ⟨line, hline⟩ := hslashes
      have hcomment : skipTrivia false (c :: rest) = skipTrivia true line := by
        rw [← hline]
        exact skipTrivia_slashes line
      have hne := hshorter true line (by simp only [← hline, List.length_append]; simp)
      have hprefix : ['/', '/'] <+: c :: rest := ⟨line, hline⟩
      simp [hcomment, hne, hprefix]
    · have hself : skipTrivia false (c :: rest) = c :: rest := by
        rw [skipTrivia.eq_def]
        simp only [Bool.false_eq_true, if_false, hblank]
        split
        · rename_i line
          exact absurd ⟨line, rfl⟩ hslashes
        · rfl
      simp [hself, hslashes]

theorem Trivia.skip {skipped rest : List Char} (h : Trivia skipped rest) :
    skipTrivia false (skipped ++ rest) = skipTrivia false rest := by
  induction h with
  | none => rfl
  | blank hc h ih => rw [List.cons_append, skipTrivia_blank hc, ih]
  | comment hline h ih =>
    rw [List.cons_append, List.cons_append, skipTrivia_slashes, List.append_assoc,
      List.cons_append, skipTrivia_comment hline, ih]
  | lastComment hline =>
    rw [List.append_nil, skipTrivia_slashes, skipTrivia_lastComment hline, skipTrivia]

theorem Trivia.behind_slashes {c : Char} {skipped rest : List Char}
    (h : Trivia ((if c ≠ '\n' then ['/', '/'] else []) ++ skipped) rest) :
    Trivia ('/' :: '/' :: c :: skipped) rest := by
  by_cases hc : c = '\n'
  · subst hc
    exact @Trivia.comment [] _ _ (by simp) h
  · rw [if_pos hc, List.cons_append, List.cons_append, List.nil_append] at h
    cases h with
    | blank hb => exact absurd hb (by decide)
    | @comment line skipped _ hline h =>
      exact @Trivia.comment (c :: line) _ _ (by simp [hline, Ne.symm hc]) h
    | lastComment hline => exact .lastComment (by simp [hline, Ne.symm hc])

/-- What is skipped is trivia. Inside a comment it becomes that behind `//`. -/
theorem exists_trivia (inComment : Bool) (text : List Char) : ∃ skipped,
    text = skipped ++ skipTrivia inComment text ∧
      Trivia ((if inComment then ['/', '/'] else []) ++ skipped) (skipTrivia inComment text) := by
  fun_induction skipTrivia inComment text with
  | case1 inComment =>
    cases inComment with
    | false => exact ⟨[], rfl, .none⟩
    | true => exact ⟨[], rfl, .lastComment (by simp)⟩
  | case2 c rest ih =>
    obtain ⟨skipped, htext, htrivia⟩ := ih
    refine ⟨c :: skipped, by rw [List.cons_append, ← htext], ?_⟩
    exact Trivia.behind_slashes (by simpa using htrivia)
  | case3 inComment c rest hc hb ih =>
    obtain ⟨skipped, htext, htrivia⟩ := ih
    refine ⟨c :: skipped, by rw [List.cons_append, ← htext], ?_⟩
    rw [if_neg hc]
    exact .blank (isBlank_iff.mp hb) htrivia
  | case4 inComment hc line hb ih =>
    obtain ⟨skipped, htext, htrivia⟩ := ih
    refine ⟨'/' :: '/' :: skipped, by rw [List.cons_append, List.cons_append, ← htext], ?_⟩
    rw [if_neg hc]
    exact htrivia
  | case5 inComment c rest hc hb hne =>
    refine ⟨[], rfl, ?_⟩
    rw [if_neg hc]
    exact .none

theorem exists_trivia_skipTrivia (text : List Char) : ∃ skipped,
    text = skipped ++ skipTrivia false text ∧ Trivia skipped (skipTrivia false text) :=
  exists_trivia false text

end ActionCode.Listing
