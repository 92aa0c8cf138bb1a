import ActionCode.Text.Quoted
import Mathlib.Data.List.DropRight

namespace ActionCode.Text.Quoted

theorem notMem_encode {d : Char} (hd : d = '\n' ∨ d = '\r' ∨ d = '\t') (text : List Char) :
    d ∉ encode text := by
  have hescape : ∀ c, d ∉ escape c := by
    intro c
    unfold escape
    split <;> grind
  have hquote : d ≠ '"' := by
    rintro rfl
    revert hd
    decide
  simp [encode, hquote, hescape]

/-- What stands behind `front` is escaped: the backslashes that lead up to it are odd
in number, so that the last of them is not escaped itself. -/
def Escapes (front : List Char) : Prop :=
  (front.rtakeWhile (· = '\\')).length % 2 = 1

theorem not_escapes_nil : ¬Escapes [] := by
  simp [Escapes]

theorem escapes_concat {front : List Char} {c : Char} :
    Escapes (front ++ [c]) ↔ c = '\\' ∧ ¬Escapes front := by
  rw [Escapes, Escapes, List.rtakeWhile_concat]
  by_cases hc : c = '\\'
  · simp only [hc, decide_true, if_true, List.length_append, List.length_singleton, true_and]
    omega
  · simp [hc]

theorem escape_cases (c : Char) :
    (escape c = [c] ∧ c ≠ '"' ∧ c ≠ '\\') ∨ ∃ d, escape c = ['\\', d] := by
  unfold escape
  split
  · exact .inr ⟨'"', rfl⟩
  · exact .inr ⟨'\\', rfl⟩
  · exact .inr ⟨'n', rfl⟩
  · exact .inr ⟨'r', rfl⟩
  · exact .inr ⟨'t', rfl⟩
  · exact .inl ⟨rfl, by assumption, by assumption⟩

theorem not_escapes_escape {front : List Char} (h : ¬Escapes front) (c : Char) :
    ¬Escapes (front ++ escape c) := by
  obtain ⟨hplain, -, hbackslash⟩ | ⟨d, hpair⟩ := escape_cases c
  · rw [hplain, escapes_concat]
    exact fun hescapes => hbackslash hescapes.1
  · rw [hpair, List.append_cons, escapes_concat, escapes_concat]
    exact fun hescapes => hescapes.2 ⟨rfl, h⟩

theorem not_escapes_flatMap_escape {front : List Char} (h : ¬Escapes front) (text : List Char) :
    ¬Escapes (front ++ text.flatMap escape) := by
  induction text generalizing front with
  | nil => simpa using h
  | cons c text ih =>
    rw [List.flatMap_cons, ← List.append_assoc]
    exact ih (not_escapes_escape h c)

theorem escapes_of_flatMap_escape {front text before after : List Char} (h : ¬Escapes front)
    (hquote : text.flatMap escape = before ++ '"' :: after) : Escapes (front ++ before) := by
  induction text generalizing front before with
  | nil => simp at hquote
  | cons c text ih =>
    have hnext := not_escapes_escape h c
    rw [List.flatMap_cons] at hquote
    obtain ⟨hplain, hc, -⟩ | ⟨d, hpair⟩ := escape_cases c
    · rw [hplain] at hnext hquote
      cases before with
      | nil => exact absurd (List.cons.inj hquote).1 hc
      | cons b before =>
        simp only [List.cons_append, List.nil_append, List.cons.injEq] at hquote
        obtain ⟨rfl, hrest⟩ := hquote
        rw [List.append_cons]
        exact ih hnext hrest
    · rw [hpair] at hnext hquote
      -- A quote in this pair is its second character, right behind the backslash.
      match before, hquote with
      | [], hquote => exact absurd (List.cons.inj hquote).1 (by decide)
      | [b], hquote =>
        obtain ⟨rfl, -⟩ := List.cons.inj hquote
        exact escapes_concat.mpr ⟨rfl, h⟩
      | b :: b' :: before, hquote =>
        simp only [List.cons_append, List.nil_append, List.cons.injEq] at hquote
        obtain ⟨rfl, rfl, hrest⟩ := hquote
        rw [List.append_cons, List.append_cons, List.append_assoc front]
        exact ih hnext hrest

/-- The quotes of a literal that are not escaped are the first character and the last. -/
theorem not_escapes_iff_of_encode {text before after : List Char}
    (h : encode text = before ++ '"' :: after) : ¬Escapes before ↔ before = [] ∨ after = [] := by
  have hopen : ¬Escapes ['"'] := by simp [Escapes, List.rtakeWhile]
  cases before with
  | nil => simp [not_escapes_nil]
  | cons b before =>
    simp only [encode, List.cons_append, List.cons.injEq] at h
    obtain ⟨rfl, hbody⟩ := h
    obtain rfl | ⟨middle, last, rfl⟩ := List.eq_nil_or_concat' after
    · obtain ⟨rfl, -⟩ := List.append_inj' hbody rfl
      simpa using not_escapes_flatMap_escape hopen text
    · rw [← List.cons_append, ← List.append_assoc] at hbody
      have hescapes := escapes_of_flatMap_escape hopen (List.append_inj' hbody rfl).1
      simpa using hescapes

theorem decode_encode_append (text rest : List Char) :
    ∃ body, encode text ++ rest = '"' :: body ∧ decode body = some (text, rest) :=
  ⟨text.flatMap escape ++ '"' :: rest, by simp [encode], decode_flatMap_escape text rest⟩

theorem eq_of_encode_append_eq {text other more rest : List Char}
    (h : encode text ++ more = encode other ++ rest) : text = other ∧ more = rest := by
  obtain ⟨body, hbody, hdecode⟩ := decode_encode_append text more
  obtain ⟨body', hbody', hdecode'⟩ := decode_encode_append other rest
  rw [h, hbody'] at hbody
  obtain ⟨-, rfl⟩ := List.cons.inj hbody
  exact Prod.mk.inj (Option.some.inj (hdecode.symm.trans hdecode'))

end ActionCode.Text.Quoted
