import ActionCode.Proofs.Name.Target
import ActionCode.Proofs.Text.Span

namespace ActionCode.Name

theorem verb_eq_of_parse {word : String} {verb : Verb} (h : Verb.parse word = .ok verb) :
    word = verb.text := by
  unfold Verb.parse at h
  split at h
  · obtain rfl := Except.ok.inj h
    assumption
  · split at h
    · obtain rfl := Except.ok.inj h
      assumption
    · split at h
      · obtain rfl := Except.ok.inj h
        assumption
      · contradiction

theorem space_notMem_verb (verb : Verb) : ' ' ∉ verb.text.toList := by
  cases verb <;> decide

theorem splitFirst_text (verb : Verb) (target : String) :
    Text.splitFirst ' ' (verb.text ++ " " ++ target).toList =
      some (verb.text.toList, target.toList) := by
  have hsplit := Text.splitFirst_append (space_notMem_verb verb) target.toList
  simpa using hsplit

theorem parse_of_no_space {text : String} (hspace : ' ' ∉ text.toList) :
    parse text = .error (.missingVerb text) := by
  rw [parse, Text.splitFirst_eq_none_iff.mpr hspace]

theorem parse_append {word : String} (hspace : ' ' ∉ word.toList) (rest : String) :
    parse (word ++ " " ++ rest) = (Verb.parse word).bind fun verb => ofTarget verb rest := by
  have hsplit := Text.splitFirst_append hspace rest.toList
  have htext : (word ++ " " ++ rest).toList = word.toList ++ ' ' :: rest.toList := by simp
  rw [parse, htext, hsplit]
  simp only [String.ofList_toList]
  rfl

theorem exists_append {text : String} (hspace : ' ' ∈ text.toList) :
    ∃ word rest, text = word ++ " " ++ rest ∧ ' ' ∉ word.toList := by
  cases hsplit : Text.splitFirst ' ' text.toList with
  | none => exact absurd hspace (Text.splitFirst_eq_none_iff.mp hsplit)
  | some parts =>
    obtain ⟨word, rest⟩ := parts
    obtain ⟨htext, hword⟩ := Text.eq_append_of_splitFirst hsplit
    refine ⟨String.ofList word, String.ofList rest, ?_, by simpa using hword⟩
    rw [← String.toList_inj]
    simp [htext]

theorem parse_join (verb : Verb) (target : String) :
    parse (verb.text ++ " " ++ target) = ofTarget verb target := by
  rw [parse_append (space_notMem_verb verb), Verb.parse_text]
  rfl

theorem parse_eq_ok_iff {text : String} {n : Name} :
    parse text = .ok n ↔ n.text = text ∧ n.WellFormed ∧ n.Separable := by
  constructor
  · intro h
    by_cases hspace : ' ' ∈ text.toList
    · obtain ⟨word, rest, rfl, hword⟩ := exists_append hspace
      rw [parse_append hword] at h
      cases hverb : Verb.parse word with
      | error cause =>
        rw [hverb] at h
        contradiction
      | ok verb =>
        rw [hverb] at h
        obtain rfl := verb_eq_of_parse hverb
        obtain ⟨rfl, rfl, hn⟩ := ofTarget_eq_ok_iff.mp h
        exact ⟨rfl, hn⟩
    · rw [parse_of_no_space hspace] at h
      contradiction
  · rintro ⟨rfl, hn⟩
    rw [Name.text, parse_join, ofTarget_eq_ok_iff]
    exact ⟨rfl, rfl, hn⟩

theorem parse_text_iff {n : Name} : parse n.text = .ok n ↔ n.WellFormed ∧ n.Separable := by
  simp [parse_eq_ok_iff]

theorem eq_of_text_eq {a b : Name} (ha : a.WellFormed ∧ a.Separable)
    (hb : b.WellFormed ∧ b.Separable) (h : a.text = b.text) : a = b :=
  Except.ok.inj ((parse_eq_ok_iff.mpr ⟨h, ha⟩).symm.trans (parse_eq_ok_iff.mpr ⟨rfl, hb⟩))

end ActionCode.Name
