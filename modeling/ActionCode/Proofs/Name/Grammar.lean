import ActionCode.Proofs.Name.Text

namespace ActionCode.Name

/-- The texts that are names. A type may be any text but the empty one; where a
member follows it, the member holds no `::` and does not begin with a colon. -/
inductive Spelling : String → Name → Prop where
  | getter {type member : String} (htype : type ≠ "") (hmember : member ≠ "")
      (hpath : ¬[':', ':'] <:+: member.toList) (hcolon : member.toList.head? ≠ some ':') :
      Spelling ("get " ++ type ++ "::" ++ member) (.getter type member)
  | setter {type member : String} (htype : type ≠ "") (hmember : member ≠ "")
      (hpath : ¬[':', ':'] <:+: member.toList) (hcolon : member.toList.head? ≠ some ':') :
      Spelling ("set " ++ type ++ "::" ++ member) (.setter type member)
  | constructor {type : String} (htype : type ≠ "") : Spelling ("new " ++ type) (.constructor type)

/-- The texts that are no names, with what is wrong with each. A `::` is the last
one of a text if none is met from its second colon on. -/
inductive Refusal : String → NameError → Prop where
  | noSpace {text : String} (hspace : ' ' ∉ text.toList) : Refusal text (.missingVerb text)
  | noVerb {word rest : String} (hspace : ' ' ∉ word.toList)
      (hword : word ∉ ["get", "set", "new"]) :
      Refusal (word ++ " " ++ rest) (.unknownVerb word)
  | noType : Refusal "new " (.emptyComponent "new ")
  | noPath {word rest : String} (hword : word ∈ ["get", "set"])
      (hpath : ¬[':', ':'] <:+: rest.toList) :
      Refusal (word ++ " " ++ rest) (.missingMember (word ++ " " ++ rest))
  | emptyPart {word type member : String} (hword : word ∈ ["get", "set"])
      (hlast : ¬[':', ':'] <:+: ':' :: member.toList) (hempty : type = "" ∨ member = "") :
      Refusal (word ++ " " ++ (type ++ "::" ++ member))
        (.emptyComponent (word ++ " " ++ (type ++ "::" ++ member)))

theorem spelling_iff {text : String} {n : Name} :
    Spelling text n ↔ n.text = text ∧ n.WellFormed ∧ n.Separable := by
  constructor
  · intro h
    cases h with
    | getter htype hmember hpath hcolon | setter htype hmember hpath hcolon =>
      refine ⟨?_, ⟨htype, by simpa [member?] using hmember⟩, ?_⟩
      · simp [Name.text, verb, target, Verb.text, ← String.toList_inj]
      · simpa [Separable, member?] using ⟨hpath, hcolon⟩
    | constructor htype =>
      refine ⟨?_, ⟨htype, by simp [member?]⟩, by simp [Separable, member?]⟩
      simp [Name.text, verb, target, Verb.text]
  · rintro ⟨rfl, ⟨htype, hmember⟩, hseparable⟩
    cases n with
    | getter type member =>
      obtain ⟨hpath, hcolon⟩ := hseparable member rfl
      have h := Spelling.getter htype (by simpa [member?] using hmember) hpath hcolon
      simpa [Name.text, verb, target, Verb.text, Name.type, String.append_assoc] using h
    | setter type member =>
      obtain ⟨hpath, hcolon⟩ := hseparable member rfl
      have h := Spelling.setter htype (by simpa [member?] using hmember) hpath hcolon
      simpa [Name.text, verb, target, Verb.text, Name.type, String.append_assoc] using h
    | constructor type =>
      have h := Spelling.constructor htype
      simpa [Name.text, verb, target, Verb.text, Name.type, String.append_assoc] using h

theorem ofTarget_of_member {verb : Verb} (hverb : verb ≠ .new) (target : String) :
    ∃ build : String → String → Name, ofTarget verb target =
      (splitTarget (verb.text ++ " " ++ target) target).map fun (type, member) =>
        build type member := by
  cases verb with
  | get => exact ⟨.getter, rfl⟩
  | set => exact ⟨.setter, rfl⟩
  | new => contradiction

theorem refusal_of_ofTarget {verb : Verb} {target : String} {error : NameError}
    (h : ofTarget verb target = .error error) : Refusal (verb.text ++ " " ++ target) error := by
  by_cases hverb : verb = .new
  · subst hverb
    simp only [ofTarget] at h
    split at h
    · rename_i hempty
      obtain rfl := Except.error.inj h
      rw [hempty]
      exact .noType
    · contradiction
  · obtain ⟨build, hbuild⟩ := ofTarget_of_member hverb target
    have hword : verb.text ∈ ["get", "set"] := by
      cases verb with
      | get | set => simp [Verb.text]
      | new => contradiction
    rw [hbuild] at h
    by_cases hpath : [':', ':'] <:+: target.toList
    · obtain ⟨type, member, rfl, hlast⟩ := exists_join hpath
      rw [splitTarget_join _ _ hlast] at h
      split at h
      · rename_i hempty
        obtain rfl := Except.error.inj h
        exact .emptyPart hword hlast hempty
      · contradiction
    · rw [splitTarget_of_no_path _ hpath] at h
      obtain rfl := Except.error.inj h
      exact .noPath hword hpath

theorem exists_verb_of_mem {word : String} (hword : word ∈ ["get", "set"]) :
    ∃ verb : Verb, verb ≠ .new ∧ word = verb.text := by
  obtain rfl | rfl : word = "get" ∨ word = "set" := by simpa using hword
  · exact ⟨.get, by decide, rfl⟩
  · exact ⟨.set, by decide, rfl⟩

theorem verbParse_eq_error_iff {word : String} {error : NameError} :
    Verb.parse word = .error error ↔ word ∉ ["get", "set", "new"] ∧ error = .unknownVerb word := by
  simp only [List.mem_cons, List.not_mem_nil, or_false, not_or]
  rw [Verb.parse]
  split
  · simp_all
  · split
    · simp_all
    · split
      · simp_all
      · simp_all [eq_comm]

theorem parse_of_refusal {text : String} {error : NameError} (h : Refusal text error) :
    parse text = .error error := by
  cases h with
  | noSpace hspace => exact parse_of_no_space hspace
  | noVerb hspace hword =>
    rw [parse_append hspace, verbParse_eq_error_iff.mpr ⟨hword, rfl⟩]
    rfl
  | noType => rfl
  | noPath hword hpath =>
    obtain ⟨verb, hverb, rfl⟩ := exists_verb_of_mem hword
    obtain ⟨build, hbuild⟩ := ofTarget_of_member hverb _
    rw [parse_join, hbuild, splitTarget_of_no_path _ hpath]
    rfl
  | emptyPart hword hlast hempty =>
    obtain ⟨verb, hverb, rfl⟩ := exists_verb_of_mem hword
    obtain ⟨build, hbuild⟩ := ofTarget_of_member hverb _
    rw [parse_join, hbuild, splitTarget_join _ _ hlast, if_pos hempty]
    rfl

theorem refusal_of_parse {text : String} {error : NameError} (h : parse text = .error error) :
    Refusal text error := by
  by_cases hspace : ' ' ∈ text.toList
  · obtain ⟨word, rest, rfl, hword⟩ := exists_append hspace
    rw [parse_append hword] at h
    cases hverb : Verb.parse word with
    | ok verb =>
      obtain rfl := verb_eq_of_parse hverb
      rw [hverb] at h
      exact refusal_of_ofTarget h
    | error cause =>
      rw [hverb] at h
      obtain ⟨hunknown, rfl⟩ := verbParse_eq_error_iff.mp hverb
      obtain rfl := Except.error.inj h
      exact .noVerb hword hunknown
  · rw [parse_of_no_space hspace] at h
    obtain rfl := Except.error.inj h
    exact .noSpace hspace

/-- A text is read as the name that it spells, and there is at most one; it shows
that name again. Every other text is refused for what is wrong with it: first of
all the verb that is missing or unknown, then what stands behind it. -/
theorem parse_classifies (text : String) :
    (∀ n, parse text = .ok n ↔ Spelling text n) ∧
      (∀ n, Spelling text n →
        n.text = text ∧ n.WellFormed ∧ ∀ m, Spelling text m → m = n) ∧
      ∀ error, parse text = .error error ↔ Refusal text error := by
  have hparse : ∀ n, parse text = .ok n ↔ Spelling text n := fun n =>
    parse_eq_ok_iff.trans spelling_iff.symm
  refine ⟨hparse, fun n hn => ?_, fun error => ⟨refusal_of_parse, parse_of_refusal⟩⟩
  obtain ⟨htext, hwell, -⟩ := spelling_iff.mp hn
  refine ⟨htext, hwell, fun m hm => ?_⟩
  exact Except.ok.inj (((hparse m).mpr hm).symm.trans ((hparse n).mpr hn))

example : parse "get A b:::c d" = .ok (.getter "A b:" "c d") ∧
    parse "set ::A" = .error (.emptyComponent "set ::A") := by decide

end ActionCode.Name
