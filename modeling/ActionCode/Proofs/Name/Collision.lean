import ActionCode.Proofs.Name.Grammar

namespace ActionCode.Name

/-- The text that a name shows tells its verb and its target apart. -/
theorem text_eq_iff {m n : Name} : m.text = n.text ↔ m.verb = n.verb ∧ m.target = n.target := by
  constructor
  · intro h
    have hsplit := congrArg (fun text => Text.splitFirst ' ' text.toList) h
    simp only [Name.text, splitFirst_text, Option.some.injEq, Prod.mk.injEq,
      String.toList_inj] at hsplit
    have hparse := congrArg Verb.parse hsplit.1
    simp only [Verb.parse_text, Except.ok.injEq] at hparse
    exact ⟨hparse, hsplit.2⟩
  · rintro ⟨hverb, htarget⟩
    rw [Name.text, Name.text, hverb, htarget]

theorem path_suffix_iff (type : List Char) {member : List Char} (hmember : member ≠ []) :
    [':', ':'] <:+ type ++ ':' :: ':' :: member ↔ [':', ':'] <:+ member ∨ member = [':'] := by
  have hsuffix : member <:+ type ++ ':' :: ':' :: member := ⟨type ++ [':', ':'], by simp⟩
  constructor
  · intro h
    cases member with
    | nil => contradiction
    | cons c rest =>
      cases rest with
      | nil =>
        have hc : [c] <:+ [':', ':'] := List.suffix_of_suffix_length_le hsuffix h (by simp)
        exact .inr (by simpa [List.suffix_cons_iff] using hc)
      | cons d rest => exact .inl (List.suffix_of_suffix_length_le h hsuffix (by simp))
  · rintro (h | rfl)
    · exact h.trans hsuffix
    · exact ⟨type ++ [':'], by simp⟩

/-- Of a joined text, the part in front of the last `::` is never empty, and the
part behind it is so only if the member ends with the colons. -/
theorem parts_of_join {type member left right : List Char}
    (h : type ++ ':' :: ':' :: member = left ++ ':' :: ':' :: right) (htype : type ≠ [])
    (hmember : member ≠ []) (hlast : ¬[':', ':'] <:+: ':' :: right) :
    left ≠ [] ∧ (right = [] ↔ [':', ':'] <:+ member ∨ member = [':']) := by
  constructor
  · rintro rfl
    obtain ⟨c, type, rfl⟩ := List.exists_cons_of_ne_nil htype
    obtain ⟨-, hrest⟩ := List.cons.inj h
    exact hlast ⟨type, member, by simpa using hrest⟩
  · rw [← path_suffix_iff type hmember, h]
    constructor
    · rintro rfl
      exact ⟨left, rfl⟩
    · intro hsuffix
      by_contra hright
      obtain hright | rfl := (path_suffix_iff left hright).mp hsuffix
      · exact hlast (hright.trans (List.suffix_cons ':' right)).isInfix
      · exact hlast (List.infix_refl _)

/-- Whether nothing is left behind the last `::` of a text that ends with `::` and
this member. -/
def EndsPath (member : String) : Prop :=
  [':', ':'] <:+ member.toList ∨ member = ":"

theorem splitTarget_of_ne_empty (full : String) {type member : String} (htype : type ≠ "")
    (hmember : member ≠ "") : ∃ left right, (right = "" ↔ EndsPath member) ∧
      splitTarget full (type ++ "::" ++ member) =
        if right = "" then .error (.emptyComponent full) else .ok (left, right) := by
  have hpath : [':', ':'] <:+: (type ++ "::" ++ member).toList :=
    ⟨type.toList, member.toList, by simp⟩
  obtain ⟨left, right, hjoin, hlast⟩ := exists_join hpath
  have hchars : type.toList ++ ':' :: ':' :: member.toList =
      left.toList ++ ':' :: ':' :: right.toList := by
    simpa using congrArg String.toList hjoin
  obtain ⟨hleft, hright⟩ := parts_of_join hchars (by simpa using htype) (by simpa using hmember)
    hlast
  refine ⟨left, right, ?_, ?_⟩
  · rw [← String.toList_eq_nil_iff, hright, EndsPath, ← String.toList_inj]
    rfl
  · have hne : left ≠ "" := by simpa using hleft
    rw [hjoin, splitTarget_join full left hlast]
    simp only [hne, false_or]

theorem ofTarget_of_ne_empty {verb : Verb} (hverb : verb ≠ .new) {type member : String}
    (htype : type ≠ "") (hmember : member ≠ "") :
    let target := type ++ "::" ++ member
    (EndsPath member ∧
        ofTarget verb target = .error (.emptyComponent (verb.text ++ " " ++ target))) ∨
      (¬EndsPath member ∧ ∃ m, ofTarget verb target = .ok m) := by
  intro target
  obtain ⟨build, hbuild⟩ := ofTarget_of_member hverb target
  obtain ⟨left, right, hright, hsplit⟩ :=
    splitTarget_of_ne_empty (verb.text ++ " " ++ target) htype hmember
  rw [hbuild, hsplit, ← hright]
  by_cases hempty : right = ""
  · left
    rw [if_pos hempty]
    exact ⟨hempty, rfl⟩
  · right
    rw [if_neg hempty]
    exact ⟨hempty, _, rfl⟩

theorem target_of_member {n : Name} {member : String} (h : n.member? = some member) :
    n.verb ≠ .new ∧ n.target = n.type ++ "::" ++ member := by
  cases n with
  | getter | setter =>
    obtain rfl := Option.some.inj h
    exact ⟨by simp [verb], rfl⟩
  | constructor => contradiction

theorem parse_text_of_wellFormed {n : Name} (hn : n.WellFormed) :
    ((∃ member ∈ n.member?, EndsPath member) ∧
        parse n.text = .error (.emptyComponent n.text)) ∨
      ((¬∃ member ∈ n.member?, EndsPath member) ∧ ∃ m, parse n.text = .ok m) := by
  cases hmember : n.member? with
  | none =>
    right
    refine ⟨by simp, n, parse_text_iff.mpr ⟨hn, ?_⟩⟩
    simp [Separable, hmember]
  | some member =>
    obtain ⟨hverb, htarget⟩ := target_of_member hmember
    have hne : member ≠ "" := by
      rintro rfl
      exact hn.2 hmember
    have hread := ofTarget_of_ne_empty hverb hn.1 hne
    rw [Name.text, parse_join, htarget]
    simpa using hread

/-- A name without empty parts is read from its text exactly if its member can be
told apart. If it cannot, the text is that of another name, parted at another
`::`, or of none, when the member ends with the last `::`. Names that can be told
apart are one name if and only if they have one text. -/
theorem parse_own_text (n : Name) :
    (parse n.text = .ok n ↔ n.WellFormed ∧ n.Separable) ∧
      (n.WellFormed →
        ((∃ m, parse n.text = .ok m ∧ m.WellFormed ∧ m.verb = n.verb ∧ m.text = n.text) ∨
          parse n.text = .error (.emptyComponent n.text)) ∧
        (parse n.text = .error (.emptyComponent n.text) ↔
          ∃ member ∈ n.member?, [':', ':'] <:+ member.toList ∨ member = ":")) ∧
      ∀ m : Name, n.WellFormed ∧ n.Separable → m.WellFormed ∧ m.Separable →
        (n = m ↔ n.text = m.text) := by
  refine ⟨parse_text_iff, fun hn => ?_, fun m hn hm => ?_⟩
  · obtain ⟨hends, herror⟩ | ⟨hends, m, hm⟩ := parse_text_of_wellFormed hn
    · exact ⟨.inr herror, iff_of_true herror hends⟩
    · obtain ⟨htext, hwell, -⟩ := parse_eq_ok_iff.mp hm
      refine ⟨.inl ⟨m, hm, hwell, (text_eq_iff.mp htext).1, htext⟩, ?_⟩
      exact iff_of_false (by simp [hm]) hends
  · exact ⟨congrArg Name.text, eq_of_text_eq hn hm⟩

example : (Name.getter "A" ":b").text = (Name.getter "A:" "b").text ∧
    parse (Name.getter "A" ":").text = .error (.emptyComponent "get A:::") := by decide

end ActionCode.Name
