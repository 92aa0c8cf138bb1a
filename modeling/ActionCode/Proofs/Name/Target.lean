import ActionCode.Name
import Mathlib.Data.List.Infix

namespace ActionCode

namespace Text

theorem splitLastPath_eq_none_iff {text : List Char} :
    splitLastPath text = none ↔ ¬[':', ':'] <:+: text := by
  fun_induction splitLastPath text with
  | case1 => simp
  | case2 c rest before after hs ih =>
    have hrest : [':', ':'] <:+: rest := by
      by_contra hrest
      simp [ih.mpr hrest] at hs
    simp [List.infix_cons hrest]
  | case3 after hs ih => simp [List.infix_cons_iff, List.cons_prefix_cons]
  | case4 c rest hs hne ih =>
    have hfront : ¬[':', ':'] <+: c :: rest := by
      rintro ⟨after, hafter⟩
      obtain ⟨rfl, rfl⟩ := List.cons.inj hafter
      exact hne after rfl rfl
    rw [List.infix_cons_iff, not_or]
    simp [hfront, ih.mp hs]

theorem eq_append_of_splitLastPath {text before after : List Char}
    (h : splitLastPath text = some (before, after)) :
    text = before ++ ':' :: ':' :: after ∧ ¬[':', ':'] <:+: ':' :: after := by
  fun_induction splitLastPath text generalizing before with
  | case1 => contradiction
  | case2 c rest left right hs ih =>
    obtain ⟨rfl, rfl⟩ := Prod.mk.inj (Option.some.inj h)
    obtain ⟨hrest, hafter⟩ := ih hs
    exact ⟨by rw [List.cons_append, ← hrest], hafter⟩
  | case3 right hs ih =>
    obtain ⟨rfl, rfl⟩ := Prod.mk.inj (Option.some.inj h)
    exact ⟨rfl, splitLastPath_eq_none_iff.mp hs⟩
  | case4 => contradiction

theorem splitLastPath_append (before : List Char) {after : List Char}
    (h : ¬[':', ':'] <:+: ':' :: after) :
    splitLastPath (before ++ ':' :: ':' :: after) = some (before, after) := by
  induction before with
  | nil =>
    have hs := splitLastPath_eq_none_iff.mpr h
    rw [List.nil_append, splitLastPath, hs]
  | cons c before ih =>
    simp only [List.cons_append, splitLastPath, ih]

/-- The last two colons of the last run separate, so the text behind them does
not go on with a colon. -/
theorem splitLastPath_eq_some_iff {text before after : List Char} :
    splitLastPath text = some (before, after) ↔
      text = before ++ ':' :: ':' :: after ∧ ¬[':', ':'] <:+: ':' :: after :=
  ⟨eq_append_of_splitLastPath, fun ⟨htext, hafter⟩ => htext ▸ splitLastPath_append before hafter⟩

end Text

namespace Name

/-- Whether the member can be told from the type in front of it: it holds no
`::` and does not begin with a colon. -/
def Separable (n : Name) : Prop :=
  ∀ member ∈ n.member?, ¬[':', ':'] <:+: member.toList ∧ member.toList.head? ≠ some ':'

instance (n : Name) : Decidable n.Separable :=
  match h : n.member? with
  | none => .isTrue fun member hm => by simp [h] at hm
  | some member =>
    decidable_of_iff (¬[':', ':'] <:+: member.toList ∧ member.toList.head? ≠ some ':')
      (by simp [Separable, h])

theorem not_path_colon_iff {text : List Char} :
    ¬[':', ':'] <:+: ':' :: text ↔ ¬[':', ':'] <:+: text ∧ text.head? ≠ some ':' := by
  rw [List.infix_cons_iff, not_or, List.cons_prefix_cons, and_comm]
  cases text with
  | nil => simp
  | cons c rest => simp [List.cons_prefix_cons, @eq_comm _ ':' c]

theorem splitTarget_of_no_path (full : String) {target : String}
    (hpath : ¬[':', ':'] <:+: target.toList) :
    splitTarget full target = .error (.missingMember full) := by
  rw [splitTarget, Text.splitLastPath_eq_none_iff.mpr hpath]

theorem splitTarget_join (full type : String) {member : String}
    (hlast : ¬[':', ':'] <:+: ':' :: member.toList) :
    splitTarget full (type ++ "::" ++ member) =
      if type = "" ∨ member = "" then .error (.emptyComponent full) else .ok (type, member) := by
  have hsplit := Text.splitLastPath_append type.toList hlast
  have htext : (type ++ "::" ++ member).toList = type.toList ++ ':' :: ':' :: member.toList := by
    simp
  rw [splitTarget, htext, hsplit]
  simp

theorem exists_join {target : String} (hpath : [':', ':'] <:+: target.toList) :
    ∃ type member, target = type ++ "::" ++ member ∧ ¬[':', ':'] <:+: ':' :: member.toList := by
  cases hsplit : Text.splitLastPath target.toList with
  | none => exact absurd hpath (Text.splitLastPath_eq_none_iff.mp hsplit)
  | some parts =>
    obtain ⟨left, right⟩ := parts
    obtain ⟨htext, hlast⟩ := Text.splitLastPath_eq_some_iff.mp hsplit
    refine ⟨String.ofList left, String.ofList right, ?_, by simpa using hlast⟩
    rw [← String.toList_inj]
    simp [htext]

theorem splitTarget_eq_ok_iff {full target type member : String} :
    splitTarget full target = .ok (type, member) ↔
      target = type ++ "::" ++ member ∧ (type ≠ "" ∧ member ≠ "") ∧
        ¬[':', ':'] <:+: member.toList ∧ member.toList.head? ≠ some ':' := by
  rw [← not_path_colon_iff]
  constructor
  · intro h
    by_cases hpath : [':', ':'] <:+: target.toList
    · obtain ⟨left, right, rfl, hlast⟩ := exists_join hpath
      rw [splitTarget_join full left hlast] at h
      split at h
      · contradiction
      · rename_i hne
        obtain ⟨rfl, rfl⟩ := Prod.mk.inj (Except.ok.inj h)
        exact ⟨rfl, not_or.mp hne, hlast⟩
    · rw [splitTarget_of_no_path full hpath] at h
      contradiction
  · rintro ⟨rfl, hne, hlast⟩
    rw [splitTarget_join full type hlast, if_neg (not_or.mpr hne)]

theorem map_splitTarget_eq_ok_iff {full target : String} {build : String → String → Name}
    {n : Name} :
    ((splitTarget full target).map fun (type, member) => build type member) = .ok n ↔
      ∃ type member, splitTarget full target = .ok (type, member) ∧ build type member = n := by
  cases splitTarget full target with
  | error error => simp [Except.map]
  | ok parts =>
    obtain ⟨type, member⟩ := parts
    simp [Except.map]

/-- A target is read as the one name that is shown so and can be told apart. -/
theorem ofTarget_eq_ok_iff {verb : Verb} {target : String} {n : Name} :
    ofTarget verb target = .ok n ↔
      n.verb = verb ∧ n.target = target ∧ n.WellFormed ∧ n.Separable := by
  cases verb with
  | get =>
    rw [ofTarget, map_splitTarget_eq_ok_iff]
    cases n with
    | getter type member =>
      simp [splitTarget_eq_ok_iff, Name.verb, Name.target, WellFormed, Separable, Name.type,
        member?, @eq_comm _ target]
    | setter type member => simp [Name.verb]
    | constructor type => simp [Name.verb]
  | set =>
    rw [ofTarget, map_splitTarget_eq_ok_iff]
    cases n with
    | getter type member => simp [Name.verb]
    | setter type member =>
      simp [splitTarget_eq_ok_iff, Name.verb, Name.target, WellFormed, Separable, Name.type,
        member?, @eq_comm _ target]
    | constructor type => simp [Name.verb]
  | new =>
    unfold ofTarget
    dsimp only
    cases n with
    | getter type member | setter type member =>
      split <;> simp [Name.verb]
    | constructor type =>
      split
      · rename_i hempty
        simp only [hempty, reduceCtorEq, Name.target, WellFormed, Name.type, false_iff]
        rintro ⟨-, rfl, ⟨hne, -⟩, -⟩
        exact hne rfl
      · rename_i hne
        simp only [Except.ok.injEq, constructor.injEq, Name.verb, Name.target, WellFormed,
          Name.type, Separable, member?, true_and]
        refine ⟨?_, ?_⟩
        · rintro rfl
          exact ⟨rfl, ⟨hne, by simp⟩, by simp⟩
        · rintro ⟨rfl, -, -⟩
          rfl

theorem target_eq_zero_iff {n : Name} : n.target = "0" ↔ n = .constructor "0" := by
  cases n with
  | getter type member | setter type member =>
    have htarget : type ++ "::" ++ member ≠ "0" := by
      intro h
      have hcolon : ':' ∈ (type ++ "::" ++ member).toList := by simp
      rw [h] at hcolon
      contradiction
    simp [Name.target, htarget]
  | constructor type => simp [Name.target]

theorem WellFormed.target_ne_empty {n : Name} (h : n.WellFormed) : n.target ≠ "" := by
  cases n with
  | getter type member | setter type member => simp [Name.target]
  | constructor type => exact h.1

end Name

end ActionCode
