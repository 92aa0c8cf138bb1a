import ActionCode.Proofs.Outcome
import ActionCode.Proofs.Registry.Change
import Mathlib.Data.List.DropRight

namespace ActionCode.Registry

variable {κ : Type}

/-- What a registration asks for; a constructor asks for no arity. -/
structure Registration (κ : Type) where
  arity? : Option Nat
  action : Action κ

namespace Change

def name? : Change κ → Option Name
  | .registerGetter type member _ _ | .unregisterGetter type member => some (.getter type member)
  | .registerSetter type member _ _ | .unregisterSetter type member => some (.setter type member)
  | .registerConstructor type _ | .unregisterConstructor type => some (.constructor type)
  | .clear => none

def registration? : Change κ → Option (Registration κ)
  | .registerGetter _ _ arity action | .registerSetter _ _ arity action => some ⟨some arity, action⟩
  | .registerConstructor _ action => some ⟨none, action⟩
  | .unregisterGetter .. | .unregisterSetter .. | .unregisterConstructor .. | .clear => none

def registers? (k : Name) (change : Change κ) : Option (Registration κ) :=
  if change.name? = some k then change.registration? else none

def removes (k : Name) (change : Change κ) : Bool :=
  change.registration?.isNone && change.name?.all (· = k)

theorem registers?_eq_some_iff {k : Name} {change : Change κ} {g : Registration κ} :
    change.registers? k = some g ↔ change.name? = some k ∧ change.registration? = some g := by
  rw [registers?]
  split <;> simp [*]

theorem arity?_of_registers? {k : Name} {change : Change κ} {g : Registration κ}
    (h : change.registers? k = some g) : g.arity?.isSome = true ↔ k.verb ≠ .new := by
  cases change <;> simp [registers?, name?, registration?] at h <;> obtain ⟨rfl, rfl⟩ := h <;>
    simp [Name.verb]

end Change

/-- The registrations of a name since it was last removed, alone or with all
others, oldest first. -/
def history (k : Name) (changes : List (Change κ)) : List (Registration κ) :=
  (changes.rtakeWhile fun change => !change.removes k).filterMap (Change.registers? k)

@[simp] theorem history_nil (k : Name) : history k ([] : List (Change κ)) = [] := rfl

theorem history_concat (k : Name) (changes : List (Change κ)) (change : Change κ) :
    history k (changes ++ [change]) =
      if change.removes k then [] else history k changes ++ (change.registers? k).toList := by
  rw [history, List.rtakeWhile_concat]
  cases hremoves : change.removes k with
  | true => simp
  | false =>
    cases hregisters : change.registers? k <;>
      simp [history, hregisters]

theorem arity?_of_mem_history {k : Name} {changes : List (Change κ)} {g : Registration κ}
    (h : g ∈ history k changes) : g.arity?.isSome = true ↔ k.verb ≠ .new := by
  obtain ⟨change, -, hchange⟩ := List.mem_filterMap.mp h
  exact Change.arity?_of_registers? hchange

def askedArities (k : Name) (changes : List (Change κ)) : List Nat :=
  (history k changes).filterMap Registration.arity?

theorem askedArities_eq_nil_iff {k : Name} {changes : List (Change κ)} :
    askedArities k changes = [] ↔ history k changes = [] ∨ k.verb = .new := by
  rw [askedArities, List.filterMap_eq_nil_iff]
  constructor
  · intro hnone
    cases hhistory : history k changes with
    | nil => exact .inl rfl
    | cons g rest =>
      have hg : g ∈ history k changes := by simp [hhistory]
      right
      by_contra hk
      simpa [hnone g hg] using (arity?_of_mem_history hg).mpr hk
  · rintro (hnil | hk) g hg
    · simp [hnil] at hg
    · simpa [hk] using arity?_of_mem_history hg

theorem askedArities_concat (k : Name) (changes : List (Change κ)) (change : Change κ) :
    askedArities k (changes ++ [change]) =
      if change.removes k then []
      else askedArities k changes ++ ((change.registers? k).bind Registration.arity?).toList := by
  rw [askedArities, history_concat]
  split
  · rfl
  · cases hregisters : change.registers? k with
    | none => simp [askedArities]
    | some g => cases harity : g.arity? <;> simp [askedArities, harity]

variable {r : Registry κ} {k : Name}

theorem action?_step (r : Registry κ) (change : Change κ) (k : Name) :
    (r.step change).state.action? k =
      if change.removes k then none
      else if k.WellFormed then ((change.registers? k).map Registration.action).or (r.action? k)
      else r.action? k := by
  cases change with
  | clear => simp [step, Change.removes, Change.registration?, Change.name?]
  | registerGetter type member arity action | registerSetter type member arity action =>
    simp only [step, action?_registerMember, Change.removes, Change.registration?,
      Change.registers?, Change.name?]
    grind
  | registerConstructor type action =>
    simp only [step, action?_registerConstructor, Change.removes, Change.registration?,
      Change.registers?, Change.name?]
    grind
  | unregisterGetter type member | unregisterSetter type member =>
    simp only [step, action?_unregisterMember, Change.removes, Change.registration?,
      Change.registers?, Change.name?]
    grind
  | unregisterConstructor type =>
    simp only [step, action?_unregisterConstructor, Change.removes, Change.registration?,
      Change.registers?, Change.name?]
    grind

theorem max?_toList_concat (known? : Option Nat) (n : Nat) :
    (known?.toList ++ [n]).max? = some (max (known?.getD 0) n) := by
  cases known? <;> simp [List.max?]

theorem max?_toList (known? : Option Nat) : known?.toList.max? = known? := by
  cases known? <;> rfl

theorem max?_append_toList (ns : List Nat) (n? : Option Nat) :
    (ns ++ n?.toList).max? = (ns.max?.toList ++ n?.toList).max? := by
  cases n? with
  | none => simp [max?_toList]
  | some n =>
    cases hmax : ns.max? with
    | none => simp [List.max?_eq_none_iff.mp hmax]
    | some greatest =>
      obtain ⟨hmem, hle⟩ := List.max?_eq_some_iff.mp hmax
      refine (List.max?_eq_some_iff.mpr ⟨?_, fun m hm => ?_⟩).trans
        (max?_toList_concat (some greatest) n).symm
      · grind
      · grind

theorem arity?_step (change : Change κ) (hnew : k.verb = .new → r.arity? k = none) :
    (r.step change).state.arity? k =
      if change.removes k then none
      else if k.WellFormed then
        ((r.arity? k).toList ++ ((change.registers? k).bind Registration.arity?).toList).max?
      else r.arity? k := by
  cases change with
  | clear => simp [step, Change.removes, Change.registration?, Change.name?]
  | registerGetter type member arity action | registerSetter type member arity action =>
    simp only [step, arity?_registerMember, Change.removes, Change.registration?, Change.registers?,
      Change.name?]
    grind [max?_toList_concat, max?_toList]
  | registerConstructor type action =>
    simp only [step, arity?, arities_registerConstructor, Change.removes, Change.registration?,
      Change.registers?, Change.name?]
    grind [max?_toList, arity?]
  | unregisterGetter type member | unregisterSetter type member =>
    simp only [step, arity?_unregisterMember, Change.removes, Change.registration?,
      Change.registers?, Change.name?]
    grind [max?_toList]
  | unregisterConstructor type =>
    simp only [step, unregisterConstructor, arity?, Change.removes, Change.registration?,
      Change.registers?, Change.name?]
    grind [max?_toList, arity?, Name.verb]

theorem arity?_step_of_new (hk : k.verb = .new) (hr : r.arity? k = none) (change : Change κ) :
    (r.step change).state.arity? k = none := by
  have hasks : (change.registers? k).bind Registration.arity? = none := by
    cases hregisters : change.registers? k with
    | none => rfl
    | some g => simpa [hk] using Change.arity?_of_registers? hregisters
  rw [arity?_step change fun _ => hr, hr, hasks]
  split
  · rfl
  · split <;> rfl

def after (changes : List (Change κ)) : Registry κ :=
  Outcome.final step empty changes

@[simp] theorem after_nil : after ([] : List (Change κ)) = empty := rfl

@[simp] theorem after_concat (changes : List (Change κ)) (change : Change κ) :
    after (changes ++ [change]) = ((after changes).step change).state := by
  rw [after, Outcome.final_append]
  rfl

theorem arity?_after_of_new (hk : k.verb = .new) (changes : List (Change κ)) :
    (after changes).arity? k = none := by
  induction changes using List.reverseRecOn with
  | nil => rfl
  | append_singleton changes change ih =>
    rw [after_concat]
    exact arity?_step_of_new hk ih change

theorem after_of_not_wellFormed (hk : ¬k.WellFormed) (changes : List (Change κ)) :
    (after changes).action? k = none ∧ (after changes).arity? k = none := by
  induction changes using List.reverseRecOn with
  | nil => exact ⟨rfl, rfl⟩
  | append_singleton changes change ih =>
    obtain ⟨haction, harity⟩ := ih
    rw [after_concat, action?_step, arity?_step change fun _ => harity]
    simp [hk, haction, harity]

/-- A name has the action of the last registration in its history. -/
theorem action?_after (hk : k.WellFormed) (changes : List (Change κ)) :
    (after changes).action? k = (history k changes).getLast?.map Registration.action := by
  induction changes using List.reverseRecOn with
  | nil => rfl
  | append_singleton changes change ih =>
    rw [after_concat, action?_step, history_concat, if_pos hk, ih]
    split
    · rfl
    · cases hregisters : change.registers? k <;> simp

/-- A name has the greatest arity that its history asks for. -/
theorem arity?_after (hk : k.WellFormed) (changes : List (Change κ)) :
    (after changes).arity? k = (askedArities k changes).max? := by
  induction changes using List.reverseRecOn with
  | nil => rfl
  | append_singleton changes change ih =>
    have hstep := arity?_step change fun hnew : k.verb = .new => arity?_after_of_new hnew changes
    rw [after_concat, hstep, if_pos hk, ih, askedArities_concat]
    split
    · rfl
    · exact (max?_append_toList _ _).symm

/-- What a change has to do with one name leaves the others as they are. -/
theorem step_frame {change : Change κ} {name : Name} (hname : change.name? = some name)
    (hk : k ≠ name) (hnew : k.verb = .new → r.arity? k = none) :
    (r.step change).state.action? k = r.action? k ∧
      (r.step change).state.arity? k = r.arity? k := by
  have hremoves : change.removes k = false := by simp [Change.removes, hname, hk.symm]
  have hregisters : change.registers? k = none := by simp [Change.registers?, hname, hk.symm]
  rw [action?_step, arity?_step change hnew, hremoves, hregisters]
  simp [max?_toList]

theorem isSome_action?_after_iff (changes : List (Change κ)) (k : Name) :
    ((after changes).action? k).isSome = true ↔ k.WellFormed ∧ history k changes ≠ [] := by
  by_cases hk : k.WellFormed
  · simp [action?_after hk, hk]
  · simp [(after_of_not_wellFormed hk changes).1, hk]

theorem isSome_arity?_after_iff (changes : List (Change κ)) (k : Name) :
    ((after changes).arity? k).isSome = true ↔
      ((after changes).action? k).isSome = true ∧ k.verb ≠ .new := by
  rw [isSome_action?_after_iff]
  by_cases hk : k.WellFormed
  · have hsome : ((after changes).arity? k).isSome = true ↔ askedArities k changes ≠ [] := by
      rw [arity?_after hk, ne_eq, ← List.max?_eq_none_iff, Option.isSome_iff_ne_none]
    rw [hsome, ne_eq, askedArities_eq_nil_iff, not_or]
    simp [hk]
  · simp [(after_of_not_wellFormed hk changes).2, hk]

/-- A registry tells of each name what the changes to it say, and a change to
one name is no change to another. -/
structure Reflects (r : Registry κ) (changes : List (Change κ)) : Prop where
  absent : ∀ k : Name, ¬k.WellFormed ∨ history k changes = [] →
    r.contains k = false ∧ r.action? k = none ∧ r.arity? k = none
  last : ∀ (k : Name) (g : Registration κ), k.WellFormed →
    (history k changes).getLast? = some g → r.contains k = true ∧ r.action? k = some g.action
  greatest : ∀ k : Name, k.WellFormed → history k changes ≠ [] → k.verb ≠ .new →
    ∃ n, r.arity? k = some n ∧ n ∈ askedArities k changes ∧ ∀ m ∈ askedArities k changes, m ≤ n
  no_arity : ∀ k : Name, k.verb = .new → r.arity? k = none
  nodup : r.names.Nodup
  mem_names : ∀ k : Name, k ∈ r.names ↔ k.WellFormed ∧ history k changes ≠ []
  size : r.size = r.names.length
  mem_arities : ∀ k : Name, k ∈ r.arities.keys ↔ k ∈ r.actions.keys ∧ k.verb ≠ .new
  frame : ∀ (change : Change κ) (name k : Name), change.name? = some name → k ≠ name →
    (r.step change).state.contains k = r.contains k ∧
      (r.step change).state.action? k = r.action? k ∧
      (r.step change).state.arity? k = r.arity? k ∧ (r.step change).state.call k = r.call k

theorem reflects_after (changes : List (Change κ)) : (after changes).Reflects changes where
  absent k h := by
    have hnone : (after changes).action? k = none := by
      rw [← Option.not_isSome_iff_eq_none, isSome_action?_after_iff, not_and_or, not_not]
      exact h
    have harity : (after changes).arity? k = none := by
      rw [← Option.not_isSome_iff_eq_none, isSome_arity?_after_iff, hnone]
      simp
    exact ⟨by rw [contains_eq, hnone]; rfl, hnone, harity⟩
  last k g hk hg := by
    have hsome : (after changes).action? k = some g.action := by rw [action?_after hk, hg]; rfl
    exact ⟨by rw [contains_eq, hsome]; rfl, hsome⟩
  greatest k hk hne hverb := by
    have hasked : askedArities k changes ≠ [] := by
      simp [askedArities_eq_nil_iff, hne, hverb]
    obtain ⟨n, hn⟩ := Option.ne_none_iff_exists'.mp (mt List.max?_eq_none_iff.mp hasked)
    exact ⟨n, (arity?_after hk changes).trans hn, List.max?_eq_some_iff.mp hn⟩
  no_arity k hk := arity?_after_of_new hk changes
  nodup := names_nodup _
  mem_names k := mem_names_iff.trans (isSome_action?_after_iff changes k)
  size := size_eq _
  mem_arities k := by
    rw [Table.mem_keys_iff, Table.mem_keys_iff]
    exact isSome_arity?_after_iff changes k
  frame change name k hname hk := by
    obtain ⟨haction, harity⟩ := step_frame hname hk fun hnew => arity?_after_of_new hnew changes
    exact ⟨by rw [contains_eq, contains_eq, haction], haction, harity, call_congr haction⟩

example (first second : Action Unit) :
    let r := after [.registerSetter "A" "b" 2 first, .registerSetter "A" "b" 1 second]
    r.arity? (.setter "A" "b") = some 2 ∧ r.action? (.setter "A" "b") = some second :=
  ⟨rfl, rfl⟩

end ActionCode.Registry
