import ActionCode.Registry.Basic

namespace ActionCode.Registry

variable {κ : Type} {r : Registry κ} {name k : Name}

theorem contains_eq (r : Registry κ) (k : Name) : r.contains k = (r.action? k).isSome := rfl

theorem mem_names_iff : k ∈ r.names ↔ (r.action? k).isSome :=
  r.actions.mem_keys_iff k

theorem names_nodup (r : Registry κ) : r.names.Nodup :=
  r.actions.nodup

theorem size_eq (r : Registry κ) : r.size = r.names.length := by
  simp [size, names, Table.size, Table.keys]

theorem call_congr {r' : Registry κ} (h : r'.action? k = r.action? k) : r'.call k = r.call k := by
  funext context
  rw [call, call, h]

@[simp] theorem action?_empty (k : Name) : (empty : Registry κ).action? k = none := rfl

@[simp] theorem arity?_empty (k : Name) : (empty : Registry κ).arity? k = none := rfl

theorem find?_insert {ν : Type} (t : Table Name ν) (name k : Name) (v : ν) :
    (t.insert name v).find? k = if k = name then some v else t.find? k := by
  by_cases hk : k = name
  · rw [if_pos hk, hk, Table.find?_insert_self]
  · rw [if_neg hk, Table.find?_insert_of_ne _ _ hk]

theorem find?_erase {ν : Type} (t : Table Name ν) (name k : Name) :
    (t.erase name).find? k = if k = name then none else t.find? k := by
  by_cases hk : k = name
  · rw [if_pos hk, hk, Table.find?_erase_self]
  · rw [if_neg hk, Table.find?_erase_of_ne _ hk]

theorem action?_registerMember (r : Registry κ) (name : Name) (arity : Nat) (action : Action κ)
    (k : Name) : (r.registerMember name arity action).state.action? k =
      if name.WellFormed ∧ k = name then some action else r.action? k := by
  unfold registerMember
  by_cases hwell : name.WellFormed
  · simp only [hwell, if_true, true_and]
    exact find?_insert ..
  · simp [hwell]

theorem arity?_registerMember (r : Registry κ) (name : Name) (arity : Nat) (action : Action κ)
    (k : Name) : (r.registerMember name arity action).state.arity? k =
      if name.WellFormed ∧ k = name then some (max ((r.arity? name).getD 0) arity)
      else r.arity? k := by
  unfold registerMember
  by_cases hwell : name.WellFormed
  · have hkept : ∀ n, (r.arities.insert name n).find? k =
        if k = name then some n else r.arity? k := fun n => find?_insert ..
    cases harity : r.arities.find? name with
    | none => simp [hwell, harity, arity?, hkept]
    | some existing => simp [hwell, harity, arity?, hkept]
  · simp [hwell]

theorem action?_registerConstructor (r : Registry κ) (name : Name) (action : Action κ) (k : Name) :
    (r.registerConstructor name action).state.action? k =
      if name.WellFormed ∧ k = name then some action else r.action? k := by
  unfold registerConstructor
  by_cases hwell : name.WellFormed
  · simp only [hwell, if_true, true_and]
    exact find?_insert ..
  · simp [hwell]

theorem arities_registerConstructor (r : Registry κ) (name : Name) (action : Action κ) :
    (r.registerConstructor name action).state.arities = r.arities := by
  unfold registerConstructor
  split <;> rfl

theorem action?_unregisterMember (r : Registry κ) (name k : Name) :
    (r.unregisterMember name).state.action? k = if k = name then none else r.action? k :=
  find?_erase ..

theorem arity?_unregisterMember (r : Registry κ) (name k : Name) :
    (r.unregisterMember name).state.arity? k = if k = name then none else r.arity? k :=
  find?_erase ..

theorem action?_unregisterConstructor (r : Registry κ) (name k : Name) :
    (r.unregisterConstructor name).state.action? k = if k = name then none else r.action? k :=
  find?_erase ..

end ActionCode.Registry
