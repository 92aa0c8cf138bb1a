import ActionCode.Proofs.Registry.Notice

namespace ActionCode

namespace Table

variable {κ ν : Type} [DecidableEq κ]

theorem keys_erase (t : Table κ ν) (k : κ) : (t.erase k).keys = t.keys.erase k := by
  rw [keys, keys, List.Nodup.erase_eq_filter t.nodup, erase, List.filter_map]
  congr 1
  apply List.filter_congr
  intro e _
  simp only [Function.comp_apply, bne, ne_eq, decide_not, beq_eq_decide]

theorem contains_iff_mem_keys {t : Table κ ν} {k : κ} : t.contains k = true ↔ k ∈ t.keys :=
  (t.mem_keys_iff k).symm

theorem size_erase (t : Table κ ν) (k : κ) :
    ((t.erase k).size : Int) = t.size - if t.contains k = true then 1 else 0 := by
  have hlength : ∀ t : Table κ ν, t.size = t.keys.length := fun t => by simp [size, keys]
  rw [hlength, hlength, keys_erase, List.length_erase]
  by_cases hk : k ∈ t.keys
  · have hpos := List.length_pos_of_mem hk
    rw [if_pos hk, if_pos (contains_iff_mem_keys.mpr hk)]
    omega
  · rw [if_neg hk, if_neg (mt contains_iff_mem_keys.mp hk)]
    omega

theorem size_insert (t : Table κ ν) (k : κ) (v : ν) :
    ((t.insert k v).size : Int) = t.size + 1 - if t.contains k = true then 1 else 0 := by
  have hinsert : (t.insert k v).size = (t.erase k).size + 1 := rfl
  have herase := t.size_erase k
  omega

theorem erase_of_not_contains {t : Table κ ν} {k : κ} (h : t.contains k = false) :
    t.erase k = t := by
  have hne : ∀ e ∈ t.entries, (decide (e.1 ≠ k)) = true := by
    intro e he
    rw [decide_eq_true_eq]
    rintro rfl
    have hmem : e.1 ∈ t.keys := List.mem_map_of_mem he
    rw [contains_iff_mem_keys.mpr hmem] at h
    contradiction
  have hentries : (t.erase k).entries = t.entries := List.filter_eq_self.mpr hne
  cases t
  simpa [erase] using hentries

end Table

namespace Registry

variable {κ : Type} {r : Registry κ} {k : Name} {change : Change κ} {g : Registration κ}

theorem state_of_not_contains (hs : r.Synced) (hname : change.name? = some k)
    (h : change.removes k = true) (hk : r.contains k = false) : (r.step change).state = r := by
  have hactions : r.actions.erase k = r.actions := Table.erase_of_not_contains hk
  obtain ⟨-, hstep⟩ | ⟨-, hstep⟩ := Change.step_of_removes hname h
  · have harity : r.arities.contains k = false :=
      congrArg Option.isSome (hs.arity?_of_not_contains hk)
    rw [hstep, unregisterMember, hactions, Table.erase_of_not_contains harity]
  · rw [hstep, unregisterConstructor, hactions]

/-- A change that is not clearing changes the size by what it tells. -/
theorem size_step (hs : r.Synced) (hclear : change ≠ .clear) :
    .clearing ∉ notices (r.step change).events ∧
      ((r.step change).state.size : Int) =
        r.size + (notices (r.step change).events).count .registering -
          (notices (r.step change).events).count .replacing -
          (notices (r.step change).events).count .unregistered := by
  obtain ⟨k, g, h⟩ | ⟨k, hname, h⟩ | rfl := change.cases_name
  · rw [notices_of_registers? h, registrationNotices]
    by_cases hk : k.WellFormed
    · have hsize := Table.size_insert r.actions k g.action
      rw [← actions_of_registers? h hk] at hsize
      have hcontains : r.actions.contains k = r.contains k := rfl
      rw [hcontains] at hsize
      rw [size, size, hsize]
      cases r.contains k <;> cases r.conflicts k g <;> simp [hk]
    · rw [state_of_not_wellFormed h hk]
      simp [hk]
  · have hsize := Table.size_erase r.actions k
    rw [← actions_of_removes hname h] at hsize
    have hcontains : r.actions.contains k = r.contains k := rfl
    rw [hcontains] at hsize
    rw [notices_of_removes hs hname h, size, size, hsize]
    cases r.contains k <;> simp
  · contradiction

/-- A log accounts for the size of a registry: since it was last cleared as many names
have come in as are there now, but for those that were there before or have left. -/
def Balanced (r : Registry κ) (log : List Event) : Prop :=
  (r.size : Int) = (sinceClearing log).count .registering - (sinceClearing log).count .replacing -
    (sinceClearing log).count .unregistered

theorem Balanced.step {log : List Event} (hb : r.Balanced log) (hs : r.Synced)
    (change : Change κ) : (r.step change).state.Balanced (log ++ (r.step change).events) := by
  by_cases hclear : change = .clear
  · subst hclear
    have hsince := sinceClearing_concat_clearing log r.actions.size
    rw [Balanced]
    simp only [Registry.step, hsince]
    rfl
  · obtain ⟨hclearing, hsize⟩ := size_step hs hclear
    rw [Balanced] at hb ⊢
    rw [sinceClearing_append hclearing, List.count_append, List.count_append, List.count_append,
      hsize, hb]
    push_cast
    omega

theorem balanced_after (changes : List (Change κ)) :
    (after changes).Balanced (Outcome.log Registry.step empty changes) := by
  induction changes using List.reverseRecOn with
  | nil => rfl
  | append_singleton changes change ih =>
    rw [after_concat, Outcome.log_concat]
    exact ih.step (synced_after changes) change

example (action : Action Unit) :
    let set arity := Change.registerSetter "A" "b" arity action
    sinceClearing (Outcome.log Registry.step empty [set 2, .clear, set 1, set 2]) =
      [.registering, .registering, .replacing, .conflict] :=
  rfl

theorem conflict_notMem_of_not_registers (hs : r.Synced) (h : ∀ k g, change.registers? k ≠ some g) :
    .conflict ∉ notices (r.step change).events := by
  obtain ⟨k, g, hregisters⟩ | ⟨k, hname, hremoves⟩ | rfl := change.cases_name
  · exact absurd hregisters (h k g)
  · rw [notices_of_removes hs hname hremoves]
    split <;> simp
  · simp [step, notices, Event.notice?]

/-- The numbers that a conflict tells are the arity on record, the one asked for, and
the greater of them, which is on record from then on. -/
theorem arities_of_conflict (hs : r.Synced) {name : Name} {existing requested kept : Nat}
    (h : .arityConflict name existing requested kept ∈ (r.step change).events) :
    ∃ g, change.registers? name = some g ∧ r.arity? name = some existing ∧
      g.arity? = some requested ∧ (r.step change).state.arity? name = some kept ∧
      kept = max existing requested := by
  -- The event has its own name, which turns out to be the one of the change.
  by_cases hchange : ∃ k g, change.registers? k = some g
  · obtain ⟨k, g, hregisters⟩ := hchange
    obtain ⟨hk, arity, hg, he⟩ := mem_conflictEvents_of_registers? hregisters h rfl
    obtain ⟨known, hknown, -, heq⟩ := mem_conflictEvents_iff.mp he
    obtain ⟨rfl, rfl, rfl, rfl⟩ := Event.arityConflict.inj heq
    have hremoves : change.removes name = false := by
      simp [Change.removes, (Change.registers?_eq_some_iff.mp hregisters).2]
    have harity := arity?_step change (hs.arity?_of_new (k := name))
    rw [hremoves, if_neg Bool.false_ne_true, if_pos hk, hknown, hregisters, Option.bind_some, hg,
      Option.toList_some, Option.toList_some, List.singleton_append] at harity
    exact ⟨g, hregisters, hknown, hg, harity, rfl⟩
  · have hnotice : .conflict ∈ notices (r.step change).events :=
      List.mem_filterMap.mpr ⟨_, h, rfl⟩
    exact absurd hnotice (conflict_notMem_of_not_registers hs fun k g hk => hchange ⟨k, g, hk⟩)

/-- What the events of a change tell of the registry before and after it. -/
structure Tells (r : Registry κ) (change : Change κ) (events : List Event) (r' : Registry κ) :
    Prop where
  replacing_iff : ∀ (k : Name) (g : Registration κ), change.registers? k = some g →
    (.replacing ∈ notices events ↔ r.contains k = true)
  conflict_iff : ∀ (k : Name) (g : Registration κ), change.registers? k = some g →
    (.conflict ∈ notices events ↔ k.verb ≠ .new ∧ r.contains k = true ∧
      ∃ existing requested, r.arity? k = some existing ∧ g.arity? = some requested ∧
        existing ≠ requested)
  arities : ∀ (name : Name) (existing requested kept : Nat),
    .arityConflict name existing requested kept ∈ events →
      ∃ g, change.registers? name = some g ∧ r.arity? name = some existing ∧
        g.arity? = some requested ∧ r'.arity? name = some kept ∧ kept = max existing requested
  skipping_iff : ∀ (k : Name) (g : Registration κ), change.registers? k = some g →
    (.skipping ∈ notices events ↔ ¬k.WellFormed)
  skipping_alone : ∀ (k : Name) (g : Registration κ), change.registers? k = some g →
    ¬k.WellFormed → events.length = 1 ∧ r' = r
  unregistered_iff : ∀ k : Name, change.name? = some k → change.removes k = true →
    (events ≠ [] ↔ r' ≠ r) ∧ (events ≠ [] ↔ r.contains k = true) ∧
      ∀ e ∈ events, e.notice? = some .unregistered
  clearing_iff : ∀ actions, .clearingRegistry actions ∈ events ↔ change = .clear ∧ actions = r.size
  named : ∀ k : Name, change.name? = some k → ∀ e ∈ events, ("name", k.text) ∈ e.fields

theorem tells_step (hs : r.Synced) (change : Change κ) :
    r.Tells change (r.step change).events (r.step change).state where
  replacing_iff k g h := by
    rw [mem_notices_iff_of_registers? h]
    by_cases hk : k.WellFormed
    · simp [hk]
    · simpa [hk] using mt hs.wellFormed_of_contains hk
  conflict_iff k g h := by
    have hconflicts : r.conflicts k g = true ↔ k.verb ≠ .new ∧ r.contains k = true ∧
        ∃ existing requested, r.arity? k = some existing ∧ g.arity? = some requested ∧
          existing ≠ requested := by
      rw [conflicts_iff]
      constructor
      · rintro ⟨existing, requested, hexisting, hrequested, hne⟩
        exact ⟨(Change.arity?_of_registers? h).mp (by simp [hrequested]),
          hs.contains_of_arity? (by simp [hexisting]), existing, requested, hexisting, hrequested,
          hne⟩
      · exact fun hall => hall.2.2
    rw [mem_notices_iff_of_registers? h, ← hconflicts]
    by_cases hk : k.WellFormed
    · simp [hk]
    · have hcontains := mt hs.wellFormed_of_contains hk
      simp [hk, hconflicts, hcontains]
  arities name existing requested kept h := arities_of_conflict hs h
  skipping_iff k g h := by
    rw [mem_notices_iff_of_registers? h]
    by_cases hk : k.WellFormed <;> simp [hk]
  skipping_alone k g h hk := by
    obtain ⟨skipping, -, hstep⟩ := step_of_not_wellFormed h hk r
    rw [hstep]
    exact ⟨rfl, rfl⟩
  unregistered_iff k hname h := by
    obtain ⟨e, he, hevents⟩ := events_of_removes hs hname h
    cases hk : r.contains k with
    | true =>
      have hgone : (r.step change).state.contains k = false := by
        rw [contains, actions_of_removes hname h, Table.contains, Table.find?_erase_self]
        rfl
      have hne : (r.step change).state ≠ r := by
        intro hsame
        rw [hsame, hk] at hgone
        contradiction
      simp [hevents, hk, hne, he.notice?]
    | false => simp [hevents, hk, state_of_not_contains hs hname h hk]
  clearing_iff actions := by
    by_cases hclear : change = .clear
    · simp [hclear, step, size]
    · refine iff_of_false (fun h => ?_) (fun h => hclear h.1)
      exact (size_step hs hclear).1 (List.mem_filterMap.mpr ⟨_, h, rfl⟩)
  named k hname e he := by
    obtain ⟨k', g, h⟩ | ⟨k', hname', h⟩ | rfl := change.cases_name
    · obtain rfl := Option.some.inj (hname.symm.trans (Change.registers?_eq_some_iff.mp h).1)
      exact named_of_registers? h he
    · obtain rfl := Option.some.inj (hname.symm.trans hname')
      obtain ⟨e', he', hevents⟩ := events_of_removes hs hname h
      rw [hevents] at he
      split at he
      · rw [List.mem_singleton.mp he]
        exact he'.named
      · contradiction
    · contradiction

end Registry

end ActionCode
