import ActionCode.Proofs.Registry.History

namespace ActionCode

inductive Registry.Notice where
  | registering
  | replacing
  | conflict
  | skipping
  | unregistered
  | clearing
  deriving DecidableEq

namespace Registry.Notice

def messages : Notice → List String
  | registering => ["registering action", "registering constructor"]
  | replacing =>
    ["action already registered, replacing callback",
      "constructor already registered, replacing callback"]
  | conflict => ["arity conflict on re-registration, keeping the larger value"]
  | skipping =>
    ["skipping registration with an empty type or member name",
      "skipping constructor registration with an empty type name"]
  | unregistered => ["unregistered action", "unregistered constructor"]
  | clearing => ["clearing action registry"]

def level : Notice → Level
  | registering | unregistered | clearing => .debug
  | replacing | conflict | skipping => .warn

end Registry.Notice

namespace Event

def notice? : Event → Option Registry.Notice
  | registeringAction .. | registeringConstructor _ => some .registering
  | replacingAction _ | replacingConstructor _ => some .replacing
  | arityConflict .. => some .conflict
  | skippingAction _ | skippingConstructor _ => some .skipping
  | unregisteredAction _ | unregisteredConstructor _ => some .unregistered
  | clearingRegistry _ => some .clearing
  | emittedHeader _ | emitted .. | openedTarget .. | flushFailed _ | unknownOpcode .. => none

theorem notice?_eq_some_iff (e : Event) (notice : Registry.Notice) :
    e.notice? = some notice ↔ e.message ∈ notice.messages ∧ e.level = notice.level := by
  cases e <;> cases notice <;>
    simp [notice?, message, level, Registry.Notice.messages, Registry.Notice.level]

structure Reports (e : Event) (notice : Registry.Notice) (k : Name) : Prop where
  notice? : e.notice? = some notice
  named : ("name", k.text) ∈ e.fields

end Event

namespace Registry

variable {κ : Type} {r : Registry κ} {k : Name} {change : Change κ} {g : Registration κ}

def notices (events : List Event) : List Notice :=
  events.filterMap Event.notice?

theorem notices_append (front back : List Event) :
    notices (front ++ back) = notices front ++ notices back :=
  List.filterMap_append

/-- What a log tells since the registry was last cleared. -/
def sinceClearing (log : List Event) : List Notice :=
  (notices log).rtakeWhile (· ≠ .clearing)

theorem sinceClearing_append {events : List Event} (h : .clearing ∉ notices events)
    (log : List Event) : sinceClearing (log ++ events) = sinceClearing log ++ notices events := by
  have hall : ∀ notice ∈ (notices events).reverse, (decide (notice ≠ .clearing)) = true := by
    intro notice hnotice
    rw [decide_eq_true_eq]
    rintro rfl
    exact h (List.mem_reverse.mp hnotice)
  rw [sinceClearing, sinceClearing, notices_append, List.rtakeWhile, List.rtakeWhile,
    List.reverse_append, List.takeWhile_append_of_pos hall, List.reverse_append,
    List.reverse_reverse]

theorem sinceClearing_concat_clearing (log : List Event) (actions : Nat) :
    sinceClearing (log ++ [.clearingRegistry actions]) = [] := by
  have hclearing : notices [.clearingRegistry actions] = [.clearing] := rfl
  rw [sinceClearing, notices_append, hclearing, List.rtakeWhile_concat]
  rfl

/-- What the two tables have to do with each other, and with the names that may be in
them. -/
structure Synced (r : Registry κ) : Prop where
  contains_of_arity? : ∀ {k : Name}, (r.arity? k).isSome = true → r.contains k = true
  wellFormed_of_contains : ∀ {k : Name}, r.contains k = true → k.WellFormed
  arity?_of_new : ∀ {k : Name}, k.verb = .new → r.arity? k = none

theorem synced_after (changes : List (Change κ)) : (after changes).Synced where
  contains_of_arity? h := ((isSome_arity?_after_iff changes _).mp h).1
  wellFormed_of_contains h := ((isSome_action?_after_iff changes _).mp h).1
  arity?_of_new hk := arity?_after_of_new hk changes

theorem Synced.arity?_of_not_contains (hs : r.Synced) (hk : r.contains k = false) :
    r.arity? k = none := by
  rw [← Option.not_isSome_iff_eq_none]
  intro hsome
  rw [hs.contains_of_arity? hsome] at hk
  contradiction

namespace Change

theorem step_of_registers? (h : change.registers? k = some g) :
    (∃ arity, g.arity? = some arity ∧ k.verb ≠ .new ∧
      ∀ r : Registry κ, r.step change = r.registerMember k arity g.action) ∨
    (g.arity? = none ∧ k.verb = .new ∧
      ∀ r : Registry κ, r.step change = r.registerConstructor k g.action) := by
  cases change <;> simp [registers?, name?, registration?] at h <;> obtain ⟨rfl, rfl⟩ := h
  case registerGetter arity action => exact .inl ⟨arity, rfl, by simp [Name.verb], fun r => rfl⟩
  case registerSetter arity action => exact .inl ⟨arity, rfl, by simp [Name.verb], fun r => rfl⟩
  case registerConstructor action => exact .inr ⟨rfl, rfl, fun r => rfl⟩

theorem step_of_removes (hname : change.name? = some k) (h : change.removes k = true) :
    (k.verb ≠ .new ∧ ∀ r : Registry κ, r.step change = r.unregisterMember k) ∨
    (k.verb = .new ∧ ∀ r : Registry κ, r.step change = r.unregisterConstructor k) := by
  cases change <;> simp [removes, name?, registration?] at h hname <;> subst hname
  case unregisterGetter => exact .inl ⟨by simp [Name.verb], fun r => rfl⟩
  case unregisterSetter => exact .inl ⟨by simp [Name.verb], fun r => rfl⟩
  case unregisterConstructor => exact .inr ⟨rfl, fun r => rfl⟩

theorem cases_name (change : Change κ) :
    (∃ k g, change.registers? k = some g) ∨
      (∃ k, change.name? = some k ∧ change.removes k = true) ∨ change = .clear := by
  cases change with
  | registerGetter type member arity action | registerSetter type member arity action =>
    exact .inl ⟨_, _, if_pos rfl⟩
  | registerConstructor type action => exact .inl ⟨_, _, if_pos rfl⟩
  | unregisterGetter type member | unregisterSetter type member =>
    exact .inr (.inl ⟨_, rfl, by simp [removes, name?, registration?]⟩)
  | unregisterConstructor type =>
    exact .inr (.inl ⟨_, rfl, by simp [removes, name?, registration?]⟩)
  | clear => exact .inr (.inr rfl)

end Change

def conflictEvents (r : Registry κ) (name : Name) (arity : Nat) : List Event :=
  match r.arity? name with
  | none => []
  | some existing =>
    if existing = arity then [] else [.arityConflict name existing arity (max existing arity)]

theorem mem_conflictEvents_iff {name : Name} {arity : Nat} {e : Event} :
    e ∈ r.conflictEvents name arity ↔ ∃ existing, r.arity? name = some existing ∧
      existing ≠ arity ∧ e = .arityConflict name existing arity (max existing arity) := by
  rw [conflictEvents]
  cases r.arity? name with
  | none => simp
  | some existing => by_cases h : existing = arity <;> simp [h]

theorem named_conflictEvents {arity : Nat} {e : Event} (he : e ∈ r.conflictEvents k arity) :
    ("name", k.text) ∈ e.fields := by
  obtain ⟨existing, -, -, rfl⟩ := mem_conflictEvents_iff.mp he
  exact List.mem_cons_self

/-- A registration tells that it comes, then what it finds in either table. -/
theorem step_of_wellFormed (h : change.registers? k = some g) (hk : k.WellFormed)
    (r : Registry κ) :
    ∃ entering replacing : Event,
      entering.Reports .registering k ∧ replacing.Reports .replacing k ∧
        (r.step change).events = entering ::
          ((if r.contains k = true then [replacing] else []) ++
            g.arity?.elim [] (r.conflictEvents k)) ∧
        (r.step change).state.actions = r.actions.insert k g.action := by
  obtain ⟨arity, hg, -, hstep⟩ | ⟨hg, -, hstep⟩ := Change.step_of_registers? h
  · refine ⟨.registeringAction k arity, .replacingAction k, ⟨rfl, List.mem_cons_self⟩,
      ⟨rfl, List.mem_cons_self⟩, ?_⟩
    rw [hstep, hg, registerMember, if_pos hk, Option.elim, conflictEvents, arity?]
    cases r.arities.find? k <;> exact ⟨rfl, rfl⟩
  · refine ⟨.registeringConstructor k, .replacingConstructor k, ⟨rfl, List.mem_cons_self⟩,
      ⟨rfl, List.mem_cons_self⟩, ?_⟩
    rw [hstep, hg, registerConstructor, if_pos hk, Option.elim, List.append_nil]
    exact ⟨rfl, rfl⟩

theorem step_of_not_wellFormed (h : change.registers? k = some g) (hk : ¬k.WellFormed)
    (r : Registry κ) :
    ∃ skipping : Event, skipping.Reports .skipping k ∧ r.step change = ⟨r, (), [skipping]⟩ := by
  obtain ⟨arity, -, -, hstep⟩ | ⟨-, -, hstep⟩ := Change.step_of_registers? h
  · exact ⟨.skippingAction k, ⟨rfl, List.mem_cons_self⟩, (hstep r).trans (if_neg hk)⟩
  · exact ⟨.skippingConstructor k, ⟨rfl, List.mem_cons_self⟩, (hstep r).trans (if_neg hk)⟩

theorem actions_of_registers? (h : change.registers? k = some g) (hk : k.WellFormed)
    (r : Registry κ) : (r.step change).state.actions = r.actions.insert k g.action := by
  obtain ⟨entering, replacing, -, -, -, hactions⟩ := step_of_wellFormed h hk r
  exact hactions

theorem state_of_not_wellFormed (h : change.registers? k = some g) (hk : ¬k.WellFormed)
    (r : Registry κ) : (r.step change).state = r := by
  obtain ⟨skipping, -, hstep⟩ := step_of_not_wellFormed h hk r
  rw [hstep]

theorem mem_events_of_registers? (h : change.registers? k = some g) {e : Event}
    (he : e ∈ (r.step change).events) :
    (∃ notice, notice ≠ .conflict ∧ e.Reports notice k) ∨
      (k.WellFormed ∧ ∃ arity, g.arity? = some arity ∧ e ∈ r.conflictEvents k arity) := by
  by_cases hk : k.WellFormed
  · obtain ⟨entering, replacing, hentering, hreplacing, hevents, -⟩ := step_of_wellFormed h hk r
    rw [hevents, List.mem_cons, List.mem_append] at he
    obtain rfl | he | he := he
    · exact .inl ⟨.registering, by decide, hentering⟩
    · split at he
      · obtain rfl := List.mem_singleton.mp he
        exact .inl ⟨.replacing, by decide, hreplacing⟩
      · contradiction
    · cases hg : g.arity? with
      | none =>
        rw [hg] at he
        contradiction
      | some arity =>
        rw [hg] at he
        exact .inr ⟨hk, arity, rfl, he⟩
  · obtain ⟨skipping, hskipping, hstep⟩ := step_of_not_wellFormed h hk r
    rw [hstep] at he
    obtain rfl := List.mem_singleton.mp he
    exact .inl ⟨.skipping, by decide, hskipping⟩

theorem named_of_registers? (h : change.registers? k = some g) {e : Event}
    (he : e ∈ (r.step change).events) : ("name", k.text) ∈ e.fields := by
  obtain ⟨notice, -, hreports⟩ | ⟨-, arity, -, he⟩ := mem_events_of_registers? h he
  · exact hreports.named
  · exact named_conflictEvents he

theorem mem_conflictEvents_of_registers? (h : change.registers? k = some g) {e : Event}
    (he : e ∈ (r.step change).events) (hconflict : e.notice? = some .conflict) :
    k.WellFormed ∧ ∃ arity, g.arity? = some arity ∧ e ∈ r.conflictEvents k arity := by
  obtain ⟨notice, hne, hreports⟩ | hconflicts := mem_events_of_registers? h he
  · exact absurd (Option.some.inj (hreports.notice?.symm.trans hconflict)) hne
  · exact hconflicts

def conflicts (r : Registry κ) (k : Name) (g : Registration κ) : Bool :=
  (r.arity? k).any fun existing => g.arity?.any (existing ≠ ·)

theorem conflicts_iff : r.conflicts k g = true ↔
    ∃ existing requested, r.arity? k = some existing ∧ g.arity? = some requested ∧
      existing ≠ requested := by
  simp [conflicts, Option.any_eq_true]

def registrationNotices (r : Registry κ) (k : Name) (g : Registration κ) : List Notice :=
  if k.WellFormed then
    .registering :: ((if r.contains k = true then [.replacing] else []) ++
      if r.conflicts k g = true then [.conflict] else [])
  else [.skipping]

theorem notices_conflictEvents (r : Registry κ) (k : Name) (g : Registration κ) :
    notices (g.arity?.elim [] (r.conflictEvents k)) =
      if r.conflicts k g = true then [.conflict] else [] := by
  rw [conflicts]
  cases g.arity? with
  | none => cases r.arity? k <;> rfl
  | some arity =>
    rw [Option.elim, conflictEvents]
    cases r.arity? k with
    | none => rfl
    | some existing => by_cases h : existing = arity <;> simp [h, notices, Event.notice?]

theorem notices_of_registers? (h : change.registers? k = some g) (r : Registry κ) :
    notices (r.step change).events = r.registrationNotices k g := by
  rw [registrationNotices]
  split
  · obtain ⟨entering, replacing, hentering, hreplacing, hevents, -⟩ :=
      step_of_wellFormed h ‹_› r
    rw [hevents, notices, List.filterMap_cons_some hentering.notice?, ← notices, notices_append,
      notices_conflictEvents]
    split <;> simp [notices, hreplacing.notice?]
  · obtain ⟨skipping, hskipping, hstep⟩ := step_of_not_wellFormed h ‹_› r
    rw [hstep, notices, List.filterMap_cons_some hskipping.notice?, List.filterMap_nil]

theorem mem_notices_iff_of_registers? (h : change.registers? k = some g) (r : Registry κ)
    {notice : Notice} :
    notice ∈ notices (r.step change).events ↔
      if k.WellFormed then
        notice = .registering ∨ (notice = .replacing ∧ r.contains k = true) ∨
          (notice = .conflict ∧ r.conflicts k g = true)
      else notice = .skipping := by
  rw [notices_of_registers? h, registrationNotices]
  split
  · cases r.contains k <;> cases r.conflicts k g <;> simp
  · exact List.mem_singleton

theorem actions_of_removes (hname : change.name? = some k) (h : change.removes k = true)
    (r : Registry κ) : (r.step change).state.actions = r.actions.erase k := by
  obtain ⟨-, hstep⟩ | ⟨-, hstep⟩ := Change.step_of_removes hname h <;> rw [hstep] <;> rfl

/-- A removal tells of itself if the name is there; an arity alone does not stand in
the registry. -/
theorem events_of_removes (hs : r.Synced) (hname : change.name? = some k)
    (h : change.removes k = true) :
    ∃ e : Event, e.Reports .unregistered k ∧
      (r.step change).events = if r.contains k = true then [e] else [] := by
  obtain ⟨-, hstep⟩ | ⟨-, hstep⟩ := Change.step_of_removes hname h
  · have hremoved : (r.actions.contains k || r.arities.contains k) = r.contains k := by
      cases hcontains : r.contains k with
      | true => rw [show r.actions.contains k = true from hcontains, Bool.true_or]
      | false =>
        have harity : r.arities.contains k = false :=
          congrArg Option.isSome (hs.arity?_of_not_contains hcontains)
        rw [show r.actions.contains k = false from hcontains, harity, Bool.false_or]
    exact ⟨.unregisteredAction k, ⟨rfl, List.mem_cons_self⟩, by
      rw [hstep, unregisterMember, hremoved]⟩
  · exact ⟨.unregisteredConstructor k, ⟨rfl, List.mem_cons_self⟩,
      by rw [hstep, unregisterConstructor, ← contains]⟩

theorem notices_of_removes (hs : r.Synced) (hname : change.name? = some k)
    (h : change.removes k = true) :
    notices (r.step change).events = if r.contains k = true then [.unregistered] else [] := by
  obtain ⟨e, he, hevents⟩ := events_of_removes hs hname h
  rw [hevents]
  split
  · exact List.filterMap_cons_some he.notice?
  · rfl

end Registry

end ActionCode
