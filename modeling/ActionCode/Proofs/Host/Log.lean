import ActionCode.Proofs.Host.History
import ActionCode.Proofs.Registry.Log

namespace ActionCode

namespace Host

theorem withHandle_events (h : Host) (handle : String)
    {act : Action Stack → Outcome Host (Except Error Reply)}
    (hact : ∀ action, (act action).events = []) : (h.withHandle handle act).events = [] := by
  rw [withHandle]
  cases h.handles.find? handle with
  | none => rfl
  | some action => exact hact action

theorem step_events (h : Host) (request : Request) :
    (h.step request).events =
      Outcome.log Registry.step h.registry (request.change? h.serial).toList := by
  cases request with
  | callText text =>
    simp only [step]
    split <;> rfl
  | save name handle =>
    simp only [step]
    split <;> rfl
  | callHandle handle => exact h.withHandle_events handle fun action => rfl
  | same a b => exact h.withHandle_events a fun left => h.withHandle_events b fun right => rfl
  | describeHandle handle => exact h.withHandle_events handle fun action => rfl
  | registerGetter | registerSetter | registerConstructor | unregisterGetter | unregisterSetter
  | unregisterConstructor | clear => exact (List.append_nil _).symm
  | _ => rfl

theorem log_registry (h : Host) (requests : List Request) :
    Outcome.log step h requests =
      Outcome.log Registry.step h.registry (changes h.serial requests) := by
  induction requests generalizing h with
  | nil => rfl
  | cons request rest ih =>
    obtain ⟨hregistry, hserial⟩ := h.step_registry request
    rw [Outcome.log_cons, ih, hregistry, hserial, changes, Outcome.log_append, step_events]

end Host

/-- The log of a registry tells how many names are in it: since it was last cleared as many
as it registered, but for those that it replaced or unregistered. What a change tells
holds of the registry before and after it. A host tells of the changes to its registry
and of nothing else. -/
theorem Registry.log_accounts :
    (∀ (e : Event) (notice : Notice),
      e.notice? = some notice ↔ e.message ∈ notice.messages ∧ e.level = notice.level) ∧
    (∀ (κ : Type) (changes : List (Change κ)), let r := after changes
      r.Balanced (Outcome.log Registry.step empty changes) ∧
        ∀ change, r.Tells change (r.step change).events (r.step change).state) ∧
    ∀ requests : List Host.Request, let h := Outcome.final Host.step .empty requests
      h.registry.Balanced (Outcome.log Host.step .empty requests) ∧
        ∀ request, match request.change? h.serial with
          | none => (h.step request).events = [] ∧ (h.step request).state.registry = h.registry
          | some change =>
            h.registry.Tells change (h.step request).events (h.step request).state.registry := by
  refine ⟨Event.notice?_eq_some_iff, fun κ changes => ⟨balanced_after changes,
    tells_step (synced_after changes)⟩, fun requests => ?_⟩
  intro h
  have hregistry : h.registry = after (Host.changes 0 requests) :=
    Host.final_registry .empty requests
  constructor
  · rw [hregistry, Host.log_registry]
    exact balanced_after _
  · intro request
    have hsynced : h.registry.Synced := hregistry ▸ synced_after _
    have hevents := h.step_events request
    have hstate := (h.step_registry request).1
    cases hchange : request.change? h.serial with
    | none =>
      rw [hchange] at hevents hstate
      exact ⟨hevents, hstate⟩
    | some change =>
      rw [hchange] at hevents hstate
      have hlog : (h.step request).events = (h.registry.step change).events :=
        hevents.trans (List.append_nil _)
      have hnext : (h.step request).state.registry = (h.registry.step change).state := hstate
      simp only [hlog, hnext]
      exact tells_step hsynced change

end ActionCode
