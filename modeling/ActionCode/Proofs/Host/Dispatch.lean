import ActionCode.Proofs.Dispatcher.Origin
import ActionCode.Proofs.Host.History

namespace ActionCode

namespace Host

def dispatcher (h : Host) : Dispatcher Stack := ⟨h.registry, h.stack, h.handles, h.serial⟩

/-- What a request asks of the dispatcher. A script is one of the callbacks, and a text
that is no name asks for nothing. -/
def Request.task? : Request → Option (Dispatcher.Request Stack)
  | .call name => some (.call name)
  | .callText text =>
    match Name.parse text with
    | .error _ => none
    | .ok name => some (.call name)
  | .save name handle => some (.save name handle)
  | .make handle script => some (.make handle (Command.run script))
  | .callHandle handle => some (.callHandle handle)
  | .same a b => some (.same a b)
  | request => (request.change? 0).map .update

/-- The host does what the dispatcher does, and nothing besides. -/
theorem step_dispatcher (h : Host) (request : Request) :
    match request.task? with
    | none => (h.step request).state = h
    | some task =>
      h.dispatcher.step task =
        ⟨(h.step request).state.dispatcher, (h.step request).answer, (h.step request).events⟩ := by
  cases request with
  | callText text =>
    simp only [Request.task?, step]
    cases Name.parse text <;> rfl
  | save name handle =>
    simp only [Request.task?, step, Dispatcher.step]
    rw [dispatcher]
    cases h.registry.action? name <;> rfl
  | callHandle handle =>
    simp only [Request.task?, step, Dispatcher.step, Dispatcher.withHandle, withHandle]
    rw [dispatcher]
    cases h.handles.find? handle <;> rfl
  | same a b =>
    simp only [Request.task?, step, Dispatcher.step, Dispatcher.withHandle, withHandle]
    rw [dispatcher]
    cases h.handles.find? a with
    | none => rfl
    | some left => cases h.handles.find? b <;> rfl
  | describeHandle handle =>
    simp only [Request.task?, Request.change?, step, withHandle]
    cases h.handles.find? handle <;> rfl
  | _ => rfl

theorem final_dispatcher (h : Host) (requests : List Request) :
    (Outcome.final step h requests).dispatcher =
      Outcome.final Dispatcher.step h.dispatcher (requests.filterMap Request.task?) := by
  induction requests generalizing h with
  | nil => rfl
  | cons request rest ih =>
    have hstep := h.step_dispatcher request
    rw [Outcome.final_cons, ih]
    cases htask : request.task? with
    | none =>
      rw [htask] at hstep
      rw [List.filterMap_cons_none htask, hstep]
    | some task =>
      rw [htask] at hstep
      rw [List.filterMap_cons_some htask, Outcome.final_cons, hstep]

end Host

/-- Calls and handles run the actions of the requests that have made them, for callbacks
and contexts of any kind. A host is a dispatcher for its scripts. -/
theorem Dispatcher.dispatches :
    (∀ (κ : Type) (context : κ) (run : List (Request κ)),
      Dispatches context run (after context run)) ∧
    ∀ requests : List Host.Request, let h := Outcome.final Host.step .empty requests
      Dispatches [] (requests.filterMap Host.Request.task?) h.dispatcher ∧
        ∀ request : Host.Request, match request.task? with
          | none => (h.step request).state = h
          | some task =>
            h.dispatcher.step task = ⟨(h.step request).state.dispatcher, (h.step request).answer,
              (h.step request).events⟩ := by
  refine ⟨fun κ => dispatches_after, fun requests => ⟨?_, fun request => ?_⟩⟩
  · rw [Host.final_dispatcher]
    exact dispatches_after [] _
  · exact Host.step_dispatcher _ request

end ActionCode
