import ActionCode.Proofs.Dispatcher.Basic

namespace ActionCode.Dispatcher

variable {κ : Type}

/-- The request that has made the action under a name, by the number of requests before
it, from the requests so far, the newest first. -/
def registered? (k : Name) : List (Request κ) → Option Nat
  | [] => none
  | .update change :: past =>
    if change.removes k then none
    else if k.WellFormed ∧ (change.registers? k).isSome then some past.length
    else registered? k past
  | _ :: past => registered? k past

/-- The request that has made the action in a handle. Saving takes over the action under
a name, if there is one. -/
def held? (handle : String) : List (Request κ) → Option Nat
  | [] => none
  | .make other _ :: past => if other = handle then some past.length else held? handle past
  | .save name other :: past =>
    if other = handle then (registered? name past).or (held? handle past) else held? handle past
  | _ :: past => held? handle past

def callbackAt? (run : List (Request κ)) (i : Nat) : Option (Callback κ) :=
  run[i]?.bind Request.callback?

/-- The action that a request of a run makes. Its serial number counts the actions made
before it. -/
def actionAt? (run : List (Request κ)) (i : Nat) : Option (Action κ) :=
  (callbackAt? run i).map (⟨(run.take i).countP Request.makesAction, ·⟩)

variable {run : List (Request κ)} {request : Request κ} {i j : Nat} {a b : Action κ}

theorem lt_length_of_actionAt? (h : actionAt? run i = some a) : i < run.length := by
  obtain ⟨callback, hcallback, -⟩ := Option.map_eq_some_iff.mp h
  obtain ⟨request, hrequest, -⟩ := Option.bind_eq_some_iff.mp hcallback
  exact (List.getElem?_eq_some_iff.mp hrequest).1

theorem callbackAt?_of_actionAt? (h : actionAt? run i = some a) :
    callbackAt? run i = some a.run := by
  obtain ⟨callback, hcallback, rfl⟩ := Option.map_eq_some_iff.mp h
  exact hcallback

theorem serial_of_actionAt? (h : actionAt? run i = some a) :
    a.serial = (run.take i).countP Request.makesAction := by
  obtain ⟨callback, -, rfl⟩ := Option.map_eq_some_iff.mp h
  rfl

theorem actionAt?_concat (h : actionAt? run i = some a) (request : Request κ) :
    actionAt? (run ++ [request]) i = some a := by
  have hlt := lt_length_of_actionAt? h
  rw [actionAt?, callbackAt?, List.getElem?_append_left hlt, List.take_append_of_le_length hlt.le]
  exact h

theorem actionAt?_append (h : actionAt? run i = some a) (later : List (Request κ)) :
    actionAt? (run ++ later) i = some a := by
  induction later using List.reverseRecOn with
  | nil => rwa [List.append_nil]
  | append_singleton later request ih =>
    rw [← List.append_assoc]
    exact actionAt?_concat ih request

theorem actionAt?_length {callback : Callback κ} (h : request.callback? = some callback)
    (run : List (Request κ)) : actionAt? (run ++ [request]) run.length =
      some ⟨run.countP Request.makesAction, callback⟩ := by
  simp [actionAt?, callbackAt?, h]

theorem serial_lt_of_lt (ha : actionAt? run i = some a) (hb : actionAt? run j = some b)
    (h : i < j) : a.serial < b.serial := by
  obtain ⟨request, hrequest, hcallback⟩ :=
    Option.bind_eq_some_iff.mp (callbackAt?_of_actionAt? ha)
  have hmakes : request.makesAction = true := Option.isSome_of_mem hcallback
  have hnext : (run.take (i + 1)).countP Request.makesAction =
      (run.take i).countP Request.makesAction + 1 := by
    rw [List.take_add_one, hrequest, List.countP_append]
    simp [hmakes]
  have hle : (run.take (i + 1)).countP Request.makesAction ≤
      (run.take j).countP Request.makesAction :=
    (List.take_sublist_take_left h).countP_le
  rw [serial_of_actionAt? ha, serial_of_actionAt? hb]
  omega

/-- Two actions are the same exactly if one request has made them. -/
theorem same_iff (ha : actionAt? run i = some a) (hb : actionAt? run j = some b) :
    a.same b = decide (i = j) := by
  obtain hlt | rfl | hlt := Nat.lt_trichotomy i j
  · have hserial := serial_lt_of_lt ha hb hlt
    rw [Action.same, decide_eq_false hlt.ne, decide_eq_false hserial.ne]
  · obtain rfl := Option.some.inj (ha.symm.trans hb)
    simp [Action.same]
  · have hserial := serial_lt_of_lt hb ha hlt
    rw [Action.same, decide_eq_false hlt.ne', decide_eq_false hserial.ne']

def Stands (run : List (Request κ)) : Option Nat → Option (Action κ) → Prop :=
  Option.Rel fun i a => actionAt? run i = some a

theorem stands_some (h : actionAt? run i = some a) : Stands run (some i) (some a) :=
  .some h

theorem Stands.concat {i? : Option Nat} {a? : Option (Action κ)} (h : Stands run i? a?)
    (request : Request κ) : Stands (run ++ [request]) i? a? := by
  cases h with
  | some h => exact .some (actionAt?_concat h request)
  | none => exact .none

theorem Stands.isSome_eq {i? : Option Nat} {a? : Option (Action κ)} (h : Stands run i? a?) :
    a?.isSome = i?.isSome := by
  cases h <;> rfl

theorem Stands.eq_none {a? : Option (Action κ)} (h : Stands run none a?) : a? = none := by
  cases h
  rfl

theorem Stands.exists_action {a? : Option (Action κ)} (h : Stands run (some i) a?) :
    ∃ a, a? = some a ∧ actionAt? run i = some a := by
  cases h with
  | some h => exact ⟨_, rfl, h⟩

structure Follows (d : Dispatcher κ) (run : List (Request κ)) : Prop where
  serial : d.serial = run.countP Request.makesAction
  registered : ∀ k, Stands run (registered? k run.reverse) (d.registry.action? k)
  held : ∀ handle, Stands run (held? handle run.reverse) (d.handles.find? handle)

theorem follows_start (context : κ) : (start context).Follows [] where
  serial := rfl
  registered _ := .none
  held _ := .none

theorem Follows.registered_update {d : Dispatcher κ} (hf : d.Follows run)
    (change : Registry.Change κ) (k : Name) :
    Stands (run ++ [Request.update change]) (registered? k (run ++ [Request.update change]).reverse)
      ((d.step (.update change)).state.registry.action? k) := by
  have hold := (hf.registered k).concat (.update change)
  rw [List.reverse_append, List.reverse_singleton, List.singleton_append, registered?,
    action?_update]
  by_cases hremoves : change.removes k = true
  · rw [if_pos hremoves, if_pos hremoves]
    exact .none
  · rw [if_neg hremoves, if_neg hremoves]
    by_cases hk : k.WellFormed
    · cases hregisters : change.registers? k with
      | none => simpa [hk] using hold
      | some g =>
        have hcallback : (Request.update change).callback? = some g.action.run := by
          rw [Request.callback?, (Registry.Change.registers?_eq_some_iff.mp hregisters).2]
          rfl
        have hnew := actionAt?_length hcallback run
        rw [← hf.serial] at hnew
        simpa [hk] using stands_some hnew
    · simpa [hk] using hold

theorem Follows.held_make {d : Dispatcher κ} (hf : d.Follows run) (other : String)
    (callback : Callback κ) (handle : String) :
    Stands (run ++ [Request.make other callback])
      (held? handle (run ++ [Request.make other callback]).reverse)
      ((d.step (.make other callback)).state.handles.find? handle) := by
  have hold := (hf.held handle).concat (.make other callback)
  have hcallback : (Request.make other callback).callback? = some callback := rfl
  have hnew := actionAt?_length hcallback run
  rw [← hf.serial] at hnew
  rw [List.reverse_append, List.reverse_singleton, List.singleton_append, held?, Dispatcher.step]
  by_cases hhandle : other = handle
  · subst hhandle
    simpa [Table.find?_insert_self] using stands_some hnew
  · simpa [hhandle, Table.find?_insert_of_ne _ _ (Ne.symm hhandle)] using hold

theorem Follows.held_save {d : Dispatcher κ} (hf : d.Follows run) (name : Name)
    (other handle : String) :
    Stands (run ++ [Request.save name other])
      (held? handle (run ++ [Request.save name other]).reverse)
      ((d.step (.save name other)).state.handles.find? handle) := by
  have hold := (hf.held handle).concat (.save name other)
  have hname := hf.registered name
  rw [List.reverse_append, List.reverse_singleton, List.singleton_append, held?, Dispatcher.step]
  cases horigin : registered? name run.reverse with
  | none =>
    rw [horigin] at hname
    simpa [hname.eq_none] using hold
  | some i =>
    rw [horigin] at hname
    obtain ⟨a, haction, ha⟩ := hname.exists_action
    have hsaved := actionAt?_concat ha (.save name other)
    by_cases hhandle : other = handle
    · subst hhandle
      simpa [haction, Table.find?_insert_self] using stands_some hsaved
    · simpa [haction, hhandle, Table.find?_insert_of_ne _ _ (Ne.symm hhandle)] using hold

theorem Follows.step {d : Dispatcher κ} (hf : d.Follows run) (request : Request κ) :
    (d.step request).state.Follows (run ++ [request]) where
  serial := by
    rw [serial_step, hf.serial, List.countP_append]
    cases hmakes : request.makesAction <;> simp [hmakes]
  registered k := by
    have hold := (hf.registered k).concat request
    cases request with
    | update change => exact hf.registered_update change k
    | save name handle =>
      simp only [Dispatcher.step, List.reverse_append, List.reverse_singleton,
        List.singleton_append, registered?]
      split <;> exact hold
    | make handle callback =>
      simpa [Dispatcher.step, registered?] using hold
    | call name =>
      simpa [Dispatcher.step, settle, registered?] using hold
    | callHandle handle =>
      obtain ⟨context, hstate⟩ := d.exists_context_of_usesActions (.callHandle handle) rfl
      simpa [hstate, registered?] using hold
    | same a b =>
      obtain ⟨context, hstate⟩ := d.exists_context_of_usesActions (.same a b) rfl
      simpa [hstate, registered?] using hold
  held handle := by
    have hold := (hf.held handle).concat request
    cases request with
    | update change => simpa [Dispatcher.step, held?] using hold
    | save name other => exact hf.held_save name other handle
    | make other callback => exact hf.held_make other callback handle
    | call name =>
      simpa [Dispatcher.step, settle, held?] using hold
    | callHandle other =>
      obtain ⟨context, hstate⟩ := d.exists_context_of_usesActions (.callHandle other) rfl
      simpa [hstate, held?] using hold
    | same a b =>
      obtain ⟨context, hstate⟩ := d.exists_context_of_usesActions (.same a b) rfl
      simpa [hstate, held?] using hold

theorem follows_after (context : κ) (run : List (Request κ)) : (after context run).Follows run := by
  induction run using List.reverseRecOn with
  | nil => exact follows_start context
  | append_singleton run request ih =>
    rw [after_concat]
    exact ih.step request

/-- What stands under a name or in a handle after a run from some context on is told by
the request that has made it, and by nothing that came after it. -/
structure Dispatches (context : κ) (run : List (Request κ)) (d : Dispatcher κ) : Prop where
  contains : ∀ k, d.registry.contains k = (registered? k run.reverse).isSome
  unregistered : ∀ k, registered? k run.reverse = none →
    (∀ c, d.registry.call k c = (c, .error (.notRegistered k))) ∧
      d.step (.call k) = ⟨d, .error (.action (.notRegistered k)), []⟩ ∧
      ∀ handle, d.step (.save k handle) = ⟨d, .ok (.flag false), []⟩
  registered : ∀ k i, registered? k run.reverse = some i →
    ∃ callback, callbackAt? run i = some callback ∧
      (∀ c, d.registry.call k c = callback c) ∧
      d.step (.call k) = d.settle (callback d.context)
  held : ∀ handle i, held? handle run.reverse = some i →
    ∃ callback, callbackAt? run i = some callback ∧
      d.step (.callHandle handle) = d.settle (callback d.context)
  as_saved : ∀ past later k handle i, run = past ++ later →
    registered? k past.reverse = some i → held? handle run.reverse = some i →
      d.step (.callHandle handle) = d.settle ((after context past).registry.call k d.context)
  same : ∀ first second i j, held? first run.reverse = some i →
    held? second run.reverse = some j →
      d.step (.same first second) = ⟨d, .ok (.flag (decide (i = j))), []⟩
  uses : ∀ request : Request κ, request.usesActions = true →
    ∃ c, (d.step request).state = { d with context := c }

section Follows

variable {d : Dispatcher κ}

theorem Follows.exists_registered (hf : d.Follows run) {k : Name}
    (h : registered? k run.reverse = some i) :
    ∃ a, d.registry.action? k = some a ∧ actionAt? run i = some a := by
  have hstands := hf.registered k
  rw [h] at hstands
  exact hstands.exists_action

theorem Follows.exists_held (hf : d.Follows run) {handle : String}
    (h : held? handle run.reverse = some i) :
    ∃ a, d.handles.find? handle = some a ∧ actionAt? run i = some a := by
  have hstands := hf.held handle
  rw [h] at hstands
  exact hstands.exists_action

theorem call_of_action? {k : Name} (h : d.registry.action? k = some a) (c : κ) :
    d.registry.call k c = a.run c := by
  rw [Registry.call, h]

theorem step_callHandle {handle : String} (h : d.handles.find? handle = some a) :
    d.step (.callHandle handle) = d.settle (a.run d.context) :=
  withHandle_of_find? h _

theorem step_same {first second : String} (ha : d.handles.find? first = some a)
    (hb : d.handles.find? second = some b) :
    d.step (.same first second) = ⟨d, .ok (.flag (a.same b)), []⟩ :=
  (withHandle_of_find? ha _).trans (withHandle_of_find? hb _)

end Follows

theorem dispatches_after (context : κ) (run : List (Request κ)) :
    Dispatches context run (after context run) where
  contains k := ((follows_after context run).registered k).isSome_eq
  unregistered k h := by
    have hstands := (follows_after context run).registered k
    rw [h] at hstands
    have hnone := hstands.eq_none
    have hcall : ∀ c, (after context run).registry.call k c = (c, .error (.notRegistered k)) := by
      intro c
      rw [Registry.call, hnone]
    refine ⟨hcall, ?_, fun handle => ?_⟩
    · rw [step, hcall]
      rfl
    · rw [step, hnone]
  registered k i h := by
    obtain ⟨a, haction, ha⟩ := (follows_after context run).exists_registered h
    have hcall := call_of_action? haction
    refine ⟨a.run, callbackAt?_of_actionAt? ha, hcall, ?_⟩
    rw [step, hcall]
  held handle i h := by
    obtain ⟨a, haction, ha⟩ := (follows_after context run).exists_held h
    exact ⟨a.run, callbackAt?_of_actionAt? ha, step_callHandle haction⟩
  as_saved past later k handle i hrun hpast hheld := by
    subst hrun
    obtain ⟨a, haction, ha⟩ := (follows_after context past).exists_registered hpast
    obtain ⟨b, hhandle, hb⟩ := (follows_after context (past ++ later)).exists_held hheld
    -- Both are what one request has made, and what comes later does not change that.
    obtain rfl := Option.some.inj ((actionAt?_append ha later).symm.trans hb)
    rw [step_callHandle hhandle, call_of_action? haction]
  same first second i j hfirst hsecond := by
    obtain ⟨a, hfind, ha⟩ := (follows_after context run).exists_held hfirst
    obtain ⟨b, hfind', hb⟩ := (follows_after context run).exists_held hsecond
    rw [step_same hfind hfind', same_iff ha hb]
  uses request h := (after context run).exists_context_of_usesActions request h

example (callback : Callback Unit) :
    let get := Registry.Change.registerGetter "A" "b" 1 ⟨0, callback⟩
    let run : List (Request Unit) :=
      [.update get, .save (.getter "A" "b") "first", .update get, .save (.getter "A" "b") "second",
        .update .clear]
    held? "first" run.reverse = some 0 ∧ held? "second" run.reverse = some 2 ∧
      registered? (.getter "A" "b") run.reverse = none :=
  ⟨rfl, rfl, rfl⟩

end ActionCode.Dispatcher
