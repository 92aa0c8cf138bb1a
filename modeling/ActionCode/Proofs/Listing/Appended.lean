import ActionCode.Proofs.Listing.Stream
import ActionCode.Proofs.Workspace.Sessions

namespace ActionCode.Listing

def ReadsBack (program? : Option Program) : Prop :=
  ∀ i ∈ program?.getD [], i.Delimited ∧ ∃ j, i.readBack = .ok j

instance : DecidablePred ReadsBack := fun program? =>
  decidable_of_iff (∀ i ∈ program?.getD [], i.Delimited ∧ i.readBack.isOk = true) <| by
    have hok : ∀ i : Instruction, i.readBack.isOk = true ↔ ∃ j, i.readBack = .ok j := by
      intro i
      cases i.readBack <;> simp [Except.isOk, Except.toBool]
    simp only [hok, ReadsBack]

theorem exists_mapM_readBack {p : Program} (h : ∀ i ∈ p, ∃ j, i.readBack = .ok j) :
    ∃ q, p.mapM Instruction.readBack = .ok q := by
  cases hback : p.mapM Instruction.readBack with
  | ok q => exact ⟨q, rfl⟩
  | error error =>
    obtain ⟨front, i, back, -, rfl, -, hi⟩ := exists_front_of_mapM_error hback
    obtain ⟨j, hj⟩ := h i (by simp)
    rw [hi] at hj
    contradiction

theorem ReadsBack.readUnits {program? : Option Program} (h : ReadsBack program?) :
    ∃ q, (program?.getD []).mapM Instruction.readBack = .ok q ∧
      read (emitted .compact program?).1 = .ok q ∧
      ∀ rest, readUnits ((text .compact program?).toList ++ rest) =
        (Listing.readUnits rest).map (q ++ ·) := by
  have hdelimited : ∀ i ∈ program?.getD [], i.Delimited := fun i hi => (h i hi).1
  obtain ⟨q, hq⟩ := exists_mapM_readBack fun i hi => (h i hi).2
  refine ⟨q, hq, ?_, fun rest => ?_⟩
  · rw [read_eq_ok_iff, readUnits_emitted, readUnits_stream_end hdelimited hq]
  · rw [toList_text_compact, List.append_assoc, (trivia_header _).readUnits,
      readUnits_stream hdelimited hq]

theorem exists_programs {emissions : List (Option Program)} (h : ∀ e ∈ emissions, ReadsBack e) :
    ∃ programs, emissions.mapM (fun e => read (emitted .compact e).1) = .ok programs ∧
      (emissions.flatMap (·.getD [])).mapM Instruction.readBack = .ok programs.flatten ∧
      readUnits (joined .compact emissions).toList = .ok programs.flatten := by
  induction emissions with
  | nil => exact ⟨[], rfl, rfl, readUnits_nil⟩
  | cons program? emissions ih =>
    obtain ⟨q, hback, hread, hunits⟩ := (h program? (by simp)).readUnits
    obtain ⟨programs, hreads, hbacks, hjoined⟩ := ih fun e he => h e (by simp [he])
    refine ⟨q :: programs, ?_, ?_, ?_⟩
    · rw [List.mapM_cons, hread, hreads]
      rfl
    · rw [List.flatMap_cons, List.mapM_append, hback, hbacks]
      rfl
    · rw [joined_cons, String.toList_append, hunits, hjoined]
      rfl

theorem read_emitted_of_empty {program? : Option Program} (h : program?.getD [] = []) :
    read (emitted .compact program?).1 = .ok [] := by
  rw [read_eq_ok_iff, readUnits_emitted, h, stream_nil, readUnits_nil]

/-- Listings that are put into one place one behind the other are read for all
they hold, in order. It makes no difference whether one emitter is used or
several, and no listing reaches into the one behind it. -/
theorem read_joined (emissions : List (Option Program)) (h : ∀ e ∈ emissions, ReadsBack e) :
    ∃ programs : List Program,
      emissions.mapM (fun e => read (emitted .compact e).1) = .ok programs ∧
      (emissions.flatMap (·.getD [])).mapM Instruction.readBack = .ok programs.flatten ∧
      (∀ e : Option Program, e.getD [] = [] → read (emitted .compact e).1 = .ok []) ∧
      read (joined .compact emissions) = .ok programs.flatten ∧
      (∀ (σ : Type) [KeepingSink σ] (e : Emitter σ),
        Outcome.Answers Emitter.step e (emissions.map fun p => .emit p .compact) (.ok .done) →
          KeepingSink.kept
              (Outcome.final Emitter.step e (emissions.map fun p => .emit p .compact)).sink =
            KeepingSink.kept e.sink ++ Text.bytes (joined .compact emissions)) ∧
      (∀ (w : Workspace) (path : String) (file : Place) (sessions : List Workspace.Session),
        sessions ≠ [] → sessions.flatMap Workspace.Session.emissions = emissions →
          w.folder.locate path = .ok file → w.Idle file →
            let requests := Workspace.Session.row path .compact sessions
            let w' := Outcome.final Workspace.step w requests
            Outcome.Answers Workspace.step w requests (.ok .done) ∧
              w'.folder.text? path = some (joined .compact emissions) ∧
                (w'.step (.read path)).answer = .ok (.program programs.flatten)) := by
  obtain ⟨programs, hreads, hbacks, hjoined⟩ := exists_programs h
  have hread : read (joined .compact emissions) = .ok programs.flatten :=
    read_eq_ok_iff.mpr hjoined
  refine ⟨programs, hreads, hbacks, fun _ => read_emitted_of_empty, hread,
    fun σ _ e => Emitter.kept_final, ?_⟩
  rintro w path file sessions hne rfl hlocate hidle
  obtain ⟨hanswers, htext⟩ := Workspace.row_stored hidle hlocate .compact hne
  exact ⟨hanswers, htext, by simp [Workspace.step, htext, hread, Except.map]⟩

theorem read_joined_sessions :
    let sessions : List Workspace.Session :=
      [.oneShot none, .held "slot" [some [⟨.pushUnchecked, some (.str "")⟩], some []] .close,
        .oneShot (some [⟨.pushString, some (.str "// \"")⟩]),
        .held "slot" [some [⟨.nop, some (.int 1)⟩, ⟨.pop, none⟩]] .drop]
    let emissions := sessions.flatMap Workspace.Session.emissions
    let w := Outcome.final Workspace.step .empty
      (Workspace.Session.row "list.ir" .compact sessions)
    let program : Program := [⟨.pushUnchecked, some (.str "")⟩,
      ⟨.pushString, some (.str "// \"")⟩, ⟨.nop, none⟩, ⟨.pop, some (.int 0)⟩]
    (∀ e ∈ emissions, ReadsBack e) ∧
      w.folder.text? "list.ir" = some (joined .compact emissions) ∧
      (w.step (.read "list.ir")).answer = .ok (.program program) := by
  intro sessions emissions w program
  have hemissions : ∀ e ∈ emissions, ReadsBack e := by decide
  obtain ⟨programs, -, hbacks, -, -, -, hsessions⟩ := read_joined emissions hemissions
  have hprogram : programs.flatten = program := Except.ok.inj (hbacks.symm.trans rfl)
  have hidle : Workspace.empty.Idle ⟨0, "list.ir"⟩ := by
    intro slot target htarget
    contradiction
  obtain ⟨-, htext, hanswer⟩ :=
    hsessions .empty "list.ir" ⟨0, "list.ir"⟩ sessions (by simp [sessions]) rfl rfl hidle
  rw [hprogram] at hanswer
  exact ⟨hemissions, htext, hanswer⟩

end ActionCode.Listing
