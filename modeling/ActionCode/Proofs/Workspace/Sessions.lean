import ActionCode.Proofs.Emitter.Keeping
import ActionCode.Proofs.Folder
import ActionCode.Workspace

namespace ActionCode

namespace Workspace

variable {w : Workspace} {file : Place} {path slot : String} {mode : Mode} {writeMode : WriteMode}

/-- Nothing is in use that still has to put something into the file. -/
def Idle (w : Workspace) (file : Place) : Prop :=
  ∀ slot target, w.slots.find? slot = some target → target.emitter.released = false →
    target.file ≠ file

/-- Only the emitter in one slot may still put something into the file. -/
def Alone (slots : Table String FileEmitter) (slot : String) (file : Place) : Prop :=
  ∀ other target, other ≠ slot → slots.find? other = some target →
    target.emitter.released = false → target.file ≠ file

theorem Alone.of_eq {slots slots' : Table String FileEmitter} (h : Alone slots slot file)
    (heq : ∀ other, other ≠ slot → slots'.find? other = slots.find? other) :
    Alone slots' slot file := by
  intro other target hother htarget
  rw [heq other hother] at htarget
  exact h other target hother htarget

theorem Alone.insert {slots : Table String FileEmitter} (h : Alone slots slot file)
    (target : FileEmitter) : Alone (slots.insert slot target) slot file :=
  h.of_eq fun _ hother => Table.find?_insert_of_ne _ _ hother

theorem Alone.erase {slots : Table String FileEmitter} (h : Alone slots slot file) :
    Alone (slots.erase slot) slot file :=
  h.of_eq fun _ hother => Table.find?_erase_of_ne _ hother

theorem Alone.idle (h : Alone w.slots slot file)
    (hslot : ∀ target ∈ w.slots.find? slot, target.emitter.released = true) : w.Idle file := by
  intro other target htarget hreleased
  by_cases hother : other = slot
  · rw [hslot target (hother ▸ htarget)] at hreleased
    contradiction
  · exact h other target hother htarget hreleased

structure Holds (w : Workspace) (slot : String) (file : Place) (writeMode : WriteMode)
    (old pending : List UInt8) : Prop where
  stored : w.folder.files.find? file = some old
  fresh : writeMode = .truncate → old = []
  held : w.slots.find? slot = some ⟨⟨⟨pending⟩, false⟩, file, writeMode⟩
  alone : Alone w.slots slot file

/-- Letting go of an emitter touches its own slot and its own file only. -/
theorem vacate_frame (hidle : w.Idle file) (slot : String) :
    (w.vacate slot).1.folder.files.find? file = w.folder.files.find? file ∧
      Alone (w.vacate slot).1.slots slot file := by
  have halone : Alone w.slots slot file := fun other target _ => hidle other target
  rw [vacate]
  cases htarget : w.slots.find? slot with
  | none => exact ⟨rfl, halone⟩
  | some target =>
    refine ⟨?_, halone.erase⟩
    dsimp only [Folder.settle]
    cases hreleased : target.emitter.released with
    | true => rfl
    | false =>
      split
      · exact Folder.find?_deposit_of_ne (hidle slot target htarget hreleased).symm _ _
      · rfl

theorem create_holds (hidle : w.Idle file) (hlocate : w.folder.locate path = .ok file)
    (slot : String) (writeMode : WriteMode) :
    (w.step (.create slot path writeMode)).answer = .ok .done ∧
      (w.step (.create slot path writeMode)).state.Holds slot file writeMode
        (writeMode.kept (w.folder.contents file)) [] := by
  have hidle' : Idle ⟨w.folder.prepare file writeMode, w.slots⟩ file := hidle
  obtain ⟨hfolder, halone⟩ := vacate_frame hidle' slot
  have hstep : w.step (.create slot path writeMode) =
      let vacated := vacate ⟨w.folder.prepare file writeMode, w.slots⟩ slot
      ⟨⟨vacated.1.folder, vacated.1.slots.insert slot ⟨.ofSink .empty, file, writeMode⟩⟩, .ok .done,
        .openedTarget path writeMode :: vacated.2⟩ := by
    simp [step, create, Folder.openEmitter, hlocate, Except.map]
  rw [hstep]
  refine ⟨rfl, ⟨?_, ?_, Table.find?_insert_self .., halone.insert _⟩⟩
  · exact hfolder.trans (Folder.find?_prepare ..)
  · rintro rfl
    rfl

variable {old pending : List UInt8}

theorem Holds.emit (h : w.Holds slot file writeMode old pending) (program? : Option Program)
    (mode : Mode) :
    (w.step (.ask slot (.emit program? mode))).answer = .ok .done ∧
      (w.step (.ask slot (.emit program? mode))).state.Holds slot file writeMode old
        (pending ++ Text.bytes (Listing.text mode program?)) := by
  have hstep : w.step (.ask slot (.emit program? mode)) =
      ⟨⟨w.folder, w.slots.insert slot
        ⟨⟨⟨pending ++ Text.bytes (Listing.text mode program?)⟩, false⟩, file, writeMode⟩⟩,
        .ok .done, [Emitter.emittedEvent program? mode]⟩ := by
    simp [step, Workspace.ask, h.held, Emitter.step, Emitter.emit, MemorySink.writeTexts_eq,
      Folder.settle, Except.map, Listing.text]
  rw [hstep]
  exact ⟨rfl, ⟨h.stored, h.fresh, Table.find?_insert_self .., h.alone.insert _⟩⟩

inductive Ending where
  | close
  | finish
  | drop

def Ending.request : Ending → Emitter.Request
  | .close => .close
  | .finish => .finish
  | .drop => .drop

theorem Holds.ended (h : w.Holds slot file writeMode old pending) (ending : Ending) :
    (w.step (.ask slot ending.request)).answer = .ok .done ∧
      (w.step (.ask slot ending.request)).state.Idle file ∧
      (w.step (.ask slot ending.request)).state.folder.files.find? file =
        some (old ++ pending) := by
  have hstored := Folder.find?_deposit h.stored h.fresh pending
  have herase : Idle ⟨w.folder.deposit file writeMode pending, w.slots.erase slot⟩ file :=
    h.alone.erase.idle (by simp)
  cases ending with
  | close =>
    -- A closed emitter keeps its slot, but has nothing more to put anywhere.
    have hclosed : Idle ⟨w.folder.deposit file writeMode pending,
        w.slots.insert slot ⟨⟨⟨pending⟩, true⟩, file, writeMode⟩⟩ file :=
      (h.alone.insert _).idle (by simp)
    simpa [Ending.request, step, Workspace.ask, h.held, Emitter.step, Emitter.close,
      Emitter.release, Sink.flush, Folder.settle, Except.map, hstored] using hclosed
  | finish =>
    simpa [Ending.request, step, Workspace.ask, h.held, Emitter.step, Emitter.finish,
      Emitter.release, Sink.flush, Folder.settle, Except.map, hstored] using herase
  | drop =>
    simpa [Ending.request, step, Workspace.ask, h.held, Emitter.step, Emitter.drop, Emitter.close,
      Emitter.release, Sink.flush, Folder.settle, Except.map, hstored] using herase

theorem emitToPath_stored (hidle : w.Idle file) (hlocate : w.folder.locate path = .ok file)
    (program? : Option Program) (options : Options) :
    (w.step (.emitToPath path program? options)).answer = .ok .done ∧
      (w.step (.emitToPath path program? options)).state.Idle file ∧
      (w.step (.emitToPath path program? options)).state.folder.files.find? file =
        some (options.writeMode.kept (w.folder.contents file) ++
          Text.bytes (Listing.text options.mode program?)) := by
  have hprepared := Folder.find?_prepare w.folder file options.writeMode
  have hfresh : options.writeMode = .truncate →
      options.writeMode.kept (w.folder.contents file) = [] := by
    intro h
    rw [h]
    rfl
  have hstored := Folder.find?_deposit hprepared hfresh
    (Text.bytes (Listing.text options.mode program?))
  have hstep : w.step (.emitToPath path program? options) =
      ⟨⟨(w.folder.prepare file options.writeMode).deposit file options.writeMode
        (Text.bytes (Listing.text options.mode program?)), w.slots⟩, .ok .done,
        [.openedTarget path options.writeMode, Emitter.emittedEvent program? options.mode]⟩ := by
    simp [step, Folder.emitToPath, Folder.openEmitter, hlocate, Emitter.emit, Emitter.ofSink,
      MemorySink.empty, MemorySink.writeTexts_eq, Emitter.close, Emitter.release, Sink.flush,
      Folder.settle, Except.map, Listing.text]
  rw [hstep]
  exact ⟨rfl, hidle, hstored⟩

/-- A use of a file from its opening on: one emission, or an emitter in a slot. -/
inductive Session where
  | oneShot (program? : Option Program)
  | held (slot : String) (emissions : List (Option Program)) (ending : Ending)

namespace Session

def emissions : Session → List (Option Program)
  | .oneShot program? => [program?]
  | .held _ emissions _ => emissions

def requests (path : String) (options : Options) : Session → List Request
  | .oneShot program? => [.emitToPath path program? options]
  | .held slot emissions ending =>
    .create slot path options.writeMode ::
      (emissions.map (fun program? => .ask slot (.emit program? options.mode)) ++
        [.ask slot ending.request])

/-- Sessions on one file, of which the first truncates it and the others append. -/
def row (path : String) (mode : Mode) : List Session → List Request
  | [] => []
  | first :: rest =>
    first.requests path ⟨mode, .truncate⟩ ++ rest.flatMap (requests path ⟨mode, .append⟩)

end Session

theorem Holds.emissions (h : w.Holds slot file writeMode old pending) (mode : Mode)
    (emissions : List (Option Program)) :
    Outcome.Answers step w (emissions.map fun program? => .ask slot (.emit program? mode))
        (.ok .done) ∧
      (Outcome.final step w (emissions.map fun program? => .ask slot (.emit program? mode))).Holds
        slot file writeMode old (pending ++ Text.bytes (Listing.joined mode emissions)) := by
  induction emissions generalizing w pending with
  | nil => simpa [Outcome.answers_nil] using h
  | cons program? emissions ih =>
    obtain ⟨hanswer, hnext⟩ := h.emit program? mode
    obtain ⟨hanswers, hfinal⟩ := ih hnext
    rw [List.append_assoc, ← Text.bytes_append, ← Listing.joined_cons] at hfinal
    exact ⟨Outcome.answers_cons_iff.mpr ⟨hanswer, hanswers⟩, hfinal⟩

theorem session_stored (hidle : w.Idle file) (hlocate : w.folder.locate path = .ok file)
    (session : Session) (options : Options) :
    Outcome.Answers step w (session.requests path options) (.ok .done) ∧
      (Outcome.final step w (session.requests path options)).Idle file ∧
      (Outcome.final step w (session.requests path options)).folder.files.find? file =
        some (options.writeMode.kept (w.folder.contents file) ++
          Text.bytes (Listing.joined options.mode session.emissions)) := by
  cases session with
  | oneShot program? =>
    obtain ⟨hanswer, hidle', hstored⟩ := emitToPath_stored hidle hlocate program? options
    refine ⟨Outcome.answers_cons_iff.mpr ⟨hanswer, Outcome.answers_nil⟩, hidle', ?_⟩
    simpa [Session.requests, Session.emissions] using hstored
  | held slot emissions ending =>
    obtain ⟨hcreate, hholds⟩ := create_holds hidle hlocate slot options.writeMode
    obtain ⟨hemit, hholds⟩ := hholds.emissions options.mode emissions
    obtain ⟨hend, hidle', hstored⟩ := hholds.ended ending
    rw [Session.requests, Outcome.final_cons, Outcome.final_append]
    refine ⟨?_, hidle', hstored⟩
    exact Outcome.answers_cons_iff.mpr ⟨hcreate, Outcome.answers_append_iff.mpr
      ⟨hemit, Outcome.answers_cons_iff.mpr ⟨hend, Outcome.answers_nil⟩⟩⟩

theorem appended_stored {stored : List UInt8} (hidle : w.Idle file)
    (hlocate : w.folder.locate path = .ok file) (hstored : w.folder.files.find? file = some stored)
    (mode : Mode) (sessions : List Session) :
    Outcome.Answers step w (sessions.flatMap (Session.requests path ⟨mode, .append⟩))
        (.ok .done) ∧
      (Outcome.final step w
          (sessions.flatMap (Session.requests path ⟨mode, .append⟩))).folder.files.find? file =
        some (stored ++
          Text.bytes (Listing.joined mode (sessions.flatMap Session.emissions))) := by
  induction sessions generalizing w stored with
  | nil => simpa [Outcome.answers_nil] using hstored
  | cons session sessions ih =>
    obtain ⟨hanswer, hidle', hstored'⟩ := session_stored hidle hlocate session ⟨mode, .append⟩
    have hcontents : w.folder.contents file = stored := by rw [Folder.contents, hstored]; rfl
    rw [hcontents] at hstored'
    obtain ⟨hanswers, hfinal⟩ := ih hidle' (Folder.locate_of_ok hlocate _) hstored'
    rw [List.flatMap_cons, List.flatMap_cons, Listing.joined_append, Text.bytes_append,
      Outcome.final_append, ← List.append_assoc]
    exact ⟨Outcome.answers_append_iff.mpr ⟨hanswer, hanswers⟩, hfinal⟩

/-- A row of sessions is met, and leaves nothing in the file but its listings. -/
theorem row_stored (hidle : w.Idle file) (hlocate : w.folder.locate path = .ok file) (mode : Mode)
    {sessions : List Session} (hne : sessions ≠ []) :
    Outcome.Answers step w (Session.row path mode sessions) (.ok .done) ∧
      (Outcome.final step w (Session.row path mode sessions)).folder.text? path =
        some (Listing.joined mode (sessions.flatMap Session.emissions)) := by
  obtain ⟨first, rest, rfl⟩ := List.exists_cons_of_ne_nil hne
  obtain ⟨hanswer, hidle', hstored⟩ := session_stored hidle hlocate first ⟨mode, .truncate⟩
  obtain ⟨hanswers, hfinal⟩ :=
    appended_stored hidle' (Folder.locate_of_ok hlocate _) hstored mode rest
  refine ⟨Outcome.answers_append_iff.mpr ⟨hanswer, hanswers⟩, ?_⟩
  rw [Session.row, Outcome.final_append, Folder.text?, Folder.locate_of_ok hlocate]
  dsimp only
  rw [hfinal, List.flatMap_cons, Listing.joined_append, WriteMode.kept, List.nil_append,
    ← Text.bytes_append, Option.bind_some, Text.ofBytes?_bytes]

end Workspace

end ActionCode
