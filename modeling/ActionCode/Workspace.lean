import ActionCode.Emitter.Memory
import ActionCode.Folder

namespace ActionCode

/-- An emitter whose listings go to a file. They stay in memory, however long they are, until
the emitter is released; a buffer of limited size would pass on what it has no room for while
the emitter is still open. -/
structure FileEmitter where
  emitter : Emitter MemorySink
  file : Place
  mode : WriteMode

structure Workspace where
  folder : Folder
  slots : Table String FileEmitter

namespace Folder

def openEmitter (folder : Folder) (path : String) (mode : WriteMode) :
    Outcome Folder (Except EmitError FileEmitter) :=
  match folder.locate path with
  | .error error => ⟨folder, .error (.io error.message), []⟩
  | .ok file =>
    ⟨folder.prepare file mode, .ok ⟨.ofSink .empty, file, mode⟩, [.openedTarget path mode]⟩

/-- Puts what an emitter holds into its file when it passes from open to
released. -/
def settle (folder : Folder) (before : FileEmitter) (after : Emitter MemorySink) : Folder :=
  if !before.emitter.released && after.released then
    folder.deposit before.file before.mode after.sink.taken
  else folder

def emitToPath (folder : Folder) (path : String) (program? : Option Program) (options : Options) :
    Outcome Folder (Except EmitError Unit) :=
  match folder.openEmitter path options.writeMode with
  | ⟨folder, .error error, events⟩ => ⟨folder, .error error, events⟩
  | ⟨folder, .ok target, events⟩ =>
    let written := target.emitter.emit program? options.mode
    match written.answer with
    | .ok () =>
      let (released, answer) := written.state.close
      ⟨folder.settle target released, answer, events ++ written.events⟩
    | .error error =>
      let dropped := written.state.drop
      ⟨folder.settle target dropped.state, .error error,
        events ++ written.events ++ dropped.events⟩

end Folder

namespace Workspace

inductive Request where
  | emitToPath (path : String) (program? : Option Program) (options : Options)
  | write (path text : String)
  | contents (path : String)
  | read (path : String)
  | create (slot path : String) (mode : WriteMode)
  | ask (slot : String) (request : Emitter.Request)
  deriving DecidableEq

inductive Reply where
  | done
  | closed (closed : Bool)
  | contents (text? : Option String)
  | program (program : Program)
  deriving DecidableEq

inductive Error where
  | emit (error : EmitError)
  | read (error : ReadError)
  | missing
  deriving DecidableEq, Repr

def empty : Workspace := ⟨.empty, .empty⟩

def vacate (w : Workspace) (slot : String) : Workspace × List Event :=
  match w.slots.find? slot with
  | none => (w, [])
  | some target =>
    let dropped := target.emitter.drop
    (⟨w.folder.settle target dropped.state, w.slots.erase slot⟩, dropped.events)

/-- Opens a file for the emitter in a slot. The new file is opened before an
emitter that is there already is let go. -/
def create (w : Workspace) (slot path : String) (mode : WriteMode) :
    Outcome Workspace (Except EmitError Unit) :=
  match w.folder.openEmitter path mode with
  | ⟨folder, .error error, events⟩ => ⟨⟨folder, w.slots⟩, .error error, events⟩
  | ⟨folder, .ok target, events⟩ =>
    let (w, dropped) := vacate ⟨folder, w.slots⟩ slot
    ⟨⟨w.folder, w.slots.insert slot target⟩, .ok (), events ++ dropped⟩

def ask (w : Workspace) (slot : String) (request : Emitter.Request) :
    Outcome Workspace (Except Error Reply) :=
  match w.slots.find? slot with
  | none => ⟨w, .error .missing, []⟩
  | some target =>
    let outcome := target.emitter.step request
    let folder := w.folder.settle target outcome.state
    let slots :=
      match request with
      | .finish | .drop => w.slots.erase slot
      | _ => w.slots.insert slot ⟨outcome.state, target.file, target.mode⟩
    let answer :=
      match outcome.answer with
      | .ok .done => .ok .done
      | .ok (.closed closed) => .ok (.closed closed)
      | .error error => .error (.emit error)
    ⟨⟨folder, slots⟩, answer, outcome.events⟩

def step (w : Workspace) : Request → Outcome Workspace (Except Error Reply)
  | .emitToPath path program? options =>
    let outcome := w.folder.emitToPath path program? options
    ⟨⟨outcome.state, w.slots⟩, (outcome.answer.map fun _ => .done).mapError .emit, outcome.events⟩
  | .write path text =>
    match w.folder.locate path with
    | .error _ => ⟨w, .error .missing, []⟩
    | .ok file => ⟨⟨⟨w.folder.files.insert file (Text.bytes text)⟩, w.slots⟩, .ok .done, []⟩
  | .contents path => ⟨w, .ok (.contents (w.folder.text? path)), []⟩
  | .read path =>
    match w.folder.text? path with
    | none => ⟨w, .error .missing, []⟩
    | some text =>
      ⟨w, ((Listing.read text).map .program).mapError .read, Listing.readEvents text⟩
  | .create slot path mode =>
    let outcome := w.create slot path mode
    ⟨outcome.state, (outcome.answer.map fun _ => .done).mapError .emit, outcome.events⟩
  | .ask slot request => w.ask slot request

end Workspace

end ActionCode
