import ActionCode.Event
import ActionCode.Listing.Basic
import ActionCode.Sink.Basic

namespace ActionCode

/-- A sink in use. It is flushed when it is released, and not used after that. -/
structure Emitter (σ : Type) where
  sink : σ
  released : Bool

namespace Emitter

variable {σ : Type} [Sink σ]

/-- What one can ask of an emitter. After `finish` or `drop` there is nobody
left to ask. -/
inductive Request where
  | emit (program? : Option Program) (mode : Mode)
  | close
  | isClosed
  | finish
  | drop
  deriving DecidableEq

inductive Reply where
  | done
  | closed (closed : Bool)
  deriving DecidableEq, Repr

def ofSink (sink : σ) : Emitter σ :=
  ⟨sink, false⟩

def emittedEvent (program? : Option Program) (mode : Mode) : Event :=
  match program? with
  | none => .emittedHeader mode
  | some program => .emitted program.length mode

/-- Writes a listing. If the sink fails the emitter stays open, with what the
sink took until then. -/
def emit (e : Emitter σ) (program? : Option Program) (mode : Mode) :
    Outcome (Emitter σ) (Except EmitError Unit) :=
  if e.released then ⟨e, .error .closed, []⟩
  else
    match Sink.writeTexts e.sink (Listing.pieces mode program?) with
    | (sink, .ok ()) => ⟨⟨sink, false⟩, .ok (), [emittedEvent program? mode]⟩
    | (sink, .error message) => ⟨⟨sink, false⟩, .error (.io message), []⟩

/-- Flushes the sink and gives it back, even if the flush fails. -/
def release (e : Emitter σ) : Emitter σ × Except EmitError Unit :=
  match Sink.flush e.sink with
  | (sink, result) => (⟨sink, true⟩, result.mapError .io)

def close (e : Emitter σ) : Emitter σ × Except EmitError Unit :=
  if e.released then (e, .ok ()) else e.release

def finish (e : Emitter σ) : Emitter σ × Except EmitError Unit :=
  if e.released then (e, .error .closed) else e.release

/-- Closes the emitter where nobody takes an error: that becomes an event. -/
def drop (e : Emitter σ) : Outcome (Emitter σ) Unit :=
  match e.close with
  | (e, .ok ()) => ⟨e, (), []⟩
  | (e, .error error) => ⟨e, (), [.flushFailed error]⟩

def step (e : Emitter σ) : Request → Outcome (Emitter σ) (Except EmitError Reply)
  | .emit program? mode =>
    let outcome := e.emit program? mode
    ⟨outcome.state, outcome.answer.map fun _ => .done, outcome.events⟩
  | .close => ⟨e.close.1, e.close.2.map fun _ => .done, []⟩
  | .isClosed => ⟨e, .ok (.closed e.released), []⟩
  | .finish => ⟨e.finish.1, e.finish.2.map fun _ => .done, []⟩
  | .drop => ⟨e.drop.state, .ok .done, e.drop.events⟩

end Emitter

end ActionCode
