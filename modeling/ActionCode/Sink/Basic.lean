import ActionCode.Text.Bytes

namespace ActionCode

inductive WriteResult where
  | accepted (count : Nat)
  | interrupted
  | failed (message : String)
  deriving DecidableEq, Repr

/-- A place that takes bytes. A sink may interrupt writes, but its patience
falls with every interruption, so that writing again comes to an end. -/
class Sink (σ : Type) where
  write : σ → List UInt8 → σ × WriteResult
  flush : σ → σ × Except String Unit
  patience : σ → Nat
  patience_lt : ∀ s bytes, (write s bytes).2 = .interrupted →
    patience (write s bytes).1 < patience s

namespace Sink

variable {σ : Type} [Sink σ]

/-- Writes until all bytes are taken, again after an interruption. A sink that
takes no byte at all fails the write. -/
def writeAll (s : σ) (bytes : List UInt8) : σ × Except String Unit :=
  if bytes = [] then (s, .ok ())
  else
    match _h : (write s bytes).2 with
    | .accepted count =>
      if count = 0 then ((write s bytes).1, .error "failed to write whole buffer")
      else writeAll (write s bytes).1 (bytes.drop count)
    | .interrupted => writeAll (write s bytes).1 bytes
    | .failed message => ((write s bytes).1, .error message)
termination_by (bytes.length, patience s)
decreasing_by
  · have hlen : 0 < bytes.length := List.length_pos_iff.mpr ‹bytes ≠ []›
    left
    simp only [List.length_drop]
    omega
  · right
    exact patience_lt s bytes _h

def writeTexts (s : σ) : List String → σ × Except String Unit
  | [] => (s, .ok ())
  | text :: rest =>
    match writeAll s (Text.bytes text) with
    | (s, .ok ()) => writeTexts s rest
    | (s, .error message) => (s, .error message)

end Sink

end ActionCode
