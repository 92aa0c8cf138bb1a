import ActionCode.Sink.Basic

namespace ActionCode

structure SinkTerms where
  /-- Bytes it takes in all. -/
  limit? : Option Nat
  /-- Bytes it takes in one write. -/
  chunk? : Option Nat
  /-- Every other write is interrupted, the first one included. -/
  interrupts : Bool
  /-- How a write fails that nothing can be taken of; without it the sink takes
  no byte and says so. -/
  full? : Option String
  /-- How every flush fails. -/
  flushError? : Option String
  deriving DecidableEq, Repr

structure LimitedSink where
  terms : SinkTerms
  taken : List UInt8
  interruptNext : Bool

namespace LimitedSink

def ofTerms (terms : SinkTerms) : LimitedSink :=
  ⟨terms, [], terms.interrupts⟩

def within (bound? : Option Nat) (n : Nat) : Nat :=
  (bound?.map (min n)).getD n

def room (s : LimitedSink) (n : Nat) : Nat :=
  within (s.terms.limit?.map (· - s.taken.length)) (within s.terms.chunk? n)

def write (s : LimitedSink) (bytes : List UInt8) : LimitedSink × WriteResult :=
  if s.interruptNext then (⟨s.terms, s.taken, false⟩, .interrupted)
  else
    let count := s.room bytes.length
    let result :=
      match s.terms.full? with
      | some message => if count = 0 ∧ bytes ≠ [] then .failed message else .accepted count
      | none => .accepted count
    (⟨s.terms, s.taken ++ bytes.take count, s.terms.interrupts⟩, result)

def flush (s : LimitedSink) : LimitedSink × Except String Unit :=
  match s.terms.flushError? with
  | none => (s, .ok ())
  | some message => (s, .error message)

instance : Sink LimitedSink where
  write := write
  flush := flush
  patience s := s.interruptNext.toNat
  patience_lt s bytes h := by
    unfold write at h ⊢
    split at h
    · simp_all
    · dsimp only at h
      split at h
      · split at h <;> contradiction
      · contradiction

end LimitedSink

end ActionCode
