import ActionCode.Emitter.Memory
import ActionCode.Proofs.Outcome
import ActionCode.Sink.Limited

namespace ActionCode

/-- A sink that keeps the bytes it takes, one behind the other. -/
class KeepingSink (σ : Type) extends Sink σ where
  kept : σ → List UInt8
  kept_of_accepted : ∀ {s : σ} {bytes : List UInt8} {count : Nat},
    (write s bytes).2 = .accepted count → kept (write s bytes).1 = kept s ++ bytes.take count
  kept_of_interrupted : ∀ {s : σ} {bytes : List UInt8},
    (write s bytes).2 = .interrupted → kept (write s bytes).1 = kept s

instance : KeepingSink MemorySink where
  toSink := inferInstance
  kept := MemorySink.taken
  kept_of_accepted h := by
    obtain rfl := WriteResult.accepted.inj h
    simp [Sink.write]
  kept_of_interrupted h := by contradiction

theorem LimitedSink.write_of_interruptNext {s : LimitedSink} (h : s.interruptNext = true)
    (bytes : List UInt8) : s.write bytes = (⟨s.terms, s.taken, false⟩, .interrupted) :=
  if_pos h

theorem LimitedSink.taken_write {s : LimitedSink} (h : s.interruptNext = false)
    (bytes : List UInt8) :
    (s.write bytes).1.taken = s.taken ++ bytes.take (s.room bytes.length) ∧
      ((s.write bytes).2 = .accepted (s.room bytes.length) ∨
        ∃ message, (s.write bytes).2 = .failed message) := by
  simp only [LimitedSink.write, h, Bool.false_eq_true, if_false, true_and]
  split
  · split
    · exact .inr ⟨_, rfl⟩
    · exact .inl rfl
  · exact .inl rfl

instance : KeepingSink LimitedSink where
  toSink := inferInstance
  kept := LimitedSink.taken
  kept_of_accepted {s bytes count} h := by
    change (s.write bytes).2 = _ at h
    cases hs : s.interruptNext with
    | true =>
      rw [LimitedSink.write_of_interruptNext hs] at h
      contradiction
    | false =>
      obtain ⟨htaken, haccepted | ⟨message, hfailed⟩⟩ := LimitedSink.taken_write hs bytes
      · obtain rfl := WriteResult.accepted.inj (haccepted.symm.trans h)
        exact htaken
      · rw [hfailed] at h
        contradiction
  kept_of_interrupted {s bytes} h := by
    change (s.write bytes).2 = _ at h
    cases hs : s.interruptNext with
    | true => exact congrArg (fun w => w.1.taken) (LimitedSink.write_of_interruptNext hs bytes)
    | false =>
      obtain ⟨-, haccepted | ⟨message, hfailed⟩⟩ := LimitedSink.taken_write hs bytes
      · rw [haccepted] at h
        contradiction
      · rw [hfailed] at h
        contradiction

namespace KeepingSink

variable {σ : Type} [KeepingSink σ]

theorem kept_writeAll {s : σ} {bytes : List UInt8} (h : (Sink.writeAll s bytes).2 = .ok ()) :
    kept (Sink.writeAll s bytes).1 = kept s ++ bytes := by
  fun_induction Sink.writeAll s bytes with
  | case1 s => simp
  | case2 => contradiction
  | case3 s bytes hne count hwrite hcount ih =>
    rw [ih h, kept_of_accepted hwrite, List.append_assoc, List.take_append_drop]
  | case4 s bytes hne hwrite ih => rw [ih h, kept_of_interrupted hwrite]
  | case5 => contradiction

theorem kept_writeTexts {s : σ} {texts : List String} (h : (Sink.writeTexts s texts).2 = .ok ()) :
    kept (Sink.writeTexts s texts).1 = kept s ++ Text.bytes (String.join texts) := by
  fun_induction Sink.writeTexts s texts with
  | case1 s => simp
  | case2 s text rest written hwrite ih =>
    have hkept := kept_writeAll (s := s) (by rw [hwrite])
    rw [hwrite] at hkept
    rw [ih h, hkept, String.join_cons, Text.bytes_append, List.append_assoc]
  | case3 => contradiction

end KeepingSink

namespace Listing

def joined (mode : Mode) (emissions : List (Option Program)) : String :=
  String.join (emissions.map fun program? => (emitted mode program?).1)

@[simp] theorem joined_nil (mode : Mode) : joined mode [] = "" := rfl

@[simp] theorem joined_cons (mode : Mode) (program? : Option Program)
    (emissions : List (Option Program)) :
    joined mode (program? :: emissions) = text mode program? ++ joined mode emissions := by
  rw [joined, List.map_cons, String.join_cons, emitted_eq, ← joined]

theorem joined_append (mode : Mode) (front back : List (Option Program)) :
    joined mode (front ++ back) = joined mode front ++ joined mode back := by
  simp [joined, String.join_append]

end Listing

namespace Emitter

variable {σ : Type} [KeepingSink σ]

theorem kept_emit {e : Emitter σ} {program? : Option Program} {mode : Mode}
    (h : (e.emit program? mode).answer = .ok ()) :
    KeepingSink.kept (e.emit program? mode).state.sink =
      KeepingSink.kept e.sink ++ Text.bytes (Listing.text mode program?) := by
  cases hreleased : e.released with
  | true => simp [emit, hreleased] at h
  | false =>
    cases hwrite : Sink.writeTexts e.sink (Listing.pieces mode program?) with
    | mk sink result =>
      cases result with
      | error message => simp [emit, hreleased, hwrite] at h
      | ok =>
        have hkept := KeepingSink.kept_writeTexts (s := e.sink) (by rw [hwrite])
        rw [hwrite] at hkept
        simpa [emit, hreleased, hwrite, Listing.text] using hkept

/-- What one emitter is given comes into its sink one behind the other. -/
theorem kept_final {e : Emitter σ} {mode : Mode} {emissions : List (Option Program)}
    (h : Outcome.Answers step e (emissions.map fun p => .emit p mode) (.ok .done)) :
    KeepingSink.kept (Outcome.final step e (emissions.map fun p => .emit p mode)).sink =
      KeepingSink.kept e.sink ++ Text.bytes (Listing.joined mode emissions) := by
  induction emissions generalizing e with
  | nil => simp
  | cons program? emissions ih =>
    obtain ⟨hanswer, htail⟩ := Outcome.answers_cons_iff.mp h
    have hemit : (e.emit program? mode).answer = .ok () := by
      cases hanswer' : (e.emit program? mode).answer with
      | ok => rfl
      | error error => simp [step, hanswer', Except.map] at hanswer
    have hstate : (step e (.emit program? mode)).state = (e.emit program? mode).state := rfl
    rw [List.map_cons, Outcome.final_cons, ih htail, hstate, kept_emit hemit, Listing.joined_cons,
      Text.bytes_append, List.append_assoc]

end Emitter

end ActionCode
