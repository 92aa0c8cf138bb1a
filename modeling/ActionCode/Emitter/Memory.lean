import ActionCode.Emitter.Basic

namespace ActionCode

structure MemorySink where
  taken : List UInt8

namespace MemorySink

def empty : MemorySink := ⟨[]⟩

instance : Sink MemorySink where
  write s bytes := (⟨s.taken ++ bytes⟩, .accepted bytes.length)
  flush s := (s, .ok ())
  patience _ := 0
  patience_lt _ _ h := by contradiction

def text? (s : MemorySink) : Option String :=
  Text.ofBytes? s.taken

theorem writeAll_eq (s : MemorySink) (bytes : List UInt8) :
    Sink.writeAll s bytes = (⟨s.taken ++ bytes⟩, .ok ()) := by
  rw [Sink.writeAll]
  split
  · simp_all
  · rename_i hb
    simp only [Sink.write]
    rw [if_neg (by simpa using hb), Sink.writeAll, if_pos (by simp)]

theorem writeTexts_eq (s : MemorySink) (texts : List String) :
    Sink.writeTexts s texts = (⟨s.taken ++ Text.bytes (String.join texts)⟩, .ok ()) := by
  induction texts generalizing s with
  | nil => simp [Sink.writeTexts]
  | cons text rest ih =>
    rw [Sink.writeTexts, writeAll_eq]
    simp only [ih, String.join_cons, Text.bytes_append, List.append_assoc]

end MemorySink

def Listing.emitted (mode : Mode) (program? : Option Program) : String × List Event :=
  let outcome := (Emitter.ofSink MemorySink.empty).emit program? mode
  (outcome.state.sink.text?.getD "", outcome.events)

theorem Listing.emitted_eq (mode : Mode) (program? : Option Program) :
    emitted mode program? = (text mode program?, [Emitter.emittedEvent program? mode]) := by
  simp [emitted, Emitter.emit, Emitter.ofSink, MemorySink.writeTexts_eq, MemorySink.text?,
    MemorySink.empty, text]

end ActionCode
