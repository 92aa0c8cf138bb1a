import ActionCode.Sink.Basic

namespace ActionCode

theorem Sink.writeAll_of_ne_nil {σ : Type} [Sink σ] (s : σ) {bytes : List UInt8}
    (hne : bytes ≠ []) :
    writeAll s bytes =
      match (write s bytes).2 with
      | .accepted count =>
        if count = 0 then ((write s bytes).1, .error "failed to write whole buffer")
        else writeAll (write s bytes).1 (bytes.drop count)
      | .interrupted => writeAll (write s bytes).1 bytes
      | .failed message => ((write s bytes).1, .error message) := by
  rw [writeAll, if_neg hne]
  split <;> simp_all

/-- A sink under observation, with the results of the flushes it has had, the
oldest first. -/
structure Watched (σ : Type) where
  sink : σ
  flushes : List (Except String Unit)

namespace Watched

variable {σ : Type} [Sink σ]

def ofSink (sink : σ) : Watched σ :=
  ⟨sink, []⟩

instance : Sink (Watched σ) where
  write w bytes := (⟨(Sink.write w.sink bytes).1, w.flushes⟩, (Sink.write w.sink bytes).2)
  flush w := (⟨(Sink.flush w.sink).1, w.flushes ++ [(Sink.flush w.sink).2]⟩, (Sink.flush w.sink).2)
  patience w := Sink.patience w.sink
  patience_lt w := Sink.patience_lt w.sink

theorem write_eq (w : Watched σ) (bytes : List UInt8) :
    Sink.write w bytes = (⟨(Sink.write w.sink bytes).1, w.flushes⟩, (Sink.write w.sink bytes).2) :=
  rfl

theorem writeAll_eq (w : Watched σ) (bytes : List UInt8) :
    Sink.writeAll w bytes =
      (⟨(Sink.writeAll w.sink bytes).1, w.flushes⟩, (Sink.writeAll w.sink bytes).2) := by
  obtain ⟨sink, flushes⟩ := w
  fun_induction Sink.writeAll sink bytes with
  | case1 sink => simp [Sink.writeAll]
  | case2 sink bytes hne hwrite =>
    rw [Sink.writeAll_of_ne_nil _ hne, write_eq]
    simp only [hwrite, if_true]
  | case3 sink bytes hne count hwrite hcount ih =>
    rw [Sink.writeAll_of_ne_nil _ hne, write_eq]
    simp only [hwrite, if_neg hcount, ih]
  | case4 sink bytes hne hwrite ih =>
    rw [Sink.writeAll_of_ne_nil _ hne, write_eq]
    simp only [hwrite, ih]
  | case5 sink bytes hne message hwrite =>
    rw [Sink.writeAll_of_ne_nil _ hne, write_eq]
    simp only [hwrite]

theorem writeTexts_eq (w : Watched σ) (texts : List String) :
    Sink.writeTexts w texts =
      (⟨(Sink.writeTexts w.sink texts).1, w.flushes⟩, (Sink.writeTexts w.sink texts).2) := by
  obtain ⟨sink, flushes⟩ := w
  fun_induction Sink.writeTexts sink texts with
  | case1 sink => rfl
  | case2 sink text rest written hwrite ih =>
    rw [Sink.writeTexts, writeAll_eq, hwrite]
    exact ih
  | case3 sink text rest written message hwrite =>
    rw [Sink.writeTexts, writeAll_eq, hwrite]

end Watched

end ActionCode
