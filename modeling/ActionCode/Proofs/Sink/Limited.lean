import ActionCode.Proofs.Emitter.Keeping

namespace ActionCode

namespace SinkTerms

variable {terms : SinkTerms}

def Fits (terms : SinkTerms) (n : Nat) : Prop :=
  ∀ limit ∈ terms.limit?, n ≤ limit

instance (n : Nat) : Decidable (terms.Fits n) :=
  inferInstanceAs (Decidable (∀ limit ∈ terms.limit?, n ≤ limit))

def cut (terms : SinkTerms) (bytes : List UInt8) : List UInt8 :=
  bytes.take (terms.limit?.getD bytes.length)

/-- Each write takes a byte where there is room for one. -/
def Progressive (terms : SinkTerms) : Prop :=
  ∀ chunk ∈ terms.chunk?, 0 < chunk

instance : Decidable terms.Progressive :=
  inferInstanceAs (Decidable (∀ chunk ∈ terms.chunk?, 0 < chunk))

theorem Fits.mono {m n : Nat} (h : terms.Fits n) (hle : m ≤ n) : terms.Fits m :=
  fun limit hlimit => Nat.le_trans hle (h limit hlimit)

theorem cut_of_fits {bytes : List UInt8} (h : terms.Fits bytes.length) :
    terms.cut bytes = bytes := by
  cases hlimit : terms.limit? with
  | none => simp [cut, hlimit]
  | some limit => simp [cut, hlimit, List.take_of_length_le (h limit hlimit)]

theorem cut_of_not_fits {bytes : List UInt8} (h : ¬terms.Fits bytes.length) :
    ∃ limit, terms.limit? = some limit ∧ limit < bytes.length ∧
      terms.cut bytes = bytes.take limit := by
  simp only [Fits, Classical.not_forall, Nat.not_le] at h
  obtain ⟨limit, hlimit, hlt⟩ := h
  exact ⟨limit, hlimit, hlt, by simp [cut, Option.mem_def.mp hlimit]⟩

theorem fits_cut (bytes : List UInt8) : terms.Fits (terms.cut bytes).length := by
  intro limit hlimit
  rw [cut, Option.mem_def.mp hlimit, Option.getD_some]
  exact List.length_take_le ..

theorem cut_append_of_not_fits {a : List UInt8} (h : ¬terms.Fits a.length) (b : List UInt8) :
    terms.cut (a ++ b) = terms.cut a := by
  obtain ⟨limit, hlimit, hlt, hcut⟩ := cut_of_not_fits h
  rw [hcut, cut, hlimit, Option.getD_some, List.take_append_of_le_length (Nat.le_of_lt hlt)]

theorem cut_cut_append (a b : List UInt8) : terms.cut (terms.cut a ++ b) = terms.cut (a ++ b) := by
  by_cases h : terms.Fits a.length
  · rw [cut_of_fits h]
  · obtain ⟨limit, hlimit, hlt, hcut⟩ := cut_of_not_fits h
    rw [cut_append_of_not_fits h, hcut, cut, hlimit, Option.getD_some]
    rw [List.take_append_of_le_length (by simp; omega), List.take_take, Nat.min_self]

theorem fits_cut_append_iff (a : List UInt8) {b : List UInt8} (hb : b ≠ []) :
    terms.Fits (terms.cut a ++ b).length ↔ terms.Fits (a ++ b).length := by
  by_cases h : terms.Fits a.length
  · rw [cut_of_fits h]
  · obtain ⟨limit, hlimit, hlt, hcut⟩ := cut_of_not_fits h
    have hpos := List.length_pos_iff.mpr hb
    refine iff_of_false (fun hfits => ?_) fun hfits => h (hfits.mono (by simp))
    have hle := hfits limit hlimit
    rw [hcut, List.length_append, List.length_take] at hle
    omega

def verdict (terms : SinkTerms) (n : Nat) : Except String Unit :=
  if terms.Fits n then .ok () else .error (terms.full?.getD "failed to write whole buffer")

theorem verdict_of_fits {n : Nat} (h : terms.Fits n) : terms.verdict n = .ok () :=
  if_pos h

theorem verdict_of_not_fits {n : Nat} (h : ¬terms.Fits n) :
    terms.verdict n = .error (terms.full?.getD "failed to write whole buffer") :=
  if_neg h

theorem verdict_eq_ok_iff {n : Nat} : terms.verdict n = .ok () ↔ terms.Fits n := by
  by_cases h : terms.Fits n
  · simp [verdict_of_fits h, h]
  · simp [verdict_of_not_fits h, h]

theorem cut_append_of_full {a : List UInt8} (hfits : terms.Fits a.length)
    (hfull : ¬terms.Fits (a.length + 1)) (b : List UInt8) : terms.cut (a ++ b) = a := by
  simp only [Fits, Classical.not_forall, Nat.not_le] at hfull
  obtain ⟨limit, hlimit, hlt⟩ := hfull
  have hlength : limit = a.length := Nat.le_antisymm (Nat.le_of_lt_succ hlt) (hfits limit hlimit)
  rw [cut, Option.mem_def.mp hlimit, Option.getD_some, hlength, List.take_left]

end SinkTerms

namespace LimitedSink

variable {s : LimitedSink}

@[simp] theorem within_none (n : Nat) : within none n = n := rfl

@[simp] theorem within_some (bound n : Nat) : within (some bound) n = min n bound := rfl

theorem within_le (bound? : Option Nat) (n : Nat) : within bound? n ≤ n := by
  cases bound? with
  | none => exact Nat.le_refl n
  | some bound => exact Nat.min_le_left ..

theorem room_le (s : LimitedSink) (n : Nat) : s.room n ≤ n :=
  Nat.le_trans (within_le ..) (within_le ..)

theorem not_fits_of_room_eq_zero (hprogressive : s.terms.Progressive) {n : Nat} (hn : 0 < n)
    (hroom : s.room n = 0) : ¬s.terms.Fits (s.taken.length + 1) := by
  have hchunk : 0 < within s.terms.chunk? n := by
    cases hchunk : s.terms.chunk? with
    | none => exact hn
    | some chunk => exact Nat.lt_min.mpr ⟨hn, hprogressive chunk hchunk⟩
  intro hfits
  cases hlimit : s.terms.limit? with
  | none =>
    simp only [room, hlimit, Option.map_none, within_none] at hroom
    omega
  | some limit =>
    have hle := hfits limit hlimit
    simp only [room, hlimit, Option.map_some, within_some] at hroom
    omega

theorem terms_write (s : LimitedSink) (bytes : List UInt8) : (s.write bytes).1.terms = s.terms := by
  cases hs : s.interruptNext with
  | true => rw [write_of_interruptNext hs]
  | false => simp [write, hs]

theorem fits_write (hfits : s.terms.Fits s.taken.length) (bytes : List UInt8) :
    s.terms.Fits (s.write bytes).1.taken.length := by
  cases hs : s.interruptNext with
  | true => rwa [write_of_interruptNext hs]
  | false =>
    intro limit hlimit
    have hle := hfits limit hlimit
    have hroom : s.room bytes.length ≤ limit - s.taken.length := by
      simp only [room, Option.mem_def.mp hlimit, Option.map_some, within_some]
      omega
    rw [(taken_write hs bytes).1, List.length_append, List.length_take_of_le (room_le ..)]
    omega

theorem result_write (hs : s.interruptNext = false) {bytes : List UInt8} (hne : bytes ≠ []) :
    (s.write bytes).2 =
      if s.room bytes.length = 0 then s.terms.full?.elim (.accepted 0) .failed
      else .accepted (s.room bytes.length) := by
  by_cases hroom : s.room bytes.length = 0
  · cases hfull : s.terms.full? <;> simp [write, hs, hroom, hfull, hne]
  · cases hfull : s.terms.full? <;> simp [write, hs, hroom, hfull]

theorem full_of_write (hprogressive : s.terms.Progressive) (hfits : s.terms.Fits s.taken.length)
    {bytes : List UInt8} (hne : bytes ≠ [])
    (hend : (s.write bytes).2 = .accepted 0 ∨ ∃ message, (s.write bytes).2 = .failed message) :
    (s.write bytes).2 = s.terms.full?.elim (.accepted 0) .failed ∧
      (s.write bytes).1.taken = s.terms.cut (s.taken ++ bytes) ∧
      ¬s.terms.Fits (s.taken ++ bytes).length := by
  cases hs : s.interruptNext with
  | true => simp [write_of_interruptNext hs] at hend
  | false =>
    have hroom : s.room bytes.length = 0 := by
      by_cases hroom : s.room bytes.length = 0
      · exact hroom
      · simpa [result_write hs hne, if_neg hroom] using hend
    have hpos := List.length_pos_iff.mpr hne
    have hfull := not_fits_of_room_eq_zero hprogressive hpos hroom
    refine ⟨?_, ?_, fun hall => hfull (hall.mono ?_)⟩
    · rw [result_write hs hne, if_pos hroom]
    · rw [SinkTerms.cut_append_of_full hfits hfull, (taken_write hs bytes).1, hroom, List.take_zero,
        List.append_nil]
    · rw [List.length_append]
      omega

/-- All bytes are taken as far as they are within the limit, in whatever portions. -/
theorem writeAll_eq (hprogressive : s.terms.Progressive) (hfits : s.terms.Fits s.taken.length)
    (bytes : List UInt8) :
    (Sink.writeAll s bytes).1.terms = s.terms ∧
      (Sink.writeAll s bytes).1.taken = s.terms.cut (s.taken ++ bytes) ∧
      (Sink.writeAll s bytes).2 = s.terms.verdict (s.taken ++ bytes).length := by
  fun_induction Sink.writeAll s bytes with
  | case1 s =>
    rw [List.append_nil, SinkTerms.cut_of_fits hfits, SinkTerms.verdict_of_fits hfits]
    exact ⟨rfl, rfl, rfl⟩
  | case2 s bytes hne hwrite =>
    obtain ⟨hresult, htaken, hall⟩ := full_of_write hprogressive hfits hne (.inl hwrite)
    refine ⟨s.terms_write bytes, htaken, ?_⟩
    rw [SinkTerms.verdict_of_not_fits hall]
    cases hfull : s.terms.full? with
    | none => rfl
    | some message => simp [hfull, Sink.write, hresult] at hwrite
  | case3 s bytes hne accepted hwrite hpos ih =>
    have hterms : (Sink.write s bytes).1.terms = s.terms := s.terms_write bytes
    have htaken : (Sink.write s bytes).1.taken = s.taken ++ bytes.take accepted :=
      KeepingSink.kept_of_accepted hwrite
    have hfits' : s.terms.Fits (Sink.write s bytes).1.taken.length := fits_write hfits bytes
    rw [← hterms] at hprogressive hfits' ⊢
    have hwritten := ih hprogressive hfits'
    rwa [htaken, List.append_assoc, List.take_append_drop] at hwritten
  | case4 s bytes hne hwrite ih =>
    have hterms : (Sink.write s bytes).1.terms = s.terms := s.terms_write bytes
    have htaken : (Sink.write s bytes).1.taken = s.taken := KeepingSink.kept_of_interrupted hwrite
    rw [← hterms, ← htaken] at hfits ⊢
    exact ih (by rwa [hterms]) hfits
  | case5 s bytes hne message hwrite =>
    obtain ⟨hresult, htaken, hall⟩ := full_of_write hprogressive hfits hne (.inr ⟨message, hwrite⟩)
    refine ⟨s.terms_write bytes, htaken, ?_⟩
    rw [SinkTerms.verdict_of_not_fits hall]
    cases hfull : s.terms.full? with
    | none => simp [hfull, Sink.write, hresult] at hwrite
    | some other =>
      obtain rfl : other = message := by simpa [hfull, Sink.write, hresult] using hwrite
      rfl

theorem writeTexts_eq (hprogressive : s.terms.Progressive) (hfits : s.terms.Fits s.taken.length)
    (texts : List String) :
    let bytes := s.taken ++ Text.bytes (String.join texts)
    (Sink.writeTexts s texts).1.terms = s.terms ∧
      (Sink.writeTexts s texts).1.taken = s.terms.cut bytes ∧
      (Sink.writeTexts s texts).2 = s.terms.verdict bytes.length := by
  fun_induction Sink.writeTexts s texts with
  | case1 s =>
    intro bytes
    have hbytes : bytes = s.taken := List.append_nil _
    rw [hbytes, SinkTerms.cut_of_fits hfits, SinkTerms.verdict_of_fits hfits]
    exact ⟨rfl, rfl, rfl⟩
  | case2 s text rest written hwrite ih =>
    intro bytes
    obtain ⟨hterms, htaken, hresult⟩ := writeAll_eq hprogressive hfits (Text.bytes text)
    rw [hwrite] at hterms htaken hresult
    have hall := SinkTerms.verdict_eq_ok_iff.mp hresult.symm
    rw [SinkTerms.cut_of_fits hall] at htaken
    dsimp only at hterms htaken
    have hbytes : bytes = written.taken ++ Text.bytes (String.join rest) := by
      rw [htaken, List.append_assoc, ← Text.bytes_append, ← String.join_cons]
    rw [hbytes, ← hterms]
    exact ih (by rwa [hterms]) (by rwa [hterms, htaken])
  | case3 s text rest written message hwrite =>
    intro bytes
    obtain ⟨hterms, htaken, hresult⟩ := writeAll_eq hprogressive hfits (Text.bytes text)
    rw [hwrite] at hterms htaken hresult
    have hpart : ¬s.terms.Fits (s.taken ++ Text.bytes text).length := by
      intro hfits
      rw [SinkTerms.verdict_of_fits hfits] at hresult
      contradiction
    have hbytes : bytes = s.taken ++ Text.bytes text ++ Text.bytes (String.join rest) := by
      rw [List.append_assoc, ← Text.bytes_append, ← String.join_cons]
    have hall : ¬s.terms.Fits bytes.length := fun h => hpart (h.mono (by simp [hbytes]))
    refine ⟨hterms, ?_, ?_⟩
    · rw [hbytes, SinkTerms.cut_append_of_not_fits hpart]
      exact htaken
    · rw [SinkTerms.verdict_of_not_fits hall, ← SinkTerms.verdict_of_not_fits hpart]
      exact hresult

end LimitedSink

end ActionCode
