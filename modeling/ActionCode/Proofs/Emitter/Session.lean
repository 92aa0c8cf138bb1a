import ActionCode.Proofs.Sink.Limited

namespace ActionCode

namespace Listing

theorem join_compactPieces {p : Program} (h : p ≠ []) :
    String.join (compactPieces p) = ", ".intercalate (p.map compactUnit) ++ " " := by
  fun_induction compactPieces p with
  | case1 => contradiction
  | case2 i => simp
  | case3 i rest hrest ih =>
    obtain ⟨j, rest, rfl⟩ := List.exists_cons_of_ne_nil hrest
    rw [String.join_cons, String.join_cons, ih hrest]
    simp [String.append_assoc]

theorem text_eq (mode : Mode) (program? : Option Program) :
    text mode program? = generatedLine ++ "\n" ++ overwriteLine ++ "\n" ++
      match program?, mode with
      | none, _ | some [], _ => ""
      | some p, .annotated => String.join (p.map annotatedLine)
      | some p, .compact => ", ".intercalate (p.map compactUnit) ++ " " := by
  have hheader : String.join headerPieces = generatedLine ++ "\n" ++ overwriteLine ++ "\n" := by
    simp [headerPieces, String.append_assoc]
  rw [text, pieces, String.join_append, hheader]
  congr 1
  cases program? with
  | none => rfl
  | some p =>
    cases p with
    | nil => cases mode <;> rfl
    | cons i p =>
      cases mode with
      | annotated => rfl
      | compact => exact join_compactPieces (List.cons_ne_nil i p)

theorem bytes_text_ne_nil (mode : Mode) (program? : Option Program) :
    Text.bytes (text mode program?) ≠ [] := by
  intro h
  have hlength : (Text.bytes (text mode program?)).length = 0 := congrArg List.length h
  simp only [text_eq, Text.length_bytes, String.toList_append, Text.byteLength_append,
    Nat.add_eq_zero_iff] at hlength
  exact absurd hlength.1.2 (by decide)

end Listing

namespace Emitter

def Request.releases : Request → Bool
  | .emit .. | .isClosed => false
  | .close | .finish | .drop => true

def Request.text : Request → String
  | .emit program? mode => Listing.text mode program?
  | .close | .isClosed | .finish | .drop => ""

/-- All that is to be written until the sink is given back. -/
def issued (requests : List Request) : String :=
  String.join ((requests.takeWhile (!·.releases)).map Request.text)

theorem Request.text_of_releases {request : Request} (h : request.releases = true) :
    request.text = "" := by
  cases request with
  | emit | isClosed => contradiction
  | close | finish | drop => rfl

theorem issued_cons (request : Request) (requests : List Request) :
    issued (request :: requests) =
      if request.releases then "" else request.text ++ issued requests := by
  cases h : request.releases <;> simp [issued, h]

theorem issued_concat (requests : List Request) (request : Request) :
    issued (requests ++ [request]) =
      if requests.any Request.releases then issued requests
      else issued requests ++ request.text := by
  induction requests with
  | nil =>
    cases h : request.releases with
    | true => simp [issued, h, Request.text_of_releases h]
    | false => simp [issued, h]
  | cons first rest ih =>
    rw [List.cons_append, issued_cons, issued_cons, ih]
    cases hfirst : first.releases <;> cases hrest : rest.any Request.releases <;>
      simp [hfirst, hrest, String.append_assoc]

theorem emit_eq {e : Emitter LimitedSink} (hopen : e.released = false)
    (hprogressive : e.sink.terms.Progressive) (hfits : e.sink.terms.Fits e.sink.taken.length)
    (program? : Option Program) (mode : Mode) :
    let bytes := e.sink.taken ++ Text.bytes (Listing.text mode program?)
    let outcome := e.emit program? mode
    (outcome.state.sink.terms = e.sink.terms ∧
      outcome.state.sink.taken = e.sink.terms.cut bytes ∧ outcome.state.released = false) ∧
      outcome.answer = (e.sink.terms.verdict bytes.length).mapError .io ∧
      outcome.events =
        if e.sink.terms.Fits bytes.length then [emittedEvent program? mode] else [] := by
  intro bytes outcome
  obtain ⟨hterms, htaken, hresult⟩ :=
    LimitedSink.writeTexts_eq hprogressive hfits (Listing.pieces mode program?)
  change _ = e.sink.terms.cut bytes at htaken
  change _ = e.sink.terms.verdict bytes.length at hresult
  cases hwrite : Sink.writeTexts e.sink (Listing.pieces mode program?) with
  | mk sink result =>
    rw [hwrite] at hterms htaken hresult
    by_cases hall : e.sink.terms.Fits bytes.length
    · rw [SinkTerms.verdict_of_fits hall] at hresult ⊢
      obtain rfl : result = .ok () := hresult
      have houtcome : outcome = ⟨⟨sink, false⟩, .ok (), [emittedEvent program? mode]⟩ := by
        simp [outcome, emit, hopen, hwrite]
      rw [houtcome, if_pos hall]
      exact ⟨⟨hterms, htaken, rfl⟩, rfl, rfl⟩
    · rw [SinkTerms.verdict_of_not_fits hall] at hresult ⊢
      obtain rfl : result = .error _ := hresult
      have houtcome : outcome = ⟨⟨sink, false⟩, .error (.io (e.sink.terms.full?.getD
          "failed to write whole buffer")), []⟩ := by
        simp [outcome, emit, hopen, hwrite]
      rw [houtcome, if_neg hall]
      exact ⟨⟨hterms, htaken, rfl⟩, rfl, rfl⟩

theorem state_release (e : Emitter LimitedSink) : e.release.1 = ⟨e.sink, true⟩ := by
  have hflush : (Sink.flush e.sink).1 = e.sink := by
    change e.sink.flush.1 = e.sink
    cases hterms : e.sink.terms.flushError? <;> simp [LimitedSink.flush, hterms]
  rw [← hflush]
  rfl

theorem state_close (e : Emitter LimitedSink) : e.close.1 = ⟨e.sink, true⟩ := by
  obtain ⟨sink, released⟩ := e
  cases released with
  | true => rfl
  | false => exact state_release ⟨sink, false⟩

theorem state_finish (e : Emitter LimitedSink) : e.finish.1 = ⟨e.sink, true⟩ := by
  obtain ⟨sink, released⟩ := e
  cases released with
  | true => rfl
  | false => exact state_release ⟨sink, false⟩

theorem state_drop (e : Emitter LimitedSink) : e.drop.state = ⟨e.sink, true⟩ := by
  rw [← state_close, drop]
  split <;> rename_i hclose <;> rw [hclose]

structure Keeps (terms : SinkTerms) (requests : List Request) (e : Emitter LimitedSink) :
    Prop where
  terms_eq : e.sink.terms = terms
  taken_eq : e.sink.taken = terms.cut (Text.bytes (issued requests))
  released_eq : e.released = requests.any Request.releases

namespace Keeps

variable {terms : SinkTerms} {requests : List Request} {e : Emitter LimitedSink}

theorem ofTerms (terms : SinkTerms) : Keeps terms [] (ofSink (.ofTerms terms)) :=
  ⟨rfl, List.take_nil.symm, rfl⟩

/-- What came before, kept or not, counts against the limit. -/
theorem emit (h : Keeps terms requests e) (hprogressive : terms.Progressive)
    (hopen : e.released = false) (program? : Option Program) (mode : Mode) :
    let bytes := Text.bytes (issued requests ++ Listing.text mode program?)
    let outcome := e.emit program? mode
    (outcome.state.sink.terms = terms ∧ outcome.state.sink.taken = terms.cut bytes ∧
      outcome.state.released = false) ∧
      outcome.answer = (terms.verdict bytes.length).mapError .io ∧
      outcome.events = if terms.Fits bytes.length then [emittedEvent program? mode] else [] := by
  obtain ⟨hterms, htaken, -⟩ := h
  subst hterms
  have hfits : e.sink.terms.Fits e.sink.taken.length := by
    rw [htaken]
    exact SinkTerms.fits_cut _
  have hall : e.sink.terms.Fits _ ↔ e.sink.terms.Fits _ :=
    SinkTerms.fits_cut_append_iff (Text.bytes (issued requests))
      (Listing.bytes_text_ne_nil mode program?)
  have hemit := emit_eq hopen hprogressive hfits program? mode
  simp only [SinkTerms.verdict, htaken, hall, SinkTerms.cut_cut_append] at hemit
  rwa [Text.bytes_append]

theorem of_idle (h : Keeps terms requests e) {request : Request}
    (hidle : requests.any Request.releases = true ∨ request.text = "") :
    e.sink.taken = terms.cut (Text.bytes (issued (requests ++ [request]))) := by
  have hissued : issued (requests ++ [request]) = issued requests := by
    rw [issued_concat]
    obtain hreleased | htext := hidle
    · rw [if_pos hreleased]
    · rw [htext, String.append_empty, ite_self]
  rw [hissued]
  exact h.taken_eq

theorem ended (h : Keeps terms requests e) {request : Request} (hends : request.releases = true) :
    Keeps terms (requests ++ [request]) ⟨e.sink, true⟩ where
  terms_eq := h.terms_eq
  taken_eq := h.of_idle (.inr (Request.text_of_releases hends))
  released_eq := by simp [hends]

theorem step (h : Keeps terms requests e) (hprogressive : terms.Progressive) (request : Request) :
    Keeps terms (requests ++ [request]) (e.step request).state := by
  cases request with
  | emit program? mode =>
    change Keeps terms _ (e.emit program? mode).state
    cases hreleased : e.released with
    | true =>
      have hany := h.released_eq.symm.trans hreleased
      rw [Emitter.emit, if_pos hreleased]
      exact ⟨h.terms_eq, h.of_idle (.inl hany), by simp [hreleased, hany]⟩
    | false =>
      have hany := h.released_eq.symm.trans hreleased
      obtain ⟨⟨hterms, htaken, hopen⟩, -⟩ := h.emit hprogressive hreleased program? mode
      refine ⟨hterms, ?_, ?_⟩
      · rw [htaken, issued_concat, hany]
        rfl
      · rw [hopen, List.any_append, hany]
        rfl
  | isClosed =>
    change Keeps terms _ e
    exact ⟨h.terms_eq, h.of_idle (.inr rfl), by simp [h.released_eq, Request.releases]⟩
  | close =>
    change Keeps terms _ e.close.1
    rw [state_close]
    exact h.ended rfl
  | finish =>
    change Keeps terms _ e.finish.1
    rw [state_finish]
    exact h.ended rfl
  | drop =>
    change Keeps terms _ e.drop.state
    rw [state_drop]
    exact h.ended rfl

theorem run (h : Keeps terms requests e) (hprogressive : terms.Progressive)
    (more : List Request) :
    Keeps terms (requests ++ more) (Outcome.final Emitter.step e more) := by
  induction more generalizing requests e with
  | nil => rwa [List.append_nil]
  | cons request more ih =>
    rw [Outcome.final_cons, List.append_cons]
    exact ih (h.step hprogressive request)

end Keeps

theorem level_emittedEvent (program? : Option Program) (mode : Mode) :
    (emittedEvent program? mode).level = .info := by
  cases program? <;> rfl

def session (terms : SinkTerms) (requests : List Request) : Emitter LimitedSink :=
  Outcome.final step (ofSink (.ofTerms terms)) requests

theorem keeps_session {terms : SinkTerms} (hprogressive : terms.Progressive)
    (requests : List Request) : Keeps terms requests (session terms requests) :=
  (Keeps.ofTerms terms).run hprogressive requests

/-- After any requests a limited sink holds the front of all that was to be
written, however it takes bytes. A listing is emitted as long as all of it is
within the limit, and a failure to emit leaves the emitter open. -/
theorem session_contents (terms : SinkTerms) (hprogressive : terms.Progressive)
    (requests : List Request) :
    let e := session terms requests
    e.sink.taken = terms.cut (Text.bytes (issued requests)) ∧
      e.released = requests.any Request.releases ∧
      (∀ terms' : SinkTerms, terms'.Progressive → terms'.limit? = terms.limit? →
        (session terms' requests).sink.taken = e.sink.taken) ∧
      (e.released = false → ∀ (program? : Option Program) (mode : Mode),
        let outcome := e.step (.emit program? mode)
        let total := (Text.bytes (issued requests ++ Listing.text mode program?)).length
        (outcome.answer = .ok .done ↔ terms.Fits total) ∧
          (terms.Fits total → outcome.events = [emittedEvent program? mode] ∧
            (emittedEvent program? mode).level = .info) ∧
          (¬terms.Fits total →
            outcome.answer = .error (.io (terms.full?.getD "failed to write whole buffer")) ∧
              outcome.events = [] ∧ outcome.state.released = false)) ∧
      ∀ (mode : Mode) (program? : Option Program), Listing.text mode program? =
        Listing.generatedLine ++ "\n" ++ Listing.overwriteLine ++ "\n" ++
          match program?, mode with
          | none, _ | some [], _ => ""
          | some p, .annotated => String.join (p.map Listing.annotatedLine)
          | some p, .compact => ", ".intercalate (p.map fun i =>
              Listing.codeText i.opcode ++ " " ++ i.parameter) ++ " " := by
  have h := keeps_session hprogressive requests
  refine ⟨h.taken_eq, h.released_eq, ?_, ?_, Listing.text_eq⟩
  · intro terms' hprogressive' hlimit
    rw [(keeps_session hprogressive' requests).taken_eq, h.taken_eq, SinkTerms.cut, SinkTerms.cut,
      hlimit]
  · intro hopen program? mode outcome total
    obtain ⟨⟨-, -, hstate⟩, hanswer, hevents⟩ := h.emit hprogressive hopen program? mode
    have houtcome : outcome.answer = ((terms.verdict total).mapError .io).map fun _ => .done :=
      congrArg (Except.map fun _ => Reply.done) hanswer
    by_cases hall : terms.Fits total
    · rw [SinkTerms.verdict_of_fits hall] at houtcome
      have htold := hevents.trans (if_pos hall)
      exact ⟨iff_of_true houtcome hall, fun _ => ⟨htold, level_emittedEvent program? mode⟩,
        fun hnot => absurd hall hnot⟩
    · rw [SinkTerms.verdict_of_not_fits hall] at houtcome
      have huntold := hevents.trans (if_neg hall)
      have hnot : outcome.answer ≠ .ok .done := by
        intro hdone
        cases houtcome.symm.trans hdone
      exact ⟨iff_of_false hnot hall, fun hfits => absurd hfits hall,
        fun _ => ⟨houtcome, huntold, hstate⟩⟩

theorem session_contents_cut :
    let terms : SinkTerms := ⟨some 310, some 7, true, some "disk full", none⟩
    let requests : List Request := [.emit none .compact, .isClosed]
    let e := session terms requests
    terms.Progressive ∧ e.released = false ∧
      (e.step (.emit (some [.nop]) .compact)).answer = .ok .done ∧
      (e.step (.emit (some [.nop]) .annotated)).answer = .error (.io "disk full") ∧
      (e.step (.emit (some [.nop]) .annotated)).events = [] := by
  intro terms requests e
  have hprogressive : terms.Progressive := by decide
  obtain ⟨-, hreleased, -, hemit, -⟩ := session_contents terms hprogressive requests
  obtain ⟨hanswer, -, -⟩ := hemit hreleased (some [.nop]) .compact
  obtain ⟨-, -, hfailure⟩ := hemit hreleased (some [.nop]) .annotated
  obtain ⟨herror, hevents, -⟩ := hfailure (by decide +kernel)
  exact ⟨hprogressive, hreleased, hanswer.mpr (by decide +kernel), herror, hevents⟩

end Emitter

end ActionCode
