import ActionCode.Proofs.Emitter.Session
import ActionCode.Proofs.Sink.Watched

namespace ActionCode.Emitter

variable {σ : Type} [Sink σ]

def Request.late : Request → Except EmitError Reply
  | .emit .. | .finish => .error .closed
  | .close | .drop => .ok .done
  | .isClosed => .ok (.closed true)

def failures (flushes : List (Except String Unit)) : List String :=
  flushes.filterMap fun
    | .ok () => none
    | .error message => some message

/-- What a request tells of failed flushes: in its answer where it gives the sink
back, and in an event where nobody takes an answer. -/
def Request.reports (request : Request)
    (outcome : Outcome (Emitter σ) (Except EmitError Reply)) : List String :=
  let answered :=
    match request, outcome.answer with
    | .close, .error (.io message) | .finish, .error (.io message) => [message]
    | _, _ => []
  answered ++ outcome.events.filterMap fun
    | .flushFailed (.io message) => some message
    | _ => none

def reported (e : Emitter σ) (requests : List Request) : List String :=
  (requests.zip (Outcome.trace step e requests)).flatMap fun (request, outcome) =>
    request.reports outcome

theorem step_late {e : Emitter σ} (h : e.released = true) (request : Request) :
    e.step request = ⟨e, request.late, []⟩ := by
  cases request <;> simp [step, emit, close, finish, drop, Request.late, h, Except.map]

theorem release_eq (e : Emitter σ) :
    e.release = (⟨(Sink.flush e.sink).1, true⟩, (Sink.flush e.sink).2.mapError .io) := rfl

/-- The request that releases the sink flushes it. The emitter is closed then,
even if that fails. -/
theorem step_release {e : Emitter σ} (hopen : e.released = false) {request : Request}
    (hreleases : request.releases = true) :
    e.step request = ⟨⟨(Sink.flush e.sink).1, true⟩,
      if request = .drop then .ok .done
      else ((Sink.flush e.sink).2.mapError .io).map fun _ => .done,
      if request = .drop then
        (failures [(Sink.flush e.sink).2]).map fun message => .flushFailed (.io message)
      else []⟩ := by
  have hclose : e.close = e.release := by simp [close, hopen]
  have hfinish : e.finish = e.release := by simp [finish, hopen]
  cases request with
  | emit | isClosed => contradiction
  | close => simp [step, hclose, release_eq]
  | finish => simp [step, hfinish, release_eq]
  | drop =>
    cases hflush : (Sink.flush e.sink).2 <;>
      simp [step, drop, hclose, release_eq, hflush, failures]

theorem emit_open {e : Emitter σ} (hopen : e.released = false) (program? : Option Program)
    (mode : Mode) :
    (e.emit program? mode).state =
        ⟨(Sink.writeTexts e.sink (Listing.pieces mode program?)).1, false⟩ ∧
      ((e.emit program? mode).events = [] ∨
        (e.emit program? mode).events = [emittedEvent program? mode]) := by
  cases hwrite : Sink.writeTexts e.sink (Listing.pieces mode program?) with
  | mk sink result => cases result <;> simp [emit, hopen, hwrite]

theorem released_emit (e : Emitter σ) (program? : Option Program) (mode : Mode) :
    (e.emit program? mode).state.released = e.released := by
  cases hopen : e.released with
  | true => simp [emit, hopen]
  | false => rw [(emit_open hopen program? mode).1]

theorem released_step (e : Emitter σ) (request : Request) :
    (e.step request).state.released = (e.released || request.releases) := by
  cases hopen : e.released with
  | true => rw [step_late hopen, Bool.true_or, hopen]
  | false =>
    cases hreleases : request.releases with
    | true => rw [step_release hopen hreleases]; rfl
    | false =>
      cases request with
      | emit program? mode => exact (e.released_emit program? mode).trans hopen
      | isClosed => exact hopen
      | close | finish | drop => contradiction

theorem released_final (e : Emitter σ) (requests : List Request) :
    (Outcome.final step e requests).released = (e.released || requests.any Request.releases) := by
  induction requests generalizing e with
  | nil => simp
  | cons request requests ih =>
    rw [Outcome.final_cons, ih, released_step, Bool.or_assoc, List.any_cons]

theorem final_late {e : Emitter σ} (h : e.released = true) (requests : List Request) :
    Outcome.final step e requests = e := by
  induction requests with
  | nil => rfl
  | cons request requests ih => rw [Outcome.final_cons, step_late h, ih]

def flushedBy (e : Emitter σ) (request : Request) : List (Except String Unit) :=
  if e.released = false ∧ request.releases = true then [(Sink.flush e.sink).2] else []

theorem flushedBy_late {e : Emitter σ} (h : e.released = true) (request : Request) :
    e.flushedBy request = [] :=
  if_neg fun hboth => Bool.false_ne_true (hboth.1.symm.trans h)

theorem flushedBy_release {e : Emitter σ} (hopen : e.released = false) {request : Request}
    (hreleases : request.releases = true) : e.flushedBy request = [(Sink.flush e.sink).2] :=
  if_pos ⟨hopen, hreleases⟩

theorem flushedBy_keep {request : Request} (hkeeps : request.releases = false) (e : Emitter σ) :
    e.flushedBy request = [] :=
  if_neg fun hboth => Bool.false_ne_true (hkeeps.symm.trans hboth.2)

theorem reports_step (e : Emitter σ) (request : Request) :
    request.reports (e.step request) = failures (e.flushedBy request) := by
  cases hopen : e.released with
  | true =>
    rw [step_late hopen, flushedBy_late hopen]
    cases request <;> rfl
  | false =>
    cases hreleases : request.releases with
    | true =>
      rw [step_release hopen hreleases, flushedBy_release hopen hreleases]
      cases (Sink.flush e.sink).2 with
      | ok | error =>
        cases request with
        | emit | isClosed => contradiction
        | close | finish | drop => rfl
    | false =>
      rw [flushedBy_keep hreleases]
      cases request with
      | emit program? mode =>
        obtain ⟨-, hevents | hevents⟩ := emit_open hopen program? mode
        · simp [step, Request.reports, hevents, failures]
        · cases program? <;> simp [step, Request.reports, hevents, emittedEvent, failures]
      | isClosed => rfl
      | close | finish | drop => contradiction

theorem reported_cons (e : Emitter σ) (request : Request) (requests : List Request) :
    reported e (request :: requests) =
      request.reports (e.step request) ++ reported (e.step request).state requests := rfl

def unwatched (e : Emitter (Watched σ)) : Emitter σ :=
  ⟨e.sink.sink, e.released⟩

/-- Watching a sink does not change what it is used for, and counts the flushes. -/
theorem step_watched (e : Emitter (Watched σ)) (request : Request) :
    ((e.step request).state.unwatched = (e.unwatched.step request).state ∧
      (e.step request).answer = (e.unwatched.step request).answer ∧
      (e.step request).events = (e.unwatched.step request).events) ∧
      (e.step request).state.sink.flushes =
        e.sink.flushes ++ e.unwatched.flushedBy request := by
  cases hopen : e.released with
  | true =>
    have hopen' : e.unwatched.released = true := hopen
    rw [step_late hopen, step_late hopen', flushedBy_late hopen', List.append_nil]
    exact ⟨⟨rfl, rfl, rfl⟩, rfl⟩
  | false =>
    have hopen' : e.unwatched.released = false := hopen
    cases hreleases : request.releases with
    | true =>
      rw [step_release hopen hreleases, step_release hopen' hreleases,
        flushedBy_release hopen' hreleases]
      exact ⟨⟨rfl, rfl, rfl⟩, rfl⟩
    | false =>
      rw [flushedBy_keep hreleases, List.append_nil]
      cases request with
      | emit program? mode =>
        cases hwrite : (Sink.writeTexts e.sink.sink (Listing.pieces mode program?)) with
        | mk sink result =>
          cases result <;>
            simp [step, emit, hopen, Watched.writeTexts_eq, hwrite, unwatched]
      | isClosed => exact ⟨⟨rfl, rfl, rfl⟩, rfl⟩
      | close | finish | drop => contradiction

def told (outcome : Outcome (Emitter σ) (Except EmitError Reply)) :
    Except EmitError Reply × List Event :=
  (outcome.answer, outcome.events)

theorem final_watched (e : Emitter (Watched σ)) (requests : List Request) :
    (Outcome.final step e requests).unwatched = Outcome.final step e.unwatched requests ∧
      (Outcome.trace step e requests).map told =
        (Outcome.trace step e.unwatched requests).map told := by
  induction requests generalizing e with
  | nil => exact ⟨rfl, rfl⟩
  | cons request requests ih =>
    obtain ⟨⟨hstate, hanswer, hevents⟩, -⟩ := step_watched e request
    obtain ⟨hfinal, htrace⟩ := ih (e.step request).state
    rw [hstate] at hfinal htrace
    refine ⟨hfinal, ?_⟩
    simp only [Outcome.trace, List.map_cons, htrace, told, hanswer, hevents]

/-- In a row of requests there is a flush if one of them releases the sink, and
the failures that are told are those of the flushes. -/
theorem exists_flushes (e : Emitter (Watched σ)) (requests : List Request) : ∃ results,
    (Outcome.final step e requests).sink.flushes = e.sink.flushes ++ results ∧
      reported e.unwatched requests = failures results ∧
      results.length =
        if e.released = false ∧ requests.any Request.releases = true then 1 else 0 := by
  induction requests generalizing e with
  | nil => exact ⟨[], by simp, rfl, by simp⟩
  | cons request requests ih =>
    obtain ⟨⟨hstate, -, -⟩, hflushes⟩ := step_watched e request
    obtain ⟨results, hfinal, hreported, hlength⟩ := ih (e.step request).state
    refine ⟨e.unwatched.flushedBy request ++ results, ?_, ?_, ?_⟩
    · rw [Outcome.final_cons, hfinal, hflushes, List.append_assoc]
    · rw [reported_cons, reports_step, ← hstate, hreported, failures, failures, failures,
        List.filterMap_append]
    · rw [List.length_append, hlength, released_step, flushedBy]
      cases hopen : e.released <;> cases hreleases : request.releases <;>
        simp [unwatched, hopen, hreleases]

/-- An emitter is closed from the first release on. That is when its sink is
flushed, for the one time, and if the flush fails this is told once: to the one
who closes or finishes, and by an event only where the emitter is dropped open.
The drop that follows a finish comes late, like all other requests after a
release. -/
theorem flush_reported_once (s : σ) (requests : List Request) :
    let e := Outcome.final step (ofSink s) requests
    let watched := Outcome.final step (ofSink (Watched.ofSink s)) requests
    (e.released = requests.any Request.releases ∧
        (e.step .isClosed).answer = .ok (.closed e.released) ∧
        ∀ program? mode, (e.step (.emit program? mode)).state.released = e.released) ∧
      (watched.unwatched = e ∧
        (Outcome.trace step (ofSink (Watched.ofSink s)) requests).map told =
          (Outcome.trace step (ofSink s) requests).map told) ∧
      watched.sink.flushes.length = (if requests.any Request.releases then 1 else 0) ∧
      reported (ofSink s) requests = failures watched.sink.flushes ∧
      (e.released = true → ∀ request more,
        e.step request = ⟨e, request.late, []⟩ ∧ Outcome.final step e more = e) ∧
      (e.released = false → ∀ request : Request, request.releases = true →
        let outcome := e.step request
        outcome.state = ⟨(Sink.flush e.sink).1, true⟩ ∧
          match (Sink.flush e.sink).2 with
          | .ok () => outcome.answer = .ok .done ∧ outcome.events = []
          | .error message =>
            if request = .drop then
              outcome.answer = .ok .done ∧ outcome.events = [.flushFailed (.io message)]
            else outcome.answer = .error (.io message) ∧ outcome.events = []) ∧
      ∀ error : EmitError, (Event.flushFailed error).level = .error ∧
        (Event.flushFailed error).fields = [("err", error.message)] := by
  intro e watched
  obtain ⟨results, hflushes, hreported, hlength⟩ :=
    exists_flushes (ofSink (Watched.ofSink s)) requests
  have hresults : watched.sink.flushes = results := hflushes
  have hreleased : e.released = requests.any Request.releases := by
    rw [released_final, ofSink, Bool.false_or]
  refine ⟨⟨hreleased, rfl, e.released_emit⟩, final_watched _ requests, ?_, ?_, ?_, ?_,
    fun _ => ⟨rfl, rfl⟩⟩
  · rw [hresults, hlength]
    simp [ofSink]
  · rw [hresults, ← hreported]
    rfl
  · exact fun h request more => ⟨step_late h request, final_late h more⟩
  · intro hopen request hreleases outcome
    have houtcome : outcome = _ := step_release hopen hreleases
    rw [houtcome]
    refine ⟨rfl, ?_⟩
    cases (Sink.flush e.sink).2 with
    | ok => simp [failures, Except.map]
    | error message => split <;> simp_all [failures, Except.map]

theorem flush_reported_once_dropped :
    let terms : SinkTerms := ⟨some 3, none, true, some "disk full", some "disk gone"⟩
    let requests : List Request := [.emit (some [.nop]) .compact, .isClosed]
    let e := session terms requests
    let finished := session terms (requests ++ [.finish])
    e.released = false ∧ (e.step .finish).answer = .error (.io "disk gone") ∧
      (e.step .drop).events = [.flushFailed (.io "disk gone")] ∧
      finished.released = true ∧ finished.step .drop = ⟨finished, .ok .done, []⟩ ∧
      finished.step (.emit none .annotated) = ⟨finished, .error .closed, []⟩ := by
  intro terms requests e finished
  obtain ⟨⟨hopen, -⟩, -, -, -, -, hrelease, -⟩ :=
    flush_reported_once (LimitedSink.ofTerms terms) requests
  obtain ⟨⟨hclosed, -⟩, -, -, -, hlate, -⟩ :=
    flush_reported_once (LimitedSink.ofTerms terms) (requests ++ [.finish])
  have hterms : e.sink.terms = terms := (keeps_session (by decide) requests).terms_eq
  have hflush : (Sink.flush (Outcome.final step (ofSink (LimitedSink.ofTerms terms))
      requests).sink).2 = .error "disk gone" := by
    change e.sink.flush.2 = _
    simp [LimitedSink.flush, hterms, terms]
  obtain ⟨-, hfinish⟩ := hrelease hopen .finish rfl
  obtain ⟨-, hdrop⟩ := hrelease hopen .drop rfl
  rw [hflush] at hfinish hdrop
  exact ⟨hopen, hfinish.1, hdrop.2, hclosed, (hlate hclosed .drop []).1,
    (hlate hclosed (.emit none .annotated) []).1⟩

end ActionCode.Emitter
