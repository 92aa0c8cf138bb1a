import ActionCode.Event

namespace ActionCode.Outcome

variable {σ ρ α : Type}

def final (step : σ → ρ → Outcome σ α) (s : σ) (requests : List ρ) : σ :=
  requests.foldl (fun s request => (step s request).state) s

def log (step : σ → ρ → Outcome σ α) (s : σ) (requests : List ρ) : List Event :=
  (trace step s requests).flatMap Outcome.events

def Answers (step : σ → ρ → Outcome σ α) (s : σ) (requests : List ρ) (answer : α) : Prop :=
  ∀ outcome ∈ trace step s requests, outcome.answer = answer

variable {step : σ → ρ → Outcome σ α} {s : σ} {answer : α}

@[simp] theorem final_nil : final step s [] = s := rfl

@[simp] theorem final_cons (request : ρ) (requests : List ρ) :
    final step s (request :: requests) = final step (step s request).state requests := rfl

theorem final_append (front back : List ρ) :
    final step s (front ++ back) = final step (final step s front) back :=
  List.foldl_append

theorem trace_append (front back : List ρ) :
    trace step s (front ++ back) = trace step s front ++ trace step (final step s front) back := by
  induction front generalizing s with
  | nil => rfl
  | cons request front ih => exact congrArg (step s request :: ·) ih

@[simp] theorem log_nil : log step s [] = [] := rfl

theorem log_cons (request : ρ) (requests : List ρ) :
    log step s (request :: requests) =
      (step s request).events ++ log step (step s request).state requests :=
  List.flatMap_cons

theorem log_append (front back : List ρ) :
    log step s (front ++ back) = log step s front ++ log step (final step s front) back := by
  rw [log, trace_append, List.flatMap_append]
  rfl

theorem log_concat (requests : List ρ) (request : ρ) :
    log step s (requests ++ [request]) =
      log step s requests ++ (step (final step s requests) request).events := by
  rw [log_append, log_cons, log_nil, List.append_nil]

theorem answers_nil : Answers step s [] answer := by
  simp [Answers, trace]

theorem answers_cons_iff {request : ρ} {requests : List ρ} :
    Answers step s (request :: requests) answer ↔
      (step s request).answer = answer ∧ Answers step (step s request).state requests answer := by
  simp [Answers, trace]

theorem answers_append_iff {front back : List ρ} :
    Answers step s (front ++ back) answer ↔
      Answers step s front answer ∧ Answers step (final step s front) back answer := by
  rw [Answers, trace_append, List.forall_mem_append]
  rfl

end ActionCode.Outcome
