import VynxHttp.HopSteps

/-!
# Traces of runs

The trace only grows.  What one activation of `do_execute` adds to it is about
the request with its defaults, and an activation which ends in a redirect leaves
the redirect as its latest event.
-/

namespace VynxHttp

open EventLog

/-- What is sent and what is redirected is this request. -/
def Event.OfRequest (request : HttpRequest) : Event → Prop
  | .requested _ _ scheme sent _ =>
      scheme = request.effectiveScheme ∧ sent = request
  | .followed sent _ => sent = request
  | _ => True

theorem Event.Opening.ofRequest {event : Event} (hopening : event.Opening)
    (request : HttpRequest) : event.OfRequest request := by
  cases event <;> trivial

theorem Event.Closing.ofRequest {event : Event} {request : HttpRequest}
    (hclosing : event.Closing request) : event.OfRequest request := by
  cases event with
  | requested => exact hclosing.elim
  | followed => exact hclosing
  | _ => trivial

namespace Run

/-! ## One activation -/

@[simp] theorem trace_recordResponse (run : Run) (doneAt : ℤ)
    (key : Bytes) (request : HttpRequest) (entry : PoolEntry)
    (response : HttpResponse) (following : Bool) :
    (run.recordResponse doneAt key request entry response following).trace =
      .responded entry.conn response following ::
        .active entry.conn doneAt :: run.trace := rfl

theorem executeHop_extends (run : Run) (hop : HopOutcomes)
    (request : HttpRequest) (remaining : ℕ) :
    Extends (Event.OfRequest (run.client.applyDefaults request)) run.trace
      (run.executeHop hop request remaining).1.trace := by
  rcases run.executeHop_cases hop request remaining with
    ⟨opened, code, hopens, hfailed⟩ |
      ⟨opened, entry, hopens, _, hexchange⟩
  · rw [hfailed]
    exact hopens.events.mono fun event hevent => hevent.ofRequest _
  · rw [hexchange]
    generalize run.client.applyDefaults request = request
    generalize poolKey request.effectiveScheme request.host request.port = key
    have hopened : Extends (Event.OfRequest request) run.trace opened.trace :=
      hopens.events.mono fun event hevent => hevent.ofRequest _
    have hsent : Extends (Event.OfRequest request) run.trace
        (opened.sentOn hop request.effectiveScheme request entry).trace :=
      hopened.cons ⟨rfl, rfl⟩
    have hclosed := opened.exchange_closes hop request.effectiveScheme key
      request remaining entry
    exact hsent.trans (hclosed.mono fun event hevent => hevent.ofRequest)

/-! ## Redirects -/

/-- A stage has ended in a redirect of the request. -/
def Redirects (run run' : Run) (request next : HttpRequest) : Prop :=
  ∃ url target status past, parseUrl url = .ok target ∧
    next = redirectRequest request status target ∧ run.trace <:+ past ∧
    run'.trace = .followed request target :: past

theorem Redirects.of_suffix {run mid run' : Run}
    {request next : HttpRequest} (hsuffix : run.trace <:+ mid.trace)
    (hredirects : Redirects mid run' request next) :
    Redirects run run' request next := by
  obtain ⟨url, target, status, past, hparse, hnext, hpast, htrace⟩ :=
    hredirects
  exact ⟨url, target, status, past, hparse, hnext, hsuffix.trans hpast,
    htrace⟩

theorem followRedirect_follow {run run' : Run} {scheme : Bytes}
    {request next : HttpRequest} {response : HttpResponse}
    (hstep : run.followRedirect scheme request response =
      (run', .follow next)) : Redirects run run' request next := by
  unfold followRedirect at hstep
  split at hstep
  next => simp at hstep
  next =>
    split at hstep
    next => simp at hstep
    next url _ =>
      simp only at hstep
      split at hstep
      next => simp at hstep
      next target hparse =>
        simp only [Prod.mk.injEq, HopResult.follow.injEq] at hstep
        obtain ⟨rfl, rfl⟩ := hstep
        exact ⟨url, target, response.statusCode, _, hparse, rfl,
          (run.announceRedirect_closes request _ _ _).suffix, rfl⟩

theorem exchange_follow {run run' : Run} {hop : HopOutcomes}
    {scheme key : Bytes} {request next : HttpRequest} {remaining : ℕ}
    {entry : PoolEntry}
    (hstep : run.exchange hop scheme key request remaining entry =
      (run', .follow next)) : Redirects run run' request next := by
  rcases run.exchange_cases hop scheme key request remaining entry with
    hblocked | ⟨code, hfailed⟩ | ⟨entry', response, hfinish⟩
  · simp [hblocked] at hstep
  · simp [hfailed] at hstep
  · have hsent : run.trace <:+ (run.sentOn hop scheme request entry).trace :=
      List.suffix_cons _ _
    rw [hfinish] at hstep
    rcases (run.sentOn hop scheme request entry).finishHop_cases hop.doneAt
        scheme key request remaining entry' response with
      ⟨_, hfollows⟩ | ⟨_, kept, _, hreturns⟩
    · rw [hfollows] at hstep
      apply (followRedirect_follow hstep).of_suffix
      rw [trace_recordResponse]
      exact (hsent.trans (List.suffix_cons _ _)).trans (List.suffix_cons _ _)
    · simp [hreturns] at hstep

theorem executeHop_follow {run run' : Run} {hop : HopOutcomes}
    {request next : HttpRequest} {remaining : ℕ}
    (hstep : run.executeHop hop request remaining = (run', .follow next)) :
    Redirects run run' (run.client.applyDefaults request) next := by
  rcases run.executeHop_cases hop request remaining with
    ⟨opened, code, _, hfailed⟩ | ⟨opened, entry, hopens, _, hexchange⟩
  · simp [hfailed] at hstep
  · rw [hexchange] at hstep
    exact (exchange_follow hstep).of_suffix hopens.events.suffix

/-! ## Whole calls and whole runs -/

theorem doExecute_suffix (hops : List HopOutcomes) (run : Run)
    (request : HttpRequest) (remaining : ℕ) :
    run.trace <:+ (doExecute hops run request remaining).1.trace := by
  induction hops generalizing run request remaining with
  | nil => exact List.suffix_refl _
  | cons hop hops ih =>
      have hhop := (run.executeHop_extends hop request remaining).suffix
      rw [doExecute]
      split
      next hstep =>
        rw [hstep] at hhop
        exact hhop
      next hstep =>
        rw [hstep] at hhop
        exact hhop
      next hstep =>
        rw [hstep] at hhop
        exact hhop.trans (ih _ _ _)

theorem act_suffix (run : Run) (action : Action) :
    run.trace <:+ (run.act action).1.trace := by
  cases action with
  | execute request hops => exact doExecute_suffix _ _ _ _
  | configure config => exact List.suffix_refl _
  | setCookies cookies => exact List.suffix_refl _
  | onRedirect callback => exact List.suffix_refl _

theorem actAll_suffix (run : Run) (actions : List Action) :
    run.trace <:+ (run.actAll actions).trace := by
  induction actions generalizing run with
  | nil => exact List.suffix_refl _
  | cons action actions ih =>
      have hact := run.act_suffix action
      rw [actAll]
      split
      next hstep =>
        rw [hstep] at hact
        exact hact.trans (ih _)
      next hstep =>
        rw [hstep] at hact
        exact hact

end Run

end VynxHttp
