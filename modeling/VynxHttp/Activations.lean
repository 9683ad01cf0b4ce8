import VynxHttp.RunTrace

/-!
# The activations of a run

A run is cut into the activations of `do_execute` which make it up, each with
the run before it.  The trace is what they have added, one after the other
(`actAll_trace`), so that what holds of every activation holds of the whole
run.
-/

namespace VynxHttp

/-- One activation of `do_execute`, from the run which it starts in. -/
structure Activation where
  before : Run
  hop : HopOutcomes
  request : HttpRequest
  remaining : ℕ

namespace Activation

variable (activation : Activation)

/-- The request with its defaults. -/
def sent : HttpRequest :=
  activation.before.client.applyDefaults activation.request

def after : Run :=
  (activation.before.executeHop activation.hop activation.request
    activation.remaining).1

/-- The events of the activation, the latest first. -/
def added : List Event :=
  activation.after.trace.take
    (activation.after.trace.length - activation.before.trace.length)

theorem trace_after :
    activation.after.trace = activation.added ++ activation.before.trace := by
  have hsuffix : activation.before.trace <:+ activation.after.trace :=
    (activation.before.executeHop_extends activation.hop activation.request
      activation.remaining).suffix
  obtain ⟨events, hevents⟩ := hsuffix
  have hadded : activation.added = events := by
    rw [added, ← hevents, List.length_append, Nat.add_sub_cancel,
      List.take_left]
  rw [hadded, hevents]

theorem added_eq {events : List Event}
    (hevents : activation.after.trace = events ++ activation.before.trace) :
    activation.added = events :=
  List.append_cancel_right (activation.trace_after.symm.trans hevents)

end Activation

/-- What some activations have added to a trace. -/
def eventsOf (activations : List Activation) : List Event :=
  (activations.reverse.map Activation.added).flatten

theorem eventsOf_cons (activation : Activation)
    (activations : List Activation) :
    eventsOf (activation :: activations) =
      eventsOf activations ++ activation.added := by
  simp [eventsOf]

theorem foldl_added (activations : List Activation) (trace : List Event) :
    activations.foldl (fun trace activation => activation.added ++ trace)
      trace = eventsOf activations ++ trace := by
  induction activations generalizing trace with
  | nil => rfl
  | cons activation activations ih =>
      rw [List.foldl_cons, ih, eventsOf_cons, List.append_assoc]

namespace Run

/-- The activations of one call. -/
def callActivations : List HopOutcomes → Run → HttpRequest → ℕ →
    List Activation
  | [], _, _, _ => []
  | hop :: hops, run, request, remaining =>
      ⟨run, hop, request, remaining⟩ ::
        match run.executeHop hop request remaining with
        | (run, .follow next) => callActivations hops run next (remaining - 1)
        | _ => []

/-- The activations of one action. -/
def actActivations (run : Run) : Action → List Activation
  | .execute request hops =>
      callActivations hops run request run.client.config.maxRedirects
  | _ => []

/-- What the actions of a run yield, up to the first which does not return. -/
def collect {β : Type*} (yield : Run → Action → List β) (run : Run) :
    List Action → List β
  | [] => []
  | action :: actions =>
      yield run action ++
        match run.act action with
        | (run, true) => run.collect yield actions
        | (_, false) => []

def activations (run : Run) (actions : List Action) : List Activation :=
  run.collect actActivations actions

/-! ## Runs as folds -/

section Fold

variable {α β : Type*} (view : Run → α)

theorem doExecute_foldl {step : α → Activation → α}
    (hstep : ∀ activation : Activation,
      view activation.after = step (view activation.before) activation)
    (hops : List HopOutcomes) (run : Run) (request : HttpRequest)
    (remaining : ℕ) :
    view (doExecute hops run request remaining).1 =
      (callActivations hops run request remaining).foldl step (view run) := by
  induction hops generalizing run request remaining with
  | nil => rfl
  | cons hop hops ih =>
      have hhop := hstep ⟨run, hop, request, remaining⟩
      rw [doExecute, callActivations, List.foldl_cons, ← hhop,
        Activation.after]
      split
      next heq =>
        simp only [heq]
        rfl
      next heq =>
        simp only [heq]
        rfl
      next heq =>
        simp only [heq]
        exact ih _ _ _

/-- The activations of a call up to one of them lead to the view which it
starts from. -/
theorem exists_of_mem_callActivations (step : α → Activation → α)
    (hstep : ∀ activation : Activation,
      view activation.after = step (view activation.before) activation)
    (hops : List HopOutcomes) (run : Run) (request : HttpRequest)
    (remaining : ℕ) {activation : Activation}
    (hmem : activation ∈ callActivations hops run request remaining) :
    ∃ earlier later,
      callActivations hops run request remaining =
        earlier ++ activation :: later ∧
      view activation.before = earlier.foldl step (view run) := by
  induction hops generalizing run request remaining with
  | nil => simp [callActivations] at hmem
  | cons hop hops ih =>
      have hhop := hstep ⟨run, hop, request, remaining⟩
      rw [callActivations] at hmem ⊢
      rcases List.mem_cons.mp hmem with rfl | hlater
      · exact ⟨[], _, rfl, rfl⟩
      · split at hlater
        next after next heq =>
          simp only [Activation.after, heq] at hhop ⊢
          obtain ⟨earlier, later, hsplit, hbefore⟩ := ih _ _ _ hlater
          refine ⟨⟨run, hop, request, remaining⟩ :: earlier, later, ?_, ?_⟩
          · rw [hsplit, List.cons_append]
          · rw [hbefore, hhop, List.foldl_cons]
        next => simp at hlater

variable {step : α → β → α} {yield : Run → Action → List β}

theorem actAll_foldl
    (hact : ∀ run action,
      view (run.act action).1 = (yield run action).foldl step (view run))
    (run : Run) (actions : List Action) :
    view (run.actAll actions) =
      (run.collect yield actions).foldl step (view run) := by
  induction actions generalizing run with
  | nil => rfl
  | cons action actions ih =>
      rw [actAll, collect, List.foldl_append, ← hact]
      split
      next heq =>
        simp only [heq]
        exact ih _
      next heq =>
        simp only [heq]
        rfl

/-- What is yielded is yielded by one action, from the view which the earlier
actions have led to. -/
theorem exists_of_mem_collect
    (hact : ∀ run action,
      view (run.act action).1 = (yield run action).foldl step (view run))
    {γ : Type*} {yield' : Run → Action → List γ} {item : γ} (run : Run)
    (actions : List Action) (hmem : item ∈ run.collect yield' actions) :
    ∃ (mid : Run) (action : Action) (earlier later : List β),
      item ∈ yield' mid action ∧
      run.collect yield actions = earlier ++ yield mid action ++ later ∧
      view mid = earlier.foldl step (view run) := by
  induction actions generalizing run with
  | nil => simp [collect] at hmem
  | cons action actions ih =>
      have hview := hact run action
      rw [collect] at hmem ⊢
      rcases List.mem_append.mp hmem with hhere | hlater
      · exact ⟨run, action, [], _, hhere, rfl, rfl⟩
      · split at hlater
        next after heq =>
          simp only [heq] at hview ⊢
          obtain ⟨mid, action', earlier, later, hitem, hsplit, hmid⟩ :=
            ih after hlater
          refine ⟨mid, action', yield run action ++ earlier, later, hitem, ?_,
            ?_⟩
          · rw [hsplit]
            simp only [List.append_assoc]
          · rw [hmid, hview, List.foldl_append]
        next => simp at hlater

end Fold

/-! ## The trace -/

theorem act_trace (run : Run) (action : Action) :
    (run.act action).1.trace =
      (run.actActivations action).foldl
        (fun trace activation => activation.added ++ trace) run.trace := by
  cases action with
  | execute request hops =>
      exact doExecute_foldl Run.trace Activation.trace_after _ _ _ _
  | configure config => rfl
  | setCookies cookies => rfl
  | onRedirect callback => rfl

/-- The trace of a run is what its activations have added. -/
theorem actAll_trace (run : Run) (actions : List Action) :
    (run.actAll actions).trace =
      eventsOf (run.activations actions) ++ run.trace := by
  rw [← foldl_added]
  exact actAll_foldl Run.trace act_trace run actions

end Run

end VynxHttp
