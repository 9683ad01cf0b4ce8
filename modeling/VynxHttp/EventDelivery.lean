import VynxHttp.EventLoop

/-!
# Which handlers are called

What an iteration owes to the sockets is told by the socket each event is
about, whatever the poller makes of it.  Only `kqueue` passes the handle on, so
with the two other pollers no handler is ever called.
-/

namespace VynxHttp

namespace EventLoop

variable {poller : Poller} {loop : EventLoop}
  {react : List Delivery → List SocketOp}

/-- From the calls so far to all calls: every event in turn is passed to the
handler which its socket has by then, once and with the handle of the socket.
An event of a socket which a handler has unregistered in the meantime is
dropped. -/
inductive Reaches (poller : Poller) (react : List Delivery → List SocketOp) :
    EventLoop → List Delivery → List (Readiness poller) →
      List Delivery → Prop where
  | done (loop : EventLoop) (calls : List Delivery) :
      Reaches poller react loop calls [] calls
  | dropped {loop : EventLoop} {calls final : List Delivery}
      {ready : Readiness poller} {batch : List (Readiness poller)} :
      loop.handlers ready.handle = none →
      Reaches poller react loop calls batch final →
      Reaches poller react loop calls (ready :: batch) final
  | called {loop : EventLoop} {calls calls' final : List Delivery}
      {ready : Readiness poller} {batch : List (Readiness poller)}
      {handler : HandlerId} :
      loop.handlers ready.handle = some handler →
      calls' = calls ++
        [⟨handler, ready.handle, poller.convertBackEvents ready.report⟩] →
      Reaches poller react (loop.call poller (react calls')) calls' batch
        final →
      Reaches poller react loop calls (ready :: batch) final

theorem Reaches.calls_kept {calls final : List Delivery}
    {batch : List (Readiness poller)}
    (hreaches : Reaches poller react loop calls batch final) :
    calls <+: final := by
  induction hreaches with
  | done => exact List.prefix_refl _
  | dropped _ _ ih => exact ih
  | called _ hcalls _ ih =>
      subst hcalls
      exact (List.prefix_append _ _).trans ih

theorem Reaches.ne_nil {calls final : List Delivery}
    {ready : Readiness poller} {batch : List (Readiness poller)}
    (hregistered : loop.handlers ready.handle ≠ none)
    (hreaches : Reaches poller react loop calls (ready :: batch) final) :
    final ≠ [] := by
  cases hreaches with
  | dropped hnone _ => exact absurd hnone hregistered
  | called _ hcalls hrest =>
      rintro rfl
      have hinitial := hrest.calls_kept
      rw [hcalls, List.prefix_nil] at hinitial
      simp at hinitial

theorem Reaches.unique {calls final final' : List Delivery}
    {batch : List (Readiness poller)}
    (hreaches : Reaches poller react loop calls batch final)
    (hreaches' : Reaches poller react loop calls batch final') :
    final = final' := by
  induction hreaches with
  | done =>
      cases hreaches'
      rfl
  | dropped hnone _ ih =>
      cases hreaches' with
      | dropped _ hrest => exact ih hrest
      | called hsome _ _ => simp [hnone] at hsome
  | called hsome hcalls _ ih =>
      cases hreaches' with
      | dropped hnone _ => simp [hnone] at hsome
      | called hsome' hcalls' hrest =>
          rw [hsome, Option.some.injEq] at hsome'
          subst hsome' hcalls hcalls'
          exact ih hrest

/-- Where the handlers leave the registrations as they are, the calls are the
events one by one. -/
theorem reaches_passive_iff {calls final : List Delivery}
    {batch : List (Readiness poller)} (handlerOf : NativeHandle → HandlerId)
    (hregistered : ∀ ready ∈ batch,
      loop.handlers ready.handle = some (handlerOf ready.handle)) :
    Reaches poller (fun _ => []) loop calls batch final ↔
      final = calls ++ batch.map fun ready =>
        ⟨handlerOf ready.handle, ready.handle,
          poller.convertBackEvents ready.report⟩ := by
  have hpassive : Reaches poller (fun _ => []) loop calls batch
      (calls ++ batch.map fun ready =>
        ⟨handlerOf ready.handle, ready.handle,
          poller.convertBackEvents ready.report⟩) := by
    induction batch generalizing loop calls with
    | nil => simpa using Reaches.done loop calls
    | cons ready batch ih =>
        refine .called (hregistered ready (by simp)) rfl ?_
        have hrest := @ih (loop.call poller [])
          (calls ++ [⟨handlerOf ready.handle, ready.handle,
            poller.convertBackEvents ready.report⟩])
          fun other hmem => hregistered other (by simp [hmem])
        rw [List.append_assoc, List.singleton_append] at hrest
        exact hrest
  constructor
  · exact fun hreaches => hreaches.unique hpassive
  · rintro rfl
    exact hpassive

/-! ## What the loop does -/

theorem dispatch_nil_of_invalid (hpoller : poller ≠ .kqueue)
    (hinvalid : loop.handlers invalidHandle = none) (calls : List Delivery)
    (batch : List (Readiness poller)) :
    dispatch poller react loop calls (batch.map poller.eventData) =
      (loop, calls) := by
  induction batch with
  | nil => rfl
  | cons ready batch ih =>
      have hhandle : (poller.eventData ready).handle = invalidHandle := by
        cases poller with
        | epoll => rfl
        | kqueue => exact absurd rfl hpoller
        | iocp => rfl
      rw [List.map_cons, dispatch, hhandle, hinvalid]
      exact ih

theorem dispatch_kqueue (calls : List Delivery)
    (batch : List (Readiness .kqueue)) :
    Reaches .kqueue react loop calls batch
      (dispatch .kqueue react loop calls
        (batch.map (Poller.eventData .kqueue))).2 := by
  induction batch generalizing loop calls with
  | nil => exact .done loop calls
  | cons ready batch ih =>
      have hhandle : (Poller.eventData .kqueue ready).handle =
          ready.handle := rfl
      rw [List.map_cons, dispatch, hhandle]
      split
      next hnone => exact .dropped hnone (ih calls)
      next handler hsome => exact .called hsome rfl (ih _)

/-- The handlers of the registered sockets get what a wait reports exactly with
`kqueue`, or when nothing is reported. -/
theorem runOnce_reaches_iff (actions : List (Action poller))
    (iteration : Iteration poller) (batch : List (Readiness poller))
    (hwait : iteration.wait = .reported batch)
    (hregistered : ∀ ready ∈ batch,
      ((actAll {} actions).applyAll poller iteration.tasks).handlers
        ready.handle ≠ none) :
    Reaches poller iteration.react
        ((actAll {} actions).applyAll poller iteration.tasks) [] batch
        ((actAll {} actions).runOnce iteration).2.1 ↔
      poller = .kqueue ∨ batch = [] := by
  have hinvalid : ((actAll {} actions).applyAll poller
      iteration.tasks).handlers invalidHandle = none :=
    applyAll_invalidHandle _ (actAll_invalidHandle actions rfl)
  have hcalls : ((actAll {} actions).runOnce iteration).2.1 =
      (dispatch poller iteration.react
        ((actAll {} actions).applyAll poller iteration.tasks) []
        (batch.map poller.eventData)).2 := by
    simp only [runOnce, hwait, Poller.wait]
  rw [hcalls]
  generalize (actAll {} actions).applyAll poller iteration.tasks = loop
    at hregistered hinvalid ⊢
  constructor
  · intro hreaches
    by_contra hother
    rw [not_or] at hother
    rw [dispatch_nil_of_invalid hother.1 hinvalid] at hreaches
    obtain ⟨ready, rest, rfl⟩ := List.exists_cons_of_ne_nil hother.2
    exact hreaches.ne_nil (hregistered ready (by simp)) rfl
  · rintro (rfl | rfl)
    · exact dispatch_kqueue [] batch
    · exact .done _ _

def twoSockets (poller : Poller) : List (Action poller) :=
  [.socket (.register 5 1 true), .socket (.register 7 2 true)]

/-- Events of both sockets; the handler called first unregisters the other
socket. -/
def secondFirst : Iteration .kqueue where
  wait := .reported [⟨7, ⟨evfiltRead, 0⟩, 2⟩, ⟨7, ⟨evfiltWrite, 0⟩, 2⟩,
    ⟨5, ⟨evfiltRead, 0⟩, 1⟩]
  react := fun _ => [.unregister 5 true]

theorem runOnce_reaches_iff_kqueue :
    Reaches .kqueue secondFirst.react
      ((actAll {} (twoSockets .kqueue)).applyAll .kqueue []) []
      [⟨7, ⟨evfiltRead, 0⟩, 2⟩, ⟨7, ⟨evfiltWrite, 0⟩, 2⟩,
        ⟨5, ⟨evfiltRead, 0⟩, 1⟩]
      [⟨2, 7, .read⟩, ⟨2, 7, .write⟩] :=
  (runOnce_reaches_iff (twoSockets .kqueue) secondFirst _ rfl
    (by decide)).mpr (.inl rfl)

def dataForFirst : Iteration .epoll where
  wait := .reported [⟨5, epollIn, 1⟩]

/-- With `epoll` nobody is called. -/
theorem not_reaches_epoll :
    ¬ Reaches .epoll dataForFirst.react (actAll {} (twoSockets .epoll)) []
      [⟨5, epollIn, 1⟩]
      ((actAll {} (twoSockets .epoll)).runOnce dataForFirst).2.1 := by
  intro hreaches
  exact hreaches.ne_nil (by decide) (by decide)

end EventLoop

end VynxHttp
