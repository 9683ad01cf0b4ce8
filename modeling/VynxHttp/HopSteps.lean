import VynxHttp.EventLog
import VynxHttp.HttpClient

/-!
# What one activation can do

An activation of `do_execute` first obtains a connection, which leaves the
settings and the cookies of the client as they are (`Opens`), and then makes at
most one exchange, whose request only `Closing` events can follow.
`executeHop_cases`, `exchange_cases` and `finishHop_cases` list what can come of
it, and `answer` is the response which it brings.
-/

namespace VynxHttp

open EventLog

/-- What is done to obtain a connection. -/
def Event.Opening : Event → Prop
  | .connected .. | .handshaken .. | .active .. | .reused .. => True
  | _ => False

/-- What can follow a request in an activation. -/
def Event.Closing (request : HttpRequest) : Event → Prop
  | .failed .. | .active .. | .responded .. | .redirected .. => True
  | .followed sent _ => sent = request
  | _ => False

/-- The settings which `do_execute` reads and nothing in it changes. -/
structure SameSettings (client client' : HttpClient) : Prop where
  config_eq : client'.config = client.config
  callback_eq : client'.redirectCallback = client.redirectCallback

theorem SameSettings.refl (client : HttpClient) :
    SameSettings client client := ⟨rfl, rfl⟩

theorem SameSettings.trans {client client' client'' : HttpClient}
    (hfirst : SameSettings client client')
    (hsecond : SameSettings client' client'') :
    SameSettings client client'' where
  config_eq := hsecond.config_eq.trans hfirst.config_eq
  callback_eq := hsecond.callback_eq.trans hfirst.callback_eq

namespace Run

/-- Nothing has been done but to obtain a connection. -/
structure Opens (run run' : Run) : Prop where
  settings : SameSettings run.client run'.client
  cookies_eq : run'.client.cookies = run.client.cookies
  events : Extends Event.Opening run.trace run'.trace

theorem Opens.refl (run : Run) : run.Opens run :=
  ⟨.refl _, rfl, .refl _⟩

theorem Opens.trans {run run' run'' : Run} (hfirst : run.Opens run')
    (hsecond : run'.Opens run'') : run.Opens run'' where
  settings := hfirst.settings.trans hsecond.settings
  cookies_eq := hsecond.cookies_eq.trans hfirst.cookies_eq
  events := hfirst.events.trans hsecond.events

theorem Opens.log {run run' : Run} (hopens : run.Opens run')
    {event : Event} (hevent : event.Opening) :
    run.Opens (run'.log event) where
  settings := hopens.settings
  cookies_eq := hopens.cookies_eq
  events := hopens.events.cons hevent

theorem connectSocket_opens (run : Run) (hop : HopOutcomes)
    (request : HttpRequest) :
    run.Opens (run.connectSocket hop request).1 := by
  unfold connectSocket
  split
  next =>
    simp only
    split
    next => exact ⟨.refl _, rfl, .refl _⟩
    next => exact ⟨.refl _, rfl, (Extends.refl _).cons trivial⟩
  next => exact .refl run

theorem ensureTlsContext_opens (run : Run) (hop : HopOutcomes) :
    run.Opens (run.ensureTlsContext hop).1 := by
  unfold ensureTlsContext
  split
  next => exact .refl run
  next =>
    split
    next => exact .refl run
    next => exact ⟨⟨rfl, rfl⟩, rfl, .refl _⟩

theorem secureSocket_opens (run : Run) (hop : HopOutcomes)
    (hostname : Bytes) (socket : TcpSocket) :
    run.Opens (run.secureSocket hop hostname socket).1 := by
  have hcontext := run.ensureTlsContext_opens hop
  unfold secureSocket
  split
  next code hstep =>
    rw [hstep] at hcontext
    exact hcontext
  next hstep =>
    rw [hstep] at hcontext
    split
    next => exact hcontext
    next =>
      split
      next => exact hcontext
      next => exact hcontext.log trivial

theorem insert_opens (run : Run) (key : Bytes) (entry : PoolEntry) :
    run.Opens (run.insert key entry).1 :=
  ⟨⟨rfl, rfl⟩, rfl, (Extends.refl _).cons trivial⟩

theorem openConnection_opens (run : Run) (hop : HopOutcomes)
    (scheme key : Bytes) (request : HttpRequest) :
    run.Opens (run.openConnection hop scheme key request).1 := by
  have hconnect := run.connectSocket_opens hop request
  unfold openConnection
  split
  next code hstep =>
    rw [hstep] at hconnect
    exact hconnect
  next connected socket hstep =>
    rw [hstep] at hconnect
    split
    next =>
      have hsecure := connected.secureSocket_opens hop request.host socket
      split
      next code hsecured =>
        rw [hsecured] at hsecure
        exact hconnect.trans hsecure
      next secured tls hsecured =>
        rw [hsecured] at hsecure
        exact (hconnect.trans hsecure).trans (secured.insert_opens _ _)
    next => exact hconnect.trans (connected.insert_opens _ _)

theorem obtainConnection_opens (run : Run) (hop : HopOutcomes)
    (scheme key : Bytes) (request : HttpRequest) :
    run.Opens (run.obtainConnection hop scheme key request).1 := by
  unfold obtainConnection
  split
  next =>
    split
    next => exact (Opens.refl run).log trivial
    next =>
      have herased : run.Opens (run.erase key) :=
        ⟨⟨rfl, rfl⟩, rfl, .refl _⟩
      exact herased.trans ((run.erase key).openConnection_opens _ _ _ _)
  next => exact run.openConnection_opens _ _ _ _

/-! ## The exchange -/

/-- The request has been handed to the transport. -/
def sentOn (run : Run) (hop : HopOutcomes) (scheme : Bytes)
    (request : HttpRequest) (entry : PoolEntry) : Run :=
  run.log (.requested entry.conn entry.viaTls scheme request
    (entry.sendRequest request hop.sends).1)

theorem exchange_cases (run : Run) (hop : HopOutcomes) (scheme key : Bytes)
    (request : HttpRequest) (remaining : ℕ) (entry : PoolEntry) :
    run.exchange hop scheme key request remaining entry =
        (run.sentOn hop scheme request entry, .blocked) ∨
      (∃ code, run.exchange hop scheme key request remaining entry =
        (((run.sentOn hop scheme request entry).erase key).log
          (.failed entry.conn), .returned (.error code))) ∨
      ∃ entry' response,
        run.exchange hop scheme key request remaining entry =
          (run.sentOn hop scheme request entry).finishHop hop.doneAt scheme
            key request remaining entry' response := by
  unfold exchange sentOn
  simp only
  split
  next => exact .inl rfl
  next => exact .inr (.inl ⟨_, rfl⟩)
  next => exact .inr (.inr ⟨_, _, rfl⟩)

/-- Whether the redirect branch deals with a response. -/
def following (run : Run) (remaining : ℕ) (response : HttpResponse) : Bool :=
  response.isRedirect && run.client.config.followRedirects &&
    decide (0 < remaining)

theorem following_iff {run : Run} {remaining : ℕ}
    {response : HttpResponse} :
    run.following remaining response = true ↔
      response.isRedirect = true ∧
        run.client.config.followRedirects = true ∧ 0 < remaining := by
  simp [following, and_assoc]

theorem finishHop_cases (run : Run) (doneAt : ℤ) (scheme key : Bytes)
    (request : HttpRequest) (remaining : ℕ) (entry : PoolEntry)
    (response : HttpResponse) :
    (run.following remaining response = true ∧
      run.finishHop doneAt scheme key request remaining entry response =
        (run.recordResponse doneAt key request entry response
          true).followRedirect scheme request response) ∨
    run.following remaining response = false ∧
      ∃ kept, (kept = run.recordResponse doneAt key request entry response
            false ∨
          kept = (run.recordResponse doneAt key request entry response
            false).erase key) ∧
        run.finishHop doneAt scheme key request remaining entry response =
          (kept, .returned (.ok response)) := by
  unfold finishHop
  simp only
  cases hfollowing : run.following remaining response with
  | true =>
      simp only [following] at hfollowing
      rw [hfollowing, if_pos rfl]
      exact .inl ⟨rfl, rfl⟩
  | false =>
      simp only [following] at hfollowing
      rw [hfollowing, if_neg (by simp)]
      right
      split
      next => exact ⟨rfl, _, .inl rfl, rfl⟩
      next => exact ⟨rfl, _, .inr rfl, rfl⟩

theorem announceRedirect_client (run : Run) (source target : Bytes)
    (status : UInt16) :
    (run.announceRedirect source target status).client = run.client := by
  unfold announceRedirect
  split
  next => rfl
  next => rfl

theorem followRedirect_client (run : Run) (scheme : Bytes)
    (request : HttpRequest) (response : HttpResponse) :
    (run.followRedirect scheme request response).1.client = run.client := by
  unfold followRedirect
  split
  next => rfl
  next =>
    split
    next => rfl
    next =>
      simp only
      split
      next => exact run.announceRedirect_client _ _ _
      next => exact run.announceRedirect_client _ _ _

theorem announceRedirect_closes (run : Run) (request : HttpRequest)
    (source target : Bytes) (status : UInt16) :
    Extends (Event.Closing request) run.trace
      (run.announceRedirect source target status).trace := by
  unfold announceRedirect
  split
  next => exact (Extends.refl _).cons trivial
  next => exact .refl _

theorem followRedirect_closes (run : Run) (scheme : Bytes)
    (request : HttpRequest) (response : HttpResponse) :
    Extends (Event.Closing request) run.trace
      (run.followRedirect scheme request response).1.trace := by
  unfold followRedirect
  split
  next => exact .refl _
  next =>
    split
    next => exact .refl _
    next =>
      simp only
      split
      next => exact run.announceRedirect_closes _ _ _ _
      next => exact (run.announceRedirect_closes _ _ _ _).cons rfl

theorem exchange_closes (run : Run) (hop : HopOutcomes) (scheme key : Bytes)
    (request : HttpRequest) (remaining : ℕ) (entry : PoolEntry) :
    Extends (Event.Closing request) (run.sentOn hop scheme request entry).trace
      (run.exchange hop scheme key request remaining entry).1.trace := by
  rcases run.exchange_cases hop scheme key request remaining entry with
    hblocked | ⟨code, hfailed⟩ | ⟨entry', response, hfinish⟩
  · rw [hblocked]
    exact .refl _
  · rw [hfailed]
    exact (Extends.refl _).cons trivial
  · rw [hfinish]
    generalize run.sentOn hop scheme request entry = sent
    have hrecorded : ∀ following : Bool, Extends (Event.Closing request) sent.trace
        (sent.recordResponse hop.doneAt key request entry' response
          following).trace := fun _ =>
      ((Extends.refl _).cons trivial).cons trivial
    rcases sent.finishHop_cases hop.doneAt scheme key request remaining
        entry' response with ⟨_, hfollows⟩ | ⟨_, kept, hkept, hreturns⟩
    · rw [hfollows]
      exact (hrecorded true).trans (followRedirect_closes _ _ _ _)
    · rw [hreturns]
      rcases hkept with rfl | rfl
      all_goals exact hrecorded false

theorem executeHop_cases (run : Run) (hop : HopOutcomes)
    (request : HttpRequest) (remaining : ℕ) :
    (∃ run' code, run.Opens run' ∧
      run.executeHop hop request remaining =
        (run', .returned (.error code))) ∨
    ∃ run' entry, run.Opens run' ∧
      (run.cleanupIdle hop.now).obtainConnection hop
        (run.client.applyDefaults request).effectiveScheme
        (poolKey (run.client.applyDefaults request).effectiveScheme
          (run.client.applyDefaults request).host
          (run.client.applyDefaults request).port)
        (run.client.applyDefaults request) = (run', .ok entry) ∧
      run.executeHop hop request remaining =
        run'.exchange hop (run.client.applyDefaults request).effectiveScheme
          (poolKey (run.client.applyDefaults request).effectiveScheme
            (run.client.applyDefaults request).host
            (run.client.applyDefaults request).port)
          (run.client.applyDefaults request) remaining entry := by
  have hcleaned : run.Opens (run.cleanupIdle hop.now) :=
    ⟨⟨rfl, rfl⟩, rfl, .refl _⟩
  unfold executeHop
  simp only
  generalize run.client.applyDefaults request = request
  have hobtain := hcleaned.trans
    ((run.cleanupIdle hop.now).obtainConnection_opens hop
      request.effectiveScheme
      (poolKey request.effectiveScheme request.host request.port) request)
  split
  next run' code hstep =>
    rw [hstep] at hobtain
    exact .inl ⟨run', code, hobtain, rfl⟩
  next run' entry hstep =>
    rw [hstep] at hobtain
    exact .inr ⟨run', entry, hobtain, hstep, rfl⟩

/-! ## The response -/

/-- The response which an activation gets for its request. -/
def answer (run : Run) (hop : HopOutcomes) (request : HttpRequest) :
    Option HttpResponse :=
  let request := run.client.applyDefaults request
  let scheme := request.effectiveScheme
  match (run.cleanupIdle hop.now).obtainConnection hop scheme
      (poolKey scheme request.host request.port) request with
  | (_, .error _) => none
  | (_, .ok entry) =>
      match entry.sendAndReceive request hop.sends hop.recvs with
      | some ⟨_, .ok response, _⟩ => some response
      | _ => none

theorem executeHop_of_unanswered {run : Run} {hop : HopOutcomes}
    {request : HttpRequest} (remaining : ℕ)
    (hanswer : run.answer hop request = none) :
    (run.executeHop hop request remaining).1.client.cookies =
      run.client.cookies := by
  unfold answer at hanswer
  unfold executeHop exchange
  simp only at hanswer ⊢
  generalize run.client.applyDefaults request = request at hanswer ⊢
  generalize poolKey request.effectiveScheme request.host request.port =
    key at hanswer ⊢
  have hopens := (run.cleanupIdle hop.now).obtainConnection_opens hop
    request.effectiveScheme key request
  split
  next opened code hobtain =>
    rw [hobtain] at hopens
    exact hopens.cookies_eq
  next opened entry hobtain =>
    rw [hobtain] at hopens
    simp only [hobtain] at hanswer
    split
    next => exact hopens.cookies_eq
    next => exact hopens.cookies_eq
    next hreceived => simp [hreceived] at hanswer

theorem executeHop_of_answer {run : Run} {hop : HopOutcomes}
    {request : HttpRequest} (remaining : ℕ) {response : HttpResponse}
    (hanswer : run.answer hop request = some response) :
    ∃ opened entry entry', run.Opens opened ∧
      run.executeHop hop request remaining =
        (opened.sentOn hop
          (run.client.applyDefaults request).effectiveScheme
          (run.client.applyDefaults request) entry).finishHop hop.doneAt
            (run.client.applyDefaults request).effectiveScheme
            (poolKey (run.client.applyDefaults request).effectiveScheme
              (run.client.applyDefaults request).host
              (run.client.applyDefaults request).port)
            (run.client.applyDefaults request) remaining entry' response := by
  have hcleaned : run.Opens (run.cleanupIdle hop.now) :=
    ⟨⟨rfl, rfl⟩, rfl, .refl _⟩
  unfold answer at hanswer
  unfold executeHop exchange
  simp only at hanswer ⊢
  generalize run.client.applyDefaults request = request at hanswer ⊢
  generalize poolKey request.effectiveScheme request.host request.port =
    key at hanswer ⊢
  have hopens := (run.cleanupIdle hop.now).obtainConnection_opens hop
    request.effectiveScheme key request
  generalize (run.cleanupIdle hop.now).obtainConnection hop
    request.effectiveScheme key request = obtained at hanswer hopens ⊢
  rcases obtained with ⟨opened, code | entry⟩
  · cases hanswer
  · simp only at hanswer ⊢
    generalize entry.sendAndReceive request hop.sends hop.recvs =
      received at hanswer ⊢
    rcases received with _ | ⟨entry', code | received, rest⟩
    · cases hanswer
    · cases hanswer
    · obtain rfl := Option.some.inj hanswer
      exact ⟨opened, entry, entry', hcleaned.trans hopens, rfl⟩

theorem executeHop_of_following {run : Run} {hop : HopOutcomes}
    {request : HttpRequest} {remaining : ℕ} {response : HttpResponse}
    (hanswer : run.answer hop request = some response)
    (hfollowing : run.following remaining response = true) :
    ∃ recorded : Run, run.executeHop hop request remaining =
      recorded.followRedirect
        (run.client.applyDefaults request).effectiveScheme
        (run.client.applyDefaults request) response := by
  obtain ⟨opened, entry, entry', hopens, hstep⟩ :=
    executeHop_of_answer remaining hanswer
  rw [hstep]
  generalize run.client.applyDefaults request = request
  generalize poolKey request.effectiveScheme request.host request.port = key
  have hconfig : opened.client.config = run.client.config :=
    hopens.settings.config_eq
  have hsame : (opened.sentOn hop request.effectiveScheme request
      entry).following remaining response =
        run.following remaining response :=
    congrArg (fun config : HttpClientConfig => response.isRedirect &&
      config.followRedirects && decide (0 < remaining)) hconfig
  rcases finishHop_cases
      (opened.sentOn hop request.effectiveScheme request entry) hop.doneAt
      request.effectiveScheme key request remaining entry' response with
      ⟨_, hfinish⟩ | ⟨hstays, _⟩
  · exact ⟨_, hfinish⟩
  · rw [hsame, hfollowing] at hstays
    contradiction

end Run

end VynxHttp
