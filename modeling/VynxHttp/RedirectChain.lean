import VynxHttp.HopSteps

/-!
# Chains of redirects

The events of a call are read back as its exchanges, each with the response it
brought and the redirects announced for it.  `RedirectFaithful` says what such
a record has to look like; every activation of `do_execute` adds one exchange
at most (`executeHop_recorded`), and the recursion spends one redirect of the
budget with each of them.
-/

namespace VynxHttp

open EventLog

/-! ## What a call has done -/

/-- A call of the redirect callback. -/
structure Announcement where
  source : Bytes
  target : Bytes
  status : UInt16

structure Exchange where
  request : HttpRequest
  response : Option HttpResponse
  announced : List Announcement

/-- The exchanges from some event on, the earliest first, and what has come of
an exchange whose request is still to be found. -/
structure CallRecord where
  response : Option HttpResponse := none
  announced : List Announcement := []
  exchanges : List Exchange := []

/-- The record from an earlier event on. -/
def CallRecord.since (record : CallRecord) : Event → CallRecord
  | .requested _ _ _ request _ =>
      { exchanges :=
          ⟨request, record.response, record.announced⟩ :: record.exchanges }
  | .responded _ response _ => { record with response := some response }
  | .redirected source target status =>
      { record with
        announced := ⟨source, target, status⟩ :: record.announced }
  | _ => record

def callRecord (events : List Event) : CallRecord :=
  events.foldl CallRecord.since {}

/-- Events which are read back as these exchanges. -/
def Records (events : List Event) (exchanges : List Exchange) : Prop :=
  ∀ later, events.foldl CallRecord.since { exchanges := later } =
    { exchanges := exchanges ++ later }

theorem Records.append {later earlier : List Event}
    {last first : List Exchange} (hlater : Records later last)
    (hearlier : Records earlier first) :
    Records (later ++ earlier) (first ++ last) := by
  intro exchanges
  rw [List.foldl_append, hlater, hearlier, List.append_assoc]

theorem Records.callRecord_eq {events : List Event}
    {exchanges : List Exchange} (hrecords : Records events exchanges) :
    callRecord events = { exchanges } := by
  rw [callRecord, hrecords [], List.append_nil]

theorem foldl_opening {events : List Event}
    (hevents : ∀ event ∈ events, event.Opening) (record : CallRecord) :
    events.foldl CallRecord.since record = record := by
  induction events with
  | nil => rfl
  | cons event events ih =>
      have hevent := hevents event (List.mem_cons_self ..)
      have hsame : record.since event = record := by
        cases event <;> first | rfl | exact hevent.elim
      rw [List.foldl_cons, hsame]
      exact ih fun other hmem => hevents other (List.mem_cons_of_mem _ hmem)

/-! ## What it should have done -/

/-- The forms of a location which are followed. -/
def RedirectForm (location : Bytes) : Prop :=
  ascii "http://" <+: location ∨ ascii "https://" <+: location ∨
    [slash] <+: location

theorem take_eq_iff {text start : Bytes} {n : ℕ} (hlength : start.length = n) :
    text.take n = start ↔ start <+: text := by
  rw [List.prefix_iff_eq_take, hlength, eq_comm]

theorem redirectTarget_isSome_iff {scheme location : Bytes}
    {request : HttpRequest} :
    (∃ url, redirectTarget scheme request location = some url) ↔
      RedirectForm location := by
  unfold redirectTarget RedirectForm
  have hhttp : location.take 7 = ascii "http://" ↔
      ascii "http://" <+: location := take_eq_iff (by decide)
  have hhttps : location.take 8 = ascii "https://" ↔
      ascii "https://" <+: location := take_eq_iff (by decide)
  have hslash : location.take 1 = [slash] ↔ [slash] <+: location :=
    take_eq_iff rfl
  rw [← hhttp, ← hhttps, ← hslash, ← or_assoc]
  by_cases habsolute : location.take 7 = ascii "http://" ∨
      location.take 8 = ascii "https://"
  · rw [if_pos habsolute]
    exact ⟨fun _ => .inl habsolute, fun _ => ⟨location, rfl⟩⟩
  · rw [if_neg habsolute]
    by_cases hrelative : location.take 1 = [slash]
    · rw [if_pos hrelative]
      exact ⟨fun _ => .inr hrelative, fun _ => ⟨_, rfl⟩⟩
    · rw [if_neg hrelative]
      simp only [reduceCtorEq, exists_false, false_iff]
      exact fun h => h.elim habsolute hrelative

namespace Exchange

/-- The exchange has brought a redirect which is to be followed. -/
structure Redirected (exchange : Exchange) (client : HttpClient)
    (remaining : ℕ) (response : HttpResponse) (location : Bytes) :
    Prop where
  response_eq : exchange.response = some response
  isRedirect : response.isRedirect = true
  follows : client.config.followRedirects = true
  budget : 0 < remaining
  location_eq : response.headers.get (ascii "Location") = some location
  form : RedirectForm location

/-- Where the location leads to. -/
def target (exchange : Exchange) (location : Bytes) : Option Bytes :=
  redirectTarget exchange.request.effectiveScheme exchange.request location

def announcement (exchange : Exchange) (response : HttpResponse)
    (url : Bytes) : Announcement where
  source := originText exchange.request.effectiveScheme exchange.request ++
    exchange.request.uri
  target := url
  status := response.statusCode

/-- The exchange is the follow-up of a redirect. -/
def CausedBy (second first : Exchange) (client : HttpClient)
    (remaining : ℕ) : Prop :=
  ∃ response location url parsed,
    first.Redirected client remaining response location ∧
      first.target location = some url ∧ parseUrl url = .ok parsed ∧
      second.request.scheme = parsed.scheme ∧
      second.request.host = parsed.host ∧
      second.request.port = parsed.port ∧
      second.request.uri = parsed.path

/-- The callback has been called once for a redirect, and not otherwise. -/
structure AnnouncedOnce (exchange : Exchange) (client : HttpClient)
    (remaining : ℕ) : Prop where
  once : client.redirectCallback = true → ∀ response location,
    exchange.Redirected client remaining response location →
      ∃ url, exchange.target location = some url ∧
        exchange.announced = [exchange.announcement response url]
  only : exchange.announced ≠ [] → client.redirectCallback = true ∧
    ∃ response location,
      exchange.Redirected client remaining response location

end Exchange

/-- A call which may follow `budget` redirects has made these exchanges and
returned this result. -/
structure RedirectFaithful (client : HttpClient) (budget : ℕ)
    (exchanges : List Exchange) (result : Option (Result HttpResponse)) :
    Prop where
  bounded : exchanges.length ≤ budget + 1
  caused : ∀ (i : ℕ) first second, exchanges[i]? = some first →
    exchanges[i + 1]? = some second →
      second.CausedBy first client (budget - i)
  announced : ∀ (i : ℕ) exchange, exchanges[i]? = some exchange →
    exchange.AnnouncedOnce client (budget - i)
  last : ∀ response, result = some (.ok response) →
    ∃ exchange, exchanges.getLast? = some exchange ∧
      exchange.response = some response

/-! ## One activation -/

/-- What one activation records and how it goes on. -/
inductive HopRecord (client : HttpClient) (remaining : ℕ)
    (request : HttpRequest) : List Exchange → HopResult → Prop
  | unconnected (code : ErrorCode) :
      HopRecord client remaining request [] (.returned (.error code))
  | blocked : HopRecord client remaining request [⟨request, none, []⟩]
      .blocked
  | failed (code : ErrorCode) :
      HopRecord client remaining request [⟨request, none, []⟩]
        (.returned (.error code))
  | final (response : HttpResponse)
      (unredirected : ∀ announced location,
        ¬ (⟨request, some response, announced⟩ : Exchange).Redirected client
          remaining response location) :
      HopRecord client remaining request [⟨request, some response, []⟩]
        (.returned (.ok response))
  | redirected (exchange : Exchange) (response : HttpResponse)
      (location url : Bytes) (result : HopResult)
      (request_eq : exchange.request = request)
      (redirected :
        exchange.Redirected client remaining response location)
      (target : exchange.target location = some url)
      (announced : exchange.announced =
        if client.redirectCallback then [exchange.announcement response url]
        else [])
      (goes_on : (∃ code, result = .returned (.error code)) ∨
        ∃ parsed, parseUrl url = .ok parsed ∧
          result = .follow
            (redirectRequest request response.statusCode parsed)) :
      HopRecord client remaining request [exchange] result

theorem Records.of_opening {events : List Event}
    (hevents : ∀ event ∈ events, event.Opening) : Records events [] :=
  fun _ => foldl_opening hevents _

namespace Run

/-- A stage whose events are read back as these exchanges, and which leaves the
settings as they are. -/
def Recorded (run run' : Run) (exchanges : List Exchange) : Prop :=
  SameSettings run.client run'.client ∧
    ∃ added, run'.trace = added ++ run.trace ∧ Records added exchanges

theorem Opens.recorded {run run' : Run} (hopens : run.Opens run') :
    run.Recorded run' [] := by
  obtain ⟨added, htrace, hadded⟩ := hopens.events
  exact ⟨hopens.settings, added, htrace, .of_opening hadded⟩

theorem Recorded.trans {run run' run'' : Run} {first last : List Exchange}
    (hfirst : run.Recorded run' first)
    (hlast : run'.Recorded run'' last) :
    run.Recorded run'' (first ++ last) := by
  obtain ⟨hsettings, added, htrace, hadded⟩ := hfirst
  obtain ⟨hsettings', added', htrace', hadded'⟩ := hlast
  refine ⟨hsettings.trans hsettings', added' ++ added, ?_,
    hadded'.append hadded⟩
  rw [htrace', htrace, List.append_assoc]

theorem Recorded.congr {run run' run'' : Run} {exchanges : List Exchange}
    (hrecorded : run.Recorded run' exchanges)
    (hsettings : SameSettings run'.client run''.client)
    (htrace : run''.trace = run'.trace) : run.Recorded run'' exchanges :=
  ⟨hrecorded.1.trans hsettings, by rw [htrace]; exact hrecorded.2⟩

/-- An announced redirect belongs to the exchange which has brought it. -/
theorem announceRedirect_recorded {run sent : Run} {request : HttpRequest}
    {conn conn' : ℕ} {time : ℤ} {viaTls following : Bool}
    {scheme bytes : Bytes} {response : HttpResponse}
    (hback : SameSettings run.client sent.client)
    (htrace : sent.trace = .responded conn response following ::
      .active conn time :: .requested conn' viaTls scheme request bytes ::
        run.trace)
    (announcement : Announcement) :
    run.Recorded
      (sent.announceRedirect announcement.source announcement.target
        announcement.status)
      [⟨request, some response,
        if sent.client.redirectCallback then [announcement] else []⟩] := by
  unfold announceRedirect
  by_cases hcallback : sent.client.redirectCallback = true
  · rw [if_pos hcallback, if_pos hcallback]
    have hlogged : (sent.log (.redirected announcement.source
        announcement.target announcement.status)).trace =
          [.redirected announcement.source announcement.target
              announcement.status,
            .responded conn response following, .active conn time,
            .requested conn' viaTls scheme request bytes] ++ run.trace :=
      congrArg (List.cons _) htrace
    exact ⟨hback, _, hlogged, fun _ => rfl⟩
  · rw [if_neg hcallback, if_neg hcallback]
    exact ⟨hback, [_, _, _], htrace, fun _ => rfl⟩

theorem followRedirect_recorded {client : HttpClient} {run sent : Run}
    {request : HttpRequest} {remaining conn conn' : ℕ} {time : ℤ}
    {viaTls following : Bool} {scheme bytes : Bytes}
    {response : HttpResponse}
    (hsettings : SameSettings client run.client)
    (hsent : SameSettings client sent.client)
    (htrace : sent.trace = .responded conn response following ::
      .active conn time :: .requested conn' viaTls scheme request bytes ::
        run.trace)
    (hredirect : response.isRedirect = true)
    (hfollows : client.config.followRedirects = true)
    (hbudget : 0 < remaining) :
    ∃ exchanges, run.Recorded
        (sent.followRedirect request.effectiveScheme request response).1
        exchanges ∧
      HopRecord client remaining request exchanges
        (sent.followRedirect request.effectiveScheme request response).2 := by
  have hback : SameSettings run.client sent.client :=
    ⟨hsent.config_eq.trans hsettings.config_eq.symm,
      hsent.callback_eq.trans hsettings.callback_eq.symm⟩
  have hquiet : run.Recorded sent [⟨request, some response, []⟩] :=
    ⟨hback, [_, _, _], htrace, fun _ => rfl⟩
  unfold followRedirect
  cases hlocation : response.headers.get (ascii "Location") with
  | none =>
      refine ⟨_, hquiet, .final response fun announced location h => ?_⟩
      have hsome := h.location_eq
      rw [hlocation] at hsome
      contradiction
  | some location =>
      simp only
      cases htarget :
          redirectTarget request.effectiveScheme request location with
      | none =>
          refine ⟨_, hquiet, .final response fun announced other h => ?_⟩
          have hsame := h.location_eq
          rw [hlocation, Option.some.injEq] at hsame
          obtain ⟨url, hurl⟩ := redirectTarget_isSome_iff.mpr h.form
          rw [← hsame, htarget] at hurl
          contradiction
      | some url =>
          let announcement : Announcement :=
            ⟨originText request.effectiveScheme request ++ request.uri, url,
              response.statusCode⟩
          let exchange : Exchange :=
            ⟨request, some response,
              if client.redirectCallback then [announcement] else []⟩
          have hannounced : run.Recorded (sent.announceRedirect
              (originText request.effectiveScheme request ++ request.uri) url
              response.statusCode) [exchange] := by
            simp only [exchange, ← hsent.callback_eq]
            exact announceRedirect_recorded hback htrace announcement
          have hredirected :
              exchange.Redirected client remaining response location :=
            { response_eq := rfl
              isRedirect := hredirect
              follows := hfollows
              budget := hbudget
              location_eq := hlocation
              form := redirectTarget_isSome_iff.mp ⟨url, htarget⟩ }
          simp only
          cases hparse : parseUrl url with
          | error code =>
              exact ⟨_, hannounced, .redirected exchange response location
                url _ rfl hredirected htarget rfl (.inl ⟨code, rfl⟩)⟩
          | ok parsed =>
              refine ⟨_, ?_, .redirected exchange response location url _ rfl
                hredirected htarget rfl (.inr ⟨parsed, hparse, rfl⟩)⟩
              obtain ⟨hsettings', added, hadded, hrecords⟩ := hannounced
              exact ⟨hsettings', .followed request parsed :: added,
                congrArg (List.cons _) hadded, hrecords⟩

theorem executeHop_recorded {client : HttpClient} {run : Run}
    (hsettings : SameSettings client run.client) (hop : HopOutcomes)
    (request : HttpRequest) (remaining : ℕ) :
    ∃ exchanges,
      run.Recorded (run.executeHop hop request remaining).1 exchanges ∧
      HopRecord client remaining (run.client.applyDefaults request)
        exchanges (run.executeHop hop request remaining).2 := by
  rcases run.executeHop_cases hop request remaining with
    ⟨run', code, hopens, hhop⟩ | ⟨run', entry, hopens, _, hhop⟩
  · rw [hhop]
    exact ⟨[], hopens.recorded, .unconnected code⟩
  rw [hhop]
  have hopened := hsettings.trans hopens.settings
  have hconfig : run'.client.config = client.config := hopened.config_eq
  generalize run.client.applyDefaults request = request
  generalize poolKey request.effectiveScheme request.host request.port = key
  have hsent : run'.Recorded
      (run'.sentOn hop request.effectiveScheme request entry)
      [⟨request, none, []⟩] := ⟨.refl _, [_], rfl, fun _ => rfl⟩
  have hafter := hopens.recorded.trans hsent
  rcases run'.exchange_cases hop request.effectiveScheme key request
    remaining entry with hblocked | ⟨code, hfailed⟩ |
      ⟨entry', response, hanswered⟩
  · rw [hblocked]
    exact ⟨_, hafter, .blocked⟩
  · rw [hfailed]
    refine ⟨_, ⟨hafter.1.trans ⟨rfl, rfl⟩, ?_⟩, .failed code⟩
    obtain ⟨added, htrace, hadded⟩ := hafter.2
    exact ⟨.failed entry.conn :: added,
      congrArg (Event.failed entry.conn :: ·) htrace, hadded⟩
  · rw [hanswered]
    have hkept : ∀ following : Bool, run'.Recorded
        ((run'.sentOn hop request.effectiveScheme request entry).recordResponse
          hop.doneAt key request entry' response following)
        [⟨request, some response, []⟩] := fun _ =>
      ⟨⟨rfl, rfl⟩, [_, _, _], rfl, fun _ => rfl⟩
    rcases (run'.sentOn hop request.effectiveScheme request
      entry).finishHop_cases hop.doneAt request.effectiveScheme key request
        remaining entry' response with
      ⟨hfollowing, hfinish⟩ | ⟨hfollowing, kept, hcases, hfinish⟩
    · rw [hfinish]
      obtain ⟨hredirect, hfollows, hbudget⟩ := following_iff.mp hfollowing
      obtain ⟨exchanges, hrecorded, hhopRecord⟩ :=
        followRedirect_recorded hopened (hopened.trans (hkept true).1) rfl
          hredirect (by rw [← hconfig]; exact hfollows) hbudget
      exact ⟨exchanges, hopens.recorded.trans hrecorded, hhopRecord⟩
    · rw [hfinish]
      have hfinal : run'.Recorded kept [⟨request, some response, []⟩] := by
        rcases hcases with rfl | rfl
        · exact hkept false
        · exact (hkept false).congr ⟨rfl, rfl⟩ rfl
      refine ⟨_, hopens.recorded.trans hfinal, .final response ?_⟩
      intro announced location hredirected
      have htrue : (run'.sentOn hop request.effectiveScheme request
          entry).following remaining response = true := by
        apply following_iff.mpr
        refine ⟨hredirected.isRedirect, ?_, hredirected.budget⟩
        show run'.client.config.followRedirects = true
        rw [hconfig]
        exact hredirected.follows
      rw [hfollowing] at htrue
      contradiction

end Run

/-! ## Whole calls -/

/-- The first exchange of a call is made for its request. -/
def Starts (client : HttpClient) (request : HttpRequest)
    (exchanges : List Exchange) : Prop :=
  ∀ exchange ∈ exchanges.head?,
    exchange.request.scheme = request.scheme ∧
      exchange.request.uri = request.uri ∧
      exchange.request.host = (client.fillTarget request).host ∧
      exchange.request.port = (client.fillTarget request).port

namespace HopRecord

variable {client : HttpClient} {remaining : ℕ} {request : HttpRequest}
  {exchanges : List Exchange} {result : HopResult}

theorem exchange_cases
    (hrecord : HopRecord client remaining request exchanges result) :
    exchanges = [] ∨ ∃ exchange, exchanges = [exchange] ∧
      exchange.request = request ∧
      exchange.AnnouncedOnce client remaining := by
  have hnone : ∀ response : Option HttpResponse,
      (∀ answer location, ¬ (⟨request, response, []⟩ : Exchange).Redirected
        client remaining answer location) →
      (⟨request, response, []⟩ : Exchange).AnnouncedOnce client remaining :=
    fun response hnot =>
      ⟨fun _ answer location h => absurd h (hnot answer location),
        fun h => absurd rfl h⟩
  cases hrecord with
  | unconnected code => exact .inl rfl
  | blocked =>
      refine .inr ⟨_, rfl, rfl, hnone _ fun answer location h => ?_⟩
      exact Option.some_ne_none _ h.response_eq.symm
  | failed code =>
      refine .inr ⟨_, rfl, rfl, hnone _ fun answer location h => ?_⟩
      exact Option.some_ne_none _ h.response_eq.symm
  | final response hunredirected =>
      refine .inr ⟨_, rfl, rfl, hnone _ fun answer location h => ?_⟩
      have hsame : response = answer := Option.some.inj h.response_eq
      exact hunredirected [] location (hsame ▸ h)
  | redirected exchange response location url result hrequest hredirected
      htarget hannounced hgoes =>
      refine .inr ⟨exchange, rfl, hrequest, ⟨?_, ?_⟩⟩
      · intro hcallback answer other hother
        have hresponse : response = answer := by
          have hsame := hredirected.response_eq
          rw [hother.response_eq, Option.some.injEq] at hsame
          exact hsame.symm
        subst hresponse
        have hlocation : location = other := by
          have hsame := hredirected.location_eq
          rw [hother.location_eq, Option.some.injEq] at hsame
          exact hsame.symm
        subst hlocation
        rw [if_pos hcallback] at hannounced
        exact ⟨url, htarget, hannounced⟩
      · intro hne
        by_cases hcallback : client.redirectCallback = true
        · exact ⟨hcallback, response, location, hredirected⟩
        · rw [if_neg hcallback] at hannounced
          exact absurd hannounced hne

end HopRecord

theorem RedirectFaithful.nil {client : HttpClient} {budget : ℕ}
    {result : Option (Result HttpResponse)}
    (hresult : ∀ response, result ≠ some (.ok response)) :
    RedirectFaithful client budget [] result where
  bounded := Nat.zero_le _
  caused := by simp
  announced := by simp
  last := fun response h => absurd h (hresult response)

/-- An exchange after which the call ends. -/
theorem RedirectFaithful.singleton {client : HttpClient} {budget : ℕ}
    {exchange : Exchange} {result : Option (Result HttpResponse)}
    (hannounced : exchange.AnnouncedOnce client budget)
    (hresult : ∀ response, result = some (.ok response) →
      exchange.response = some response) :
    RedirectFaithful client budget [exchange] result where
  bounded := by simp
  caused := by simp
  announced := by
    intro i other hother
    cases i with
    | zero =>
        simp only [List.getElem?_cons_zero, Option.some.injEq] at hother
        exact hother ▸ hannounced
    | succ i => simp at hother
  last := fun response h => ⟨exchange, rfl, hresult response h⟩

/-- An exchange which is redirected, and what the rest of the budget is spent
on. -/
theorem RedirectFaithful.cons {client : HttpClient} {budget : ℕ}
    {exchange : Exchange} {exchanges : List Exchange}
    {result : Option (Result HttpResponse)} (hbudget : 0 < budget)
    (hannounced : exchange.AnnouncedOnce client budget)
    (hcaused : ∀ second ∈ exchanges.head?,
      second.CausedBy exchange client budget)
    (hrest : RedirectFaithful client (budget - 1) exchanges result) :
    RedirectFaithful client budget (exchange :: exchanges) result := by
  have hshift : ∀ i, budget - (i + 1) = budget - 1 - i := by
    intro i
    omega
  constructor
  · have hbounded := hrest.bounded
    rw [List.length_cons]
    omega
  · intro i first second hfirst hsecond
    rw [List.getElem?_cons_succ] at hsecond
    cases i with
    | zero =>
        simp only [List.getElem?_cons_zero, Option.some.injEq] at hfirst
        rw [← hfirst]
        apply hcaused
        rw [List.head?_eq_getElem?, hsecond]
        rfl
    | succ i =>
        rw [List.getElem?_cons_succ] at hfirst
        rw [hshift]
        exact hrest.caused i first second hfirst hsecond
  · intro i other hother
    cases i with
    | zero =>
        simp only [List.getElem?_cons_zero, Option.some.injEq] at hother
        exact hother ▸ hannounced
    | succ i =>
        rw [List.getElem?_cons_succ] at hother
        rw [hshift]
        exact hrest.announced i other hother
  · intro response hok
    obtain ⟨last, hlast, hresponse⟩ := hrest.last response hok
    exact ⟨last, by rw [List.getLast?_cons, hlast]; rfl, hresponse⟩

/-- An activation after which the call ends. -/
theorem HopRecord.ends {client : HttpClient} {remaining : ℕ}
    {request : HttpRequest} {exchanges : List Exchange}
    {hopResult : HopResult} {result : Option (Result HttpResponse)}
    (hrecord : HopRecord client remaining request exchanges hopResult)
    (hresult : ∀ response, result = some (.ok response) →
      ∃ exchange, exchanges = [exchange] ∧
        exchange.response = some response) :
    RedirectFaithful client remaining exchanges result := by
  rcases hrecord.exchange_cases with
    rfl | ⟨exchange, rfl, _, hannounced⟩
  · apply RedirectFaithful.nil
    intro response h
    obtain ⟨_, hempty, _⟩ := hresult response h
    contradiction
  · apply RedirectFaithful.singleton hannounced
    intro response h
    obtain ⟨other, hsame, hother⟩ := hresult response h
    rw [(List.cons.inj hsame).1]
    exact hother

theorem HopRecord.returned_ok {client : HttpClient} {remaining : ℕ}
    {request : HttpRequest} {exchanges : List Exchange}
    {response : HttpResponse}
    (hrecord : HopRecord client remaining request exchanges
      (.returned (.ok response))) :
    ∃ exchange, exchanges = [exchange] ∧
      exchange.response = some response := by
  cases hrecord with
  | final _ _ => exact ⟨_, rfl, rfl⟩
  | redirected _ _ _ _ _ _ _ _ _ hgoes =>
      rcases hgoes with ⟨code, h⟩ | ⟨parsed, _, h⟩ <;> simp at h

theorem HopRecord.follow {client : HttpClient} {remaining : ℕ}
    {request next : HttpRequest} {exchanges : List Exchange}
    (hrecord : HopRecord client remaining request exchanges
      (.follow next)) :
    ∃ exchange response location url parsed, exchanges = [exchange] ∧
      exchange.Redirected client remaining response location ∧
      exchange.target location = some url ∧ parseUrl url = .ok parsed ∧
      next = redirectRequest request response.statusCode parsed := by
  cases hrecord with
  | redirected exchange response location url _ _ hredirected htarget _
      hgoes =>
      rcases hgoes with ⟨code, h⟩ | ⟨parsed, hparse, h⟩
      · simp at h
      · simp only [HopResult.follow.injEq] at h
        exact ⟨exchange, response, location, url, parsed, rfl, hredirected,
          htarget, hparse, h⟩

theorem HopRecord.starts {client : HttpClient} {run : Run} {remaining : ℕ}
    {request : HttpRequest} {exchanges : List Exchange}
    {hopResult : HopResult} (hsettings : SameSettings client run.client)
    (hrecord : HopRecord client remaining (run.client.applyDefaults request)
      exchanges hopResult) (hne : exchanges ≠ []) (later : List Exchange) :
    Starts client request (exchanges ++ later) := by
  obtain ⟨exchange, rfl, hrequest, _⟩ :=
    hrecord.exchange_cases.resolve_left hne
  intro first hmem
  simp only [List.cons_append, List.head?_cons, Option.mem_def,
    Option.some.injEq] at hmem
  rw [← hmem, hrequest]
  refine ⟨rfl, rfl, ?_, ?_⟩ <;>
    simp [HttpClient.applyDefaults, HttpClient.fillTarget,
      hsettings.config_eq]

theorem Starts.causedBy {client : HttpClient} {remaining : ℕ}
    {request : HttpRequest} {exchange : Exchange}
    {exchanges : List Exchange} {response : HttpResponse}
    {location url : Bytes} {parsed : ParsedUrl}
    (hredirected : exchange.Redirected client remaining response location)
    (htarget : exchange.target location = some url)
    (hparse : parseUrl url = .ok parsed)
    (hstarts : Starts client
      (redirectRequest request response.statusCode parsed) exchanges) :
    ∀ second ∈ exchanges.head?,
      second.CausedBy exchange client remaining := by
  intro second hsecond
  obtain ⟨hscheme, huri, hhost, hport⟩ := hstarts second hsecond
  obtain ⟨_, hhostNe, hportNe⟩ := parseUrl_ok hparse
  refine ⟨response, location, url, parsed, hredirected, htarget, hparse,
    hscheme, ?_, ?_, huri⟩
  · rw [hhost]
    simp [HttpClient.fillTarget, redirectRequest, hhostNe]
  · rw [hport]
    simp [HttpClient.fillTarget, redirectRequest, hportNe]

namespace Run

theorem doExecute_recorded (hops : List HopOutcomes) {client : HttpClient}
    {run : Run} (hsettings : SameSettings client run.client)
    (request : HttpRequest) (remaining : ℕ) :
    ∃ exchanges,
      run.Recorded (doExecute hops run request remaining).1 exchanges ∧
      Starts client request exchanges ∧
      RedirectFaithful client remaining exchanges
        (doExecute hops run request remaining).2 := by
  induction hops generalizing run request remaining with
  | nil =>
      refine ⟨[], (Opens.refl run).recorded, by simp [Starts], .nil ?_⟩
      intro response h
      exact Option.some_ne_none _ h.symm
  | cons hop hops ih =>
      obtain ⟨exchanges, hrecorded, hrecord⟩ :=
        executeHop_recorded hsettings hop request remaining
      have hstarts : Starts client request exchanges := by
        by_cases hnone : exchanges = []
        · rw [hnone]
          simp [Starts]
        · simpa using hrecord.starts hsettings hnone []
      rw [doExecute]
      split
      next run' hstep =>
        rw [hstep] at hrecorded
        exact ⟨exchanges, hrecorded, hstarts, hrecord.ends (by simp)⟩
      next run' result hstep =>
        rw [hstep] at hrecorded hrecord
        refine ⟨exchanges, hrecorded, hstarts, hrecord.ends ?_⟩
        intro response h
        rw [Option.some.injEq] at h
        subst h
        exact hrecord.returned_ok
      next run' next hstep =>
        rw [hstep] at hrecorded hrecord
        obtain ⟨exchange, response, location, url, parsed, rfl, hredirected,
          htarget, hparse, rfl⟩ := hrecord.follow
        obtain ⟨later, hlater, hnext, hfaithful⟩ :=
          ih (hsettings.trans hrecorded.1)
            (redirectRequest (run.client.applyDefaults request)
              response.statusCode parsed) (remaining - 1)
        obtain ⟨_, hsame, _, hannounced⟩ :=
          hrecord.exchange_cases.resolve_left (by simp)
        rw [List.singleton_inj] at hsame
        subst hsame
        refine ⟨exchange :: later, hrecorded.trans hlater,
          hrecord.starts hsettings (by simp) later, ?_⟩
        exact .cons hredirected.budget hannounced
          (hnext.causedBy hredirected htarget hparse) hfaithful

/-- Whatever the client, the request and the answers: what a call does is read
back as exchanges of which each but the first follows a redirect within the
budget, with one announcement for each redirect, and what it returns is the
last response. -/
theorem execute_redirectFaithful (run : Run) (request : HttpRequest)
    (hops : List HopOutcomes) :
    ∃ added exchanges,
      (run.execute request hops).1.trace = added ++ run.trace ∧
      callRecord added = { exchanges } ∧
      RedirectFaithful run.client run.client.config.maxRedirects exchanges
        (run.execute request hops).2 := by
  obtain ⟨exchanges, ⟨_, added, htrace, hrecords⟩, _, hfaithful⟩ :=
    doExecute_recorded hops (.refl run.client) request
      run.client.config.maxRedirects
  exact ⟨added, exchanges, htrace, hrecords.callRecord_eq, hfaithful⟩

end Run

end VynxHttp
