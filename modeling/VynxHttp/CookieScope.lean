import VynxHttp.Activations
import VynxHttp.Unwinding

/-!
# The domains of cookies

A response may set cookies for its own host and for the domains of that host.
`parseCookie` takes any `Domain` attribute, so this is so only of responses
whose attributes are `OwnDomain`; then a host which shares no domain with the
responding one never sees what has been set.
-/

namespace VynxHttp

open Unwinding

/-! ## Domains -/

/-- The host is in the domain. -/
def DomainMatch (host domain : Bytes) : Prop :=
  host = domain ∨ dot :: domain <:+ host

instance (host domain : Bytes) : Decidable (DomainMatch host domain) :=
  inferInstanceAs (Decidable (_ ∨ _))

/-- Two hosts are in a common domain. -/
def ShareDomain (host other : Bytes) : Prop :=
  ∃ domain, domain ≠ [] ∧ DomainMatch host domain ∧ DomainMatch other domain

namespace CookieJar

theorem domainMatches_iff {cookie : CookieEntry} {host : Bytes} :
    domainMatches cookie host = true ↔
      cookie.domain = [] ∨ DomainMatch host cookie.domain := by
  unfold domainMatches DomainMatch
  split
  next hempty => simp [hempty]
  next hne =>
    split
    next hsame => simp [hsame]
    next hdiffers =>
      simp only [Bool.and_eq_true, decide_eq_true_eq, beq_iff_eq, hne,
        false_or, Ne.symm hdiffers]
      constructor
      · rintro ⟨⟨hlt, htail⟩, hdot⟩
        have hindex : host.length - cookie.domain.length =
            host.length - cookie.domain.length - 1 + 1 := by omega
        obtain ⟨hbound, hget⟩ := List.getElem?_eq_some_iff.mp hdot
        have hdrop := List.drop_eq_getElem_cons hbound
        rw [hget, ← hindex, htail] at hdrop
        rw [← hdrop]
        exact List.drop_suffix _ _
      · rintro ⟨before, rfl⟩
        have hlt : cookie.domain.length <
            (before ++ dot :: cookie.domain).length := by
          rw [List.length_append, List.length_cons]
          omega
        have hlength : (before ++ dot :: cookie.domain).length -
            cookie.domain.length = before.length + 1 := by
          rw [List.length_append, List.length_cons]
          omega
        rw [hlength]
        exact ⟨⟨hlt, by simp⟩, by simp⟩

/-! ## The Domain attribute -/

def readDomain (domain token : Bytes) : Bytes :=
  let (key, val) := (cutAt equalsSign token).getD (token, [])
  if equalsIgnoreCase key (ascii "domain") then
    if val.head? = some dot then val.drop 1 else val
  else domain

/-- The `Domain` attribute which counts, the last one, without a leading dot;
empty when there is none. -/
def domainAttribute (headerLine : Bytes) : Bytes :=
  ((directives (headerLine.length + 1) headerLine).drop 1).foldl readDomain []

theorem domain_readDirective (entry : CookieEntry) (token : Bytes) :
    (readDirective entry token).domain = readDomain entry.domain token := by
  unfold readDirective readDomain
  generalize (cutAt equalsSign token).getD (token, []) = directive
  simp only
  split
  next => rfl
  next =>
    split
    next => rfl
    next =>
      split
      next => rfl
      next => split <;> rfl

theorem domain_readDirectives (tokens : List Bytes) (entry : CookieEntry) :
    (tokens.foldl readDirective entry).domain =
      tokens.foldl readDomain entry.domain := by
  induction tokens generalizing entry with
  | nil => rfl
  | cons token tokens ih =>
      rw [List.foldl_cons, ih, domain_readDirective, List.foldl_cons]

theorem domain_readPair (token : Bytes) : (readPair token).domain = [] := by
  unfold readPair
  split <;> rfl

theorem domain_parseCookie (headerLine host : Bytes) :
    (parseCookie headerLine host).domain =
      if domainAttribute headerLine = [] then host
      else domainAttribute headerLine := by
  have hdomain : (readLine headerLine).domain =
      domainAttribute headerLine := by
    unfold readLine domainAttribute
    cases directives (headerLine.length + 1) headerLine with
    | nil => rfl
    | cons pair tokens =>
        rw [domain_readDirectives, domain_readPair, List.drop_succ_cons,
          List.drop_zero]
  rw [parseCookie, ← hdomain]
  rfl

end CookieJar

/-- The attribute of a line keeps its cookie to the responding host: there is
none, or it is a domain of the host. -/
def OwnDomain (host headerLine : Bytes) : Prop :=
  if CookieJar.domainAttribute headerLine = [] then host ≠ []
  else DomainMatch host (CookieJar.domainAttribute headerLine)

instance (host headerLine : Bytes) : Decidable (OwnDomain host headerLine) :=
  inferInstanceAs (Decidable
    (if CookieJar.domainAttribute headerLine = [] then host ≠ []
    else DomainMatch host (CookieJar.domainAttribute headerLine)))

theorem ownDomain_iff {host headerLine : Bytes} :
    OwnDomain host headerLine ↔
      (CookieJar.parseCookie headerLine host).domain ≠ [] ∧
        DomainMatch host (CookieJar.parseCookie headerLine host).domain := by
  unfold OwnDomain
  rw [CookieJar.domain_parseCookie]
  by_cases hnone : CookieJar.domainAttribute headerLine = []
  · rw [if_pos hnone, if_pos hnone]
    exact ⟨fun hne => ⟨hne, .inl rfl⟩, And.left⟩
  · rw [if_neg hnone, if_neg hnone]
    exact ⟨fun h => ⟨hnone, h⟩, And.right⟩

/-! ## What a host sees of the jar -/

/-- What is done to the jar: a line of a response is stored, or the user of the
client puts another jar in its place. -/
inductive JarWrite where
  | stored (headerLine host : Bytes)
  | replaced (jar : CookieJar)

namespace CookieJar

def write (jar : CookieJar) : JarWrite → CookieJar
  | .stored headerLine host => jar.setCookieLine headerLine host
  | .replaced jar => jar

theorem replaceCookie_eq_upsert (cookie : CookieEntry)
    (cookies : List CookieEntry) :
    replaceCookie cookie cookies = upsert sameCookie cookie cookies := by
  induction cookies with
  | nil => rfl
  | cons entry entries ih => rw [replaceCookie, upsert, ih]

/-- The cookies whose domain a host is in. -/
def visibleTo (host : Bytes) (jar : CookieJar) : List CookieEntry :=
  jar.cookies.filter (domainMatches · host)

theorem domain_of_sameCookie {first second : CookieEntry}
    (hsame : sameCookie first second = true) :
    first.domain = second.domain := by
  simp only [sameCookie, Bool.and_eq_true, beq_iff_eq] at hsame
  exact hsame.1.2

theorem domainMatches_of_sameCookie (host : Bytes)
    (first second : CookieEntry) (hsame : sameCookie second first = true) :
    domainMatches second host = domainMatches first host := by
  unfold domainMatches
  rw [domain_of_sameCookie hsame]

theorem visibleTo_stored (host : Bytes) (jar : CookieJar)
    (headerLine sender : Bytes) :
    visibleTo host (jar.write (.stored headerLine sender)) =
      (upsert sameCookie (parseCookie headerLine sender) jar.cookies).filter
        (domainMatches · host) := by
  rw [← replaceCookie_eq_upsert]
  rfl

/-- What a host sees of the jar decides what it is going to see. -/
theorem write_unwinds (host : Bytes) : Unwinds write (visibleTo host) := by
  intro jar jar' op hview
  cases op with
  | replaced other => rfl
  | stored headerLine sender =>
      rw [visibleTo_stored, visibleTo_stored]
      exact unwinds_upsert (domainMatches_of_sameCookie host) _ _ _ hview

theorem visibleTo_write {host sender headerLine : Bytes}
    (hown : OwnDomain sender headerLine)
    (hapart : ¬ ShareDomain sender host) (jar : CookieJar) :
    visibleTo host (jar.write (.stored headerLine sender)) =
      visibleTo host jar := by
  obtain ⟨hne, hmatch⟩ := ownDomain_iff.mp hown
  have hunseen :
      domainMatches (parseCookie headerLine sender) host = false := by
    rw [Bool.eq_false_iff]
    intro hseen
    rcases domainMatches_iff.mp hseen with hempty | hother
    · exact hne hempty
    · exact hapart ⟨_, hne, hmatch, hother⟩
  rw [visibleTo_stored]
  exact filter_upsert_of_neg (p := (domainMatches · host)) hunseen
    (domainMatches_of_sameCookie host _) _

theorem buildCookieHeader_of_visibleTo {host : Bytes} {jar jar' : CookieJar}
    (hview : visibleTo host jar = visibleTo host jar') (path : Bytes) :
    jar.buildCookieHeader host path = jar'.buildCookieHeader host path := by
  have hselected : ∀ cookies : List CookieEntry,
      cookies.filter (fun cookie =>
        domainMatches cookie host && pathMatches cookie path) =
      (cookies.filter (domainMatches · host)).filter
        (pathMatches · path) := by
    intro cookies
    rw [List.filter_filter]
    simp only [Bool.and_comm]
  unfold visibleTo at hview
  unfold buildCookieHeader
  simp only [hselected, hview]

/-- The cookies of other domains than those of a host. -/
def foreign (host : Bytes) (jar : CookieJar) : List CookieEntry :=
  jar.cookies.filter fun cookie => !decide (DomainMatch host cookie.domain)

theorem foreign_write {host headerLine : Bytes}
    (hown : OwnDomain host headerLine) (jar : CookieJar) :
    foreign host (jar.write (.stored headerLine host)) =
      foreign host jar := by
  have hmatch := (ownDomain_iff.mp hown).2
  have hsame : ∀ cookie,
      sameCookie cookie (parseCookie headerLine host) = true →
        (!decide (DomainMatch host cookie.domain)) =
          !decide (DomainMatch host (parseCookie headerLine host).domain) := by
    intro cookie hcookie
    rw [domain_of_sameCookie hcookie]
  have hwrite : (jar.write (.stored headerLine host)).cookies =
      upsert sameCookie (parseCookie headerLine host) jar.cookies :=
    replaceCookie_eq_upsert _ _
  unfold foreign
  rw [hwrite]
  exact filter_upsert_of_neg
    (p := fun cookie : CookieEntry =>
      !decide (DomainMatch host cookie.domain))
    (by simpa using hmatch) hsame _

end CookieJar

/-! ## One activation -/

def Run.jar (run : Run) : CookieJar := run.client.cookies

def HttpResponse.setCookieLines (response : HttpResponse) : List Bytes :=
  (response.headers.fields.filter (·.hasName (ascii "Set-Cookie"))).map
    (·.value)

namespace Run

theorem jar_recordResponse (run : Run) (doneAt : ℤ) (key : Bytes)
    (request : HttpRequest) (entry : PoolEntry) (response : HttpResponse)
    (following : Bool) :
    (run.recordResponse doneAt key request entry response
        following).jar =
      (response.setCookieLines.map (.stored · request.host)).foldl
        CookieJar.write run.jar := by
  rw [HttpResponse.setCookieLines, List.foldl_map, List.foldl_map]
  rfl

theorem jar_finishHop (run : Run) (doneAt : ℤ) (scheme key : Bytes)
    (request : HttpRequest) (remaining : ℕ) (entry : PoolEntry)
    (response : HttpResponse) :
    (run.finishHop doneAt scheme key request remaining entry
        response).1.jar =
      (response.setCookieLines.map (.stored · request.host)).foldl
        CookieJar.write run.jar := by
  rcases run.finishHop_cases doneAt scheme key request remaining entry
      response with ⟨_, hfollows⟩ | ⟨_, kept, hkept, hreturns⟩
  · rw [hfollows, jar, followRedirect_client, ← jar, jar_recordResponse]
  · have hrecorded := run.jar_recordResponse doneAt key request entry
      response false
    rw [hreturns]
    rcases hkept with rfl | rfl
    all_goals exact hrecorded

end Run

namespace Activation

variable (activation : Activation)

/-- The lines which the response of the activation stores. -/
def stored : List Bytes :=
  (activation.before.answer activation.hop activation.request).elim []
    HttpResponse.setCookieLines

def writes : List JarWrite :=
  activation.stored.map (.stored · activation.sent.host)

/-- The responding host sets cookies for its own domains only. -/
def Scoped : Prop :=
  ∀ headerLine ∈ activation.stored,
    OwnDomain activation.sent.host headerLine

instance : Decidable activation.Scoped :=
  inferInstanceAs (Decidable (∀ _ ∈ _, _))

theorem jar_after :
    activation.after.jar =
      activation.writes.foldl CookieJar.write activation.before.jar := by
  unfold writes stored after
  cases hanswer :
      activation.before.answer activation.hop activation.request with
  | none => exact Run.executeHop_of_unanswered _ hanswer
  | some response =>
      obtain ⟨opened, entry, entry', hopens, hstep⟩ :=
        Run.executeHop_of_answer activation.remaining hanswer
      rw [hstep, Run.jar_finishHop]
      exact congrArg (fun jar => List.foldl CookieJar.write jar _)
        hopens.cookies_eq

theorem foreign_after (hscoped : activation.Scoped) :
    activation.after.jar.foreign activation.sent.host =
      activation.before.jar.foreign activation.sent.host := by
  have hunseen : ∀ op ∈ activation.writes, ∀ jar : CookieJar,
      (jar.write op).foreign activation.sent.host =
        jar.foreign activation.sent.host := by
    intro op hmem jar
    obtain ⟨headerLine, hstored, rfl⟩ := List.mem_map.mp hmem
    exact CookieJar.foreign_write (hscoped headerLine hstored) jar
  rw [jar_after]
  exact foldl_unseen hunseen _

/-- A host which shares no domain with the responding one never sees what its
response has written. -/
theorem buildCookieHeader_skip (hscoped : activation.Scoped) {host : Bytes}
    (hapart : ¬ ShareDomain activation.sent.host host)
    (earlier later : List JarWrite) (jar : CookieJar) (path : Bytes) :
    ((earlier ++ activation.writes ++ later).foldl CookieJar.write
        jar).buildCookieHeader host path =
      ((earlier ++ later).foldl CookieJar.write
        jar).buildCookieHeader host path := by
  have hunseen : ∀ op ∈ activation.writes, ∀ jar : CookieJar,
      (jar.write op).visibleTo host = jar.visibleTo host := by
    intro op hmem jar
    obtain ⟨headerLine, hstored, rfl⟩ := List.mem_map.mp hmem
    exact CookieJar.visibleTo_write (hscoped headerLine hstored) hapart jar
  apply CookieJar.buildCookieHeader_of_visibleTo
  exact (CookieJar.write_unwinds host).foldl_skip hunseen earlier later jar

end Activation

/-! ## Whole runs -/

namespace Run

/-- What an action does to the jar. -/
def actWrites (run : Run) : Action → List JarWrite
  | .execute request hops =>
      (run.actActivations (.execute request hops)).flatMap Activation.writes
  | .setCookies cookies => [.replaced cookies]
  | .configure _ | .onRedirect _ => []

/-- What a run does to the jar. -/
def jarWrites (run : Run) (actions : List Action) : List JarWrite :=
  run.collect actWrites actions

theorem act_jar (run : Run) (action : Action) :
    (run.act action).1.jar =
      (run.actWrites action).foldl CookieJar.write run.jar := by
  cases action with
  | execute request hops =>
      rw [actWrites, List.foldl_flatMap]
      exact doExecute_foldl jar Activation.jar_after _ _ _ _
  | configure config => rfl
  | setCookies cookies => rfl
  | onRedirect callback => rfl

theorem actAll_jar (run : Run) (actions : List Action) :
    (run.actAll actions).jar =
      (run.jarWrites actions).foldl CookieJar.write run.jar :=
  actAll_foldl jar act_jar run actions

/-- The writes of an activation are made, among those of the whole run, into
the jar which it starts from. -/
theorem exists_writes_of_mem (run : Run) (actions : List Action)
    {activation : Activation} (hmem : activation ∈ run.activations actions) :
    ∃ earlier later,
      run.jarWrites actions = earlier ++ activation.writes ++ later ∧
      activation.before.jar = earlier.foldl CookieJar.write run.jar := by
  obtain ⟨mid, action, earlier, later, hhere, hsplit, hmid⟩ :=
    exists_of_mem_collect jar act_jar run actions hmem
  cases action with
  | execute request hops =>
      obtain ⟨first, last, hcall, hbefore⟩ :=
        exists_of_mem_callActivations jar
          (fun jar activation => activation.writes.foldl CookieJar.write jar)
          Activation.jar_after _ _ _ _ hhere
      refine ⟨earlier ++ first.flatMap Activation.writes,
        last.flatMap Activation.writes ++ later, ?_, ?_⟩
      · rw [jarWrites, hsplit, actWrites, actActivations, hcall]
        simp only [List.flatMap_append, List.flatMap_cons, List.append_assoc]
      · rw [List.foldl_append, List.foldl_flatMap, ← hmid]
        exact hbefore
  | _ => simp [actActivations] at hhere

/-- What an activation of a run stores is for the domains of the responding
host.  Entries for other domains stay as they are, and hosts which share no
domain with the responding one are sent what they would have been sent without
it, whatever happens later. -/
structure KeepsToOwnDomains (run : Run) (actions : List Action)
    (activation : Activation) : Prop where
  own : ∀ headerLine ∈ activation.stored,
    DomainMatch activation.sent.host
      (CookieJar.parseCookie headerLine activation.sent.host).domain
  foreign_eq :
    activation.after.jar.foreign activation.sent.host =
      activation.before.jar.foreign activation.sent.host
  unseen : ∃ earlier later,
    run.jarWrites actions = earlier ++ activation.writes ++ later ∧
    activation.before.jar = earlier.foldl CookieJar.write run.jar ∧
    ∀ host, ¬ ShareDomain activation.sent.host host → ∀ next path,
      ((earlier ++ activation.writes ++ next).foldl CookieJar.write
          run.jar).buildCookieHeader host path =
        ((earlier ++ next).foldl CookieJar.write
          run.jar).buildCookieHeader host path

/-- In a run whose responses all name domains of their own host, or none, no
response sets cookies for another site. -/
theorem actAll_keepsToOwnDomains (run : Run) (actions : List Action)
    (hscoped : ∀ activation ∈ run.activations actions, activation.Scoped) :
    (run.actAll actions).jar =
        (run.jarWrites actions).foldl CookieJar.write run.jar ∧
      ∀ activation ∈ run.activations actions,
        run.KeepsToOwnDomains actions activation := by
  refine ⟨run.actAll_jar actions, fun activation hmem => ?_⟩
  have hactivation := hscoped activation hmem
  obtain ⟨earlier, later, hsplit, hbefore⟩ :=
    run.exists_writes_of_mem actions hmem
  constructor
  · intro headerLine hstored
    exact (ownDomain_iff.mp (hactivation headerLine hstored)).2
  · exact activation.foreign_after hactivation
  · refine ⟨earlier, later, hsplit, hbefore,
      fun host hapart next path => ?_⟩
    exact activation.buildCookieHeader_skip hactivation hapart earlier next
      run.jar path

end Run

/-- A call of `http://www.a/` which is answered with a cookie for a domain. -/
def answeredFor (domain : Bytes) : Run.Action :=
  .execute
    { uri := [slash], host := ascii "www.a", scheme := http, port := 80 }
    [{ sends := [.accepted 4096]
       recvs := [.received (ascii "HTTP/1.1 200 OK\r\n" ++
         ascii "Set-Cookie: s=1; Domain=" ++ domain ++
         ascii "\r\nContent-Length: 0\r\n\r\n")] }]

/-- A cookie for a domain of the host. -/
theorem Run.actAll_keepsToOwnDomains_parent :
    (({} : Run).actAll [answeredFor (ascii ".a")]).jar =
        (({} : Run).jarWrites [answeredFor (ascii ".a")]).foldl
          CookieJar.write {} ∧
      ∀ activation ∈ ({} : Run).activations [answeredFor (ascii ".a")],
        ({} : Run).KeepsToOwnDomains [answeredFor (ascii ".a")] activation :=
  actAll_keepsToOwnDomains {} [answeredFor (ascii ".a")] (by decide +kernel)

/-- A cookie for another site is taken and sent there. -/
theorem Run.not_keepsToOwnDomains_other :
    (({} : Run).actAll
        [answeredFor (ascii "b")]).jar.buildCookieHeader
          (ascii "b") [slash] = ascii "s=1" ∧
      ¬ ∀ activation ∈ ({} : Run).activations [answeredFor (ascii "b")],
        ({} : Run).KeepsToOwnDomains [answeredFor (ascii "b")]
          activation := by
  have hforeign : ¬ ∀ activation ∈
      ({} : Run).activations [answeredFor (ascii "b")],
      ∀ headerLine ∈ activation.stored, DomainMatch activation.sent.host
        (CookieJar.parseCookie headerLine activation.sent.host).domain := by
    decide +kernel
  constructor
  · decide +kernel
  · intro hkeeps
    exact hforeign fun activation hmem => (hkeeps activation hmem).own

end VynxHttp
