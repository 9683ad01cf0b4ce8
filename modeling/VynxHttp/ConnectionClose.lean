import VynxHttp.PoolInvariant

/-!
# Connections which the server asks to close

A response with `Connection: close` takes its connection out of the pool,
unless it is dealt with as a redirect: that branch of `do_execute` returns
before the header is looked at.
-/

namespace VynxHttp

open ResourcePool EventLog

/-- A response which asks to close the connection it came on. -/
def Event.closes (conn : ℕ) : Event → Bool
  | .responded answered response _ =>
      answered == conn && !response.headers.connectionKeepAlive
  | _ => false

/-- A response which asks to close its connection, in the redirect branch. -/
def Event.ignoresClose : Event → Bool
  | .responded _ response following =>
      following && !response.headers.connectionKeepAlive
  | _ => false

def Event.requestedOn : Event → Option ℕ
  | .requested conn .. => some conn
  | _ => none

def OpenFor (conn : ℕ) (past : List Event) : Prop :=
  ∀ event ∈ past, event.closes conn = false

instance (conn : ℕ) (past : List Event) : Decidable (OpenFor conn past) :=
  inferInstanceAs (Decidable (∀ event ∈ past, event.closes conn = false))

def SentBeforeClose (event : Event) (past : List Event) : Prop :=
  ∀ conn ∈ event.requestedOn, OpenFor conn past

instance (event : Event) (past : List Event) :
    Decidable (SentBeforeClose event past) :=
  inferInstanceAs (Decidable (∀ conn ∈ event.requestedOn, OpenFor conn past))

/-- No request has been sent on a connection which the server had asked to
close, and none is left in the pool. -/
structure CloseHonoured (run : Run) : Prop where
  requests : Holds SentBeforeClose run.trace
  pooled : ∀ key entry, run.client.connections key = some entry →
    OpenFor entry.conn run.trace

theorem Event.conn_of_closes {event : Event} {conn : ℕ}
    (hcloses : event.closes conn = true) : event.conn = some conn := by
  cases event with
  | responded answered response following =>
      simp only [Event.closes, Bool.and_eq_true, beq_iff_eq] at hcloses
      exact congrArg some hcloses.1
  | _ => simp [Event.closes] at hcloses

theorem openFor_history_iff {conn : ℕ} {past : List Event} :
    OpenFor conn (history Event.conn conn past) ↔ OpenFor conn past := by
  constructor
  · intro hopen event hmem
    by_contra hcloses
    rw [Bool.not_eq_false] at hcloses
    have hhistory := mem_history.mpr ⟨hmem, Event.conn_of_closes hcloses⟩
    rw [hopen event hhistory] at hcloses
    exact absurd hcloses (by decide)
  · exact fun hopen event hmem => hopen event (mem_history.mp hmem).1

theorem OpenFor.cons {conn : ℕ} {past : List Event} {event : Event}
    (hopen : OpenFor conn past) (hevent : event.closes conn = false) :
    OpenFor conn (event :: past) := by
  simpa [OpenFor, hevent] using hopen

theorem closeRules :
    PoolRules (fun _ entry past => OpenFor entry.conn past) SentBeforeClose
      (fun _ => True)
      (fun response => response.headers.connectionKeepAlive = true) where
  ok_other := by
    intro event past huse
    cases event <;> simp [SentBeforeClose, Event.requestedOn, Event.isUse]
      at huse ⊢
  allowed_http := trivial
  allowed_https := trivial
  plain := by
    intro scheme host port socket time _ _ event hmem
    rcases (by simpa using hmem : event = _ ∨ event = _) with rfl | rfl <;> rfl
  secured := by
    intro host port socket tls time _ _ event hmem
    rcases (by simpa using hmem : event = _ ∨ event = _ ∨ event = _) with
      rfl | rfl | rfl <;> rfl
  ok_reused := by
    intro key entry now timeout past _ _ _
    simp [SentBeforeClose, Event.requestedOn]
  reused := fun _ _ _ _ _ hopen => hopen.cons rfl
  ok_requested := by
    intro request entry sent past _ hopen conn hconn
    simp only [Event.requestedOn, Option.mem_some_iff] at hconn
    exact hconn ▸ openFor_history_iff.mp hopen
  requested := fun _ _ _ _ _ _ hopen => hopen.cons rfl
  touched := by
    intro key entry entry' time past hopen hsame
    rw [PoolEntry.conn_withLastActive, hsame.conn_eq]
    exact hopen.cons rfl
  responded := by
    intro key entry response following past hopen hfollowed hreturned
    have hkeep : response.headers.connectionKeepAlive = true := by
      cases following with
      | true => exact hfollowed rfl
      | false => exact hreturned rfl
    exact hopen.cons (by simp [Event.closes, hkeep])

/-- What happens otherwise: whatever the response says, its connection stays in
the pool when it is dealt with as a redirect. -/
theorem Run.finishHop_keeps (run : Run) (doneAt : ℤ) (scheme key : Bytes)
    (request : HttpRequest) (remaining : ℕ) (entry : PoolEntry)
    (response : HttpResponse)
    (hfollowing : (response.isRedirect && run.client.config.followRedirects &&
      decide (0 < remaining)) = true) :
    (run.finishHop doneAt scheme key request remaining entry
      response).1.client.connections key =
        some (entry.withLastActive doneAt) := by
  have hrecorded : (run.recordResponse doneAt key request entry response
      true).client.connections key = some (entry.withLastActive doneAt) := by
    simp [Run.recordResponse, Run.put, Run.log, Run.storeCookies]
  unfold Run.finishHop
  simp only [hfollowing, if_true]
  unfold Run.followRedirect
  split
  next => exact hrecorded
  next =>
    split
    next => exact hrecorded
    next =>
      simp only [Run.announceRedirect]
      split <;> split <;> exact hrecorded

/-- As long as no response which asks to close its connection is dealt with as
a redirect, connections are given up as the server asks. -/
theorem actAll_closeHonoured (client : HttpClient)
    (actions : List Run.Action)
    (hclose : ∀ event ∈ ((Run.start client).actAll actions).trace,
      event.ignoresClose = false) :
    CloseHonoured ((Run.start client).actAll actions) := by
  have hsound := Sound.actAll closeRules (.start client)
    (show AllowedActions _ actions from fun _ _ _ _ => trivial)
    (fun conn response hmem => by
      simpa [Event.ignoresClose] using hclose _ hmem)
  exact
    { requests := hsound.holds
      pooled := fun key entry hheld =>
        openFor_history_iff.mp (hsound.inv.good key entry hheld) }

/-- A `200` which asks to close the connection, and then another request. -/
def closedThenAgain : List Run.Action :=
  let request : HttpRequest := { uri := [slash], host := ascii "h" }
  let hop : HopOutcomes :=
    { sends := [.accepted 4096]
      recvs := [.received (ascii
        "HTTP/1.1 200 OK\r\nConnection: close\r\nContent-Length: 0\r\n\r\n")] }
  [.execute request [hop], .execute request [hop]]

theorem actAll_closeHonoured_again :
    ((Run.start {}).actAll closedThenAgain).opened = 2 ∧
      CloseHonoured ((Run.start {}).actAll closedThenAgain) :=
  ⟨by decide +kernel, actAll_closeHonoured {} closedThenAgain
    (by decide +kernel)⟩

/-- A redirect which asks to close the connection, and its follow-up. -/
def closedByRedirect : List Run.Action :=
  let request : HttpRequest := { uri := [slash], host := ascii "h" }
  let redirect : HopOutcomes :=
    { sends := [.accepted 4096]
      recvs := [.received (ascii
        "HTTP/1.1 302 Found\r\nLocation: /b\r\nConnection: close\r\nContent-Length: 0\r\n\r\n")] }
  let answer : HopOutcomes :=
    { sends := [.accepted 4096]
      recvs := [.received
        (ascii "HTTP/1.1 200 OK\r\nContent-Length: 0\r\n\r\n")] }
  [.execute request [redirect, answer]]

theorem not_closeHonoured_redirect :
    ¬ CloseHonoured ((Run.start {}).actAll closedByRedirect) := by
  have hreused : ¬ Holds SentBeforeClose
      ((Run.start {}).actAll closedByRedirect).trace := by decide +kernel
  exact mt CloseHonoured.requests hreused

end VynxHttp
