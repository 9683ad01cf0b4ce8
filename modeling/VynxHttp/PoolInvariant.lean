import VynxHttp.ResourcePool
import VynxHttp.RunTrace

/-!
# The connection pool over whole runs

The connections of a client are a pool of numbered resources.  `PoolRules` are
the conditions under which knowledge about pool entries survives one activation
of `do_execute`; `Sound.actAll` extends them to every run.
-/

namespace VynxHttp

open ResourcePool EventLog

/-! ## Entries keep their connection -/

namespace PoolEntry

/-- The same entry but for the state of its socket. -/
def SameChannel (entry entry' : PoolEntry) : Prop :=
  ∃ socket : TcpSocket, socket.conn = entry.socket.conn ∧
    entry' = entry.withSocket socket

theorem SameChannel.refl (entry : PoolEntry) : entry.SameChannel entry :=
  ⟨entry.socket, rfl, rfl⟩

theorem SameChannel.trans {first second third : PoolEntry}
    (hfirst : first.SameChannel second)
    (hsecond : second.SameChannel third) : first.SameChannel third := by
  obtain ⟨socket, hsocket, rfl⟩ := hfirst
  obtain ⟨socket', hsocket', rfl⟩ := hsecond
  exact ⟨socket', hsocket'.trans hsocket, rfl⟩

theorem conn_withSocket {entry : PoolEntry} {socket : TcpSocket}
    (hconn : socket.conn = entry.socket.conn) :
    (entry.withSocket socket).conn = entry.conn := by
  simp only [conn]
  split
  next hvia => rw [dif_pos (show entry.viaTls = true from hvia)]; rfl
  next hvia => rw [dif_neg (show ¬ entry.viaTls = true from hvia)]; exact hconn

theorem SameChannel.conn_eq {entry entry' : PoolEntry}
    (hsame : entry.SameChannel entry') : entry'.conn = entry.conn := by
  obtain ⟨socket, hsocket, rfl⟩ := hsame
  exact conn_withSocket hsocket

@[simp] theorem conn_withLastActive (entry : PoolEntry) (time : ℤ) :
    (entry.withLastActive time).conn = entry.conn := rfl

theorem receive_conn (socket : TcpSocket) (outcome : RecvOutcome) :
    (socket.receive outcome).1.conn = socket.conn := by
  unfold TcpSocket.receive
  split
  next => rfl
  next => split <;> rfl

theorem read_sameChannel (entry : PoolEntry) (outcome : RecvOutcome) :
    entry.SameChannel (entry.read outcome).1 := by
  unfold read
  split
  next => exact .refl entry
  next =>
    exact ⟨(entry.socket.receive outcome).1, receive_conn _ _, rfl⟩

theorem receiveLoop_sameChannel {entry : PoolEntry} {parser : HttpParser}
    {outcomes : List RecvOutcome} {received : Received}
    (hreceive : entry.receiveLoop parser outcomes = some received) :
    entry.SameChannel received.entry := by
  induction outcomes generalizing entry parser with
  | nil =>
      obtain ⟨result, _, rfl⟩ := Option.map_eq_some_iff.mp hreceive
      exact .refl entry
  | cons outcome outcomes ih =>
      have hread := entry.read_sameChannel outcome
      rw [receiveLoop] at hreceive
      split at hreceive
      next =>
        simp only [Option.some.injEq] at hreceive
        exact hreceive ▸ .refl entry
      next =>
        split at hreceive
        next next code hresult =>
          rw [hresult] at hread
          simp only [Option.some.injEq] at hreceive
          exact hreceive ▸ hread
        next next bytes hresult =>
          rw [hresult] at hread
          split at hreceive
          next =>
            simp only [Option.some.injEq] at hreceive
            exact hreceive ▸ hread
          next =>
            split at hreceive
            next => simp at hreceive
            next =>
              simp only [Option.some.injEq] at hreceive
              exact hreceive ▸ hread
            next => exact hread.trans (ih hreceive)

theorem sendAndReceive_sameChannel {entry : PoolEntry}
    {request : HttpRequest} {sends : List SendOutcome}
    {recvs : List RecvOutcome} {received : Received}
    (hexchange : entry.sendAndReceive request sends recvs = some received) :
    entry.SameChannel received.entry := by
  unfold sendAndReceive at hexchange
  split at hexchange
  next => simp at hexchange
  next =>
    simp only [Option.some.injEq] at hexchange
    exact hexchange ▸ .refl entry
  next => exact receiveLoop_sameChannel hexchange

end PoolEntry

/-! ## The pool of a run -/

def Event.conn : Event → Option ℕ
  | .connected conn .. | .handshaken conn | .active conn _
  | .reused conn .. | .requested conn .. | .failed conn
  | .responded conn .. => some conn
  | .redirected .. | .followed .. => none

/-- The events which are only admissible on a suitable connection. -/
def Event.isUse : Event → Bool
  | .reused .. | .requested .. => true
  | _ => false

namespace Run

def pool (run : Run) : Pool Bytes PoolEntry Event :=
  ⟨run.client.connections, run.opened, run.trace⟩

end Run

/-! ## What is known of entries and events -/

/-- What is known of entries, `Good`, and which events are admissible, `ok`, go
together: `allowed` are the schemes of the requests, and `Permitted` the
responses which may be followed. -/
structure PoolRules (Good : Bytes → PoolEntry → List Event → Prop)
    (ok : Event → List Event → Prop) (allowed : Bytes → Prop)
    (Permitted : HttpResponse → Prop) : Prop where
  ok_other : ∀ event past, event.isUse = false → ok event past
  allowed_http : allowed http
  allowed_https : allowed https
  plain : ∀ scheme host port socket time, allowed scheme →
    scheme ≠ https →
    Good (poolKey scheme host port) { socket, lastActive := time }
      [.active socket.conn time, .connected socket.conn host port]
  secured : ∀ host port socket (tls : TlsContext) time, allowed https →
    tls.conn = socket.conn →
    Good (poolKey https host port)
      { socket, tls := some tls, isTls := true, tlsHandshakeDone := true
        lastActive := time }
      [.active tls.conn time, .handshaken tls.conn,
        .connected tls.conn host port]
  ok_reused : ∀ key entry now timeout past,
    Good key entry (history Event.conn entry.conn past) →
    entry.socket.state = .connected → now - entry.lastActive ≤ timeout →
    ok (.reused entry.conn entry.socket.state now timeout) past
  reused : ∀ key entry now timeout past, Good key entry past →
    Good key entry
      (.reused entry.conn entry.socket.state now timeout :: past)
  ok_requested : ∀ request entry sent past,
    allowed request.effectiveScheme →
    Good (poolKey request.effectiveScheme request.host request.port) entry
      (history Event.conn entry.conn past) →
    ok (.requested entry.conn entry.viaTls request.effectiveScheme request
      sent) past
  requested : ∀ key scheme request entry sent past, Good key entry past →
    Good key entry
      (.requested entry.conn entry.viaTls scheme request sent :: past)
  touched : ∀ key entry entry' time past, Good key entry past →
    entry.SameChannel entry' →
    Good key (entry'.withLastActive time) (.active entry.conn time :: past)
  responded : ∀ key entry response following past, Good key entry past →
    (following = true → Permitted response) →
    (following = false → response.headers.connectionKeepAlive = true) →
    Good key entry (.responded entry.conn response following :: past)

/-- The pool is as it should be, and so was every event. -/
structure Sound (Good : Bytes → PoolEntry → List Event → Prop)
    (ok : Event → List Event → Prop) (run : Run) : Prop where
  inv : Inv PoolEntry.conn Event.conn Good run.pool
  holds : Holds ok run.trace

variable {Good : Bytes → PoolEntry → List Event → Prop}
  {ok : Event → List Event → Prop} {allowed : Bytes → Prop}
  {Permitted : HttpResponse → Prop} {run run' : Run} {hop : HopOutcomes}
  {scheme key : Bytes} {request : HttpRequest} {entry : PoolEntry}

theorem Sound.log_of_inv (hsound : Sound Good ok run) {event : Event}
    (hinv : Inv PoolEntry.conn Event.conn Good (run.log event).pool)
    (hok : ok event run.trace) : Sound Good ok (run.log event) :=
  ⟨hinv, hok, hsound.holds⟩

theorem Sound.erase (hsound : Sound Good ok run) (key : Bytes) :
    Sound Good ok (run.erase key) :=
  ⟨hsound.inv.drop key, hsound.holds⟩

theorem Sound.cleanupIdle (hsound : Sound Good ok run) (now : ℤ) :
    Sound Good ok (run.cleanupIdle now) :=
  ⟨hsound.inv.keep _, hsound.holds⟩

/-! ## Opening a connection -/

/-- A connection which is open and not in the pool yet. -/
structure Fresh (run : Run) (conn : ℕ) (events : List Event) : Prop where
  lt : conn < run.opened
  unheld : run.pool.Unheld PoolEntry.conn conn
  history_eq : history Event.conn conn run.trace = events

theorem Fresh.log {conn : ℕ} {events : List Event}
    (hfresh : Fresh run conn events) (event : Event)
    (habout : event.conn = some conn) :
    Fresh (run.log event) conn (event :: events) where
  lt := hfresh.lt
  unheld := hfresh.unheld
  history_eq := by
    rw [Run.log, history_cons_same habout, hfresh.history_eq]

namespace PoolRules

variable (rules : PoolRules Good ok allowed Permitted)

include rules

theorem log_fresh (hsound : Sound Good ok run) {conn : ℕ}
    {events : List Event} (hfresh : Fresh run conn events) (event : Event)
    (habout : event.conn = some conn) (huse : event.isUse = false) :
    Sound Good ok (run.log event) :=
  hsound.log_of_inv
    (hsound.inv.record_unheld event habout hfresh.lt hfresh.unheld)
    (rules.ok_other event _ huse)

theorem connectSocket (hsound : Sound Good ok run) {status : Result TcpSocket}
    (hstep : run.connectSocket hop request = (run', status)) :
    Sound Good ok run' ∧ ∀ socket, status = .ok socket →
      Fresh run' socket.conn
        [.connected socket.conn request.host request.port] := by
  have hopened : Sound Good ok { run with opened := run.opened + 1 } :=
    ⟨hsound.inv.next, hsound.holds⟩
  have hfresh : Fresh { run with opened := run.opened + 1 } run.opened [] :=
    ⟨Nat.lt_succ_self _, hsound.inv.unheld_next, hsound.inv.history_next⟩
  unfold Run.connectSocket at hstep
  split at hstep
  next =>
    simp only at hstep
    split at hstep
    next code hconnect =>
      simp only [Prod.mk.injEq] at hstep
      obtain ⟨rfl, rfl⟩ := hstep
      exact ⟨hopened, by simp⟩
    next socket hconnect =>
      simp only [Prod.mk.injEq] at hstep
      obtain ⟨rfl, rfl⟩ := hstep
      have hconn : socket.conn = run.opened := by
        have hsocket := congrArg Prod.fst hconnect
        simp only at hsocket
        rw [← hsocket]
        unfold TcpSocket.connect
        split
        next => rfl
        next => split <;> rfl
      rw [hconn]
      refine ⟨rules.log_fresh hopened hfresh _ rfl rfl, fun socket' hok => ?_⟩
      simp only [Except.ok.injEq] at hok
      rw [← hok, hconn]
      exact hfresh.log _ rfl
  next =>
    simp only [Prod.mk.injEq] at hstep
    obtain ⟨rfl, rfl⟩ := hstep
    exact ⟨hsound, by simp⟩

theorem secureSocket (hsound : Sound Good ok run) {socket : TcpSocket}
    {hostname : Bytes} {events : List Event}
    (hfresh : Fresh run socket.conn events) {status : Result TlsContext}
    (hstep : run.secureSocket hop hostname socket = (run', status)) :
    Sound Good ok run' ∧ ∀ tls, status = .ok tls →
      tls.conn = socket.conn ∧
        Fresh run' tls.conn (.handshaken tls.conn :: events) := by
  unfold Run.secureSocket at hstep
  rcases hcontext : run.ensureTlsContext hop with ⟨ready, context⟩
  have hready : ready.pool = run.pool := by
    have hfirst := congrArg Prod.fst hcontext
    simp only at hfirst
    rw [← hfirst]
    unfold Run.ensureTlsContext
    split
    next => rfl
    next => split <;> rfl
  have hreadySound : Sound Good ok ready :=
    ⟨hready ▸ hsound.inv, by
      have htrace : ready.trace = run.trace := congrArg Pool.log hready
      rw [htrace]
      exact hsound.holds⟩
  have hreadyFresh : Fresh ready socket.conn events := by
    have hopened : ready.opened = run.opened := congrArg Pool.opened hready
    have htrace : ready.trace = run.trace := congrArg Pool.log hready
    exact ⟨hopened ▸ hfresh.lt, hready ▸ hfresh.unheld,
      htrace ▸ hfresh.history_eq⟩
  rw [hcontext] at hstep
  cases context with
  | error code =>
      simp only [Prod.mk.injEq] at hstep
      obtain ⟨rfl, rfl⟩ := hstep
      exact ⟨hreadySound, by simp⟩
  | ok _ =>
      simp only at hstep
      split at hstep
      next code hcreate =>
        simp only [Prod.mk.injEq] at hstep
        obtain ⟨rfl, rfl⟩ := hstep
        exact ⟨hreadySound, by simp⟩
      next tls hcreate =>
        have hconn : tls.conn = socket.conn := by
          unfold TlsContext.create at hcreate
          split at hcreate
          next => simp at hcreate
          next =>
            simp only [Except.ok.injEq] at hcreate
            rw [← hcreate]
        split at hstep
        next code hhandshake =>
          simp only [Prod.mk.injEq] at hstep
          obtain ⟨rfl, rfl⟩ := hstep
          exact ⟨hreadySound, by simp⟩
        next hhandshake =>
          simp only [Prod.mk.injEq] at hstep
          obtain ⟨rfl, rfl⟩ := hstep
          rw [← hconn] at hreadyFresh
          refine ⟨rules.log_fresh hreadySound hreadyFresh _ rfl rfl,
            fun tls' hok => ?_⟩
          simp only [Except.ok.injEq] at hok
          rw [← hok]
          exact ⟨hconn, hreadyFresh.log _ rfl⟩

theorem insert (key : Bytes) (entry : PoolEntry)
    (hsound : Sound Good ok run) {events : List Event}
    (hfresh : Fresh run entry.conn events)
    (hgood : Good key entry
      (.active entry.conn entry.lastActive :: events)) :
    Sound Good ok (run.insert key entry).1 ∧
      (run.insert key entry).1.client.connections key = some entry := by
  have hactive := rules.log_fresh hsound hfresh
    (.active entry.conn entry.lastActive) rfl rfl
  have hlogged := hfresh.log (.active entry.conn entry.lastActive) rfl
  refine ⟨⟨hactive.inv.put key entry hlogged.lt ?_ ?_, hactive.holds⟩, ?_⟩
  · intro key' entry' hheld
    exact hlogged.unheld key' entry' (held_drop hheld).2
  · change Good key entry (history Event.conn entry.conn
      (run.log (.active entry.conn entry.lastActive)).trace)
    rw [hlogged.history_eq]
    exact hgood
  · simp [Run.insert, Run.put]

theorem openConnection (hsound : Sound Good ok run)
    (hallowed : allowed scheme)
    (hkey : key = poolKey scheme request.host request.port)
    {status : Result PoolEntry}
    (hstep : run.openConnection hop scheme key request = (run', status)) :
    Sound Good ok run' ∧ ∀ entry, status = .ok entry →
      run'.client.connections key = some entry := by
  unfold Run.openConnection at hstep
  rcases hconnect : run.connectSocket hop request with
    ⟨connected, socketStatus⟩
  obtain ⟨hconnected, hsocket⟩ := rules.connectSocket hsound hconnect
  rw [hconnect] at hstep
  cases socketStatus with
  | error code =>
      simp only [Prod.mk.injEq] at hstep
      obtain ⟨rfl, rfl⟩ := hstep
      exact ⟨hconnected, by simp⟩
  | ok socket =>
      have hfresh := hsocket socket rfl
      simp only at hstep
      split at hstep
      next htls =>
        rcases hsecure : connected.secureSocket hop request.host socket with
          ⟨secured, tlsStatus⟩
        obtain ⟨hsecured, htlsOk⟩ :=
          rules.secureSocket hconnected hfresh hsecure
        rw [hsecure] at hstep
        cases tlsStatus with
        | error code =>
            simp only [Prod.mk.injEq] at hstep
            obtain ⟨rfl, rfl⟩ := hstep
            exact ⟨hsecured, by simp⟩
        | ok tls =>
            obtain ⟨hconn, htlsFresh⟩ := htlsOk tls rfl
            simp only at hstep
            obtain ⟨hinserted, hheld⟩ :=
              rules.insert key
                { socket, tls := some tls, isTls := true
                  tlsHandshakeDone := true
                  lastActive := hop.insertedAt }
                hsecured htlsFresh (by
                  rw [hkey, htls, ← hconn]
                  exact rules.secured _ _ _ _ _ (htls ▸ hallowed) hconn)
            have hrun := congrArg Prod.fst hstep
            have hstatus := congrArg Prod.snd hstep
            simp only at hrun hstatus
            rw [← hrun]
            refine ⟨hinserted, fun entry hok => ?_⟩
            rw [← hstatus] at hok
            simp only [Run.insert, Except.ok.injEq] at hok
            rw [← hok]
            exact hheld
      next htls =>
        obtain ⟨hinserted, hheld⟩ :=
          rules.insert key { socket, lastActive := hop.insertedAt }
            hconnected hfresh (by
              rw [hkey]
              exact rules.plain _ _ _ _ _ hallowed htls)
        have hrun := congrArg Prod.fst hstep
        have hstatus := congrArg Prod.snd hstep
        simp only at hrun hstatus
        rw [← hrun]
        refine ⟨hinserted, fun entry hok => ?_⟩
        rw [← hstatus] at hok
        simp only [Run.insert, Except.ok.injEq] at hok
        rw [← hok]
        exact hheld

theorem obtainConnection (hsound : Sound Good ok run)
    (hallowed : allowed scheme)
    (hkey : key = poolKey scheme request.host request.port)
    (hidle : ∀ key entry, run.client.connections key = some entry →
      hop.now - entry.lastActive ≤ run.client.config.idleTimeout)
    {status : Result PoolEntry}
    (hstep : run.obtainConnection hop scheme key request =
      (run', status)) :
    Sound Good ok run' ∧ ∀ entry, status = .ok entry →
      run'.client.connections key = some entry := by
  unfold Run.obtainConnection at hstep
  split at hstep
  next entry hheld =>
    split at hstep
    next husable =>
      simp only [Prod.mk.injEq] at hstep
      obtain ⟨rfl, rfl⟩ := hstep
      have hstate : entry.socket.state = .connected := by
        simp only [Bool.and_eq_true, beq_iff_eq] at husable
        exact husable.2
      have hgood := hsound.inv.good key entry hheld
      refine ⟨hsound.log_of_inv ?_ ?_, fun entry' hok => ?_⟩
      · exact hsound.inv.record_held hheld rfl
          (rules.reused _ _ _ _ _ hgood)
      · exact rules.ok_reused key entry _ _ _ hgood hstate
          (hidle key entry hheld)
      · simp only [Except.ok.injEq] at hok
        rw [← hok]
        exact hheld
    next => exact rules.openConnection (hsound.erase key) hallowed hkey hstep
  next => exact rules.openConnection hsound hallowed hkey hstep

/-! ## The exchange -/

theorem followRedirect (hsound : Sound Good ok run)
    {response : HttpResponse} :
    Sound Good ok (run.followRedirect scheme request response).1 := by
  have hannounce : ∀ source target status,
      Sound Good ok (run.announceRedirect source target status) := by
    intro source target status
    unfold Run.announceRedirect
    split
    next =>
      exact hsound.log_of_inv (hsound.inv.record_none rfl)
        (rules.ok_other _ _ rfl)
    next => exact hsound
  unfold Run.followRedirect
  split
  next => exact hsound
  next =>
    split
    next => exact hsound
    next =>
      simp only
      split
      next => exact hannounce _ _ _
      next =>
        exact (hannounce _ _ _).log_of_inv
          ((hannounce _ _ _).inv.record_none rfl) (rules.ok_other _ _ rfl)

/-- The round trip is recorded; what is known of the entry then depends on what
the response says and on how it is dealt with. -/
theorem recordTime (hsound : Sound Good ok run) {old : PoolEntry}
    (hheld : run.client.connections key = some old)
    (hsame : old.SameChannel entry) (time : ℤ) (response : HttpResponse)
    (host : Bytes) :
    Sound Good ok (((run.put key (entry.withLastActive time)).log
      (.active entry.conn time)).storeCookies response host) := by
  have hgood := hsound.inv.good key old hheld
  have htouched := hsound.inv.touch (entry.withLastActive time)
    (.active entry.conn time) hheld
    (by rw [PoolEntry.conn_withLastActive, hsame.conn_eq])
    (by rw [hsame.conn_eq]; rfl)
    (by
      rw [hsame.conn_eq]
      exact rules.touched _ _ _ _ _ hgood hsame)
  exact ⟨htouched, rules.ok_other _ _ rfl, hsound.holds⟩

theorem finishHop (hsound : Sound Good ok run) {old : PoolEntry}
    (hheld : run.client.connections key = some old)
    (hsame : old.SameChannel entry) {doneAt : ℤ} {remaining : ℕ}
    {response : HttpResponse}
    (hpermitted : ∀ conn response', .responded conn response' true ∈
      (run.finishHop doneAt scheme key request remaining entry
        response).1.trace → Permitted response') :
    Sound Good ok (run.finishHop doneAt scheme key request remaining entry
      response).1 := by
  have htime := rules.recordTime hsound hheld hsame doneAt response
    request.host
  have hentry : (((run.put key (entry.withLastActive doneAt)).log
      (.active entry.conn doneAt)).storeCookies response
        request.host).pool.held key =
      some (entry.withLastActive doneAt) := by
    simp [Run.pool, Run.put, Run.log, Run.storeCookies]
  have hgood := htime.inv.good key _ hentry
  -- the response is admissible for an entry which stays in the pool
  have hresponded : ∀ following : Bool,
      (following = true → Permitted response) →
      (following = false →
        response.headers.connectionKeepAlive = true) →
      Sound Good ok (run.recordResponse doneAt key request entry response
        following) := fun following hfollow hkeep =>
    htime.log_of_inv
      (htime.inv.record_held hentry rfl
        (rules.responded _ _ _ _ _ hgood hfollow hkeep))
      (rules.ok_other _ _ rfl)
  unfold Run.finishHop at hpermitted ⊢
  simp only at hpermitted ⊢
  cases hfollowing : response.isRedirect &&
      run.client.config.followRedirects && decide (0 < remaining) with
  | true =>
      rw [hfollowing, if_pos rfl] at hpermitted
      rw [if_pos rfl]
      refine rules.followRedirect (hresponded true (fun _ => ?_) (by simp))
      exact hpermitted entry.conn response
        ((Run.followRedirect_closes _ _ _ _).suffix.mem (by simp))
  | false =>
      rw [if_neg (by simp)]
      by_cases hkeep : response.headers.connectionKeepAlive = true
      · rw [if_pos hkeep]
        exact hresponded false (by simp) fun _ => hkeep
      · rw [if_neg hkeep]
        have hdropped := htime.inv.drop key
        have hunheld := htime.inv.unheld_drop hentry
        have hlogged := hdropped.record_unheld
          (.responded entry.conn response false) rfl
          (htime.inv.held_lt key (entry.withLastActive doneAt) hentry)
          hunheld
        exact ⟨hlogged, rules.ok_other _ _ rfl, htime.holds⟩

theorem exchange (hsound : Sound Good ok run)
    (hallowed : allowed request.effectiveScheme)
    (hscheme : scheme = request.effectiveScheme)
    (hkey : key = poolKey scheme request.host request.port)
    (hheld : run.client.connections key = some entry) {remaining : ℕ}
    (hpermitted : ∀ conn response, .responded conn response true ∈
      (run.exchange hop scheme key request remaining entry).1.trace →
        Permitted response) :
    Sound Good ok
      (run.exchange hop scheme key request remaining entry).1 := by
  subst hscheme
  have hgood := hsound.inv.good key entry hheld
  have hrequested : ∀ sent, Sound Good ok
      (run.log (.requested entry.conn entry.viaTls request.effectiveScheme
        request sent)) :=
    fun sent => hsound.log_of_inv
      (hsound.inv.record_held hheld rfl
        (rules.requested _ _ _ _ _ _ hgood))
      (rules.ok_requested _ _ _ _ hallowed (hkey ▸ hgood))
  unfold Run.exchange at hpermitted ⊢
  simp only at hpermitted ⊢
  split
  next => exact hrequested _
  next =>
    have hfailed := (hrequested
      (entry.sendRequest request hop.sends).1).inv
    have hlogged := (hfailed.drop key).record_unheld
      (.failed entry.conn) rfl (hfailed.held_lt key entry hheld)
      (hfailed.unheld_drop hheld)
    exact ⟨hlogged, rules.ok_other _ _ rfl, (hrequested _).holds⟩
  next received response unread hexchange =>
    rw [hexchange] at hpermitted
    exact rules.finishHop (hrequested _) hheld
      (PoolEntry.sendAndReceive_sameChannel hexchange) hpermitted

/-! ## Whole calls and whole runs -/

theorem executeHop (hsound : Sound Good ok run)
    (hallowed : allowed (run.client.applyDefaults request).effectiveScheme)
    {remaining : ℕ}
    (hpermitted : ∀ conn response, .responded conn response true ∈
      (run.executeHop hop request remaining).1.trace →
        Permitted response) :
    Sound Good ok (run.executeHop hop request remaining).1 := by
  unfold Run.executeHop at hpermitted ⊢
  simp only at hpermitted ⊢
  generalize run.client.applyDefaults request = request
    at hallowed hpermitted ⊢
  have hidle : ∀ key entry,
      (run.cleanupIdle hop.now).client.connections key = some entry →
      hop.now - entry.lastActive ≤
        (run.cleanupIdle hop.now).client.config.idleTimeout := by
    intro key entry hheld
    exact of_decide_eq_true (Option.filter_eq_some_iff.mp hheld).2
  split
  next obtained code hobtain =>
    exact (rules.obtainConnection (hsound.cleanupIdle hop.now) hallowed rfl
      hidle hobtain).1
  next obtained entry hobtain =>
    obtain ⟨hobtained, hheld⟩ :=
      rules.obtainConnection (hsound.cleanupIdle hop.now) hallowed rfl
        hidle hobtain
    rw [hobtain] at hpermitted
    exact rules.exchange hobtained hallowed rfl rfl (hheld entry rfl)
      hpermitted

omit rules in
/-- The follow-up of a redirect names its scheme. -/
theorem follow_scheme {next : HttpRequest} {remaining : ℕ}
    (hstep : run.executeHop hop request remaining =
      (run', .follow next)) : next.scheme = http ∨ next.scheme = https := by
  obtain ⟨url, target, status, past, hparse, rfl, _, _⟩ :=
    Run.executeHop_follow hstep
  exact (parseUrl_ok hparse).1

theorem allowed_of_scheme (client : HttpClient)
    (hscheme : request.scheme = http ∨ request.scheme = https) :
    allowed (client.applyDefaults request).effectiveScheme := by
  have heffective : (client.applyDefaults request).effectiveScheme =
      request.scheme := by
    have hne : request.scheme ≠ [] := by
      rcases hscheme with h | h <;> rw [h] <;> decide
    exact if_neg hne
  rw [heffective]
  rcases hscheme with h | h <;> rw [h]
  · exact rules.allowed_http
  · exact rules.allowed_https

theorem doExecute {hops : List HopOutcomes} (hsound : Sound Good ok run)
    (hallowed : allowed (run.client.applyDefaults request).effectiveScheme)
    {remaining : ℕ}
    (hpermitted : ∀ conn response, .responded conn response true ∈
      (Run.doExecute hops run request remaining).1.trace →
        Permitted response) :
    Sound Good ok (Run.doExecute hops run request remaining).1 := by
  induction hops generalizing run request remaining with
  | nil => exact hsound
  | cons hop hops ih =>
      have hhop : (∀ conn response, .responded conn response true ∈
          (run.executeHop hop request remaining).1.trace →
            Permitted response) →
          Sound Good ok (run.executeHop hop request remaining).1 :=
        fun h => rules.executeHop hsound hallowed h
      rw [Run.doExecute] at hpermitted ⊢
      split
      next hstep =>
        rw [hstep] at hhop hpermitted
        exact hhop hpermitted
      next hstep =>
        rw [hstep] at hhop hpermitted
        exact hhop hpermitted
      next next follow hstep =>
        rw [hstep] at hhop hpermitted
        have hnext := hhop fun conn response hmem =>
          hpermitted conn response
            ((Run.doExecute_suffix hops _ _ _).mem hmem)
        exact ih hnext
          (rules.allowed_of_scheme _ (follow_scheme hstep)) hpermitted

end PoolRules

def AllowedActions (allowed : Bytes → Prop) (actions : List Run.Action) :
    Prop :=
  ∀ request hops, Run.Action.execute request hops ∈ actions →
    ∀ client : HttpClient,
      allowed (client.applyDefaults request).effectiveScheme

theorem Sound.actAll (rules : PoolRules Good ok allowed Permitted)
    {actions : List Run.Action} (hsound : Sound Good ok run)
    (hallowed : AllowedActions allowed actions)
    (hpermitted : ∀ conn response, .responded conn response true ∈
      (run.actAll actions).trace → Permitted response) :
    Sound Good ok (run.actAll actions) := by
  induction actions generalizing run with
  | nil => exact hsound
  | cons action actions ih =>
      have hact : (∀ conn response, .responded conn response true ∈
          (run.act action).1.trace → Permitted response) →
          Sound Good ok (run.act action).1 := by
        intro h
        cases action with
        | execute request hops =>
            exact rules.doExecute hsound
              (hallowed request hops (by simp) run.client) h
        | configure config => exact ⟨hsound.inv, hsound.holds⟩
        | setCookies cookies => exact ⟨hsound.inv, hsound.holds⟩
        | onRedirect callback => exact ⟨hsound.inv, hsound.holds⟩
      rw [Run.actAll] at hpermitted ⊢
      split
      next hstep =>
        rw [hstep] at hact hpermitted
        refine ih (hact fun conn response hmem => hpermitted conn response
          ((Run.actAll_suffix _ actions).mem hmem))
          (fun request hops hmem => hallowed request hops (by simp [hmem]))
          hpermitted
      next hstep =>
        rw [hstep] at hact hpermitted
        exact hact hpermitted

def Run.start (client : HttpClient) : Run where
  client := { client with connections := fun _ => none, tlsReady := false }

theorem Sound.start (client : HttpClient) :
    Sound Good ok (Run.start client) :=
  ⟨.empty (fun _ => rfl) rfl, trivial⟩

end VynxHttp
