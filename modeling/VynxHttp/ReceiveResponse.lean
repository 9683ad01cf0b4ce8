import VynxHttp.ChunkedSegmentation
import VynxHttp.ParserInvariant
import VynxHttp.PoolEntry

/-!
# Receiving a response

`receive_response` returns a response exactly when the parser has become
complete on the bytes read so far, and it leaves what has not been read to the
next response on the connection.  With what is known of the parser this says
when a chunk-coded response is taken off the connection to its last byte.
-/

namespace VynxHttp

open DelimitedText FuelLoop Segmentation

namespace HttpParser

theorem feedAll_of_stopped {p : HttpParser}
    (hstate : p.state = .error ∨ p.state = .complete)
    (segments : List Bytes) : p.feedAll segments = some p := by
  induction segments with
  | nil => rfl
  | cons segment segments ih =>
      have hfeed : p.feed segment = some (p, success) := by
        rw [feed, if_pos hstate]
      rw [feedAll, run_cons_of_eq (by rw [hfeed]; rfl)]
      exact ih

theorem feedAll_append {p q final : HttpParser} {first second : List Bytes}
    (hfirst : p.feedAll first = some q)
    (hsecond : q.feedAll second = some final) :
    p.feedAll (first ++ second) = some final := by
  rw [feedAll] at hfirst hsecond ⊢
  rw [run_append, hfirst, Option.bind_some, hsecond]

end HttpParser

namespace PoolEntry

/-- The entry can be read from: through its session, or through a connected
socket. -/
def Usable (entry : PoolEntry) : Prop :=
  entry.viaTls = true ∨ entry.socket.state = .connected

def plainEntry : PoolEntry where
  socket := { conn := 0, state := .connected }

theorem read_received {entry : PoolEntry} (husable : entry.Usable)
    {bytes : Bytes} (hne : bytes ≠ []) :
    entry.read (.received bytes) = (entry, .ok bytes) := by
  cases bytes with
  | nil => exact absurd rfl hne
  | cons byte bytes =>
      unfold read
      by_cases hvia : entry.viaTls = true
      · rw [if_pos hvia]
        rfl
      · have hconnected := husable.resolve_left hvia
        rw [if_neg hvia]
        simp [TcpSocket.receive, hconnected, withSocket]

theorem receive_ok {socket : TcpSocket} {outcome : RecvOutcome}
    {bytes : Bytes} (hreceive : (socket.receive outcome).2 = .ok bytes)
    (hne : bytes ≠ []) : outcome = .received bytes := by
  unfold TcpSocket.receive at hreceive
  split at hreceive
  next => simp at hreceive
  next => split at hreceive <;> simp_all

theorem tlsRead_ok {outcome : RecvOutcome} {bytes : Bytes}
    (hread : TlsContext.read outcome = .ok bytes) :
    outcome = .received bytes := by
  unfold TlsContext.read at hread
  split at hread <;> simp_all

theorem read_ok {entry next : PoolEntry} {outcome : RecvOutcome}
    {bytes : Bytes} (hread : entry.read outcome = (next, .ok bytes))
    (hne : bytes ≠ []) : outcome = .received bytes := by
  have hstatus := congrArg Prod.snd hread
  unfold read at hstatus
  split at hstatus
  next => exact tlsRead_ok hstatus
  next => exact receive_ok hstatus hne

theorem exitWith_eq_none_iff {parser : HttpParser} :
    exitWith parser = none ↔
      parser.state ≠ .complete ∧ parser.state ≠ .error := by
  unfold exitWith
  split
  next hstate => simp [hstate]
  next hstate =>
    split
    next herror => simp [herror]
    next herror => simp [hstate, herror]

theorem exitWith_ok {parser : HttpParser} {response : HttpResponse}
    (hexit : exitWith parser = some (.ok response)) :
    parser.state = .complete ∧ parser.response = response := by
  unfold exitWith at hexit
  split at hexit
  next hstate => exact ⟨hstate, by simpa using hexit⟩
  next => split at hexit <;> simp at hexit

theorem receiveLoop_complete {entry : PoolEntry} {parser : HttpParser}
    (hstate : parser.state = .complete) (outcomes : List RecvOutcome) :
    entry.receiveLoop parser outcomes =
      some ⟨entry, .ok parser.response, outcomes⟩ := by
  have hexit : exitWith parser = some (.ok parser.response) := by
    rw [exitWith, if_pos hstate]
  cases outcomes with
  | nil => rw [receiveLoop, hexit, Option.map_some]
  | cons outcome outcomes => rw [receiveLoop, hexit]

/-- Bytes are handed on to the parser as long as it is not complete. -/
theorem receiveLoop_segments {entry : PoolEntry} (husable : entry.Usable)
    {segments : List Bytes} {parser p : HttpParser}
    (hframed : parser.Framed) (hne : ∀ segment ∈ segments, segment ≠ [])
    (hrun : parser.feedAll segments = some p) (hp : p.state ≠ .error)
    (hwaits : ∀ before after q, segments = before ++ after → after ≠ [] →
      parser.feedAll before = some q → q.state ≠ .complete)
    (outcomes : List RecvOutcome) :
    entry.receiveLoop parser (segments.map .received ++ outcomes) =
      entry.receiveLoop p outcomes := by
  induction segments generalizing parser with
  | nil =>
      simp only [HttpParser.feedAll, run_nil, Option.some.injEq] at hrun
      simp [hrun]
  | cons segment segments ih =>
      have hcomplete : parser.state ≠ .complete :=
        hwaits [] (segment :: segments) parser rfl (by simp) rfl
      have herror : parser.state ≠ .error := by
        intro hstate
        rw [HttpParser.feedAll_of_stopped (.inl hstate),
          Option.some.injEq] at hrun
        exact hp (hrun ▸ hstate)
      have hexit := exitWith_eq_none_iff.mpr ⟨hcomplete, herror⟩
      obtain ⟨next, hfeed, htail⟩ := Option.bind_eq_some_iff.mp hrun
      obtain ⟨⟨next', result⟩, hstep, rfl⟩ :=
        Option.map_eq_some_iff.mp hfeed
      obtain ⟨hnextFramed, hresult⟩ :=
        HttpParser.feed_result hframed hstep
      have hok : result = success := by
        refine hresult.resolve_right fun hstate => ?_
        have hstay := HttpParser.feedAll_of_stopped (.inl hstate) segments
        rw [HttpParser.feedAll] at hstay
        rw [hstay, Option.some.injEq] at htail
        exact hp (htail ▸ hstate)
      subst hok
      have hsegment : segment ≠ [] := hne segment (by simp)
      have hnext := ih hnextFramed
        (fun data hdata => hne data (by simp [hdata])) htail
        (fun before after q hsplit hafter hq =>
          hwaits (segment :: before) after q (by simp [hsplit]) hafter (by
            rw [HttpParser.feedAll, run_cons_of_eq (by rw [hstep]; rfl)]
            exact hq))
      rw [List.map_cons, List.cons_append, receiveLoop, hexit]
      simp only [read_received husable hsegment, if_neg hsegment, hstep,
        success]
      exact hnext

/-- A response is returned only by a parser which is complete on the bytes read
so far; the answers after these bytes are left unread. -/
theorem receiveLoop_ok {entry : PoolEntry} {parser : HttpParser}
    {outcomes : List RecvOutcome} {received : Received}
    {response : HttpResponse}
    (hreceive : entry.receiveLoop parser outcomes = some received)
    (hok : received.result = .ok response) :
    ∃ segments p, outcomes = segments.map .received ++ received.unread ∧
      parser.feedAll segments = some p ∧ p.state = .complete ∧
      p.response = response := by
  induction outcomes generalizing entry parser with
  | nil =>
      obtain ⟨result, hexit, rfl⟩ := Option.map_eq_some_iff.mp hreceive
      simp only at hok
      rw [hok] at hexit
      obtain ⟨hstate, hresponse⟩ := exitWith_ok hexit
      exact ⟨[], parser, rfl, rfl, hstate, hresponse⟩
  | cons outcome outcomes ih =>
      rw [receiveLoop] at hreceive
      split at hreceive
      next result hexit =>
        simp only [Option.some.injEq] at hreceive
        subst hreceive
        simp only at hok
        rw [hok] at hexit
        obtain ⟨hstate, hresponse⟩ := exitWith_ok hexit
        exact ⟨[], parser, rfl, rfl, hstate, hresponse⟩
      next =>
        split at hreceive
        next next code hread =>
          simp only [Option.some.injEq] at hreceive
          subst hreceive
          simp at hok
        next next bytes hread =>
          split at hreceive
          next =>
            simp only [Option.some.injEq] at hreceive
            subst hreceive
            simp at hok
          next hne =>
            split at hreceive
            next => simp at hreceive
            next =>
              simp only [Option.some.injEq] at hreceive
              subst hreceive
              simp at hok
            next parser' hfeed =>
              obtain ⟨segments, p, hsplit, hrun, hstate, hresponse⟩ :=
                ih hreceive
              refine ⟨bytes :: segments, p, ?_, ?_, hstate, hresponse⟩
              · rw [read_ok hread hne, hsplit]
                rfl
              · rw [HttpParser.feedAll,
                  run_cons_of_eq (by rw [hfeed]; rfl)]
                exact hrun

/-- The same with the received bytes given: a prefix of them has been read. -/
theorem receiveResponse_ok {entry : PoolEntry} {segments : List Bytes}
    {received : Received} {response : HttpResponse}
    (hreceive : entry.receiveResponse (segments.map .received) =
      some received) (hok : received.result = .ok response) :
    ∃ before after p, segments = before ++ after ∧
      received.unread = after.map .received ∧
      HttpParser.new.feedAll before = some p ∧ p.state = .complete ∧
      p.response = response := by
  obtain ⟨read, p, hsplit, hrun, hstate, hresponse⟩ :=
    receiveLoop_ok hreceive hok
  obtain ⟨before, after, rfl, hbefore, hafter⟩ :=
    List.map_eq_append_iff.mp hsplit
  have hread : before = read :=
    List.map_injective_iff.mpr (fun _ _ => RecvOutcome.received.inj) hbefore
  exact ⟨before, after, p, rfl, hafter.symm, hread ▸ hrun, hstate, hresponse⟩

end PoolEntry

end VynxHttp
