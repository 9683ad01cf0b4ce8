import VynxHttp.PoolInvariant

/-!
# Which connections requests are written to

An entry under the key of an origin has been connected to exactly that host and
port, has a finished handshake just when the scheme is `https`, has not failed,
and carries the time of its last use.  The rules of the pool turn this into
what every request and every reuse of a run may rely on.
-/

namespace VynxHttp

open ResourcePool EventLog

/-! ## Keys -/

theorem colon_notMem_decimal (n : ℕ) : colon ∉ decimal n := fun hmem =>
  absurd (isDecimalDigit_of_mem_decimal hmem) (by decide)

theorem append_colon_inj {first second text text' : Bytes}
    (htext : colon ∉ text) (htext' : colon ∉ text')
    (hsame : first ++ colon :: text = second ++ colon :: text') :
    first = second ∧ text = text' := by
  have hreverse := congrArg (cutAt colon ∘ List.reverse) hsame
  simp only [Function.comp_apply, List.reverse_append, List.reverse_cons,
    List.append_assoc, List.singleton_append] at hreverse
  rw [cutAt_append (by simpa using htext),
    cutAt_append (by simpa using htext')] at hreverse
  simp only [Option.some.injEq, Prod.mk.injEq, List.reverse_inj] at hreverse
  exact ⟨hreverse.2, hreverse.1⟩

theorem decimal_injective {m n : ℕ} (hsame : decimal m = decimal n) :
    m = n := by
  rw [← digitsValue_decimal m, hsame, digitsValue_decimal]

theorem poolKey_inj {scheme scheme' host host' : Bytes} {port port' : UInt16}
    (hscheme : scheme = http ∨ scheme = https)
    (hscheme' : scheme' = http ∨ scheme' = https)
    (hkey : poolKey scheme host port = poolKey scheme' host' port') :
    scheme = scheme' ∧ host = host' ∧ port = port' := by
  simp only [poolKey, List.append_assoc, List.singleton_append] at hkey
  rw [← List.append_assoc, ← List.append_assoc, ← List.append_assoc,
    ← List.append_assoc] at hkey
  obtain ⟨horigin, hport⟩ := append_colon_inj (colon_notMem_decimal _)
    (colon_notMem_decimal _) hkey
  have hsame : scheme = scheme' := by
    rcases hscheme with rfl | rfl <;> rcases hscheme' with rfl | rfl <;>
      simp [http, https, ascii] at horigin ⊢
  subst hsame
  refine ⟨rfl, by simpa using horigin, ?_⟩
  exact UInt16.toNat_inj.mp (decimal_injective hport)

/-! ## What the pool knows -/

def lastActive (past : List Event) : Option ℤ :=
  past.findSome? fun
    | .active _ time => some time
    | _ => none

/-- The entry has been opened for an origin and is fit to be used. -/
structure OpenedFor (entry : PoolEntry) (scheme host : Bytes)
    (port : UInt16) (past : List Event) : Prop where
  connected : .connected entry.conn host port ∈ past
  only : ∀ host' port', .connected entry.conn host' port' ∈ past →
    host' = host ∧ port' = port
  channel : scheme = https ∧ entry.viaTls = true ∧
      .handshaken entry.conn ∈ past ∨
    scheme = http ∧ entry.viaTls = false ∧ .handshaken entry.conn ∉ past
  unfailed : .failed entry.conn ∉ past
  time : lastActive past = some entry.lastActive

def Owned (key : Bytes) (entry : PoolEntry) (past : List Event) : Prop :=
  ∃ scheme host port, key = poolKey scheme host port ∧
    OpenedFor entry scheme host port past

theorem OpenedFor.scheme_cases {entry : PoolEntry} {scheme host : Bytes}
    {port : UInt16} {past : List Event}
    (hopened : OpenedFor entry scheme host port past) :
    scheme = http ∨ scheme = https :=
  hopened.channel.elim (fun h => .inr h.1) (fun h => .inl h.1)

/-- An event which is none of those the record of an entry depends on. -/
theorem OpenedFor.cons {entry : PoolEntry} {scheme host : Bytes}
    {port : UInt16} {past : List Event} {event : Event}
    (hopened : OpenedFor entry scheme host port past)
    (hevent : match event with
      | .reused .. | .requested .. | .responded .. => True
      | _ => False) :
    OpenedFor entry scheme host port (event :: past) where
  connected := List.mem_cons_of_mem _ hopened.connected
  only := by
    intro host' port' hmem
    rcases List.mem_cons.mp hmem with rfl | hmem
    · simp at hevent
    · exact hopened.only host' port' hmem
  channel := by
    refine hopened.channel.imp
      (fun ⟨hs, hvia, hmem⟩ => ⟨hs, hvia, List.mem_cons_of_mem _ hmem⟩)
      (fun ⟨hs, hvia, hmem⟩ => ⟨hs, hvia, fun hin => ?_⟩)
    rcases List.mem_cons.mp hin with rfl | hin
    · simp at hevent
    · exact hmem hin
  unfailed := by
    intro hmem
    rcases List.mem_cons.mp hmem with rfl | hmem
    · simp at hevent
    · exact hopened.unfailed hmem
  time := by
    rw [← hopened.time]
    cases event <;> first | rfl | simp at hevent

theorem OpenedFor.touch {entry entry' : PoolEntry} {scheme host : Bytes}
    {port : UInt16} {past : List Event}
    (hopened : OpenedFor entry scheme host port past)
    (hsame : entry.SameChannel entry') (time : ℤ) :
    OpenedFor (entry'.withLastActive time) scheme host port
      (.active entry.conn time :: past) := by
  have hconn : (entry'.withLastActive time).conn = entry.conn := by
    rw [PoolEntry.conn_withLastActive, hsame.conn_eq]
  have hvia : (entry'.withLastActive time).viaTls = entry.viaTls := by
    obtain ⟨socket, _, rfl⟩ := hsame
    rfl
  constructor
  · rw [hconn]
    exact List.mem_cons_of_mem _ hopened.connected
  · rw [hconn]
    intro host' port' hmem
    exact hopened.only host' port' (by simpa using hmem)
  · rw [hconn, hvia]
    simpa using hopened.channel
  · rw [hconn]
    simpa using hopened.unfailed
  · rfl

/-! ## What requests and reuses rely on -/

/-- A request is written to a connection which was opened to exactly its host
and port, with a handshake just when its scheme asks for one, and which has not
failed; a reused connection is connected and has not been idle for too long. -/
def ReuseSafe : Event → List Event → Prop
  | .requested conn viaTls _ request _, past =>
      .connected conn request.host request.port ∈ past ∧
      (∀ host port, .connected conn host port ∈ past →
        host = request.host ∧ port = request.port) ∧
      (request.effectiveScheme = https ∧ viaTls = true ∧
          .handshaken conn ∈ past ∨
        request.effectiveScheme = http ∧ viaTls = false ∧
          .handshaken conn ∉ past) ∧
      .failed conn ∉ past
  | .reused conn state now timeout, past =>
      state = .connected ∧ .failed conn ∉ past ∧
      ∃ time, lastActive (history Event.conn conn past) = some time ∧
        now - time ≤ timeout
  | _, _ => True

theorem mem_history_iff {event : Event} {conn : ℕ} {past : List Event}
    (habout : event.conn = some conn) :
    event ∈ history Event.conn conn past ↔ event ∈ past := by
  simp [habout]

theorem reuseRules :
    PoolRules Owned ReuseSafe (fun scheme => scheme = http ∨ scheme = https)
      (fun _ => True) where
  ok_other := by
    intro event past huse
    cases event <;> trivial
  allowed_http := .inl rfl
  allowed_https := .inr rfl
  plain := by
    intro scheme host port socket time hallowed hplain
    refine ⟨scheme, host, port, rfl, ?_⟩
    exact
      { connected := by simp [PoolEntry.conn, PoolEntry.viaTls]
        only := by simp [PoolEntry.conn, PoolEntry.viaTls]
        channel := .inr ⟨hallowed.resolve_right hplain, rfl, by simp⟩
        unfailed := by simp
        time := rfl }
  secured := by
    intro host port socket tls time _ hconn
    refine ⟨https, host, port, rfl, ?_⟩
    exact
      { connected := by simp [PoolEntry.conn, PoolEntry.viaTls]
        only := by simp
        channel := .inl ⟨rfl, rfl, by simp [PoolEntry.conn, PoolEntry.viaTls]⟩
        unfailed := by simp
        time := rfl }
  ok_reused := by
    rintro key entry now timeout past ⟨scheme, host, port, _, hopened⟩
      hstate hidle
    refine ⟨hstate, fun hmem => ?_, entry.lastActive, hopened.time, hidle⟩
    exact hopened.unfailed ((mem_history_iff rfl).mpr hmem)
  reused := by
    rintro key entry now timeout past ⟨scheme, host, port, hkey, hopened⟩
    exact ⟨scheme, host, port, hkey, hopened.cons trivial⟩
  ok_requested := by
    rintro request entry sent past hallowed
      ⟨scheme, host, port, hkey, hopened⟩
    obtain ⟨rfl, rfl, rfl⟩ :=
      poolKey_inj hallowed hopened.scheme_cases hkey
    refine ⟨(mem_history_iff rfl).mp hopened.connected,
      fun host port hmem => hopened.only host port
        ((mem_history_iff rfl).mpr hmem), ?_,
      fun hmem => hopened.unfailed ((mem_history_iff rfl).mpr hmem)⟩
    have hchannel := hopened.channel
    rw [mem_history_iff (show Event.conn (.handshaken entry.conn) =
      some entry.conn from rfl)] at hchannel
    exact hchannel
  requested := by
    rintro key scheme' request entry sent past
      ⟨scheme, host, port, hkey, hopened⟩
    exact ⟨scheme, host, port, hkey, hopened.cons trivial⟩
  touched := by
    rintro key entry entry' time past ⟨scheme, host, port, hkey, hopened⟩
      hsame
    exact ⟨scheme, host, port, hkey, hopened.touch hsame time⟩
  responded := by
    rintro key entry response following past
      ⟨scheme, host, port, hkey, hopened⟩ _ _
    exact ⟨scheme, host, port, hkey, hopened.cons trivial⟩

theorem effectiveScheme_allowed {request : HttpRequest}
    (hscheme : request.scheme = [] ∨ request.scheme = http ∨
      request.scheme = https) (client : HttpClient) :
    (client.applyDefaults request).effectiveScheme = http ∨
      (client.applyDefaults request).effectiveScheme = https := by
  have hsame : (client.applyDefaults request).scheme = request.scheme := rfl
  unfold HttpRequest.effectiveScheme
  rw [hsame]
  rcases hscheme with hscheme | hscheme
  · rw [if_pos hscheme]
    split
    next => exact .inr rfl
    next => exact .inl rfl
  · have hne : request.scheme ≠ [] := by
      rcases hscheme with h | h <;> rw [h] <;> decide
    rw [if_neg hne]
    exact hscheme

/-- Whatever the owner of a client and its peers do, every request and every
reuse is safe. -/
theorem actAll_reuseSafe (client : HttpClient) (actions : List Run.Action)
    (hschemes : ∀ request hops, .execute request hops ∈ actions →
      request.scheme = [] ∨ request.scheme = http ∨
        request.scheme = https)
    (later : List Event) (event : Event) (past : List Event)
    (htrace : ((Run.start client).actAll actions).trace =
      later ++ event :: past) : ReuseSafe event past := by
  have hsound := Sound.actAll reuseRules (.start client)
    (fun request hops hmem client =>
      effectiveScheme_allowed (hschemes request hops hmem) client)
    (fun _ _ _ => trivial)
  exact hsound.holds.ok_of_split htrace

def twice : List Run.Action :=
  let request : HttpRequest := { uri := [slash], host := ascii "h" }
  let hop : HopOutcomes :=
    { sends := [.accepted 4096]
      recvs := [.received
        (ascii "HTTP/1.1 200 OK\r\nContent-Length: 0\r\n\r\n")] }
  [.execute request [hop], .execute request [hop]]

/-- The second request reuses the connection of the first. -/
theorem actAll_reuseSafe_twice :
    (((Run.start {}).actAll twice).trace.countP fun
      | .reused .. => true
      | _ => false) = 1 ∧
    ∀ later event past, ((Run.start {}).actAll twice).trace =
      later ++ event :: past → ReuseSafe event past :=
  ⟨by decide +kernel, actAll_reuseSafe {} twice (by simp [twice])⟩

end VynxHttp
