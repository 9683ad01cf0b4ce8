import VynxHttp.CookieJar
import VynxHttp.Result

/-!
# URLs

`parseUrl` follows `http_client::parse_url`.
-/

namespace VynxHttp

def http : Bytes := ascii "http"
def https : Bytes := ascii "https"

/-- `scheme` is `http` or `https`; `path` includes the query string. -/
structure ParsedUrl where
  scheme : Bytes
  host : Bytes
  port : UInt16
  path : Bytes
  deriving DecidableEq, Repr

namespace ParsedUrl

/-- The text after the `:` of a host.  What follows its leading digits is
ignored. -/
def parsePort (text : Bytes) : Result UInt16 :=
  if text = [] then .error .invalidArgument
  else
    match fromChars 10 (2 ^ 16) text with
    | none => .error .invalidArgument
    | some (port, _) =>
        if port = 0 then .error .invalidArgument
        else .ok port.toUInt16

/-- A host with its port, which is `port` when none is given. -/
def parseHostPort (hostPort : Bytes) (port : UInt16) :
    Result (Bytes × UInt16) :=
  if hostPort.head? = some 91 then
    match cutAt 93 hostPort with
    | none => .error .invalidArgument
    | some (bracketed, []) => .ok (bracketed.drop 1, port)
    | some (bracketed, b :: text) =>
        if b ≠ colon then .error .invalidArgument
        else (parsePort text).map fun port => (bracketed.drop 1, port)
  else
    match cutAt colon hostPort with
    | none => .ok (hostPort, port)
    | some (host, text) => (parsePort text).map fun port => (host, port)

/-- The text before the first `/` and the path, which starts there. -/
def splitPath (rest : Bytes) : Bytes × Bytes :=
  match cutAt slash rest with
  | none => (rest, [slash])
  | some (before, after) => (before, slash :: after)

def parseAuthority (scheme rest : Bytes) (port : UInt16) :
    Result ParsedUrl :=
  let (hostPort, path) := splitPath rest
  if hostPort = [] then .error .invalidArgument
  else
    match parseHostPort hostPort port with
    | .error code => .error code
    | .ok (host, port) =>
        if host = [] then .error .invalidArgument
        else .ok { scheme, host, port, path }

end ParsedUrl

def parseUrl (url : Bytes) : Result ParsedUrl :=
  if url.take 8 = ascii "https://" then
    ParsedUrl.parseAuthority https (url.drop 8) 443
  else if url.take 7 = ascii "http://" then
    ParsedUrl.parseAuthority http (url.drop 7) 80
  else .error .invalidArgument

namespace ParsedUrl

theorem parsePort_ne_zero {text : Bytes} {port : UInt16}
    (hparse : parsePort text = .ok port) : port ≠ 0 := by
  unfold parsePort at hparse
  split at hparse
  next => simp at hparse
  next =>
    split at hparse
    next => simp at hparse
    next value rest hdigits =>
      split at hparse
      next => simp at hparse
      next hvalue =>
        simp only [Except.ok.injEq] at hparse
        subst hparse
        have hlt : value < 2 ^ 16 := fromChars_lt hdigits
        intro hzero
        have hnat := congrArg UInt16.toNat hzero
        rw [Nat.toUInt16_eq, UInt16.toNat_ofNat', Nat.mod_eq_of_lt hlt] at hnat
        exact hvalue hnat

theorem parseHostPort_ne_zero {hostPort host : Bytes} {port port' : UInt16}
    (hport : port ≠ 0)
    (hparse : parseHostPort hostPort port = .ok (host, port')) :
    port' ≠ 0 := by
  have hmapped : ∀ {text name}, (parsePort text).map
      (fun port => (name, port)) = .ok (host, port') → port' ≠ 0 := by
    intro text name hmap
    cases htext : parsePort text with
    | error code => simp [htext, Except.map] at hmap
    | ok parsed =>
        simp only [htext, Except.map, Except.ok.injEq, Prod.mk.injEq] at hmap
        exact hmap.2 ▸ parsePort_ne_zero htext
  unfold parseHostPort at hparse
  split at hparse
  next =>
    split at hparse
    next => simp at hparse
    next =>
      simp only [Except.ok.injEq, Prod.mk.injEq] at hparse
      exact hparse.2 ▸ hport
    next =>
      split at hparse
      next => simp at hparse
      next => exact hmapped hparse
  next =>
    split at hparse
    next =>
      simp only [Except.ok.injEq, Prod.mk.injEq] at hparse
      exact hparse.2 ▸ hport
    next => exact hmapped hparse

/-- What is parsed of an accepted authority with a path. -/
theorem parseAuthority_eq_ok_iff {scheme rest : Bytes} {port : UInt16}
    {parsed : ParsedUrl} :
    parseAuthority scheme rest port = .ok parsed ↔
      (splitPath rest).1 ≠ [] ∧ ∃ host port',
        parseHostPort (splitPath rest).1 port = .ok (host, port') ∧
        host ≠ [] ∧ parsed = ⟨scheme, host, port', (splitPath rest).2⟩ := by
  simp only [parseAuthority]
  by_cases hempty : (splitPath rest).1 = []
  · simp [hempty]
  · rw [if_neg hempty]
    cases hhostPort : parseHostPort (splitPath rest).1 port with
    | error code => simp
    | ok found =>
        obtain ⟨host, port'⟩ := found
        by_cases hhost : host = []
        · simp [hhost]
        · simp [hempty, hhost, eq_comm]

theorem parseAuthority_ok {scheme rest : Bytes} {port : UInt16}
    {parsed : ParsedUrl} (hport : port ≠ 0)
    (hparse : parseAuthority scheme rest port = .ok parsed) :
    parsed.scheme = scheme ∧ parsed.host ≠ [] ∧ parsed.port ≠ 0 := by
  obtain ⟨_, host, port', hhostPort, hhost, rfl⟩ :=
    parseAuthority_eq_ok_iff.mp hparse
  exact ⟨rfl, hhost, parseHostPort_ne_zero hport hhostPort⟩

end ParsedUrl

/-- An accepted URL has one of the two schemes. -/
theorem parseUrl_cases {url : Bytes} {parsed : ParsedUrl}
    (hparse : parseUrl url = .ok parsed) :
    url.take 8 = ascii "https://" ∧
        ParsedUrl.parseAuthority https (url.drop 8) 443 = .ok parsed ∨
      url.take 8 ≠ ascii "https://" ∧ url.take 7 = ascii "http://" ∧
        ParsedUrl.parseAuthority http (url.drop 7) 80 = .ok parsed := by
  unfold parseUrl at hparse
  split at hparse
  next hhttps => exact .inl ⟨hhttps, hparse⟩
  next hhttps =>
    split at hparse
    next hhttp => exact .inr ⟨hhttps, hhttp, hparse⟩
    next => cases hparse

theorem parseUrl_ok {url : Bytes} {parsed : ParsedUrl}
    (hparse : parseUrl url = .ok parsed) :
    (parsed.scheme = http ∨ parsed.scheme = https) ∧ parsed.host ≠ [] ∧
      parsed.port ≠ 0 := by
  rcases parseUrl_cases hparse with ⟨_, hhttps⟩ | ⟨_, _, hhttp⟩
  · obtain ⟨hscheme, hrest⟩ :=
      ParsedUrl.parseAuthority_ok (by decide) hhttps
    exact ⟨.inr hscheme, hrest⟩
  · obtain ⟨hscheme, hrest⟩ :=
      ParsedUrl.parseAuthority_ok (by decide) hhttp
    exact ⟨.inl hscheme, hrest⟩

end VynxHttp
