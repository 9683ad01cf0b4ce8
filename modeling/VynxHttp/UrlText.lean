import VynxHttp.Numerals
import VynxHttp.RelativeRedirect

/-!
# URLs and their text

The URLs which a caller can write, with hosts, ports and paths that carry what
makes them well formed.  `parseUrl` reads each of them back.
-/

namespace VynxHttp

inductive UrlScheme where
  | http
  | https
  deriving DecidableEq, Repr

def UrlScheme.text : UrlScheme → Bytes
  | .http => VynxHttp.http
  | .https => VynxHttp.https

/-- The characters which end a host that is not in brackets: `/`, `:`, `[`,
`]`, `?` and `#`. -/
def hostDelimiters : Bytes :=
  [slash, colon, leftBracket, rightBracket, 63, 35]

/-- A name or an IPv4 address, or what is written in brackets. -/
inductive UrlHost where
  | name (host : Bytes) (ne_nil : host ≠ [])
      (free : ∀ b ∈ host, b ∉ hostDelimiters)
  | literal (host : Bytes) (ne_nil : host ≠ [])
      (bracket_notMem : rightBracket ∉ host) (slash_notMem : slash ∉ host)

namespace UrlHost

def host : UrlHost → Bytes
  | .name host .. => host
  | .literal host .. => host

def text : UrlHost → Bytes
  | .name host .. => host
  | .literal host .. => leftBracket :: host ++ [rightBracket]

end UrlHost

/-- The decimal numerals of ports. -/
structure PortText (text : Bytes) : Prop where
  numeral : Numeral text
  pos : 1 ≤ digitsValue 10 text
  le : digitsValue 10 text ≤ 65535

instance : DecidablePred PortText := fun text =>
  decidable_of_iff (Numeral text ∧ 1 ≤ digitsValue 10 text ∧
      digitsValue 10 text ≤ 65535)
    ⟨fun h => ⟨h.1, h.2.1, h.2.2⟩, fun h => ⟨h.1, h.2, h.3⟩⟩

structure UrlText where
  scheme : UrlScheme
  host : UrlHost
  port : Option { text : Bytes // PortText text }
  path : Bytes
  path_slash : path = [] ∨ [slash] <+: path

namespace UrlText

def portText (url : UrlText) : Bytes :=
  match url.port with
  | none => []
  | some port => colon :: port.1

def hostPort (url : UrlText) : Bytes := url.host.text ++ url.portText

def text (url : UrlText) : Bytes :=
  url.scheme.text ++ ascii "://" ++ (url.hostPort ++ url.path)

def portNumber (url : UrlText) : UInt16 :=
  match url.port with
  | none => defaultPort url.scheme.text
  | some port => (digitsValue 10 port.1).toUInt16

/-- What the text says. -/
def meaning (url : UrlText) : ParsedUrl where
  scheme := url.scheme.text
  host := url.host.host
  port := url.portNumber
  path := if url.path = [] then [slash] else url.path

end UrlText

/-! ## Reading ports -/

namespace ParsedUrl

/-- A port is what the text begins with. -/
theorem parsePort_eq_ok_iff {text : Bytes} {port : UInt16} :
    parsePort text = .ok port ↔
      leadingDigits text ≠ [] ∧
        digitsValue 10 (leadingDigits text) = port.toNat ∧
        port.toNat ≠ 0 := by
  constructor
  · intro hparse
    have hport : port.toNat ≠ 0 := fun hzero =>
      parsePort_ne_zero hparse (UInt16.toNat_inj.mp hzero)
    unfold parsePort at hparse
    split at hparse
    next => simp at hparse
    next =>
      split at hparse
      next => simp at hparse
      next value rest hread =>
        obtain ⟨hne, hvalue, hlimit, _⟩ :=
          fromChars_ten_eq_some_iff.mp hread
        split at hparse
        next => simp at hparse
        next =>
          rw [Except.ok.injEq] at hparse
          refine ⟨hne, ?_, hport⟩
          rw [hvalue, ← hparse, Nat.toUInt16_eq, UInt16.toNat_ofNat',
            Nat.mod_eq_of_lt hlimit]
  · rintro ⟨hne, hvalue, hport⟩
    have hlimit : port.toNat < 2 ^ 16 := port.toNat_lt
    have hread : fromChars 10 (2 ^ 16) text =
        some (port.toNat, afterDigits text) :=
      fromChars_ten_eq_some_iff.mpr ⟨hne, hvalue, hlimit, rfl⟩
    have htext : text ≠ [] := by
      rintro rfl
      exact hne rfl
    rw [parsePort, if_neg htext, hread]
    simp [hport]

theorem parsePort_error {text : Bytes} {code : ErrorCode}
    (hparse : parsePort text = .error code) : code = .invalidArgument := by
  unfold parsePort at hparse
  split at hparse
  next => exact (Except.error.inj hparse).symm
  next =>
    split at hparse
    next => exact (Except.error.inj hparse).symm
    next =>
      split at hparse
      next => exact (Except.error.inj hparse).symm
      next => cases hparse

/-- The port with which the text begins. -/
theorem parsePort_leadingDigits {text : Bytes}
    (hne : leadingDigits text ≠ [])
    (hpos : 1 ≤ digitsValue 10 (leadingDigits text))
    (hle : digitsValue 10 (leadingDigits text) ≤ 65535) :
    parsePort text =
      .ok (digitsValue 10 (leadingDigits text)).toUInt16 := by
  have hvalue : (digitsValue 10 (leadingDigits text)).toUInt16.toNat =
      digitsValue 10 (leadingDigits text) :=
    UInt16.toNat_ofNat_of_lt' (Nat.lt_succ_of_le hle)
  rw [parsePort_eq_ok_iff, hvalue]
  exact ⟨hne, rfl, Nat.one_le_iff_ne_zero.mp hpos⟩

theorem parsePort_portText {text : Bytes} (hport : PortText text) :
    parsePort text = .ok (digitsValue 10 text).toUInt16 := by
  have hself := hport.numeral.leadingDigits_eq
  have hparse := @parsePort_leadingDigits text
  rw [hself] at hparse
  exact hparse hport.numeral.ne_nil hport.pos hport.le

end ParsedUrl

/-! ## Reading URLs back -/

namespace UrlHost

theorem text_ne_nil (host : UrlHost) : host.text ≠ [] := by
  cases host with
  | name host ne_nil => exact ne_nil
  | literal host => exact List.cons_ne_nil _ _

theorem slash_notMem_text (host : UrlHost) : slash ∉ host.text := by
  cases host with
  | name host _ free =>
      exact fun hmem => free slash hmem (by decide)
  | literal host _ _ slash_notMem =>
      rw [text, List.cons_append, List.mem_cons, List.mem_append,
        List.mem_singleton]
      rintro (hslash | hmem | hslash)
      · exact absurd hslash (by decide)
      · exact slash_notMem hmem
      · exact absurd hslash (by decide)

end UrlHost

namespace UrlText

theorem slash_notMem_hostPort (url : UrlText) : slash ∉ url.hostPort := by
  rw [hostPort, List.mem_append, not_or]
  refine ⟨url.host.slash_notMem_text, ?_⟩
  unfold portText
  cases url.port with
  | none => exact List.not_mem_nil
  | some port =>
      rw [List.mem_cons, not_or]
      refine ⟨by decide, fun hmem => ?_⟩
      exact absurd (port.2.numeral.digits slash hmem) (by decide)

theorem parseHostPort_hostPort (url : UrlText) :
    ParsedUrl.parseHostPort url.hostPort (defaultPort url.scheme.text) =
      .ok (url.host.host, url.portNumber) := by
  unfold hostPort portText portNumber ParsedUrl.parseHostPort
  cases url.host with
  | name host ne_nil free =>
      have hcolon : colon ∉ host := fun hmem => free colon hmem (by decide)
      have hbracket : host.head? ≠ some 91 := fun hhead =>
        free _ (List.mem_of_head? hhead) (by decide)
      cases url.port with
      | none =>
          simp only [UrlHost.text, List.append_nil, if_neg hbracket,
            cutAt_eq_none_iff.mpr hcolon, UrlHost.host]
      | some port =>
          simp only [UrlHost.text, List.head?_append_of_ne_nil _ ne_nil,
            if_neg hbracket, cutAt_append hcolon,
            ParsedUrl.parsePort_portText port.2, Except.map, UrlHost.host]
  | literal host _ bracket_notMem =>
      have hright : rightBracket ∉ leftBracket :: host := by
        rw [List.mem_cons, not_or]
        exact ⟨by decide, bracket_notMem⟩
      have hhead : ∀ rest : Bytes,
          (leftBracket :: host ++ [rightBracket] ++ rest).head? = some 91 :=
        fun _ => rfl
      have hcut : ∀ rest : Bytes,
          cutAt 93 (leftBracket :: host ++ [rightBracket] ++ rest) =
            some (leftBracket :: host, rest) := by
        intro rest
        rw [List.append_assoc]
        exact cutAt_append hright rest
      cases url.port with
      | none =>
          simp only [UrlHost.text, if_pos (hhead _), hcut]
          rfl
      | some port =>
          simp only [UrlHost.text, if_pos (hhead _), hcut,
            ParsedUrl.parsePort_portText port.2, Except.map, UrlHost.host]
          simp

/-- Every URL is parsed as what its text says. -/
theorem parseUrl_text (url : UrlText) :
    parseUrl url.text = .ok url.meaning := by
  have hscheme : url.scheme.text = http ∨ url.scheme.text = https := by
    cases url.scheme with
    | http => exact .inl rfl
    | https => exact .inr rfl
  have hsplit : ParsedUrl.splitPath (url.hostPort ++ url.path) =
      (url.hostPort, if url.path = [] then [slash] else url.path) := by
    have hslash := url.slash_notMem_hostPort
    rcases url.path_slash with hnone | hpath
    · rw [hnone, List.append_nil, ParsedUrl.splitPath,
        cutAt_eq_none_iff.mpr hslash, if_pos rfl]
    · have hne : url.path ≠ [] := by
        intro hnil
        rw [hnil] at hpath
        exact absurd (List.prefix_nil.mp hpath) (by decide)
      rw [ParsedUrl.splitPath_append hslash hpath, if_neg hne]
  have hne : url.hostPort ≠ [] :=
    List.append_ne_nil_of_left_ne_nil url.host.text_ne_nil _
  have hhost : url.host.host ≠ [] := by
    cases url.host with
    | name host ne_nil => exact ne_nil
    | literal host ne_nil => exact ne_nil
  rw [text, parseUrl_scheme hscheme, ParsedUrl.parseAuthority, hsplit]
  simp only [if_neg hne, parseHostPort_hostPort, if_neg hhost]
  rfl

def loopback : UrlText where
  scheme := .https
  host := .literal (ascii "::1") (by decide) (by decide) (by decide)
  port := some ⟨ascii "0443", by decide⟩
  path := ascii "/a:b//c"
  path_slash := by decide

theorem parseUrl_text_loopback :
    loopback.text = ascii "https://[::1]:0443/a:b//c" ∧
      parseUrl loopback.text = .ok
        { scheme := ascii "https", host := ascii "::1", port := 443,
          path := ascii "/a:b//c" } := by
  refine ⟨by decide, ?_⟩
  rw [parseUrl_text]
  decide

end UrlText

end VynxHttp
