import VynxHttp.UrlText

/-!
# The ports of URLs

`parse_url` drops the pointer to where the number of a port ends, so what
follows the digits goes unnoticed.
-/

namespace VynxHttp

namespace ParsedUrl

/-- What stands after the `:` of a host, or after the `:` which follows its
closing bracket. -/
def portTextOf (hostPort : Bytes) : Option Bytes :=
  if hostPort.head? = some leftBracket then
    match cutAt rightBracket hostPort with
    | none | some (_, []) => none
    | some (_, b :: text) => if b = colon then some text else none
  else (cutAt colon hostPort).map Prod.snd

def hostTextOf (hostPort : Bytes) : Bytes :=
  if hostPort.head? = some leftBracket then
    ((cutAt rightBracket hostPort).getD (hostPort, [])).1.drop 1
  else ((cutAt colon hostPort).getD (hostPort, [])).1

end ParsedUrl

/-- The text between the scheme of a URL and its path. -/
def hostPortText (url : Bytes) : Option Bytes :=
  if url.take 8 = ascii "https://" then
    some (ParsedUrl.splitPath (url.drop 8)).1
  else if url.take 7 = ascii "http://" then
    some (ParsedUrl.splitPath (url.drop 7)).1
  else none

/-- The ports of a URL are taken from whole numerals only. -/
structure WholePort (url : Bytes) : Prop where
  accepted : ∀ parsed, parseUrl url = .ok parsed →
    ∀ hostPort ∈ hostPortText url,
      ∀ text ∈ ParsedUrl.portTextOf hostPort,
        PortText text ∧ digitsValue 10 text = parsed.port.toNat
  rejected : ∀ hostPort ∈ hostPortText url,
    ∀ text ∈ ParsedUrl.portTextOf hostPort, ¬PortText text →
      parseUrl url = .error .invalidArgument

/-- The text after a host does not begin with a port and go on. -/
def EndsWithPort (hostPort : Bytes) : Prop :=
  ParsedUrl.hostTextOf hostPort ≠ [] →
    ∀ text ∈ ParsedUrl.portTextOf hostPort,
      leadingDigits text ≠ [] → 1 ≤ digitsValue 10 (leadingDigits text) →
        digitsValue 10 (leadingDigits text) ≤ 65535 →
        leadingDigits text = text

namespace ParsedUrl

/-- A host with a port text is parsed as the two parts say. -/
theorem parseHostPort_of_portText {hostPort text : Bytes}
    (htext : portTextOf hostPort = some text) (port : UInt16) :
    parseHostPort hostPort port =
      (parsePort text).map fun port => (hostTextOf hostPort, port) := by
  unfold portTextOf at htext
  unfold parseHostPort hostTextOf
  by_cases hbracket : hostPort.head? = some leftBracket
  · rw [if_pos hbracket] at htext
    rw [if_pos (show hostPort.head? = some 91 from hbracket),
      if_pos hbracket]
    split at htext
    next => simp at htext
    next => simp at htext
    next bracketed b rest hcut =>
      rw [Option.ite_none_right_eq_some, Option.some.injEq] at htext
      obtain ⟨rfl, rfl⟩ := htext
      have hcut' : cutAt 93 hostPort = some (bracketed, colon :: rest) := hcut
      simp [hcut, hcut']
  · rw [if_neg hbracket] at htext
    rw [if_neg (show ¬hostPort.head? = some 91 from hbracket),
      if_neg hbracket]
    obtain ⟨⟨host, text⟩, hcut, rfl⟩ := Option.map_eq_some_iff.mp htext
    simp [hcut]

theorem ne_nil_of_portText {hostPort text : Bytes}
    (htext : portTextOf hostPort = some text) : hostPort ≠ [] := by
  rintro rfl
  simp [portTextOf, cutAt] at htext

end ParsedUrl

/-- A URL with a port text is parsed when the text begins with a port, and
there is a host. -/
theorem parseUrl_of_portText {url hostPort text : Bytes}
    (hhostPort : hostPortText url = some hostPort)
    (htext : ParsedUrl.portTextOf hostPort = some text) :
    (∃ scheme path, ∀ port, ParsedUrl.parsePort text = .ok port →
        ParsedUrl.hostTextOf hostPort ≠ [] →
        parseUrl url =
          .ok ⟨scheme, ParsedUrl.hostTextOf hostPort, port, path⟩) ∧
      (∀ code, ParsedUrl.parsePort text = .error code →
        parseUrl url = .error .invalidArgument) ∧
      (ParsedUrl.hostTextOf hostPort = [] →
        parseUrl url = .error .invalidArgument) := by
  have hne := ParsedUrl.ne_nil_of_portText htext
  have hauthority : ∀ scheme rest fallback,
      (ParsedUrl.splitPath rest).1 = hostPort →
      ParsedUrl.parseAuthority scheme rest fallback =
        match ParsedUrl.parsePort text with
        | .error code => .error code
        | .ok port =>
            if ParsedUrl.hostTextOf hostPort = [] then
              .error .invalidArgument
            else .ok ⟨scheme, ParsedUrl.hostTextOf hostPort, port,
              (ParsedUrl.splitPath rest).2⟩ := by
    rintro scheme rest fallback rfl
    simp only [ParsedUrl.parseAuthority, if_neg hne,
      ParsedUrl.parseHostPort_of_portText htext]
    cases ParsedUrl.parsePort text <;> rfl
  obtain ⟨scheme, rest, fallback, hrest, hurl⟩ :
      ∃ scheme rest fallback, (ParsedUrl.splitPath rest).1 = hostPort ∧
        parseUrl url = ParsedUrl.parseAuthority scheme rest fallback := by
    unfold hostPortText at hhostPort
    unfold parseUrl
    split at hhostPort
    next hhttps =>
      rw [Option.some.injEq] at hhostPort
      exact ⟨https, url.drop 8, 443, hhostPort, if_pos hhttps⟩
    next hhttps =>
      rw [Option.ite_none_right_eq_some, Option.some.injEq] at hhostPort
      refine ⟨http, url.drop 7, 80, hhostPort.2, ?_⟩
      rw [if_neg hhttps, if_pos hhostPort.1]
  rw [hurl, hauthority scheme rest fallback hrest]
  refine ⟨⟨scheme, (ParsedUrl.splitPath rest).2, ?_⟩, ?_, ?_⟩
  · intro port hport hhost
    rw [hport]
    exact if_neg hhost
  · intro code hport
    rw [hport, ParsedUrl.parsePort_error hport]
  · intro hhost
    cases hport : ParsedUrl.parsePort text with
    | error code => rw [ParsedUrl.parsePort_error hport]
    | ok port => exact if_pos hhost

theorem wholePort_iff_of_portText {url hostPort text : Bytes}
    (hhostPort : hostPortText url = some hostPort)
    (htext : ParsedUrl.portTextOf hostPort = some text) :
    WholePort url ↔ EndsWithPort hostPort := by
  obtain ⟨⟨scheme, path, hok⟩, hbad, hnoHost⟩ :=
    parseUrl_of_portText hhostPort htext
  constructor
  · intro hwhole hhost text' htext' hne hpos hle
    obtain rfl : text = text' := Option.some.inj (htext.symm.trans htext')
    have hport := ParsedUrl.parsePort_leadingDigits hne hpos hle
    obtain ⟨hnumeral, _⟩ :=
      hwhole.accepted _ (hok _ hport hhost) hostPort hhostPort text htext
    exact hnumeral.numeral.leadingDigits_eq
  · intro hends
    by_cases hhost : ParsedUrl.hostTextOf hostPort = []
    · have herror := hnoHost hhost
      refine ⟨fun parsed hparse => ?_, fun _ _ _ _ _ => herror⟩
      rw [herror] at hparse
      simp at hparse
    · cases hport : ParsedUrl.parsePort text with
      | error code =>
          have herror := hbad code hport
          refine ⟨fun parsed hparse => ?_, fun _ _ _ _ _ => herror⟩
          rw [herror] at hparse
          simp at hparse
      | ok port =>
          obtain ⟨hne, hvalue, hzero⟩ :=
            ParsedUrl.parsePort_eq_ok_iff.mp hport
          have hlt : port.toNat < 2 ^ 16 := port.toNat_lt
          have hself : leadingDigits text = text :=
            hends hhost text htext hne (by omega) (by omega)
          rw [hself] at hne hvalue
          have hwhole : PortText text :=
            ⟨⟨hne, leadingDigits_eq_self_iff.mp hself⟩, by omega, by omega⟩
          constructor
          · intro parsed hparse hostPort' hhostPort' text' htext'
            obtain rfl : hostPort = hostPort' :=
              Option.some.inj (hhostPort.symm.trans hhostPort')
            obtain rfl : text = text' :=
              Option.some.inj (htext.symm.trans htext')
            rw [hok port hport hhost, Except.ok.injEq] at hparse
            subst hparse
            exact ⟨hwhole, hvalue⟩
          · intro hostPort' hhostPort' text' htext' hnot
            obtain rfl : hostPort = hostPort' :=
              Option.some.inj (hhostPort.symm.trans hhostPort')
            obtain rfl : text = text' :=
              Option.some.inj (htext.symm.trans htext')
            exact absurd hwhole hnot

/-- Ports are whole numerals exactly when no port is followed by something
else. -/
theorem wholePort_iff (url : Bytes) :
    WholePort url ↔ ∀ hostPort ∈ hostPortText url, EndsWithPort hostPort := by
  cases hhostPort : hostPortText url with
  | none =>
      refine iff_of_true ⟨?_, ?_⟩ (by simp)
      · simp [hhostPort]
      · simp [hhostPort]
  | some hostPort =>
      cases htext : ParsedUrl.portTextOf hostPort with
      | none =>
          refine iff_of_true ⟨?_, ?_⟩ ?_
          · simp [hhostPort, htext]
          · simp [hhostPort, htext]
          · simp [EndsWithPort, htext]
      | some text =>
          rw [wholePort_iff_of_portText hhostPort htext]
          simp

/-- The port of `http://a:80x/` is read as 80. -/
theorem not_wholePort_trailing : ¬WholePort (ascii "http://a:80x/") := by
  intro hwhole
  have hparse : parseUrl (ascii "http://a:80x/") =
      .ok ⟨http, ascii "a", 80, [slash]⟩ := by
    decide +kernel
  obtain ⟨hport, _⟩ := hwhole.accepted _ hparse (ascii "a:80x")
    (by decide) (ascii "80x") (by decide)
  exact absurd hport (by decide)

end VynxHttp
