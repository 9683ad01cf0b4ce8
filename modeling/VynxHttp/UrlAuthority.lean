import VynxHttp.UrlPort

/-!
# Where the authority of a URL ends

`parse_url` cuts a URL at its first `/`.  The authority ends at the first `/`,
`?` or `#`, and what stands before an `@` in it is not the host.
-/

namespace VynxHttp

def questionMark : UInt8 := 63
def numberSign : UInt8 := 35
def atSign : UInt8 := 64

def endsAuthority (b : UInt8) : Bool :=
  b == slash || b == questionMark || b == numberSign

def afterScheme (url : Bytes) : Option Bytes :=
  if url.take 8 = ascii "https://" then some (url.drop 8)
  else if url.take 7 = ascii "http://" then some (url.drop 7)
  else none

def authorityText (rest : Bytes) : Bytes :=
  rest.takeWhile fun b => !endsAuthority b

def afterAuthority (rest : Bytes) : Bytes :=
  rest.dropWhile fun b => !endsAuthority b

/-- The user information ends with the last `@`. -/
def withoutUserInfo (authority : Bytes) : Bytes :=
  (authority.reverse.takeWhile (· != atSign)).reverse

/-- The host is the one of the authority, and the path has what follows the
authority. -/
structure EndsAtAuthority (url : Bytes) (parsed : ParsedUrl) : Prop where
  host_free : ∀ b ∈ parsed.host, endsAuthority b = false ∧ b ≠ atSign
  host_eq : ∀ rest ∈ afterScheme url, parsed.host =
    ParsedUrl.hostTextOf (withoutUserInfo (authorityText rest))
  path_suffix : ∀ rest ∈ afterScheme url,
    afterAuthority rest <:+ parsed.path

/-- The text before the first `/` has no query or fragment, and its host is the
same without the user information. -/
structure BareAuthority (hostPort : Bytes) : Prop where
  questionMark_notMem : questionMark ∉ hostPort
  numberSign_notMem : numberSign ∉ hostPort
  hostTextOf_eq : ParsedUrl.hostTextOf (withoutUserInfo hostPort) =
    ParsedUrl.hostTextOf hostPort

/-! ## Cutting -/

theorem hostPortText_eq (url : Bytes) :
    hostPortText url =
      (afterScheme url).map fun rest => (ParsedUrl.splitPath rest).1 := by
  unfold hostPortText afterScheme
  split
  next => rfl
  next => split <;> rfl

theorem atSign_notMem_withoutUserInfo (authority : Bytes) :
    atSign ∉ withoutUserInfo authority := by
  intro hmem
  have hother := List.mem_takeWhile_imp (List.mem_reverse.mp hmem)
  simp at hother

theorem mem_of_mem_cutAt {c b : UInt8} {text : Bytes}
    (hmem : b ∈ ((cutAt c text).getD (text, [])).1) : b ∈ text := by
  cases hcut : cutAt c text with
  | none => simpa [hcut] using hmem
  | some cut =>
      obtain ⟨hsplit, _⟩ := cutAt_eq_some hcut
      rw [hsplit]
      exact List.mem_append_left _ (by simpa [hcut] using hmem)

theorem ParsedUrl.mem_of_mem_hostTextOf {b : UInt8} {hostPort : Bytes}
    (hmem : b ∈ hostTextOf hostPort) : b ∈ hostPort := by
  unfold hostTextOf at hmem
  split at hmem
  next => exact mem_of_mem_cutAt (List.mem_of_mem_drop hmem)
  next => exact mem_of_mem_cutAt hmem

theorem ParsedUrl.parseHostPort_hostTextOf {hostPort host : Bytes}
    {port port' : UInt16}
    (hparse : parseHostPort hostPort port = .ok (host, port')) :
    host = hostTextOf hostPort := by
  unfold parseHostPort at hparse
  unfold hostTextOf
  by_cases hbracket : hostPort.head? = some leftBracket
  · rw [if_pos (show hostPort.head? = some 91 from hbracket)] at hparse
    rw [if_pos hbracket]
    cases hcut : cutAt rightBracket hostPort with
    | none =>
        have hcut' : cutAt 93 hostPort = none := hcut
        simp [hcut'] at hparse
    | some cut =>
        obtain ⟨bracketed, rest⟩ := cut
        have hcut' : cutAt 93 hostPort = some (bracketed, rest) := hcut
        rw [hcut'] at hparse
        cases rest with
        | nil =>
            simp only [Except.ok.injEq, Prod.mk.injEq] at hparse
            exact hparse.1.symm
        | cons b text =>
            simp only at hparse
            split at hparse
            next => cases hparse
            next => exact (parsePort_map_ok hparse).1.symm
  · rw [if_neg (show ¬hostPort.head? = some 91 from hbracket)] at hparse
    rw [if_neg hbracket]
    cases hcut : cutAt colon hostPort with
    | none =>
        simp only [hcut, Except.ok.injEq, Prod.mk.injEq] at hparse
        exact hparse.1.symm
    | some cut =>
        simp only [hcut] at hparse
        exact (parsePort_map_ok hparse).1.symm

/-! ## What an accepted URL consists of -/

/-- The text before the path, and the path, which stands in the text or is
`/`. -/
theorem ParsedUrl.splitPath_cases (rest : Bytes) :
    (splitPath rest).2.head? = some slash ∧
      ∃ tail, rest = (splitPath rest).1 ++ tail ∧
        (tail = (splitPath rest).2 ∨
          tail = [] ∧ (splitPath rest).2 = [slash]) := by
  unfold splitPath
  cases hcut : cutAt slash rest with
  | none => exact ⟨rfl, [], by simp, .inr ⟨rfl, rfl⟩⟩
  | some cut => exact ⟨rfl, _, (cutAt_eq_some hcut).1, .inl rfl⟩

theorem parseUrl_parts {url : Bytes} {parsed : ParsedUrl}
    (haccept : parseUrl url = .ok parsed) :
    ∃ rest, afterScheme url = some rest ∧
      parsed.host = ParsedUrl.hostTextOf (ParsedUrl.splitPath rest).1 ∧
      parsed.path = (ParsedUrl.splitPath rest).2 := by
  have hparts : ∀ {scheme rest port},
      ParsedUrl.parseAuthority scheme rest port = .ok parsed →
      parsed.host = ParsedUrl.hostTextOf (ParsedUrl.splitPath rest).1 ∧
        parsed.path = (ParsedUrl.splitPath rest).2 := by
    intro scheme rest port hparse
    obtain ⟨_, host, port', hhostPort, _, rfl⟩ :=
      ParsedUrl.parseAuthority_eq_ok_iff.mp hparse
    exact ⟨ParsedUrl.parseHostPort_hostTextOf hhostPort, rfl⟩
  rcases parseUrl_cases haccept with
    ⟨hhttps, hparse⟩ | ⟨hhttps, hhttp, hparse⟩
  · exact ⟨_, if_pos hhttps, hparts hparse⟩
  · exact ⟨_, (if_neg hhttps).trans (if_pos hhttp), hparts hparse⟩

/-! ## The authority and the text before the path -/

theorem endsAuthority_eq_false {b : UInt8} :
    endsAuthority b = false ↔
      b ≠ slash ∧ b ≠ questionMark ∧ b ≠ numberSign := by
  simp [endsAuthority, and_assoc]

theorem endsAuthority_false_of_mem {hostPort : Bytes}
    (hslash : slash ∉ hostPort) (hquestion : questionMark ∉ hostPort)
    (hnumber : numberSign ∉ hostPort) :
    ∀ b ∈ hostPort, endsAuthority b = false :=
  fun _ hmem => endsAuthority_eq_false.mpr
    ⟨ne_of_mem_of_not_mem hmem hslash, ne_of_mem_of_not_mem hmem hquestion,
      ne_of_mem_of_not_mem hmem hnumber⟩

theorem afterAuthority_tail {tail path : Bytes}
    (hhead : path.head? = some slash)
    (htail : tail = path ∨ tail = [] ∧ path = [slash]) :
    authorityText tail = [] ∧ afterAuthority tail = tail := by
  rcases htail with rfl | ⟨rfl, _⟩
  · obtain ⟨rest, rfl⟩ := List.head?_eq_some_iff.mp hhead
    exact ⟨rfl, rfl⟩
  · exact ⟨rfl, rfl⟩

/-- A text before the path without queries and fragments is the authority. -/
theorem authorityText_of_free {rest : Bytes}
    (hfree : ∀ b ∈ (ParsedUrl.splitPath rest).1, endsAuthority b = false) :
    authorityText rest = (ParsedUrl.splitPath rest).1 ∧
      afterAuthority rest <:+ (ParsedUrl.splitPath rest).2 := by
  obtain ⟨hhead, tail, hrest, htail⟩ := ParsedUrl.splitPath_cases rest
  obtain ⟨htake, hdrop⟩ := afterAuthority_tail hhead htail
  have hall : ∀ b ∈ (ParsedUrl.splitPath rest).1,
      (!endsAuthority b) = true := by
    simpa using hfree
  constructor
  · calc authorityText rest
        = authorityText ((ParsedUrl.splitPath rest).1 ++ tail) := by
          rw [← hrest]
      _ = (ParsedUrl.splitPath rest).1 ++ authorityText tail :=
          List.takeWhile_append_of_pos hall
      _ = (ParsedUrl.splitPath rest).1 := by rw [htake, List.append_nil]
  · have hafter : afterAuthority rest = tail := by
      calc afterAuthority rest
          = afterAuthority ((ParsedUrl.splitPath rest).1 ++ tail) := by
            rw [← hrest]
        _ = afterAuthority tail := List.dropWhile_append_of_pos hall
        _ = tail := hdrop
    rw [hafter]
    rcases htail with rfl | ⟨rfl, _⟩
    · exact List.suffix_refl _
    · exact List.nil_suffix

/-- What follows the authority is not in the path when a query or a fragment
stands before the first `/`. -/
theorem free_of_suffix {rest : Bytes}
    (hsuffix : afterAuthority rest <:+ (ParsedUrl.splitPath rest).2) :
    ∀ b ∈ (ParsedUrl.splitPath rest).1, endsAuthority b = false := by
  obtain ⟨hhead, tail, hrest, htail⟩ := ParsedUrl.splitPath_cases rest
  have hslash := ParsedUrl.slash_notMem_splitPath rest
  generalize (ParsedUrl.splitPath rest).1 = hostPort at hrest hslash ⊢
  generalize (ParsedUrl.splitPath rest).2 = path at hsuffix hhead htail
  by_contra hnot
  have hne : afterAuthority hostPort ≠ [] := by
    intro hnil
    refine hnot fun b hmem => ?_
    simpa using List.dropWhile_eq_nil_iff.mp hnil b hmem
  have hafter : afterAuthority rest = afterAuthority hostPort ++ tail := by
    unfold afterAuthority at hne ⊢
    rw [hrest, List.dropWhile_append, if_neg (by simpa using hne)]
  rw [hafter] at hsuffix
  rcases htail with rfl | ⟨rfl, rfl⟩
  · -- It would be longer than the path, which it ends with.
    have hlength := hsuffix.length_le
    have hpos := List.length_pos_iff.mpr hne
    simp only [List.length_append] at hlength
    omega
  · -- Without a path in the text, the path is a slash of its own.
    rw [List.append_nil] at hsuffix
    rcases List.suffix_cons_iff.mp hsuffix with heq | hnil
    · have hmem : slash ∈ afterAuthority hostPort := by simp [heq]
      exact hslash ((List.dropWhile_sublist _).subset hmem)
    · exact hne (List.suffix_nil.mp hnil)

/-- The authority of an accepted URL ends where the URL says exactly when no
query, fragment or user information stands before its first `/`. -/
theorem endsAtAuthority_iff {url : Bytes} {parsed : ParsedUrl}
    (haccept : parseUrl url = .ok parsed) :
    EndsAtAuthority url parsed ↔
      ∀ hostPort ∈ hostPortText url, BareAuthority hostPort := by
  obtain ⟨rest, hrest, hhost, hpath⟩ := parseUrl_parts haccept
  have hslash := ParsedUrl.slash_notMem_splitPath rest
  have hhostPort : hostPortText url =
      some (ParsedUrl.splitPath rest).1 := by
    rw [hostPortText_eq, hrest, Option.map_some]
  simp only [hhostPort, Option.mem_some_iff, forall_eq']
  constructor
  · intro hends
    have hsuffix := hends.path_suffix rest hrest
    rw [hpath] at hsuffix
    have hfree := free_of_suffix hsuffix
    have heq := hends.host_eq rest hrest
    rw [(authorityText_of_free hfree).1, hhost] at heq
    refine ⟨fun hmem => ?_, fun hmem => ?_, heq.symm⟩
    · exact (endsAuthority_eq_false.mp (hfree _ hmem)).2.1 rfl
    · exact (endsAuthority_eq_false.mp (hfree _ hmem)).2.2 rfl
  · intro hbare
    have hfree := endsAuthority_false_of_mem hslash
      hbare.questionMark_notMem hbare.numberSign_notMem
    obtain ⟨hauthority, hsuffix⟩ := authorityText_of_free hfree
    constructor
    · intro b hmem
      rw [hhost] at hmem
      refine ⟨hfree b (ParsedUrl.mem_of_mem_hostTextOf hmem), ?_⟩
      rintro rfl
      rw [← hbare.hostTextOf_eq] at hmem
      exact atSign_notMem_withoutUserInfo _
        (ParsedUrl.mem_of_mem_hostTextOf hmem)
    · intro rest' hrest'
      obtain rfl : rest = rest' := Option.some.inj (hrest.symm.trans hrest')
      rw [hauthority, hhost, hbare.hostTextOf_eq]
    · intro rest' hrest'
      obtain rfl : rest = rest' := Option.some.inj (hrest.symm.trans hrest')
      rw [hpath]
      exact hsuffix

theorem endsAtAuthority_iff_query :
    parseUrl (ascii "http://a:80/b?c") =
        .ok ⟨http, ascii "a", 80, ascii "/b?c"⟩ ∧
      (EndsAtAuthority (ascii "http://a:80/b?c")
          ⟨http, ascii "a", 80, ascii "/b?c"⟩ ↔
        ∀ hostPort ∈ hostPortText (ascii "http://a:80/b?c"),
          BareAuthority hostPort) := by
  have haccept : parseUrl (ascii "http://a:80/b?c") =
      .ok ⟨http, ascii "a", 80, ascii "/b?c"⟩ := by
    decide +kernel
  exact ⟨haccept, endsAtAuthority_iff haccept⟩

/-- The host of `http://a?b` is read as `a?b`. -/
theorem not_endsAtAuthority_query :
    parseUrl (ascii "http://a?b") =
        .ok ⟨http, ascii "a?b", 80, [slash]⟩ ∧
      ¬EndsAtAuthority (ascii "http://a?b")
        ⟨http, ascii "a?b", 80, [slash]⟩ := by
  refine ⟨by decide +kernel, fun hends => ?_⟩
  have hfree := hends.host_free questionMark (by decide)
  exact absurd hfree.1 (by decide)

end VynxHttp
