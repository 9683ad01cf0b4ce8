import VynxHttp.CookieScope
import VynxHttp.DelimitedText
import VynxHttp.SecureCookies

/-!
# The cookies of a request

`build_cookie_header` appends the matching cookies in the order of the jar.
What `set_cookie` stores of a `Set-Cookie` line has no semicolon, and no `=` in
its name, so that the header of a jar which has been filled from lines is read
back.
-/

namespace VynxHttp

open DelimitedText

/-! ## Paths -/

/-- The path is the cookie path, or goes on from it at a slash. -/
def PathMatch (path cookiePath : Bytes) : Prop :=
  path = cookiePath ∨ ∃ rest, path = cookiePath ++ rest ∧
    (cookiePath.getLast? = some slash ∨ rest.head? = some slash)

namespace CookieJar

theorem pathMatches_iff {cookie : CookieEntry} {path : Bytes} :
    pathMatches cookie path = true ↔
      cookie.path = [] ∨ PathMatch path cookie.path := by
  unfold pathMatches
  split
  next hempty => simp [hempty]
  next hne =>
    simp only [Bool.and_eq_true, Bool.or_eq_true, decide_eq_true_eq,
      beq_iff_eq, hne, false_or]
    constructor
    · rintro ⟨htake, hboundary⟩
      have hsplit : path = cookie.path ++ path.drop cookie.path.length := by
        conv_lhs => rw [← List.take_append_drop cookie.path.length path]
        rw [htake]
      rcases hboundary with (hshort | hlast) | hnext
      · left
        rw [List.drop_eq_nil_of_le hshort, List.append_nil] at hsplit
        exact hsplit
      · exact .inr ⟨_, hsplit, .inl hlast⟩
      · refine .inr ⟨_, hsplit, .inr ?_⟩
        rw [List.head?_drop]
        exact hnext
    · rintro (heq | ⟨rest, hsplit, hboundary⟩)
      · rw [heq]
        simp
      · rw [hsplit]
        refine ⟨List.take_left, ?_⟩
        rcases hboundary with hlast | hnext
        · exact .inl (.inr hlast)
        · right
          rw [List.getElem?_append_right (Nat.le_refl _), Nat.sub_self,
            ← List.head?_eq_getElem?]
          exact hnext

/-! ## The loop over the cookies -/

/-- The loop of `build_cookie_header`, from the header and the flag `first` so
far. -/
def appendCookies (domain path : Bytes) :
    List CookieEntry → Bytes → Bool → Bytes
  | [], header, _ => header
  | cookie :: cookies, header, first =>
      if domainMatches cookie domain && pathMatches cookie path then
        let header := if first then header else header ++ ascii "; "
        appendCookies domain path cookies
          (header ++ cookie.name ++ [equalsSign] ++ cookie.value) false
      else appendCookies domain path cookies header first

def pairText (cookie : CookieEntry) : Bytes :=
  cookie.name ++ [equalsSign] ++ cookie.value

theorem cookieText_cons (cookie : CookieEntry) (cookies : List CookieEntry) :
    cookieText (cookie :: cookies) =
      pairText cookie ++
        cookies.flatMap fun next => ascii "; " ++ pairText next := by
  induction cookies generalizing cookie with
  | nil => simp [cookieText, pairText]
  | cons next rest ih =>
      have htail := ih next
      rw [List.flatMap_cons, List.append_assoc (ascii "; "), ← htail,
        cookieText, List.map_cons, List.map_cons,
        List.intercalate_cons_cons, List.append_assoc]
      rfl

theorem appendCookies_continued (domain path : Bytes)
    (cookies : List CookieEntry) (header : Bytes) :
    appendCookies domain path cookies header false =
      header ++ (CookieJar.selected ⟨cookies⟩ domain path).flatMap
        fun cookie => ascii "; " ++ pairText cookie := by
  unfold selected
  induction cookies generalizing header with
  | nil => simp [appendCookies]
  | cons cookie cookies ih =>
      rw [appendCookies, List.filter_cons]
      split
      next =>
        rw [List.flatMap_cons]
        simp only [Bool.false_eq_true, if_false]
        rw [ih]
        simp only [pairText, List.append_assoc]
      next => exact ih header

theorem buildCookieHeader_eq_loop (jar : CookieJar) (domain path : Bytes) :
    jar.buildCookieHeader domain path =
      appendCookies domain path jar.cookies [] true := by
  rw [buildCookieHeader_eq, selected]
  induction jar.cookies with
  | nil => rfl
  | cons cookie cookies ih =>
      rw [appendCookies, List.filter_cons]
      split
      next =>
        rw [cookieText_cons]
        simp only [if_true]
        rw [appendCookies_continued]
        rfl
      next => exact ih

/-! ## What is stored of a line -/

/-- The name and the value can be told apart in a header. -/
structure Readable (cookie : CookieEntry) : Prop where
  semicolon_notMem : semicolon ∉ cookie.name ∧ semicolon ∉ cookie.value
  equalsSign_notMem : equalsSign ∉ cookie.name

theorem mem_of_mem_trimSpaces {b : UInt8} {token : Bytes}
    (hmem : b ∈ trimSpaces token) : b ∈ token := by
  have hleft := (List.dropWhile_sublist _).subset (List.mem_reverse.mp hmem)
  exact (List.dropWhile_sublist _).subset (List.mem_reverse.mp hleft)

theorem semicolon_notMem_directives {fuel : ℕ} {remaining token : Bytes}
    (hmem : token ∈ directives fuel remaining) : semicolon ∉ token := by
  induction fuel generalizing remaining with
  | zero => cases hmem
  | succ fuel ih =>
      rw [directives] at hmem
      split at hmem
      next => cases hmem
      next =>
        cases hcut : cutAt semicolon remaining with
        | none =>
            simp only [hcut, List.mem_singleton] at hmem
            rw [hmem]
            exact fun h =>
              cutAt_eq_none_iff.mp hcut (mem_of_mem_trimSpaces h)
        | some cut =>
            simp only [hcut, List.mem_cons] at hmem
            rcases hmem with rfl | hrest
            · exact fun h =>
                (cutAt_eq_some hcut).2 (mem_of_mem_trimSpaces h)
            · exact ih hrest

theorem readable_readPair {token : Bytes} (htoken : semicolon ∉ token) :
    Readable (readPair token) := by
  unfold readPair
  cases hcut : cutAt equalsSign token with
  | none => exact ⟨⟨htoken, List.not_mem_nil⟩, cutAt_eq_none_iff.mp hcut⟩
  | some cut =>
      obtain ⟨hsplit, hname⟩ := cutAt_eq_some hcut
      rw [hsplit, List.mem_append, List.mem_cons, not_or, not_or] at htoken
      exact ⟨⟨htoken.1, htoken.2.2⟩, hname⟩

theorem pair_readDirective (entry : CookieEntry) (token : Bytes) :
    (readDirective entry token).name = entry.name ∧
      (readDirective entry token).value = entry.value := by
  unfold readDirective
  generalize (cutAt equalsSign token).getD (token, []) = directive
  simp only
  split
  next => exact ⟨rfl, rfl⟩
  next =>
    split
    next => exact ⟨rfl, rfl⟩
    next =>
      split
      next => exact ⟨rfl, rfl⟩
      next => split <;> exact ⟨rfl, rfl⟩

theorem Readable.foldl_readDirective {entry : CookieEntry}
    (hentry : Readable entry) (tokens : List Bytes) :
    Readable (tokens.foldl readDirective entry) := by
  induction tokens generalizing entry with
  | nil => exact hentry
  | cons token tokens ih =>
      obtain ⟨hname, hvalue⟩ := pair_readDirective entry token
      rw [List.foldl_cons]
      exact ih ⟨by rw [hname, hvalue]; exact hentry.1,
        by rw [hname]; exact hentry.2⟩

theorem readable_readLine (headerLine : Bytes) :
    Readable (readLine headerLine) := by
  unfold readLine
  cases hdirectives : directives (headerLine.length + 1) headerLine with
  | nil => exact ⟨⟨List.not_mem_nil, List.not_mem_nil⟩, List.not_mem_nil⟩
  | cons pair tokens =>
      have hpair : semicolon ∉ pair :=
        semicolon_notMem_directives (by rw [hdirectives]; simp)
      exact (readable_readPair hpair).foldl_readDirective tokens

theorem readable_parseCookie (headerLine requestDomain : Bytes) :
    Readable (parseCookie headerLine requestDomain) := by
  rw [parseCookie]
  exact ⟨(readable_readLine headerLine).1, (readable_readLine headerLine).2⟩

theorem mem_replaceCookie {cookie entry : CookieEntry}
    {cookies : List CookieEntry}
    (hmem : entry ∈ replaceCookie cookie cookies) :
    entry = cookie ∨ entry ∈ cookies := by
  induction cookies with
  | nil => exact .inl (List.mem_singleton.mp hmem)
  | cons head rest ih =>
      rw [replaceCookie] at hmem
      split at hmem
      next =>
        rcases List.mem_cons.mp hmem with rfl | hrest
        · exact .inl rfl
        · exact .inr (List.mem_cons_of_mem _ hrest)
      next =>
        rcases List.mem_cons.mp hmem with rfl | hrest
        · exact .inr (List.mem_cons_self ..)
        · exact (ih hrest).imp_right (List.mem_cons_of_mem _)

/-- A jar which has been filled from lines of responses only, each with the
domain which has sent it. -/
def filled (lines : List (Bytes × Bytes)) : CookieJar :=
  lines.foldl (fun jar line => jar.setCookieLine line.1 line.2) {}

theorem readable_of_mem_filled {lines : List (Bytes × Bytes)}
    {cookie : CookieEntry} (hmem : cookie ∈ (filled lines).cookies) :
    Readable cookie := by
  induction lines using List.reverseRecOn with
  | nil => cases hmem
  | append_singleton lines line ih =>
      rw [filled, List.foldl_append] at hmem
      rcases mem_replaceCookie hmem with rfl | hearlier
      · exact readable_parseCookie line.1 line.2
      · exact ih hearlier

/-! ## Reading a header back -/

def decodePair (piece : Bytes) : Bytes × Bytes :=
  (cutAt equalsSign piece).getD (piece, [])

/-- The pieces between the `; `, each cut at its first `=`. -/
def decodeCookies (header : Bytes) : List (Bytes × Bytes) :=
  (pieces semicolon space header).map decodePair

theorem Readable.decodePair_eq {cookie : CookieEntry}
    (hcookie : Readable cookie) :
    decodePair (pairText cookie) = (cookie.name, cookie.value) := by
  rw [decodePair, pairText, List.append_assoc, List.singleton_append,
    cutAt_append hcookie.equalsSign_notMem, Option.getD_some]

theorem decodeCookies_cookieText {cookies : List CookieEntry}
    (hne : cookies ≠ []) (hreadable : ∀ cookie ∈ cookies, Readable cookie) :
    decodeCookies (cookieText cookies) =
      cookies.map fun cookie => (cookie.name, cookie.value) := by
  have hfree : ∀ text ∈ cookies.map pairText, Free semicolon space text := by
    intro text hmem
    obtain ⟨cookie, hcookie, rfl⟩ := List.mem_map.mp hmem
    obtain ⟨hname, hvalue⟩ := (hreadable cookie hcookie).semicolon_notMem
    apply free_of_notMem_left
    simp only [pairText, List.mem_append, List.mem_singleton, not_or]
    exact ⟨⟨hname, by decide⟩, hvalue⟩
  have hpieces : pieces semicolon space (cookieText cookies) =
      cookies.map pairText :=
    pieces_intercalate (by decide) (by simpa using hne) hfree
  rw [decodeCookies, hpieces, List.map_map]
  exact List.map_congr_left fun cookie hmem =>
    (hreadable cookie hmem).decodePair_eq

/-! ## The header -/

/-- The cookies which belong to a domain and path. -/
def Selected (domain path : Bytes) (cookie : CookieEntry) : Prop :=
  (cookie.domain = [] ∨ DomainMatch domain cookie.domain) ∧
    (cookie.path = [] ∨ PathMatch path cookie.path)

theorem selected_iff {domain path : Bytes} {cookie : CookieEntry} :
    (domainMatches cookie domain && pathMatches cookie path) = true ↔
      Selected domain path cookie := by
  rw [Bool.and_eq_true, domainMatches_iff, pathMatches_iff, Selected]

instance (domain path : Bytes) : DecidablePred (Selected domain path) :=
  fun _ => decidable_of_iff _ selected_iff

/-- The header lists the cookies which belong to the domain and path, and
nothing else, in the order of the jar, as the loop writes it; the header of a
jar which has been filled from lines is read back. -/
theorem buildCookieHeader_exact (jar : CookieJar) (domain path : Bytes) :
    jar.buildCookieHeader domain path =
        (ascii "; ").intercalate
          ((jar.cookies.filter (Selected domain path ·)).map pairText) ∧
      jar.buildCookieHeader domain path =
        appendCookies domain path jar.cookies [] true ∧
      ∀ lines, jar = filled lines →
        jar.buildCookieHeader domain path ≠ [] →
        decodeCookies (jar.buildCookieHeader domain path) =
          (jar.cookies.filter (Selected domain path ·)).map fun cookie =>
            (cookie.name, cookie.value) := by
  have hselected : jar.cookies.filter (Selected domain path ·) =
      jar.selected domain path := by
    apply List.filter_congr
    intro cookie _
    rw [Bool.eq_iff_iff, decide_eq_true_eq, selected_iff]
  rw [hselected]
  refine ⟨rfl, jar.buildCookieHeader_eq_loop domain path, ?_⟩
  rintro lines rfl hne
  rw [buildCookieHeader_eq] at hne ⊢
  apply decodeCookies_cookieText (mt cookieText_eq_nil_iff.mpr hne)
  intro cookie hmem
  exact readable_of_mem_filled (List.mem_filter.mp hmem).1

/-- Two cookies of `sub.a` go to its `/x/y`, and one does not. -/
theorem buildCookieHeader_exact_two :
    decodeCookies ((filled [(ascii "n=1=2; Domain=.a", ascii "sub.a"),
        (ascii "m=3; Path=/xx", ascii "sub.a"),
        (ascii "k=4; Path=/x", ascii "sub.a")]).buildCookieHeader
          (ascii "sub.a") (ascii "/x/y")) =
      [(ascii "n", ascii "1=2"), (ascii "k", ascii "4")] := by
  have hdecoded := (buildCookieHeader_exact
    (filled [(ascii "n=1=2; Domain=.a", ascii "sub.a"),
      (ascii "m=3; Path=/xx", ascii "sub.a"),
      (ascii "k=4; Path=/x", ascii "sub.a")])
    (ascii "sub.a") (ascii "/x/y")).2.2 _ rfl (by decide +kernel)
  rw [hdecoded]
  decide +kernel

end CookieJar

end VynxHttp
