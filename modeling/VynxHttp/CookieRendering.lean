import Mathlib.Data.List.TakeWhile
import VynxHttp.CookieIdentity

/-!
# Rendered Set-Cookie lines

A `Set-Cookie` line is a `name=value` pair and attributes, between semicolons
with spaces around them.  What `set_cookie` reads of a line is decided by its
trimmed pieces (`readLine_of_pieces`), so that a rendered cookie is stored as
it was meant, in whatever order and letter case its attributes stand.
-/

namespace VynxHttp

namespace CookieJar

/-! ## The pieces of a line -/

theorem trimSpaces_space (token : Bytes) :
    trimSpaces (space :: token) = trimSpaces token := rfl

theorem map_trimSpaces_dropWhile (text : Bytes) :
    ((text.dropWhile isSpace).splitOn semicolon).map trimSpaces =
      (text.splitOn semicolon).map trimSpaces := by
  induction text with
  | nil => rfl
  | cons b text ih =>
      by_cases hspace : isSpace b = true
      · obtain rfl : b = space := eq_of_beq hspace
        have hsplit : (space :: text).splitOn semicolon =
            (text.splitOn semicolon).modifyHead (space :: ·) :=
          List.splitOn_cons_eq_if_modifyHead space text
        rw [List.dropWhile_cons_of_pos hspace, ih, hsplit]
        cases text.splitOn semicolon with
        | nil => rfl
        | cons piece pieces =>
            rw [List.modifyHead_cons, List.map_cons, List.map_cons,
              trimSpaces_space]
      · rw [List.dropWhile_cons_of_neg hspace]

theorem readDirective_nil (entry : CookieEntry) :
    readDirective entry [] = entry := rfl

/-- An empty piece at the end is not looked at, and says nothing. -/
theorem foldl_directives {fuel : ℕ} {remaining : Bytes}
    (hfuel : remaining.length < fuel) (entry : CookieEntry) :
    (directives fuel remaining).foldl readDirective entry =
      ((remaining.splitOn semicolon).map trimSpaces).foldl readDirective
        entry := by
  induction fuel generalizing remaining entry with
  | zero => cases hfuel
  | succ fuel ih =>
      rw [directives]
      split
      next hempty =>
        rw [hempty]
        exact (readDirective_nil entry).symm
      next =>
        cases hcut : cutAt semicolon remaining with
        | none =>
            rw [List.splitOn_eq_singleton (cutAt_eq_none_iff.mp hcut)]
            rfl
        | some cut =>
            obtain ⟨token, rest⟩ := cut
            obtain ⟨hsplit, hmem⟩ := cutAt_eq_some hcut
            -- The spaces which the loop skips are trimmed from the piece.
            have hdrop := (List.dropWhile_sublist (p := isSpace)
              (l := rest)).length_le
            have hshort : (rest.dropWhile isSpace).length < fuel := by
              rw [hsplit, List.length_append, List.length_cons] at hfuel
              omega
            rw [hsplit, List.splitOn_append_cons_self_of_not_mem hmem,
              List.map_cons, List.foldl_cons, List.foldl_cons, ih hshort,
              map_trimSpaces_dropWhile]

/-- What is read of a line is read of its trimmed pieces. -/
theorem readLine_of_pieces {headerLine pair : Bytes} {tokens : List Bytes}
    (hpieces : (headerLine.splitOn semicolon).map trimSpaces =
      pair :: tokens) :
    readLine headerLine = tokens.foldl readDirective (readPair pair) := by
  by_cases hempty : headerLine = []
  · rw [hempty] at hpieces ⊢
    obtain ⟨rfl, rfl⟩ := List.cons.inj hpieces
    rfl
  unfold readLine
  rw [directives, if_neg hempty]
  cases hcut : cutAt semicolon headerLine with
  | none =>
      rw [List.splitOn_eq_singleton (cutAt_eq_none_iff.mp hcut)] at hpieces
      obtain ⟨rfl, rfl⟩ := List.cons.inj hpieces
      rfl
  | some cut =>
      obtain ⟨token, rest⟩ := cut
      obtain ⟨hsplit, hmem⟩ := cutAt_eq_some hcut
      have hdrop := (List.dropWhile_sublist (p := isSpace)
        (l := rest)).length_le
      have hshort :
          (rest.dropWhile isSpace).length < headerLine.length := by
        rw [hsplit, List.length_append, List.length_cons]
        omega
      rw [hsplit, List.splitOn_append_cons_self_of_not_mem hmem,
        List.map_cons] at hpieces
      obtain ⟨rfl, rfl⟩ := List.cons.inj hpieces
      rw [← map_trimSpaces_dropWhile]
      exact foldl_directives hshort (readPair (trimSpaces token))

/-! ## Spaces -/

/-- A text without semicolons and outer spaces. -/
structure TokenText (text : Bytes) : Prop where
  semicolon_notMem : semicolon ∉ text
  head_ne : text.head? ≠ some space
  getLast_ne : text.getLast? ≠ some space

def padded (before : ℕ) (text : Bytes) (after : ℕ) : Bytes :=
  List.replicate before space ++ text ++ List.replicate after space

theorem dropWhile_replicate_append (n : ℕ) {text : Bytes}
    (hhead : text.head? ≠ some space) :
    (List.replicate n space ++ text).dropWhile isSpace = text := by
  have hspaces : ∀ b ∈ List.replicate n space, isSpace b = true := by
    intro b hmem
    rw [List.eq_of_mem_replicate hmem]
    rfl
  rw [List.dropWhile_append_of_pos hspaces]
  cases text with
  | nil => rfl
  | cons b text =>
      have hb : ¬isSpace b = true := by
        intro h
        exact hhead (congrArg some (eq_of_beq h))
      exact List.dropWhile_cons_of_neg hb

theorem trimSpaces_padded {text : Bytes} (htext : TokenText text)
    (before after : ℕ) : trimSpaces (padded before text after) = text := by
  unfold trimSpaces padded
  by_cases hempty : text = []
  · have hall : (List.replicate before space ++ text ++
        List.replicate after space).dropWhile isSpace = [] := by
      rw [List.dropWhile_eq_nil_iff]
      intro b hmem
      simp only [hempty, List.append_nil, List.mem_append,
        List.mem_replicate] at hmem
      rcases hmem with ⟨_, rfl⟩ | ⟨_, rfl⟩
      all_goals rfl
    rw [hall, hempty]
    rfl
  · have hhead : (text ++ List.replicate after space).head? ≠ some space := by
      rw [List.head?_append_of_ne_nil _ hempty]
      exact htext.head_ne
    have hlast : text.reverse.head? ≠ some space := by
      rw [List.head?_reverse]
      exact htext.getLast_ne
    rw [List.append_assoc, dropWhile_replicate_append before hhead,
      List.reverse_append, List.reverse_replicate,
      dropWhile_replicate_append after hlast, List.reverse_reverse]

theorem semicolon_notMem_padded {text : Bytes}
    (htext : semicolon ∉ text) (before after : ℕ) :
    semicolon ∉ padded before text after := by
  have hspaces : ∀ n, semicolon ∉ List.replicate n space := by
    intro n hmem
    exact absurd (List.eq_of_mem_replicate hmem) (by decide)
  simp only [padded, List.mem_append, not_or]
  exact ⟨⟨hspaces _, htext⟩, hspaces _⟩

theorem tokenText_pair {name value : Bytes} (hname : name ≠ [])
    (hfree : semicolon ∉ name) (hhead : name.head? ≠ some space)
    (hvalue : TokenText value) :
    TokenText (name ++ equalsSign :: value) where
  semicolon_notMem := by
    rw [List.mem_append, List.mem_cons, not_or, not_or]
    exact ⟨hfree, by decide, hvalue.semicolon_notMem⟩
  head_ne := by
    rw [List.head?_append_of_ne_nil _ hname]
    exact hhead
  getLast_ne := by
    rw [List.getLast?_append_of_ne_nil _ (List.cons_ne_nil _ _)]
    cases value with
    | nil => decide
    | cons b value =>
        rw [List.getLast?_cons_cons]
        exact hvalue.getLast_ne

end CookieJar

theorem CookieJar.mem_replaceCookie_self (cookie : CookieEntry)
    (cookies : List CookieEntry) :
    cookie ∈ replaceCookie cookie cookies := by
  induction cookies with
  | nil => exact List.mem_singleton_self _
  | cons entry entries ih =>
      rw [replaceCookie]
      split
      next => exact List.mem_cons_self ..
      next => exact List.mem_cons_of_mem _ ih

/-! ## Attributes -/

open CookieJar

/-- An attribute as it is written: its name in some letter case, the dot which
a domain may begin with, and attributes of other names as they are. -/
inductive CookieAttribute where
  | domain (key : Bytes) (dotted : Bool) (value : Bytes)
  | path (key value : Bytes)
  | secure (key : Bytes)
  | other (text : Bytes)
  deriving DecidableEq, Repr

namespace CookieAttribute

def text : CookieAttribute → Bytes
  | domain key dotted value =>
      key ++ equalsSign :: if dotted then dot :: value else value
  | path key value => key ++ equalsSign :: value
  | secure key => key
  | other text => text

def keyOf (text : Bytes) : Bytes :=
  ((cutAt equalsSign text).getD (text, [])).1

def WellFormed : CookieAttribute → Prop
  | domain key _ value => equalsIgnoreCase key (ascii "domain") = true ∧
      value ≠ [] ∧ value.head? ≠ some dot ∧ TokenText value
  | path key value => equalsIgnoreCase key (ascii "path") = true ∧
      value ≠ [] ∧ TokenText value
  | secure key => equalsIgnoreCase key (ascii "secure") = true
  | other text => TokenText text ∧
      ∀ name ∈ [ascii "domain", ascii "path", ascii "secure"],
        equalsIgnoreCase (keyOf text) name = false

def domain? : CookieAttribute → Option Bytes
  | domain _ _ value => some value
  | _ => none

def path? : CookieAttribute → Option Bytes
  | path _ value => some value
  | _ => none

def secure? : CookieAttribute → Option Bool
  | secure _ => some true
  | _ => none

def expiry? : CookieAttribute → Option Bool
  | other text =>
      if equalsIgnoreCase (keyOf text) (ascii "expires") then some true
      else none
  | _ => none

/-- A date is read as the epoch. -/
def expires? (attr : CookieAttribute) : Option ℤ := attr.expiry?.map fun _ => 0

/-- What an attribute says of a cookie. -/
def apply (entry : CookieEntry) (attr : CookieAttribute) : CookieEntry :=
  { entry with
    domain := attr.domain?.getD entry.domain
    path := attr.path?.getD entry.path
    secure := attr.secure?.getD entry.secure
    expires := attr.expires?.getD entry.expires
    hasExpiry := attr.expiry?.getD entry.hasExpiry }

theorem tokenText_of_key {key name : Bytes}
    (hkey : equalsIgnoreCase key name = true)
    (hsemicolon : toLower semicolon ∉ name.map toLower)
    (hspace : toLower space ∉ name.map toLower) : TokenText key := by
  have hnone := notMem_of_equalsIgnoreCase hkey hspace
  exact ⟨notMem_of_equalsIgnoreCase hkey hsemicolon,
    fun h => hnone (List.mem_of_mem_head? h),
    fun h => hnone (List.mem_of_getLast? h)⟩

theorem ne_nil_of_key {key name : Bytes}
    (hkey : equalsIgnoreCase key name = true) (hname : name ≠ []) :
    key ≠ [] := by
  rintro rfl
  have hsame := equalsIgnoreCase_iff.mp hkey
  exact hname (List.map_eq_nil_iff.mp hsame.symm)

theorem TokenText.dotted {value : Bytes} (hne : value ≠ [])
    (hvalue : TokenText value) : TokenText (dot :: value) where
  semicolon_notMem := by
    rw [List.mem_cons, not_or]
    exact ⟨by decide, hvalue.semicolon_notMem⟩
  head_ne := by simp [dot, space]
  getLast_ne := by
    obtain ⟨b, rest, rfl⟩ := List.exists_cons_of_ne_nil hne
    rw [List.getLast?_cons_cons]
    exact hvalue.getLast_ne

theorem tokenText_text {attr : CookieAttribute}
    (hformed : attr.WellFormed) : TokenText attr.text := by
  cases attr with
  | domain key dotted value =>
      obtain ⟨hkey, hne, _, hvalue⟩ := hformed
      have htoken := tokenText_of_key hkey (by decide) (by decide)
      have hwritten : TokenText (if dotted then dot :: value else value) := by
        cases dotted with
        | false => exact hvalue
        | true => exact TokenText.dotted hne hvalue
      exact tokenText_pair (ne_nil_of_key hkey (by decide))
        htoken.semicolon_notMem htoken.head_ne hwritten
  | path key value =>
      obtain ⟨hkey, _, hvalue⟩ := hformed
      have htoken := tokenText_of_key hkey (by decide) (by decide)
      exact tokenText_pair (ne_nil_of_key hkey (by decide))
        htoken.semicolon_notMem htoken.head_ne hvalue
  | secure key => exact tokenText_of_key hformed (by decide) (by decide)
  | other text => exact hformed.1

theorem readDirective_text {attr : CookieAttribute}
    (hformed : attr.WellFormed) (entry : CookieEntry) :
    readDirective entry attr.text = attr.apply entry := by
  cases attr with
  | domain key dotted value =>
      obtain ⟨hkey, _, hhead, _⟩ := hformed
      have hsign := notMem_of_equalsIgnoreCase hkey
        (show toLower equalsSign ∉ (ascii "domain").map toLower by decide)
      rw [readDirective, text, cutAt_append hsign, Option.getD_some]
      simp only [hkey, if_true]
      cases dotted with
      | false =>
          simp only [Bool.false_eq_true, if_false, if_neg hhead]
          rfl
      | true => rfl
  | path key value =>
      obtain ⟨hkey, _, _⟩ := hformed
      have hsign := notMem_of_equalsIgnoreCase hkey
        (show toLower equalsSign ∉ (ascii "path").map toLower by decide)
      have hdomain : equalsIgnoreCase key (ascii "domain") = false :=
        equalsIgnoreCase_of_ne hkey (by decide)
      rw [readDirective, text, cutAt_append hsign, Option.getD_some]
      simp only [hdomain, hkey, Bool.false_eq_true, if_false, if_true]
      rfl
  | secure key =>
      have hsign := notMem_of_equalsIgnoreCase hformed
        (show toLower equalsSign ∉ (ascii "secure").map toLower by decide)
      have hdomain : equalsIgnoreCase key (ascii "domain") = false :=
        equalsIgnoreCase_of_ne hformed (by decide)
      have hpath : equalsIgnoreCase key (ascii "path") = false :=
        equalsIgnoreCase_of_ne hformed (by decide)
      have hkey : equalsIgnoreCase key (ascii "secure") = true := hformed
      rw [readDirective, text, cutAt_eq_none_iff.mpr hsign,
        Option.getD_none]
      simp only [hdomain, hpath, hkey, Bool.false_eq_true, if_false, if_true]
      rfl
  | other text =>
      have hnone := hformed.2
      have hdomain := hnone (ascii "domain") (by simp)
      have hpath := hnone (ascii "path") (by simp)
      have hsecure := hnone (ascii "secure") (by simp)
      by_cases hexpires : equalsIgnoreCase (keyOf text) (ascii "expires") = true
      · have hsaid : expiry? (other text) = some true := if_pos hexpires
        unfold keyOf at hdomain hpath hsecure hexpires
        rw [readDirective, CookieAttribute.text, apply, expires?, hsaid]
        simp only [hdomain, hpath, hsecure, hexpires, Bool.false_eq_true,
          if_false, if_true]
        rfl
      · have hsaid : expiry? (other text) = none := if_neg hexpires
        unfold keyOf at hdomain hpath hsecure hexpires
        rw [readDirective, CookieAttribute.text, apply, expires?, hsaid]
        simp only [hdomain, hpath, hsecure, hexpires, Bool.false_eq_true,
          if_false]
        rfl

theorem domain_ne_nil {attr : CookieAttribute} {value : Bytes}
    (hformed : attr.WellFormed) (hsaid : attr.domain? = some value) :
    value ≠ [] := by
  cases attr with
  | domain key dotted written =>
      obtain rfl := Option.some.inj hsaid
      exact hformed.2.1
  | _ => cases hsaid

theorem path_ne_nil {attr : CookieAttribute} {value : Bytes}
    (hformed : attr.WellFormed) (hsaid : attr.path? = some value) :
    value ≠ [] := by
  cases attr with
  | path key written =>
      obtain rfl := Option.some.inj hsaid
      exact hformed.2.1
  | _ => cases hsaid

/-! ## All attributes -/

/-- What the last attribute of a kind says counts, and what the entry says
where there is none. -/
theorem view_foldl {β : Type*} (view : CookieEntry → β)
    (said : CookieAttribute → Option β)
    (hview : ∀ entry attr, view (apply entry attr) =
      (said attr).getD (view entry))
    (attrs : List CookieAttribute) (entry : CookieEntry) :
    view (attrs.foldl apply entry) =
      (attrs.filterMap said).getLast?.getD (view entry) := by
  induction attrs generalizing entry with
  | nil => rfl
  | cons attr attrs ih =>
      rw [List.foldl_cons, ih, hview, List.filterMap_cons]
      cases said attr with
      | none => rfl
      | some value =>
          rw [List.getLast?_cons]
          rfl

theorem expiry?_eq_some {attr : CookieAttribute} {said : Bool}
    (hsaid : attr.expiry? = some said) : said = true := by
  cases attr with
  | other text =>
      simp only [expiry?, Option.ite_none_right_eq_some,
        Option.some.injEq] at hsaid
      exact hsaid.2.symm
  | _ => cases hsaid

theorem expires_foldl (attrs : List CookieAttribute) :
    (attrs.filterMap expires?).getLast?.getD 0 = 0 := by
  cases hlast : (attrs.filterMap expires?).getLast? with
  | none => rfl
  | some said =>
      obtain ⟨attr, -, hsaid⟩ :=
        List.mem_filterMap.mp (List.mem_of_getLast? hlast)
      obtain ⟨_, -, hepoch⟩ := Option.map_eq_some_iff.mp hsaid
      exact hepoch.symm

theorem hasExpiry_foldl (attrs : List CookieAttribute) :
    (attrs.filterMap expiry?).getLast?.getD false =
      attrs.any fun attr => attr.expiry?.isSome := by
  cases hlast : (attrs.filterMap expiry?).getLast? with
  | none =>
      have hnone := List.getLast?_eq_none_iff.mp hlast
      rw [List.filterMap_eq_nil_iff] at hnone
      symm
      rw [Option.getD_none, List.any_eq_false]
      intro attr hmem
      simp [hnone attr hmem]
  | some said =>
      obtain ⟨attr, hmem, hsaid⟩ :=
        List.mem_filterMap.mp (List.mem_of_getLast? hlast)
      symm
      rw [Option.getD_some, expiry?_eq_some hsaid, List.any_eq_true]
      exact ⟨attr, hmem, by rw [hsaid]; rfl⟩

end CookieAttribute

/-- An attribute with the spaces around it. -/
structure PaddedAttribute where
  before : ℕ := 1
  attr : CookieAttribute
  after : ℕ := 0
  deriving DecidableEq, Repr

/-- A cookie with a line which says it. -/
structure RenderedCookie where
  name : Bytes
  value : Bytes
  domain : Option Bytes
  path : Option Bytes
  secure : Bool
  before : ℕ
  after : ℕ
  attrs : List PaddedAttribute
  name_ne : name ≠ []
  name_text : TokenText name
  equalsSign_notMem : equalsSign ∉ name
  value_text : TokenText value
  wellFormed : ∀ padded ∈ attrs, padded.attr.WellFormed
  domain_eq : attrs.filterMap (·.attr.domain?) = domain.toList
  path_eq : attrs.filterMap (·.attr.path?) = path.toList
  secure_eq : attrs.filterMap (·.attr.secure?) = if secure then [true] else []

namespace RenderedCookie

variable (rendered : RenderedCookie)

def pieces : List Bytes :=
  padded rendered.before
      (rendered.name ++ equalsSign :: rendered.value) rendered.after ::
    rendered.attrs.map fun next =>
      padded next.before next.attr.text next.after

def line : Bytes := [semicolon].intercalate rendered.pieces

/-- The cookie which the line means, from a host. -/
def entry (requestDomain : Bytes) : CookieEntry where
  name := rendered.name
  value := rendered.value
  domain := rendered.domain.getD requestDomain
  path := rendered.path.getD [slash]
  secure := rendered.secure
  expires := 0
  hasExpiry := rendered.attrs.any fun next => next.attr.expiry?.isSome

theorem map_trimSpaces_pieces :
    (rendered.line.splitOn semicolon).map trimSpaces =
      (rendered.name ++ equalsSign :: rendered.value) ::
        rendered.attrs.map fun next => next.attr.text := by
  have hpair : TokenText (rendered.name ++ equalsSign :: rendered.value) :=
    tokenText_pair rendered.name_ne rendered.name_text.semicolon_notMem
      rendered.name_text.head_ne rendered.value_text
  have hattrs : ∀ next ∈ rendered.attrs, TokenText next.attr.text :=
    fun next hmem => CookieAttribute.tokenText_text
      (rendered.wellFormed next hmem)
  have hfree : ∀ piece ∈ rendered.pieces, semicolon ∉ piece := by
    intro piece hmem
    rcases List.mem_cons.mp hmem with rfl | hrest
    · exact semicolon_notMem_padded hpair.semicolon_notMem _ _
    · obtain ⟨next, hnext, rfl⟩ := List.mem_map.mp hrest
      exact semicolon_notMem_padded (hattrs next hnext).semicolon_notMem _ _
  have hsplit : rendered.line.splitOn semicolon = rendered.pieces :=
    List.splitOn_intercalate semicolon hfree (List.cons_ne_nil _ _)
  rw [hsplit, pieces, List.map_cons, trimSpaces_padded hpair, List.map_map]
  congr 1
  exact List.map_congr_left fun next hmem =>
    trimSpaces_padded (hattrs next hmem) _ _

theorem readLine_line :
    readLine rendered.line =
      (rendered.attrs.map (·.attr)).foldl CookieAttribute.apply
        { name := rendered.name, value := rendered.value } := by
  have hpair : readPair (rendered.name ++ equalsSign :: rendered.value) =
      { name := rendered.name, value := rendered.value } := by
    rw [readPair, cutAt_append rendered.equalsSign_notMem]
  have hattrs : ∀ (attrs : List PaddedAttribute) (entry : CookieEntry),
      (∀ next ∈ attrs, next.attr.WellFormed) →
      (attrs.map fun next => next.attr.text).foldl readDirective entry =
        (attrs.map (·.attr)).foldl CookieAttribute.apply entry := by
    intro attrs
    induction attrs with
    | nil => exact fun _ _ => rfl
    | cons next attrs ih =>
        intro entry hformed
        rw [List.map_cons, List.map_cons, List.foldl_cons, List.foldl_cons,
          CookieAttribute.readDirective_text
            (hformed next (List.mem_cons_self ..)),
          ih _ fun other hmem => hformed other (List.mem_cons_of_mem _ hmem)]
  rw [readLine_of_pieces rendered.map_trimSpaces_pieces, hpair]
  exact hattrs rendered.attrs _ rendered.wellFormed

/-- What an attribute says of a kind whose values are not empty. -/
theorem value_ne_nil {said : CookieAttribute → Option Bytes}
    (hsaid : ∀ {attr : CookieAttribute} {value}, attr.WellFormed →
      said attr = some value → value ≠ [])
    {given : Option Bytes}
    (hgiven : (rendered.attrs.filterMap fun next => said next.attr) =
      given.toList) {value : Bytes} (hvalue : given = some value) :
    value ≠ [] := by
  have hmem : value ∈ rendered.attrs.filterMap fun next => said next.attr := by
    rw [hgiven, hvalue]
    exact List.mem_singleton_self _
  obtain ⟨next, hnext, hnextSaid⟩ := List.mem_filterMap.mp hmem
  exact hsaid (rendered.wellFormed next hnext) hnextSaid

theorem view_readLine {β : Type*} (view : CookieEntry → β)
    (said : CookieAttribute → Option β)
    (hview : ∀ entry attr, view (CookieAttribute.apply entry attr) =
      (said attr).getD (view entry)) :
    view (readLine rendered.line) =
      (rendered.attrs.filterMap fun next => said next.attr).getLast?.getD
        (view { name := rendered.name, value := rendered.value }) := by
  rw [rendered.readLine_line, CookieAttribute.view_foldl view said hview,
    List.filterMap_map]
  rfl

theorem readLine_line_eq :
    readLine rendered.line =
      { name := rendered.name
        value := rendered.value
        domain := rendered.domain.getD []
        path := rendered.path.getD []
        secure := rendered.secure
        expires := 0
        hasExpiry := rendered.attrs.any fun next =>
          next.attr.expiry?.isSome } := by
  have hname : (readLine rendered.line).name = rendered.name := by
    rw [rendered.view_readLine CookieEntry.name (fun _ => none)
      fun _ _ => rfl]
    simp
  have hvalue : (readLine rendered.line).value = rendered.value := by
    rw [rendered.view_readLine CookieEntry.value (fun _ => none)
      fun _ _ => rfl]
    simp
  have hdomain : (readLine rendered.line).domain =
      rendered.domain.getD [] := by
    rw [rendered.view_readLine CookieEntry.domain CookieAttribute.domain?
      fun _ _ => rfl, rendered.domain_eq]
    cases rendered.domain <;> rfl
  have hpath : (readLine rendered.line).path = rendered.path.getD [] := by
    rw [rendered.view_readLine CookieEntry.path CookieAttribute.path?
      fun _ _ => rfl, rendered.path_eq]
    cases rendered.path <;> rfl
  have hsecure : (readLine rendered.line).secure = rendered.secure := by
    rw [rendered.view_readLine CookieEntry.secure CookieAttribute.secure?
      fun _ _ => rfl, rendered.secure_eq]
    cases rendered.secure <;> rfl
  have hexpires : (readLine rendered.line).expires = 0 := by
    have hepoch := CookieAttribute.expires_foldl (rendered.attrs.map (·.attr))
    rw [List.filterMap_map] at hepoch
    rw [rendered.view_readLine CookieEntry.expires CookieAttribute.expires?
      fun _ _ => rfl]
    exact hepoch
  have hexpiry : (readLine rendered.line).hasExpiry =
      rendered.attrs.any fun next => next.attr.expiry?.isSome := by
    have hany := CookieAttribute.hasExpiry_foldl (rendered.attrs.map (·.attr))
    rw [List.filterMap_map, List.any_map] at hany
    rw [rendered.view_readLine CookieEntry.hasExpiry CookieAttribute.expiry?
      fun _ _ => rfl]
    exact hany
  generalize readLine rendered.line = entry at *
  cases entry
  rw [CookieEntry.mk.injEq]
  exact ⟨hname, hvalue, hdomain, hpath, hsecure, hexpires, hexpiry⟩

theorem parseCookie_line (requestDomain : Bytes) :
    parseCookie rendered.line requestDomain =
      rendered.entry requestDomain := by
  have hdefault : ∀ {given : Option Bytes} (fallback : Bytes),
      (∀ {value}, given = some value → value ≠ []) →
      (if given.getD [] = [] then fallback else given.getD []) =
        given.getD fallback := by
    intro given fallback hne
    cases given with
    | none => rfl
    | some value => exact if_neg (hne rfl)
  have hdomain := hdefault requestDomain
    (rendered.value_ne_nil CookieAttribute.domain_ne_nil rendered.domain_eq)
  have hpath := hdefault [slash]
    (rendered.value_ne_nil CookieAttribute.path_ne_nil rendered.path_eq)
  rw [parseCookie, rendered.readLine_line_eq, withDefaults]
  simp only [hdomain, hpath]
  rfl

/-- A rendered cookie is stored as it was meant, and nothing else is done to
the jar. -/
theorem setCookieLine_line (jar : CookieJar) (requestDomain : Bytes) :
    jar.setCookieLine rendered.line requestDomain =
        jar.setCookie (rendered.entry requestDomain) ∧
      rendered.entry requestDomain ∈
        (jar.setCookieLine rendered.line requestDomain).cookies := by
  have hstored : jar.setCookieLine rendered.line requestDomain =
      jar.setCookie (rendered.entry requestDomain) := by
    rw [setCookieLine, rendered.parseCookie_line]
  refine ⟨hstored, ?_⟩
  rw [hstored, setCookie]
  exact mem_replaceCookie_self _ _

end RenderedCookie

/-- `n=1=2 ; DOMAIN=.a;Max-Age=3; path=/x ;secure` -/
def renderedSample : RenderedCookie where
  name := ascii "n"
  value := ascii "1=2"
  domain := some (ascii "a")
  path := some (ascii "/x")
  secure := true
  before := 0
  after := 1
  attrs := [⟨1, .domain (ascii "DOMAIN") true (ascii "a"), 0⟩,
    ⟨0, .other (ascii "Max-Age=3"), 0⟩,
    ⟨1, .path (ascii "path") (ascii "/x"), 1⟩,
    ⟨0, .secure (ascii "secure"), 0⟩]
  name_ne := by decide
  name_text := ⟨by decide, by decide, by decide⟩
  equalsSign_notMem := by decide
  value_text := ⟨by decide, by decide, by decide⟩
  wellFormed := by
    intro next hmem
    simp only [List.mem_cons, List.not_mem_nil, or_false] at hmem
    rcases hmem with rfl | rfl | rfl | rfl
    · exact ⟨by decide, by decide, by decide, by decide, by decide, by decide⟩
    · exact ⟨⟨by decide, by decide, by decide⟩, by decide⟩
    · exact ⟨by decide, by decide, by decide, by decide, by decide⟩
    · exact (by decide : equalsIgnoreCase (ascii "secure") (ascii "secure") = true)
  domain_eq := rfl
  path_eq := rfl
  secure_eq := rfl

example : renderedSample.line =
    ascii "n=1=2 ; DOMAIN=.a;Max-Age=3; path=/x ;secure" := by
  decide +kernel

theorem RenderedCookie.setCookieLine_line_sample :
    (CookieJar.mk []).setCookieLine renderedSample.line (ascii "b.a") =
        (CookieJar.mk []).setCookie (renderedSample.entry (ascii "b.a")) ∧
      renderedSample.entry (ascii "b.a") =
        { name := ascii "n", value := ascii "1=2", domain := ascii "a",
          path := ascii "/x", secure := true } :=
  ⟨(renderedSample.setCookieLine_line ⟨[]⟩ (ascii "b.a")).1, by decide⟩

end VynxHttp
