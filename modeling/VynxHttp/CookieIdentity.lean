import VynxHttp.CookieScope
import VynxHttp.LatestEntries

/-!
# The identity of cookies

A cookie is known by its name, domain and path.  `set_cookie` replaces the
first cookie which is known by the same, and there is never a second one.
-/

namespace VynxHttp

open Unwinding

def CookieEntry.triple (cookie : CookieEntry) : Bytes × Bytes × Bytes :=
  (cookie.name, cookie.domain, cookie.path)

inductive CookieOp where
  | set (cookie : CookieEntry)
  | setLine (headerLine requestDomain : Bytes)
  | clear
  deriving DecidableEq, Repr

namespace CookieJar

def clear (_jar : CookieJar) : CookieJar := {}

def apply (jar : CookieJar) : CookieOp → CookieJar
  | .set cookie => jar.setCookie cookie
  | .setLine headerLine requestDomain =>
      jar.setCookieLine headerLine requestDomain
  | .clear => jar.clear

def applyAll (jar : CookieJar) (ops : List CookieOp) : CookieJar :=
  ops.foldl apply jar

/-- The cookies which have been set since the last `clear`. -/
def writtenBy (written : List CookieEntry) : CookieOp → List CookieEntry
  | .set cookie => written ++ [cookie]
  | .setLine headerLine requestDomain =>
      written ++ [parseCookie headerLine requestDomain]
  | .clear => []

def sinceClear (ops : List CookieOp) : List CookieEntry :=
  ops.foldl writtenBy []

theorem sameCookie_eq_sameKey : sameCookie = sameKey CookieEntry.triple := by
  funext first second
  rw [Bool.eq_iff_iff]
  simp [sameCookie, sameKey, CookieEntry.triple, and_assoc]

theorem cookies_setCookie (jar : CookieJar) (cookie : CookieEntry) :
    (jar.setCookie cookie).cookies =
      upsert (sameKey CookieEntry.triple) cookie jar.cookies := by
  rw [← sameCookie_eq_sameKey, ← replaceCookie_eq_upsert]
  rfl

/-- The jar is what has been set since the last `clear`, put in one after the
other. -/
theorem cookies_applyAll (ops : List CookieOp) :
    (applyAll {} ops).cookies =
      replay CookieEntry.triple (sinceClear ops) := by
  induction ops using List.reverseRecOn with
  | nil => rfl
  | append_singleton ops op ih =>
      have hjar : applyAll {} (ops ++ [op]) = (applyAll {} ops).apply op := by
        rw [applyAll, List.foldl_append]
        rfl
      have hwritten : sinceClear (ops ++ [op]) =
          writtenBy (sinceClear ops) op := by
        rw [sinceClear, List.foldl_append]
        rfl
      rw [hjar, hwritten]
      cases op with
      | set cookie =>
          rw [apply, cookies_setCookie, ih, writtenBy,
            replay_append_singleton]
      | setLine headerLine requestDomain =>
          rw [apply, setCookieLine, cookies_setCookie, ih, writtenBy,
            replay_append_singleton]
      | clear => rfl

theorem others_setCookie (jar : CookieJar) (cookie : CookieEntry) :
    (jar.setCookie cookie).cookies.filter
        (fun other => other.triple ≠ cookie.triple) =
      jar.cookies.filter (fun other => other.triple ≠ cookie.triple) := by
  have hkept : ∀ other : CookieEntry,
      sameKey CookieEntry.triple other cookie = true →
        decide (other.triple ≠ cookie.triple) =
          decide (cookie.triple ≠ cookie.triple) := by
    intro other hsame
    rw [eq_of_beq hsame]
  rw [cookies_setCookie]
  exact filter_upsert_of_neg
    (p := fun other : CookieEntry => decide (other.triple ≠ cookie.triple))
    (by simp) hkept _

/-- The jar has one cookie for each triple which has been written, the latest
one, in the order in which the triples have been written first; and setting a
cookie leaves those with another triple as they are. -/
structure Identity (jar : CookieJar) (written : List CookieEntry) : Prop where
  unique : (jar.cookies.map CookieEntry.triple).Nodup
  latest : ∀ cookie ∈ jar.cookies,
    latest CookieEntry.triple written cookie.triple = some cookie
  ordered : jar.cookies.map CookieEntry.triple =
    (written.map CookieEntry.triple).eraseDups
  others : ∀ cookie, (jar.setCookie cookie).cookies.filter
      (fun other => other.triple ≠ cookie.triple) =
    jar.cookies.filter (fun other => other.triple ≠ cookie.triple)
  others_line : ∀ headerLine requestDomain,
    (jar.setCookieLine headerLine requestDomain).cookies.filter
        (fun other =>
          other.triple ≠ (parseCookie headerLine requestDomain).triple) =
      jar.cookies.filter fun other =>
        other.triple ≠ (parseCookie headerLine requestDomain).triple

/-- Cookies keep their identity over every sequence of operations. -/
theorem identity_applyAll (ops : List CookieOp) :
    Identity (applyAll {} ops) (sinceClear ops) where
  unique := by
    rw [cookies_applyAll]
    exact nodup_map_key_replay _
  latest := by
    intro cookie hmem
    rw [cookies_applyAll, mem_replay] at hmem
    exact hmem
  ordered := by
    rw [cookies_applyAll]
    exact map_key_replay _
  others := others_setCookie _
  others_line := fun _ _ => others_setCookie _ _

end CookieJar

end VynxHttp
