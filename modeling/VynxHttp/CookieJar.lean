import VynxHttp.ByteString

/-!
# The cookie jar

`setCookieLine` follows the parsing overload of `cookie_jar::set_cookie`, and
`buildCookieHeader` the selection of cookies for a request.  An expiry is kept
with its cookie and asked nowhere.
-/

namespace VynxHttp

structure CookieEntry where
  name : Bytes := []
  value : Bytes := []
  domain : Bytes := []
  path : Bytes := []
  secure : Bool := false
  /-- Clock ticks since the epoch. -/
  expires : ℤ := 0
  hasExpiry : Bool := false
  deriving DecidableEq, Repr

/-- `=`, `/`, `.`. -/
def equalsSign : UInt8 := 61
def slash : UInt8 := 47
def dot : UInt8 := 46

structure CookieJar where
  cookies : List CookieEntry := []

namespace CookieJar

def sameCookie (first second : CookieEntry) : Bool :=
  first.name == second.name && first.domain == second.domain &&
    first.path == second.path

def replaceCookie (cookie : CookieEntry) :
    List CookieEntry → List CookieEntry
  | [] => [cookie]
  | entry :: entries =>
      if sameCookie entry cookie then cookie :: entries
      else entry :: replaceCookie cookie entries

/-- Replace the first cookie with the same name, domain and path, or append. -/
def setCookie (jar : CookieJar) (cookie : CookieEntry) : CookieJar :=
  ⟨replaceCookie cookie jar.cookies⟩

def isSpace (b : UInt8) : Bool := b == space

def trimSpaces (token : Bytes) : Bytes :=
  ((token.dropWhile isSpace).reverse.dropWhile isSpace).reverse

/-- The tokens between the semicolons, trimmed.  Every round takes at least one
byte. -/
def directives : ℕ → Bytes → List Bytes
  | 0, _ => []
  | fuel + 1, remaining =>
      if remaining = [] then []
      else
        match cutAt semicolon remaining with
        | none => [trimSpaces remaining]
        | some (token, rest) =>
            trimSpaces token :: directives fuel (rest.dropWhile isSpace)

/-- The first token, `name=value`. -/
def readPair (token : Bytes) : CookieEntry :=
  match cutAt equalsSign token with
  | some (name, value) => { name, value }
  | none => { name := token }

def readDirective (entry : CookieEntry) (token : Bytes) : CookieEntry :=
  let (key, val) := (cutAt equalsSign token).getD (token, [])
  if equalsIgnoreCase key (ascii "domain") then
    { entry with
      domain := if val.head? = some dot then val.drop 1 else val }
  else if equalsIgnoreCase key (ascii "path") then { entry with path := val }
  else if equalsIgnoreCase key (ascii "secure") then
    { entry with secure := true }
  else if equalsIgnoreCase key (ascii "expires") then
    -- The date is not read.
    { entry with hasExpiry := true, expires := 0 }
  else entry

/-- What is read of a line, before the defaults. -/
def readLine (headerLine : Bytes) : CookieEntry :=
  match directives (headerLine.length + 1) headerLine with
  | [] => {}
  | pair :: tokens => tokens.foldl readDirective (readPair pair)

def withDefaults (entry : CookieEntry) (requestDomain : Bytes) :
    CookieEntry :=
  { entry with
    domain := if entry.domain = [] then requestDomain else entry.domain
    path := if entry.path = [] then [slash] else entry.path }

def parseCookie (headerLine requestDomain : Bytes) : CookieEntry :=
  withDefaults (readLine headerLine) requestDomain

/-- `set_cookie(header_line, request_domain)`. -/
def setCookieLine (jar : CookieJar) (headerLine requestDomain : Bytes) :
    CookieJar :=
  jar.setCookie (parseCookie headerLine requestDomain)

/-- The cookie domain is the request domain or a suffix of it after a dot. -/
def domainMatches (cookie : CookieEntry) (domain : Bytes) : Bool :=
  if cookie.domain = [] then true
  else if cookie.domain = domain then true
  else
    let skipped := domain.length - cookie.domain.length
    cookie.domain.length < domain.length &&
      domain.drop skipped == cookie.domain &&
      domain[skipped - 1]? == some dot

/-- The cookie path is the request path or a prefix of it at a slash. -/
def pathMatches (cookie : CookieEntry) (path : Bytes) : Bool :=
  if cookie.path = [] then true
  else
    path.take cookie.path.length == cookie.path &&
      (path.length ≤ cookie.path.length ||
        cookie.path.getLast? == some slash ||
        path[cookie.path.length]? == some slash)

/-- `name=value` for every matching cookie, joined by `; `. -/
def buildCookieHeader (jar : CookieJar) (domain path : Bytes) : Bytes :=
  let selected := jar.cookies.filter fun cookie =>
    domainMatches cookie domain && pathMatches cookie path
  (ascii "; ").intercalate
    (selected.map fun cookie => cookie.name ++ [equalsSign] ++ cookie.value)

end CookieJar

end VynxHttp
