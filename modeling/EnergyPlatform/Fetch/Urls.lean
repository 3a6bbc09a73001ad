import EnergyPlatform.Fetch.Addresses

/-!
# Fetch.Urls

The parts of `urllib.parse` the fetch layer uses: `urlsplit`, `urlunsplit`, `urljoin`, `parse_qsl`,
`urlencode`.

Texts are lists of characters. The query and the fragment are cut off first: neither a scheme nor a
network location reaches past the first `?` or `#`.
-/

namespace EnergyPlatform

structure UrlPrims where
  txt : TextPrims
  lower : List Char → List Char
  /-- `unicodedata.normalize("NFKC", text)`. -/
  nfkc : List Char → List Char
  /-- `data.decode("utf-8", "replace")`. -/
  decode : List UInt8 → List Char

namespace Urls

/-- `text.partition(sep)`, without the separator. -/
def partition (sep : Char) (l : List Char) : List Char × List Char := (cutAt sep l).getD (l, [])

structure Split where
  scheme : List Char
  netloc : List Char
  path : List Char
  query : List Char
  fragment : List Char
deriving DecidableEq

/-- Leading controls and blanks go, and tabs and newlines anywhere. -/
def clean (l : List Char) : List Char :=
  (l.dropWhile fun c => c.toNat ≤ 32).filter fun c => c ≠ '\t' ∧ c ≠ '\r' ∧ c ≠ '\n'

def schemeChar (c : Char) : Bool := c.isAlpha || c.isDigit || c = '+' || c = '-' || c = '.'

/-- The scheme, in small letters, and what follows its colon. -/
def splitScheme (default front : List Char) : List Char × List Char :=
  match cutAt ':' front with
  | none => (default, front)
  | some (scheme, rest) =>
    if (scheme.head?.any Char.isAlpha) ∧ scheme.all schemeChar then (scheme.map Char.toLower, rest)
    else (default, front)

def splitNetloc : List Char → List Char × List Char
  | '/' :: '/' :: rest => (rest.takeWhile fun c => c ≠ '/', rest.dropWhile fun c => c ≠ '/')
  | front => ([], front)

def isHex (c : Char) : Bool := (IpAddress.hexDigit c).isSome

/-- `\Av[a-fA-F0-9]+\..+\Z`. -/
def ipvFuture (host : List Char) : Bool :=
  match cutAt '.' (host.drop 1) with
  | some (version, rest) =>
    version ≠ [] ∧ version.all isHex ∧ rest ≠ [] ∧ '\n' ∉ rest
  | none => false

section

variable (P : UrlPrims)

def checkBracketedHost (host : List Char) : Except PyError Unit :=
  if host.head? = some 'v' then
    if ipvFuture host then .ok () else .error (.valueError "IPvFuture address is invalid")
  else
    match IpAddress.ofText host with
    | none => .error (.valueError
        (P.txt.repr (String.ofList host) ++ " does not appear to be an IPv4 or IPv6 address"))
    | some (.v4 _) => .error (.valueError "An IPv4 address cannot be in brackets")
    | some (.v6 ..) => .ok ()

/-- `_checknetloc`. -/
def checkNfkc (netloc : List Char) : Except PyError Unit :=
  let n := netloc.filter fun c => c ≠ '@' ∧ c ≠ ':' ∧ c ≠ '#' ∧ c ≠ '?'
  let n' := P.nfkc n
  if netloc.all (fun c => c.toNat < 128) ∨ n = n' then .ok ()
  else if ['/', '?', '#', '@', ':'].any (fun c => c ∈ n') then
    .error (.valueError ("netloc " ++ String.ofList netloc ++
      " contains invalid characters under NFKC normalization"))
  else .ok ()

def checkNetloc (netloc : List Char) : Except PyError Unit := do
  if '[' ∈ netloc ↔ ']' ∈ netloc then
    if '[' ∈ netloc then
      checkBracketedHost P (partition ']' (partition '[' netloc).2).1
      checkNfkc P netloc
    else checkNfkc P netloc
  else .error (.valueError "Invalid IPv6 URL")

def urlsplit (default url : List Char) : Except PyError Split := do
  let (rest, fragment) := partition '#' (clean url)
  let (front, query) := partition '?' rest
  let (scheme, located) := splitScheme default front
  let (netloc, path) := splitNetloc located
  checkNetloc P netloc
  .ok ⟨scheme, netloc, path, query, fragment⟩

/-! ## Host and port -/

def Split.hostinfo (s : Split) : List Char × List Char :=
  let info := ((cutLast '@' s.netloc).map Prod.snd).getD s.netloc
  match cutAt '[' info with
  | some (_, bracketed) =>
    let (host, rest) := partition ']' bracketed
    (host, (partition ':' rest).2)
  | none => partition ':' info

/-- `(parts.hostname or "").lower()`. -/
def Split.hostname (s : Split) : List Char := P.lower s.hostinfo.1

def Split.port (s : Split) : Except PyError (Option Nat) :=
  let text := s.hostinfo.2
  if text = [] then .ok none
  else
    match Ascii.number text with
    | none => .error (.valueError ("Port could not be cast to integer value as " ++
        P.txt.repr (String.ofList text)))
    | some n => do
      let port ← intOfRun n text.length
      if port ≤ 65535 then .ok (some port) else .error (.valueError "Port out of range 0-65535")

end

/-! ## Putting together -/

def usesRelative : List String :=
  ["", "ftp", "http", "gopher", "nntp", "imap", "wais", "file", "https", "shttp", "mms",
    "prospero", "rtsp", "rtsps", "rtspu", "sftp", "svn", "svn+ssh", "ws", "wss"]

def usesNetloc : List String :=
  ["", "ftp", "http", "gopher", "nntp", "telnet", "imap", "wais", "file", "mms", "https", "shttp",
    "snews", "prospero", "rtsp", "rtsps", "rtspu", "rsync", "svn", "svn+ssh", "sftp", "nfs", "git",
    "git+ssh", "ws", "wss"]

def usesParams : List String :=
  ["", "ftp", "hdl", "prospero", "http", "imap", "https", "shttp", "rtsp", "rtsps", "rtspu", "sip",
    "sips", "mms", "sftp", "tel"]

def Split.front (s : Split) : List Char :=
  let located :=
    if s.netloc ≠ [] ∨ (s.scheme ≠ [] ∧ String.ofList s.scheme ∈ usesNetloc) ∨
        s.path.take 2 = ['/', '/'] then
      '/' :: '/' :: s.netloc ++
        (if s.path ≠ [] ∧ s.path.head? ≠ some '/' then '/' :: s.path else s.path)
    else s.path
  if s.scheme ≠ [] then s.scheme ++ ':' :: located else located

def urlunsplit (s : Split) : List Char :=
  s.front ++ (if s.query ≠ [] then '?' :: s.query else []) ++
    (if s.fragment ≠ [] then '#' :: s.fragment else [])

/-- `urlparse`: the path without its parameters, and these. -/
def splitParams (s : Split) : List Char × List Char :=
  if String.ofList s.scheme ∈ usesParams ∧ ';' ∈ s.path then
    -- a semicolon before the last slash belongs to the path
    match cutLast '/' s.path with
    | none => partition ';' s.path
    | some (directory, name) =>
      match cutAt ';' name with
      | none => (s.path, [])
      | some (name, params) => (directory ++ '/' :: name, params)
  else (s.path, [])

/-- `urlunparse`: parameters are written after the path. -/
def withParams (path params : List Char) : List Char :=
  if params ≠ [] then path ++ ';' :: params else path

/-- The inner segments that are empty go. -/
def squeeze : List (List Char) → List (List Char)
  | [] => []
  | first :: rest =>
    match rest.getLast? with
    | none => [first]
    | some last => first :: rest.dropLast.filter (fun seg => seg ≠ []) ++ [last]

/-- `.` and `..` carried out. -/
def resolve (segments : List (List Char)) : List (List Char) :=
  let resolved := segments.foldl (fun acc seg =>
    if seg = ['.', '.'] then acc.dropLast else if seg = ['.'] then acc else acc ++ [seg]) []
  if segments.getLast? = some ['.'] ∨ segments.getLast? = some ['.', '.'] then resolved ++ [[]]
  else resolved

/-- The path of a relative reference against the path of the base. -/
def joinPath (base path : List Char) : List Char :=
  let baseParts := splitChar '/' base
  let baseParts := if baseParts.getLast? = some [] then baseParts else baseParts.dropLast
  let segments :=
    if path.head? = some '/' then splitChar '/' path
    else squeeze (baseParts ++ splitChar '/' path)
  let joined := List.intercalate ['/'] (resolve segments)
  if joined = [] then ['/'] else joined

/-- What `urljoin` makes of the two split texts, when they are of one scheme. -/
def joinSplit (b u : Split) : Split :=
  let (bpath, bparams) := splitParams b
  let (path, params) := splitParams u
  if String.ofList u.scheme ∈ usesNetloc ∧ u.netloc ≠ [] then
    { u with path := withParams path params }
  else
    let netloc := if String.ofList u.scheme ∈ usesNetloc then b.netloc else u.netloc
    if path = [] ∧ params = [] then
      ⟨u.scheme, netloc, withParams bpath bparams, if u.query = [] then b.query else u.query,
        u.fragment⟩
    else ⟨u.scheme, netloc, withParams (joinPath bpath path) params, u.query, u.fragment⟩

def urljoin (P : UrlPrims) (base url : List Char) : Except PyError (List Char) :=
  if base = [] then .ok url
  else if url = [] then .ok base
  else do
    let b ← urlsplit P [] base
    let u ← urlsplit P b.scheme url
    if u.scheme ≠ b.scheme ∨ String.ofList u.scheme ∉ usesRelative then .ok url
    else .ok (urlunsplit (joinSplit b u))

/-! ## Queries -/

def alwaysSafe (c : Char) : Bool :=
  c.isAlphanum || c = '_' || c = '.' || c = '-' || c = '~'

def hexUpper (n : Nat) : Char := if n < 10 then Char.ofNat (n + 48) else Char.ofNat (n + 55)

def percent (b : UInt8) : List Char := ['%', hexUpper (b.toNat / 16), hexUpper (b.toNat % 16)]

def quotePlus (l : List Char) : List Char :=
  l.flatMap fun c =>
    if alwaysSafe c then [c]
    else if c = ' ' then ['+']
    else (String.utf8EncodeChar c).flatMap percent

/-- The bytes of a run of ASCII characters, escapes taken, decoded; other characters as they
are. -/
def unquoteRun (P : UrlPrims) (run : List UInt8) : List Char → List Char
  | [] => P.decode run
  | '%' :: a :: b :: rest =>
    match IpAddress.hexDigit a, IpAddress.hexDigit b with
    | some x, some y => unquoteRun P (run ++ [UInt8.ofNat (x * 16 + y)]) rest
    | _, _ => unquoteRun P (run ++ [37]) (a :: b :: rest)
  | c :: rest =>
    if c.toNat < 128 then unquoteRun P (run ++ [UInt8.ofNat c.toNat]) rest
    else P.decode run ++ c :: unquoteRun P [] rest

def unquotePlus (P : UrlPrims) (l : List Char) : List Char :=
  let spaced := l.map fun c => if c = '+' then ' ' else c
  if '%' ∈ spaced then unquoteRun P [] spaced else spaced

def parseQsl (P : UrlPrims) (query : List Char) : List (List Char × List Char) :=
  ((splitChar '&' query).filter fun field => field ≠ []).map fun field =>
    let (name, value) := partition '=' field
    (unquotePlus P name, unquotePlus P value)

def urlencode (pairs : List (List Char × List Char)) : List Char :=
  List.intercalate ['&'] (pairs.map fun p => quotePlus p.1 ++ '=' :: quotePlus p.2)

end Urls

end EnergyPlatform
