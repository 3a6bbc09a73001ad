import EnergyPlatform.Fetch.Client
import EnergyPlatform.Fetch.Policy
import EnergyPlatform.Lib.Dict
import EnergyPlatform.Lib.Prog

/-!
# Fetch.Fetcher

`Fetcher.fetch` as a program of steps: the policy checks and the library calls, which are computed,
and the steps that the resolver, the server and the clock answer.

Every step is recorded with its answer, so that a run is its outcome and its history. The remote
side answers each step as any function of the history.
-/

namespace EnergyPlatform

open Lib (Dict Prog)

structure FetchRequest where
  url : List Char
  method : String
  headers : Dict String String
  body : Option Bytes
  conditional : Option Conditional
  /-- Query parameters whose values are secrets. -/
  redactParams : List (List Char)

/-- What `client.build_request` is given. -/
structure HttpRequest where
  method : String
  url : List Char
  headers : Dict String String
  body : Option Bytes
deriving DecidableEq

/-- An open response; header names in small letters. -/
structure Response where
  status : Nat
  headers : List (String × String)
  peer : Option String
deriving DecidableEq

def Response.header (r : Response) (name : String) : Option String :=
  (r.headers.find? fun h => h.1 = name).map Prod.snd

/-- What `iter_bytes` yields: never an empty chunk. -/
abbrev Chunk := { data : Bytes // data ≠ [] }

inductive FetchCall where
  | checkUrl (url : List Char)
  | resolve (host : List Char) (port : Nat)
  | checkAddresses (host : List Char) (addresses : List String)
  /-- `client.send(client.build_request(…), stream=True)`. -/
  | send (request : HttpRequest)
  | checkPeer (host : List Char) (peer : Option String) (resolved : List String)
  | redactQuery (url : List Char) (params : List (List Char))
  | urljoin (base location : List Char)
  /-- `int(declared)`. -/
  | intOf (declared : String)
  | nextChunk
  | close
  | acquire
  | sleep (attempt : Nat)
  | log (line : String)
  | clock
deriving DecidableEq

def FetchCall.Ret : FetchCall → Type
  | checkUrl _ => Destination
  | resolve .. | checkAddresses .. => List String
  | send _ => Response
  | redactQuery .. | urljoin .. => List Char
  | intOf _ => Int
  | nextChunk => Option Chunk
  | clock => Instant
  | _ => Unit

/-- A program of the fetcher. -/
abbrev Fetch (α : Type) := Prog FetchCall.Ret FetchExc α

def redactQuery (P : UrlPrims) (url : List Char) (params : List (List Char)) :
    Except PyError (List Char) :=
  if params = [] then .ok url
  else do
    let parts ← Urls.urlsplit P [] url
    let pairs := (Urls.parseQsl P parts.query).map fun p =>
      (p.1, if p.1 ∈ params then "<redacted>".toList else p.2)
    .ok (Urls.urlunsplit { parts with query := Urls.urlencode pairs })

structure Fetcher where
  P : UrlPrims
  allowedHosts : List String
  allowInsecure : Bool
  offline : Bool
  maxRedirects : Nat
  /-- `retry.attempts`. -/
  attempts : Nat
  rateLimited : Bool
  maxBodyBytes : Nat

namespace Fetcher

variable (F : Fetcher)

def userAgent : String :=
  "energy-platform/0.0.1 (+https://github.com/energy-platform; data ingestion)"

def redirectStatuses : List Nat := [301, 302, 303, 307, 308]

def errorBodyBytes : Nat := 2048

def step (c : FetchCall) : Fetch c.Ret := Prog.perform c

def logLine (line : String) : Fetch Unit := step (.log line)

/-- `try: … finally: response.close()`. -/
def closing {α : Type} (p : Fetch α) : Fetch α := do
  let a ← p.tryCatch fun e => do
    step .close
    .raise e
  step .close
  .ret a

/-- `Conditional.headers`: an empty validator is none. -/
def conditionalHeaders (c : Conditional) : List (String × String) :=
  (match c.etag with
    | some etag => if etag ≠ "" then [("If-None-Match", etag)] else []
    | none => []) ++
  (match c.lastModified with
    | some date => if date ≠ "" then [("If-Modified-Since", date)] else []
    | none => [])

def requestHeaders (rq : FetchRequest) : Dict String String :=
  (rq.headers.entries ++ (rq.conditional.map conditionalHeaders).getD []).foldl
    (fun d h => d.set h.1 h.2) (Dict.empty.set "User-Agent" userAgent)

/-! ## Bodies -/

/-- The chunks while they fit into what is left of the cap. -/
def readChunks (url : List Char) (left : Nat) : Fetch Bytes :=
  .call .nextChunk fun
    | .error e => .raise e
    | .ok none => .ret []
    | .ok (some chunk) =>
      if chunk.val.length ≤ left then
        (readChunks url (left - chunk.val.length)).bind fun rest => .ret (chunk.val ++ rest)
      else .raise (.egress "response_too_large" (String.ofList url ++ ": body exceeds " ++
        toString F.maxBodyBytes ++ " bytes"))
termination_by left
decreasing_by
  have := List.length_pos_of_ne_nil chunk.property
  omega

/-- `declared is not None and declared.isdigit() and int(declared) > cap`. -/
def declaredAbove (declared : String) : Fetch Bool := do
  if declared ≠ "" ∧ declared.toList.all F.P.txt.isDigit then do
    let n : Int ← step (.intOf declared)
    .ret (decide (n > F.maxBodyBytes))
  else .ret false

def readBody (r : Response) (url : List Char) : Fetch Bytes := do
  match r.header "content-length" with
  | some declared => do
    let above ← declaredAbove F declared
    if above then
      .raise (.egress "response_too_large" (String.ofList url ++ ": Content-Length " ++ declared ++
        " exceeds " ++ toString F.maxBodyBytes ++ " bytes"))
    else readChunks F url F.maxBodyBytes
  | none => readChunks F url F.maxBodyBytes

/-- The chunks until nothing is left to quote. -/
def errorChunks (left : Nat) : Fetch Bytes :=
  .call .nextChunk fun
    | .error e => .raise e
    | .ok none => .ret []
    | .ok (some chunk) =>
      if left ≤ chunk.val.length then .ret chunk.val
      else (errorChunks (left - chunk.val.length)).bind fun rest => .ret (chunk.val ++ rest)
termination_by left
decreasing_by
  have := List.length_pos_of_ne_nil chunk.property
  omega

def errorBody : Fetch Bytes := do
  let head ← errorChunks errorBodyBytes
  .ret (head.take errorBodyBytes)

/-! ## Attempts -/

/-- The beginning of the line about a failed attempt. -/
def attemptText (attempt : Nat) (rq : HttpRequest) : String :=
  "attempt " ++ toString attempt ++ "/" ++ toString F.attempts ++ " " ++ rq.method ++ " " ++
    String.ofList rq.url ++ ": "

/-- One attempt: an open response, or the error it ended in. -/
def attemptOnce (rq : HttpRequest) (attempt : Nat) : Fetch (Except FetchExc Response) := do
  if F.rateLimited then step .acquire else .ret ()
  let sent ← (step (.send rq) >>= fun r => .ret (Except.ok r)).tryCatch fun
    | .transport message => .ret (.error (FetchExc.transport message))
    | e => .raise e
  match sent with
  | .error e => do
    logLine (F.attemptText attempt rq ++ e.text)
    .ret (.error e)
  | .ok r =>
    if r.status < 500 then .ret (.ok r)
    else do
      let body ← closing errorBody
      logLine (F.attemptText attempt rq ++ "HTTP " ++ toString r.status)
      .ret (.error (.failed r.status rq.url body))

/-- What is raised when no attempt is left. -/
def giveUp (rq : HttpRequest) : FetchExc → FetchExc
  | .failed status url body => .failed status url body
  | e => .egress "fetch_error" (rq.method ++ " " ++ String.ofList rq.url ++ ": " ++ e.text)

/-- The attempts that are left, after `attempt` of them. -/
def attemptLoop (rq : HttpRequest) : Nat → Nat → FetchExc → Fetch Response
  | 0, _, last => .raise (giveUp rq last)
  | n + 1, attempt, _ => do
    let outcome ← F.attemptOnce rq (attempt + 1)
    match outcome with
    | .ok r => .ret r
    | .error e => do
      if attempt + 1 < F.attempts then step (.sleep (attempt + 1)) else .ret ()
      attemptLoop rq n (attempt + 1) e

def sendWithRetries (rq : HttpRequest) : Fetch Response :=
  F.attemptLoop rq F.attempts 0 (.egress "fetch_error" "no attempt made")

/-! ## Hops -/

def resolve (d : Destination) : Fetch (List String) :=
  if F.offline then .ret []
  else do
    let addresses ← step (.resolve d.host d.port)
    step (.checkAddresses d.host addresses)

def checkPeer (d : Destination) (r : Response) (resolved : List String) : Fetch Unit :=
  if F.offline then .ret () else step (.checkPeer d.host r.peer resolved)

def result (r : Response) (hops : List (List Char)) (last : List Char) : Fetch FetchResult := do
  if r.status = 304 ∨ (200 ≤ r.status ∧ r.status < 300) then do
    let body ← if r.status = 304 then .ret [] else F.readBody r last
    let now ← step .clock
    .ret ⟨String.ofList last, r.status, body, r.header "content-type", now, r.header "etag",
      r.header "last-modified", r.status = 304, hops.map String.ofList⟩
  else do
    let body ← errorBody
    .raise (.failed r.status last body)

/-- What the next hop requests. -/
structure Hop where
  url : List Char
  method : String
  body : Option Bytes

/-- `FetchResult`, or where to go on. -/
abbrev HopOutcome := FetchResult ⊕ Hop × List (List Char)

/-- A response with its peer checked: the hop recorded, and a redirect followed. -/
def answered (rq : FetchRequest) (hop : Hop) (hops : List (List Char)) (d : Destination)
    (resolved : List String) (r : Response) : Fetch HopOutcome := do
  F.checkPeer d r resolved
  let redacted : List Char ← step (.redactQuery hop.url rq.redactParams)
  match if r.status ∈ redirectStatuses then r.header "location" else none with
  | some location => do
    let url : List Char ← step (.urljoin hop.url location.toList)
    let dropped := r.status = 303 ∨ ((r.status = 301 ∨ r.status = 302) ∧ hop.method = "POST")
    logLine ("redirect " ++ String.ofList redacted ++ " -> " ++ String.ofList url)
    .ret (.inr (⟨url, if dropped then "GET" else hop.method, if dropped then none else hop.body⟩,
      hops ++ [redacted]))
  | none => do
    let result ← F.result r (hops ++ [redacted]) redacted
    .ret (.inl result)

/-- One hop of the redirect loop. -/
def follow (rq : FetchRequest) (hop : Hop) (hops : List (List Char)) : Fetch HopOutcome := do
  let d ← step (.checkUrl hop.url)
  let resolved ← F.resolve d
  let r ← F.sendWithRetries ⟨hop.method, hop.url, requestHeaders rq, hop.body⟩
  closing (F.answered rq hop hops d resolved r)

def hopLoop (rq : FetchRequest) : Nat → Hop → List (List Char) → Fetch FetchResult
  | 0, _, hops => .raise (.egress "too_many_redirects" ("more than " ++ toString F.maxRedirects ++
      " redirects from " ++ String.ofList (hops.headD [])))
  | n + 1, hop, hops => do
    match ← F.follow rq hop hops with
    | .inl result => .ret result
    | .inr (next, hops) => hopLoop rq n next hops

def fetch (rq : FetchRequest) : Fetch FetchResult :=
  F.hopLoop rq (F.maxRedirects + 1) ⟨rq.url, rq.method, rq.body⟩ []

end Fetcher

/-! ## Runs -/

/-- A step and its answer. -/
structure FetchEvent where
  call : FetchCall
  result : Except FetchExc call.Ret

/-- Why a request was not answered. -/
inductive SendError where
  | transport (message : String)
  | unbuildable (message : String)
deriving DecidableEq

def SendError.exc : SendError → FetchExc
  | transport message => .transport message
  | unbuildable message => .unbuildable message

/-- The remote side: the resolver, the servers, and the clock. -/
structure Remote where
  resolve : List FetchEvent → List Char → Nat → Except String (List String)
  send : List FetchEvent → HttpRequest → Except SendError Response
  chunk : List FetchEvent → Except String (Option Chunk)
  now : List FetchEvent → Instant

namespace Fetcher

variable (F : Fetcher) (remote : Remote)

/-- The answer to a step, after a history. -/
def reply (h : List FetchEvent) : (c : FetchCall) → Except FetchExc c.Ret
  | .checkUrl url => EnergyPlatform.checkUrl F.P F.allowedHosts F.allowInsecure url
  | .resolve host port => (remote.resolve h host port).mapError fun message =>
      .egress "unresolvable" (quoted F.P host ++ ": " ++ message)
  | .checkAddresses host addresses => EnergyPlatform.checkAddresses F.P host addresses
  | .send rq => (remote.send h rq).mapError SendError.exc
  | .checkPeer host peer resolved => EnergyPlatform.checkPeer F.P host peer resolved
  | .redactQuery url params => (EnergyPlatform.redactQuery F.P url params).mapError .py
  | .urljoin base location => (Urls.urljoin F.P base location).mapError .py
  | .intOf declared => (intOfText F.P.txt declared).mapError .py
  | .nextChunk => (remote.chunk h).mapError .transport
  | .clock => .ok (remote.now h)
  | .close | .acquire | .sleep _ | .log _ => .ok ()

def answer (h : List FetchEvent) (c : FetchCall) : Except FetchExc c.Ret × List FetchEvent :=
  (F.reply remote h c, h ++ [⟨c, F.reply remote h c⟩])

/-- The outcome of a fetch and its history. -/
def run (rq : FetchRequest) : Except FetchExc FetchResult × List FetchEvent :=
  (F.fetch rq).run (F.answer remote) []

end Fetcher

end EnergyPlatform
