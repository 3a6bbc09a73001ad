import EnergyPlatform.Contracts.Ascii
import EnergyPlatform.Contracts.Numerals
import EnergyPlatform.Contracts.Parser
import EnergyPlatform.Fetch.ObjectStore
import EnergyPlatform.Fetch.Urls

/-!
# Fetch.Listing

The verbs of the object-store client, down to the answers they read: requests with their tries,
the error document, the pages of a listing and the fields of an object.

* `Call`: how a verb ends. A verb that runs out of exchanges is `waiting`.
* `listFrom_returned`: a listing that ends has yielded every key of every page it received, and
  the last page was whole.
* `parseListing_raises_iff`: which bodies make the page parser raise an exception of its own.
* `listing_complete_or_error_iff`: exactly when nothing but `ObjectStoreError` leaves the verbs.
-/

namespace EnergyPlatform

/-- A node of a parsed answer. `other` is a child whose tag is no text (a processing
instruction). -/
inductive ListingNode where
  | element (tag : String) (text : Option String) (children : List ListingNode)
  | other

structure ListingRoot where
  tag : String
  children : List ListingNode

/-- `int`, `strip`, `lower` and `repr` of a text, and `etree.fromstring(body, _XML_PARSER)`: the
root, or the message of an `XMLSyntaxError`. -/
structure StorePrims where
  text : TextPrims
  lower : String → String
  fromstring : Bytes → Except String (Option ListingRoot)

/-- `httpx.Response`. Header names are read in any case. -/
structure HttpAnswer where
  status : Nat
  header : String → Option String
  content : Bytes

/-- What one try of a request meets: an answer, or an `httpx.TransportError`. -/
inductive Exchange where
  | answer (r : HttpAnswer)
  | transport (message : String)

/-- What leaves a verb as an exception. -/
inductive StoreExc where
  | store (e : ObjectStoreError)
  /-- `etree.XMLSyntaxError`. -/
  | xmlSyntax (message : String)
  | py (e : PyError)
deriving DecidableEq

structure ObjectInfo where
  key : String
  size : Int
  etag : Option String
  contentType : Option String
  lastModified : Option String
  storageClass : Option String
deriving DecidableEq

structure Retention where
  mode : String
  days : Nat

structure ObjectStoreConfig where
  /-- The checked endpoint, `scheme://netloc`. -/
  base : String
  bucket : String
  retention : Option Retention
  /-- `retry.attempts`. -/
  attempts : Nat

/-- How a call ends: with a value and the exchanges that are left, with an exception, or not yet,
as every exchange is used up. -/
inductive Call (α : Type) where
  | returned (a : α) (rest : List Exchange)
  | raised (e : StoreExc)
  | waiting

def Call.andThen {α β : Type} (f : α → Except StoreExc β) : Call α → Call β
  | .returned a rest =>
    match f a with
    | .ok b => .returned b rest
    | .error e => .raised e
  | .raised e => .raised e
  | .waiting => .waiting

/-- No exception but `ObjectStoreError` leaves the call. -/
def Call.StoreErrorsOnly {α : Type} : Call α → Prop
  | .raised e => ∃ s, e = .store s
  | _ => True

namespace StoreClient

/-! ## Addresses -/

def uriEncode (keepSlash : Bool) (text : String) : String :=
  String.ofList (text.toList.flatMap fun c =>
    if Urls.alwaysSafe c || (keepSlash && c = '/') then [c]
    else (String.utf8EncodeChar c).flatMap Urls.percent)

variable (P : StorePrims) (cfg : ObjectStoreConfig)

def objectUrl (key : String) : Except StoreExc String :=
  if key = "" ∨ key.toList.head? = some '/' then .error (.store ⟨"bad_key", P.text.repr key⟩)
  else .ok (cfg.base ++ "/" ++ uriEncode false cfg.bucket ++ "/" ++ uriEncode true key)

def bucketUrl (params : List (String × String)) : String :=
  let query := "&".intercalate
    ((params.mergeSort fun a b => decide (a.1 ≤ b.1)).map fun p =>
      uriEncode false p.1 ++ "=" ++ uriEncode false p.2)
  let base := cfg.base ++ "/" ++ uriEncode false cfg.bucket
  if query ≠ "" then base ++ "?" ++ query else base

/-! ## Answers -/

/-- `_local`. -/
def localName (tag : String) : String := String.ofList (afterLast '}' tag.toList)

/-- The text of the first child of that name: `_child_text`. -/
def childText (name : String) : List ListingNode → Option String
  | [] => none
  | .element tag text _ :: rest => if localName tag = name then text else childText name rest
  | .other :: rest => childText name rest

/-- `value or default`. -/
def orElse (value : Option String) (default : String) : String :=
  match value with
  | some v => if v = "" then default else v
  | none => default

def errorCode (body : Bytes) : String :=
  match P.fromstring body with
  | .error _ => "unknown"
  | .ok none => "unknown"
  | .ok (some root) => orElse (childText "Code" root.children) "unknown"

/-- The tries that are left, and the exception to raise when none is. -/
def requestLoop (what : String) : Nat → ObjectStoreError → List Exchange → Call HttpAnswer
  | 0, last, _ => .raised (.store last)
  | _ + 1, _, [] => .waiting
  | tries + 1, _, .transport message :: rest =>
    requestLoop what tries ⟨"request_failed", what ++ ": " ++ message⟩ rest
  | tries + 1, _, .answer r :: rest =>
    if r.status < 500 then .returned r rest
    else
      requestLoop what tries
        ⟨errorCode P r.content, "HTTP " ++ toString r.status ++ " from " ++ what⟩ rest

def request (method url : String) (exchanges : List Exchange) : Call HttpAnswer :=
  requestLoop P (method ++ " " ++ url) cfg.attempts ⟨"request_failed", "no attempt made"⟩ exchanges

/-- `_raise_unless`, where only 200 is right. -/
def raiseUnless (r : HttpAnswer) (what : String) : Except StoreExc Unit :=
  if r.status = 200 then .ok ()
  else .error (.store ⟨errorCode P r.content, "HTTP " ++ toString r.status ++ " for " ++
    P.text.repr what ++ " on " ++ cfg.base ++ "/" ++ cfg.bucket⟩)

/-- `int` of a text, as the verbs call it: nothing catches its `ValueError`. -/
def intOf (text : String) : Except StoreExc Int :=
  match intOfText P.text text with
  | .ok n => .ok n
  | .error e => .error (.py e)

def isContents : ListingNode → Bool
  | .element tag _ _ => localName tag = "Contents"
  | .other => false

def ListingNode.children : ListingNode → List ListingNode
  | .element _ _ children => children
  | .other => []

/-- What one `Contents` element says. -/
def objectInfo (el : ListingNode) : Except StoreExc ObjectInfo :=
  match childText "Key" (ListingNode.children el) with
  | none => .error (.store ⟨"bad_listing", "Contents without Key"⟩)
  | some key => do
    let size ← intOf P (orElse (childText "Size" (ListingNode.children el)) "0")
    .ok ⟨key, size, childText "ETag" (ListingNode.children el), none,
      childText "LastModified" (ListingNode.children el), none⟩

/-- `for el in root`. -/
def readPage : List ListingNode → Except StoreExc (List ObjectInfo)
  | [] => .ok []
  | el :: rest =>
    if isContents el then do
      let info ← objectInfo P el
      let page ← readPage rest
      .ok (info :: page)
    else readPage rest

def truncated (children : List ListingNode) : Bool :=
  P.lower (P.text.strip (orElse (childText "IsTruncated" children) "false")) = "true"

/-- The token of the next page, when there is one. -/
def nextToken (children : List ListingNode) : Except StoreExc (Option String) :=
  if truncated P children then
    match childText "NextContinuationToken" children with
    | none => .error (.store ⟨"bad_listing", "IsTruncated without NextContinuationToken"⟩)
    | some token =>
      if token = "" then
        .error (.store ⟨"bad_listing", "IsTruncated without NextContinuationToken"⟩)
      else .ok (some token)
  else .ok none

def parseListing (body : Bytes) : Except StoreExc (List ObjectInfo × Option String) :=
  match P.fromstring body with
  | .error message => .error (.xmlSyntax message)
  | .ok none => .error (.store ⟨"bad_listing", "response is not a ListBucketResult"⟩)
  | .ok (some root) =>
    if localName root.tag ≠ "ListBucketResult" then
      .error (.store ⟨"bad_listing", "response is not a ListBucketResult"⟩)
    else do
      let page ← readPage P root.children
      let token ← nextToken P root.children
      .ok (page, token)

/-! ## Verbs -/

/-- The headers retention adds to a `PUT` at `now`: the mode and the end of it. -/
def retentionHeaders (now : Instant) : Except StoreExc (Option (String × Instant)) :=
  match cfg.retention with
  | none => .ok none
  | some r =>
    match checkedInstant (now + r.days * day) with
    | .ok until_ => .ok (some (r.mode, until_))
    | .error e => .error (.py e)

/-- The object's own request, its answer read by `read`. -/
def onObject {α : Type} (method key : String) (read : HttpAnswer → Except StoreExc α)
    (exchanges : List Exchange) : Call α :=
  match objectUrl P cfg key with
  | .error e => .raised e
  | .ok url => (request P cfg method url exchanges).andThen read

def put (now : Instant) (key : String) : List Exchange → Call String :=
  match retentionHeaders cfg now with
  | .error e => fun _ => .raised e
  | .ok _ => onObject P cfg "PUT" key fun r => do
    raiseUnless P cfg r key
    .ok ((r.header "etag").getD "")

def putNew (now : Instant) (key : String) : List Exchange → Call Bool :=
  match retentionHeaders cfg now with
  | .error e => fun _ => .raised e
  | .ok _ => onObject P cfg "PUT" key fun r =>
    if r.status = 412 then .ok false
    else do
      raiseUnless P cfg r key
      .ok true

def get (key : String) : List Exchange → Call (Option Bytes) :=
  onObject P cfg "GET" key fun r =>
    if r.status = 404 then .ok none
    else do
      raiseUnless P cfg r key
      .ok (some r.content)

def head (key : String) : List Exchange → Call (Option ObjectInfo) :=
  onObject P cfg "HEAD" key fun r =>
    if r.status = 404 then .ok none
    else do
      raiseUnless P cfg r key
      let size ← intOf P ((r.header "content-length").getD "0")
      .ok (some ⟨key, size, r.header "etag", r.header "content-type", r.header "last-modified",
        r.header "x-amz-storage-class"⟩)

def listParams (pageSize : Int) (root : String) (token : Option String) : List (String × String) :=
  [("list-type", "2"), ("max-keys", toString pageSize), ("prefix", root)] ++
    (token.map fun t => ("continuation-token", t)).toList

/-- The tries up to the first answer below 500, and what is left after it. -/
def answered : Nat → List Exchange → Option (HttpAnswer × List Exchange)
  | 0, _ => none
  | _ + 1, [] => none
  | tries + 1, .transport _ :: rest => answered tries rest
  | tries + 1, .answer r :: rest => if r.status < 500 then some (r, rest) else answered tries rest

/-- A 200 body among the exchanges. -/
def pageBody : Exchange → Option Bytes
  | .answer r => if r.status = 200 then some r.content else none
  | .transport _ => none

section Requests

variable {P cfg} {what : String} {tries : Nat} {last : ObjectStoreError} {α : Type}
  {exchanges rest : List Exchange} {r : HttpAnswer}

/-- What a request comes to is what its tries are answered with. -/
theorem requestLoop_cases : ∀ last exchanges,
    (∃ r rest, answered tries exchanges = some (r, rest) ∧
      requestLoop P what tries last exchanges = .returned r rest) ∨
    (answered tries exchanges = none ∧
      ((∃ e, requestLoop P what tries last exchanges = .raised (.store e)) ∨
        requestLoop P what tries last exchanges = .waiting)) := by
  induction tries with
  | zero => exact fun last _ => .inr ⟨rfl, .inl ⟨last, rfl⟩⟩
  | succ tries ih =>
    intro last exchanges
    cases exchanges with
    | nil => exact .inr ⟨rfl, .inr rfl⟩
    | cons x rest =>
      cases x with
      | transport message => exact ih _ rest
      | answer r =>
        by_cases hr : r.status < 500
        · refine .inl ⟨r, rest, ?_, ?_⟩
          · rw [answered, if_pos hr]
          · rw [requestLoop, if_pos hr]
        · rw [answered, if_neg hr, requestLoop, if_neg hr]
          exact ih _ rest

/-- The exchanges of an answered request: failed tries, none of them a page, and the answer. -/
theorem answered_split : ∀ {exchanges : List Exchange}, answered tries exchanges = some (r, rest) →
    ∃ failed, exchanges = failed ++ .answer r :: rest ∧ failed.filterMap pageBody = [] := by
  induction tries with
  | zero => intro exchanges h; cases h
  | succ tries ih =>
    intro exchanges h
    cases exchanges with
    | nil => cases h
    | cons x xs =>
      cases x with
      | transport message =>
        obtain ⟨failed, rfl, hfailed⟩ := ih h
        exact ⟨.transport message :: failed, rfl, hfailed⟩
      | answer r' =>
        by_cases hr : r'.status < 500
        · rw [answered, if_pos hr] at h
          cases h
          exact ⟨[], rfl, rfl⟩
        · rw [answered, if_neg hr] at h
          obtain ⟨failed, rfl, hfailed⟩ := ih h
          refine ⟨.answer r' :: failed, rfl, ?_⟩
          have h200 : pageBody (.answer r') = none := if_neg (by omega)
          rw [List.filterMap_cons_none h200, hfailed]

theorem answered_shorter (h : answered tries exchanges = some (r, rest)) :
    rest.length < exchanges.length := by
  obtain ⟨failed, rfl, -⟩ := answered_split h
  simp only [List.length_append, List.length_cons]
  omega

variable (P cfg) in
theorem request_cases (method url : String) (exchanges : List Exchange) :
    (∃ r rest, answered cfg.attempts exchanges = some (r, rest) ∧
      request P cfg method url exchanges = .returned r rest) ∨
    (answered cfg.attempts exchanges = none ∧
      ((∃ e, request P cfg method url exchanges = .raised (.store e)) ∨
        request P cfg method url exchanges = .waiting)) :=
  requestLoop_cases _ _

/-- A verb raises something of its own exactly when reading its answer does. -/
theorem request_andThen {read : HttpAnswer → Except StoreExc α} {method url : String} :
    ((request P cfg method url exchanges).andThen read).StoreErrorsOnly ↔
      ∀ r rest, answered cfg.attempts exchanges = some (r, rest) →
        ∀ e, read r = .error e → ∃ s, e = .store s := by
  rcases request_cases P cfg method url exchanges with ⟨r, rest, ha, hr⟩ | ⟨ha, ⟨e, hr⟩ | hr⟩
  · rw [hr, ha, Call.andThen]
    constructor
    · rintro h _ _ ⟨rfl, rfl⟩ e he
      rw [he] at h
      exact h
    · intro h
      cases hread : read r with
      | ok b => trivial
      | error e => exact h r rest rfl e hread
  · rw [hr, ha]
    exact ⟨fun _ _ _ h => (nomatch h), fun _ => ⟨e, rfl⟩⟩
  · rw [hr, ha]
    exact ⟨fun _ _ _ h => (nomatch h), fun _ => trivial⟩

end Requests

/-! ## Listings -/

/-- A page that is asked for and read: `_parse_listing` of a 200 answer, and what is left. -/
def listPage (pageSize : Int) (root : String) (token : Option String)
    (exchanges : List Exchange) : Call (List ObjectInfo × Option String) :=
  (request P cfg "GET" (bucketUrl cfg (listParams pageSize root token)) exchanges).andThen
    fun r => do
      raiseUnless P cfg r root
      parseListing P r.content

/-- A page is not answered, refused, or the body of a 200 answer as it parses. -/
theorem listPage_cases (pageSize : Int) (root : String) (token : Option String)
    (exchanges : List Exchange) :
    (answered cfg.attempts exchanges = none ∧
      ((∃ e, listPage P cfg pageSize root token exchanges = .raised (.store e)) ∨
        listPage P cfg pageSize root token exchanges = .waiting)) ∨
    (∃ r rest, answered cfg.attempts exchanges = some (r, rest) ∧ r.status ≠ 200 ∧
      ∃ e, listPage P cfg pageSize root token exchanges = .raised (.store e)) ∨
    (∃ r rest, answered cfg.attempts exchanges = some (r, rest) ∧ r.status = 200 ∧
      ((∃ e, parseListing P r.content = .error e ∧
          listPage P cfg pageSize root token exchanges = .raised e) ∨
        ∃ page, parseListing P r.content = .ok page ∧
          listPage P cfg pageSize root token exchanges = .returned page rest)) := by
  unfold listPage
  rcases request_cases P cfg "GET" (bucketUrl cfg (listParams pageSize root token)) exchanges with
    ⟨r, rest, ha, hr⟩ | ⟨ha, ⟨e, hr⟩ | hr⟩
  · rw [hr, Call.andThen]
    by_cases h200 : r.status = 200
    · rw [raiseUnless, if_pos h200]
      refine .inr (.inr ⟨r, rest, ha, h200, ?_⟩)
      simp only [bind, Except.bind]
      cases hp : parseListing P r.content with
      | error e => exact .inl ⟨e, rfl, rfl⟩
      | ok page => exact .inr ⟨page, rfl, rfl⟩
    · rw [raiseUnless, if_neg h200]
      exact .inr (.inl ⟨r, rest, ha, h200, _, rfl⟩)
  · rw [hr]
    exact .inl ⟨ha, .inl ⟨e, rfl⟩⟩
  · rw [hr]
    exact .inl ⟨ha, .inr rfl⟩

theorem listPage_returned {pageSize : Int} {root : String} {token : Option String}
    {exchanges rest : List Exchange} {page : List ObjectInfo × Option String}
    (h : listPage P cfg pageSize root token exchanges = .returned page rest) :
    ∃ r, answered cfg.attempts exchanges = some (r, rest) ∧ r.status = 200 ∧
      parseListing P r.content = .ok page := by
  rcases listPage_cases P cfg pageSize root token exchanges with
    ⟨_, ⟨e, he⟩ | he⟩ | ⟨_, _, _, _, e, he⟩ | ⟨r, left, ha, h200, ⟨e, hp, he⟩ | ⟨found, hp, he⟩⟩
  · rw [he] at h
    cases h
  · rw [he] at h
    cases h
  · rw [he] at h
    cases h
  · rw [he] at h
    cases h
  · rw [he] at h
    cases h
    exact ⟨r, ha, h200, hp⟩

/-- What a listing yields from `token` on, and how it ends. -/
def listFrom (pageSize : Int) (root : String) (token : Option String) (exchanges : List Exchange) :
    List ObjectInfo × Call Unit :=
  match h : listPage P cfg pageSize root token exchanges with
  | .waiting => ([], .waiting)
  | .raised e => ([], .raised e)
  | .returned (page, none) rest => (page, .returned () rest)
  | .returned (page, some next) rest =>
    have : rest.length < exchanges.length :=
      let ⟨_, ha, _⟩ := listPage_returned P cfg h
      answered_shorter ha
    (page ++ (listFrom pageSize root (some next) rest).1,
      (listFrom pageSize root (some next) rest).2)
termination_by exchanges.length

def list (pageSize : Int) (root : String) (exchanges : List Exchange) :
    List ObjectInfo × Call Unit :=
  listFrom P cfg pageSize root none exchanges

/-- The key a child of a listing stands for. -/
def contentsKey (el : ListingNode) : Option String :=
  if isContents el then childText "Key" (ListingNode.children el) else none

/-- The keys of a page. -/
def pageKeys (body : Bytes) : List String :=
  match P.fromstring body with
  | .ok (some root) => root.children.filterMap contentsKey
  | _ => []

/-- The text `int` is called on for a `Contents` element is an integer. -/
def SizeReads (el : ListingNode) : Prop :=
  ∃ n, intOfText P.text (orElse (childText "Size" (ListingNode.children el)) "0") = .ok n

/-- The sizes that are read are integers: those of the elements before the first without a key. -/
def SizesRead (children : List ListingNode) : Prop :=
  ∀ before el after, children = before ++ el :: after →
    (∀ c ∈ before, isContents c = true → (contentsKey c).isSome) →
      (contentsKey el).isSome → SizeReads P el

/-- A body that is XML and, where it is a listing, has integer sizes. -/
def Readable (body : Bytes) : Prop :=
  ∃ root, P.fromstring body = .ok root ∧
    ∀ r, root = some r → localName r.tag = "ListBucketResult" → SizesRead P r.children

/-- A well-formed `ListBucketResult` that is not truncated. -/
def LastPage (body : Bytes) : Prop :=
  ∃ root, P.fromstring body = .ok (some root) ∧ localName root.tag = "ListBucketResult" ∧
    (∀ el ∈ root.children, isContents el = true → (contentsKey el).isSome ∧ SizeReads P el) ∧
    truncated P root.children = false

/-- The 200 bodies a listing is answered with: the first, and the one after each truncated
page. -/
inductive Asked : List Exchange → Bytes → Prop
  | first {exchanges rest : List Exchange} {r : HttpAnswer} :
      answered cfg.attempts exchanges = some (r, rest) → r.status = 200 → Asked exchanges r.content
  | next {exchanges rest : List Exchange} {r : HttpAnswer} {page : List ObjectInfo}
      {token : String} {body : Bytes} :
      answered cfg.attempts exchanges = some (r, rest) → r.status = 200 →
      parseListing P r.content = .ok (page, some token) → Asked rest body → Asked exchanges body

/-- What a listing owes its caller: at its normal end the keys of all pages received, the last of
them a whole one, and no exception but `ObjectStoreError`. -/
def CompleteOrError (exchanges : List Exchange) (listed : List ObjectInfo × Call Unit) : Prop :=
  match listed.2 with
  | .returned () rest => ∃ used, exchanges = used ++ rest ∧
      listed.1.map ObjectInfo.key = (used.filterMap pageBody).flatMap (pageKeys P) ∧
      ∃ last, (used.filterMap pageBody).getLast? = some last ∧ LastPage P last
  | .raised e => ∃ s, e = .store s
  | .waiting => True

section Pages

variable {P cfg}

theorem sizesRead_cons {el : ListingNode} {rest : List ListingNode} :
    SizesRead P (el :: rest) ↔ ((contentsKey el).isSome → SizeReads P el) ∧
      ((isContents el = true → (contentsKey el).isSome) → SizesRead P rest) := by
  constructor
  · intro h
    refine ⟨h [] el rest rfl (fun _ hc => nomatch hc), fun hkey before el' after heq hbefore => ?_⟩
    refine h (el :: before) el' after (by rw [heq, List.cons_append]) fun c hc => ?_
    rcases List.mem_cons.mp hc with rfl | hc
    · exact hkey
    · exact hbefore c hc
  · rintro ⟨hel, hrest⟩ before el' after heq hbefore
    cases before with
    | nil =>
      obtain ⟨rfl, -⟩ := List.cons.inj heq
      exact hel
    | cons b before =>
      obtain ⟨rfl, htail⟩ := List.cons.inj heq
      exact hrest (hbefore el List.mem_cons_self) before el' after htail fun c hc =>
        hbefore c (List.mem_cons_of_mem _ hc)

/-- What a `Contents` element is read as. -/
theorem objectInfo_cases {el : ListingNode} (hc : isContents el = true) :
    (contentsKey el = none ∧ ∃ e, objectInfo P el = .error (.store e)) ∨
    (∃ key, contentsKey el = some key ∧ ¬ SizeReads P el ∧
      ∃ e, objectInfo P el = .error (.py e)) ∨
    (∃ key info, contentsKey el = some key ∧ SizeReads P el ∧ info.key = key ∧
      objectInfo P el = .ok info) := by
  unfold contentsKey objectInfo SizeReads intOf
  rw [if_pos hc]
  cases hkey : childText "Key" (ListingNode.children el) with
  | none => exact .inl ⟨rfl, _, rfl⟩
  | some key =>
    cases hn : intOfText P.text (orElse (childText "Size" (ListingNode.children el)) "0") with
    | error e => exact .inr (.inl ⟨key, rfl, fun ⟨_, h⟩ => (nomatch h), e, rfl⟩)
    | ok n => exact .inr (.inr ⟨key, _, rfl, ⟨n, rfl⟩, rfl, rfl⟩)

theorem readPage_raises_iff {children : List ListingNode} :
    (∀ e, readPage P children = .error e → ∃ s, e = .store s) ↔ SizesRead P children := by
  induction children with
  | nil =>
    refine ⟨fun _ before el after heq => ?_, fun _ e h => (nomatch h)⟩
    cases before with
    | nil => cases heq
    | cons _ _ => cases heq
  | cons el rest ih =>
    rw [sizesRead_cons, ← ih, readPage]
    by_cases hc : isContents el = true
    · rw [if_pos hc]
      rcases objectInfo_cases (P := P) hc with
        ⟨hkey, e, he⟩ | ⟨key, hkey, hsize, e, he⟩ | ⟨key, info, hkey, hsize, -, he⟩
      · rw [he, hkey]
        refine ⟨fun _ => ⟨fun h => (nomatch h), fun h => nomatch h hc⟩, fun _ e' h' => ?_⟩
        cases h'
        exact ⟨e, rfl⟩
      · rw [he, hkey]
        refine ⟨fun h => ?_, fun h => absurd (h.1 rfl) hsize⟩
        obtain ⟨s, hs⟩ := h _ rfl
        cases hs
      · rw [he, hkey]
        simp only [bind, Except.bind]
        constructor
        · intro h
          refine ⟨fun _ => hsize, fun _ e' he' => ?_⟩
          rw [he'] at h
          exact h e' rfl
        · rintro ⟨-, hrest⟩ e' h'
          cases hr : readPage P rest with
          | error e₂ =>
            rw [hr] at h'
            cases h'
            exact hrest (fun _ => rfl) _ hr
          | ok page =>
            rw [hr] at h'
            cases h'
    · rw [if_neg hc]
      have hnone : contentsKey el = none := if_neg hc
      rw [hnone]
      exact ⟨fun h => ⟨fun h => (nomatch h), fun _ => h⟩, fun h => h.2 fun h' => absurd h' hc⟩

theorem readPage_ok {children : List ListingNode} : ∀ {page : List ObjectInfo},
    readPage P children = .ok page →
      page.map ObjectInfo.key = children.filterMap contentsKey ∧
      ∀ el ∈ children, isContents el = true → (contentsKey el).isSome ∧ SizeReads P el := by
  induction children with
  | nil =>
    intro page h
    cases h
    exact ⟨rfl, fun _ hel => nomatch hel⟩
  | cons el rest ih =>
    intro page h
    rw [readPage] at h
    by_cases hc : isContents el = true
    · rw [if_pos hc] at h
      rcases objectInfo_cases (P := P) hc with
        ⟨-, e, he⟩ | ⟨_, -, -, e, he⟩ | ⟨key, info, hkey, hsize, hinfo, he⟩
      · rw [he] at h
        cases h
      · rw [he] at h
        cases h
      · rw [he] at h
        obtain ⟨_, hinfo', h⟩ := bind_eq_ok.mp h
        cases hinfo'
        obtain ⟨tail, htail, h⟩ := bind_eq_ok.mp h
        cases h
        obtain ⟨hkeys, hall⟩ := ih htail
        refine ⟨?_, fun c hmem hcc => ?_⟩
        · rw [List.filterMap_cons_some hkey, List.map_cons, hinfo, hkeys]
        · rcases List.mem_cons.mp hmem with rfl | hmem
          · exact ⟨by rw [hkey]; rfl, hsize⟩
          · exact hall c hmem hcc
    · rw [if_neg hc] at h
      obtain ⟨hkeys, hall⟩ := ih h
      have hnone : contentsKey el = none := if_neg hc
      refine ⟨by rw [List.filterMap_cons_none hnone, hkeys], fun c hmem hcc => ?_⟩
      rcases List.mem_cons.mp hmem with rfl | hmem
      · exact absurd hcc hc
      · exact hall c hmem hcc

/-- The token is there exactly for a truncated page, and no other exception says so. -/
theorem nextToken_cases (children : List ListingNode) :
    (truncated P children = false ∧ nextToken P children = .ok none) ∨
    (truncated P children = true ∧ ((∃ e, nextToken P children = .error (.store e)) ∨
      ∃ token, nextToken P children = .ok (some token))) := by
  unfold nextToken
  cases ht : truncated P children with
  | false => exact .inl ⟨rfl, rfl⟩
  | true =>
    rw [if_pos rfl]
    refine .inr ⟨rfl, ?_⟩
    cases childText "NextContinuationToken" children with
    | none => exact .inl ⟨_, rfl⟩
    | some token =>
      by_cases h : token = ""
      · simp only [if_pos h]
        exact .inl ⟨_, rfl⟩
      · simp only [if_neg h]
        exact .inr ⟨token, rfl⟩

/-- A page that parses gives its keys, and no token when it is the last one. -/
theorem parseListing_ok {body : Bytes} {page : List ObjectInfo} {token : Option String}
    (h : parseListing P body = .ok (page, token)) :
    page.map ObjectInfo.key = pageKeys P body ∧ (token = none → LastPage P body) := by
  unfold parseListing at h
  unfold pageKeys LastPage
  cases hroot : P.fromstring body with
  | error message =>
    rw [hroot] at h
    cases h
  | ok found =>
    cases found with
    | none =>
      rw [hroot] at h
      cases h
    | some root =>
      rw [hroot] at h
      by_cases hname : localName root.tag = "ListBucketResult"
      · simp only [hname, ne_eq, not_true_eq_false, if_false] at h
        obtain ⟨page', hpage, h⟩ := bind_eq_ok.mp h
        obtain ⟨token', htoken, h⟩ := bind_eq_ok.mp h
        cases h
        obtain ⟨hkeys, hall⟩ := readPage_ok hpage
        refine ⟨hkeys, fun hnone => ⟨root, rfl, hname, hall, ?_⟩⟩
        subst hnone
        rcases nextToken_cases (P := P) root.children with ⟨ht, -⟩ | ⟨-, ⟨e, he⟩ | ⟨t, he⟩⟩
        · exact ht
        · rw [he] at htoken
          cases htoken
        · rw [he] at htoken
          cases htoken
      · simp only [hname, ne_eq, not_false_eq_true, if_true] at h
        cases h

/-- What reading a page raises is an `ObjectStoreError` exactly for a readable body. -/
theorem parseListing_raises_iff {body : Bytes} :
    (∀ e, parseListing P body = .error e → ∃ s, e = .store s) ↔ Readable P body := by
  unfold parseListing Readable
  cases hroot : P.fromstring body with
  | error message =>
    refine ⟨fun h => ?_, fun ⟨_, h, _⟩ => (nomatch h)⟩
    obtain ⟨s, hs⟩ := h _ rfl
    cases hs
  | ok found =>
    cases found with
    | none =>
      refine ⟨fun _ => ⟨none, rfl, fun _ h => (nomatch h)⟩, fun _ e h => ?_⟩
      cases h
      exact ⟨_, rfl⟩
    | some root =>
      by_cases hname : localName root.tag = "ListBucketResult"
      · simp only [hname, ne_eq, not_true_eq_false, if_false]
        constructor
        · intro h
          refine ⟨some root, rfl, fun r hr _ => ?_⟩
          cases hr
          refine readPage_raises_iff.mp fun e he => h e ?_
          rw [he]
          rfl
        · rintro ⟨_, hsome, hsizes⟩ e h
          cases hsome
          have hpage := readPage_raises_iff.mpr (hsizes root rfl hname)
          cases hp : readPage P root.children with
          | error e' =>
            rw [hp] at h
            cases h
            exact hpage _ hp
          | ok page =>
            rw [hp] at h
            rcases nextToken_cases (P := P) root.children with ⟨-, ht⟩ | ⟨-, ⟨s, ht⟩ | ⟨t, ht⟩⟩
            · rw [ht] at h
              cases h
            · rw [ht] at h
              cases h
              exact ⟨s, rfl⟩
            · rw [ht] at h
              cases h
      · simp only [hname, ne_eq, not_false_eq_true, if_true]
        refine ⟨fun _ => ⟨some root, rfl, fun r hr hn => ?_⟩, fun _ e h => ?_⟩
        · cases hr
          exact absurd hn hname
        · cases h
          exact ⟨_, rfl⟩

theorem asked_iff {exchanges : List Exchange} {body : Bytes} :
    Asked P cfg exchanges body ↔ ∃ r rest, answered cfg.attempts exchanges = some (r, rest) ∧
      r.status = 200 ∧ (body = r.content ∨ ∃ page token,
        parseListing P r.content = .ok (page, some token) ∧ Asked P cfg rest body) := by
  constructor
  · intro h
    cases h with
    | first ha h200 => exact ⟨_, _, ha, h200, .inl rfl⟩
    | next ha h200 hp hrest => exact ⟨_, _, ha, h200, .inr ⟨_, _, hp, hrest⟩⟩
  · rintro ⟨r, rest, ha, h200, rfl | ⟨page, token, hp, hrest⟩⟩
    · exact .first ha h200
    · exact .next ha h200 hp hrest

/-- The exchanges a page takes, and what they are read as. -/
theorem page_used {pageSize : Int} {root : String} {token next : Option String}
    {exchanges rest : List Exchange} {page : List ObjectInfo}
    (h : listPage P cfg pageSize root token exchanges = .returned (page, next) rest) :
    ∃ used body, exchanges = used ++ rest ∧ used.filterMap pageBody = [body] ∧
      page.map ObjectInfo.key = pageKeys P body ∧ (next = none → LastPage P body) := by
  obtain ⟨r, ha, h200, hp⟩ := listPage_returned P cfg h
  obtain ⟨failed, rfl, hfailed⟩ := answered_split ha
  obtain ⟨hkeys, hlast⟩ := parseListing_ok hp
  have hbody : pageBody (.answer r) = some r.content := if_pos h200
  refine ⟨failed ++ [.answer r], r.content, by simp, ?_, hkeys, hlast⟩
  rw [List.filterMap_append, hfailed, List.filterMap_cons_some hbody]
  rfl

/-- A listing that ends has yielded the keys of the pages it received, the last of them whole. -/
theorem listFrom_returned {pageSize : Int} {root : String} {token : Option String}
    {exchanges rest : List Exchange}
    (h : (listFrom P cfg pageSize root token exchanges).2 = .returned () rest) :
    ∃ used, exchanges = used ++ rest ∧
      (listFrom P cfg pageSize root token exchanges).1.map ObjectInfo.key =
        (used.filterMap pageBody).flatMap (pageKeys P) ∧
      ∃ last, (used.filterMap pageBody).getLast? = some last ∧ LastPage P last := by
  fun_induction listFrom P cfg pageSize root token exchanges with
  | case1 => cases h
  | case2 => cases h
  | case3 token exchanges page left hpage =>
    cases h
    obtain ⟨used, body, hused, hbodies, hkeys, hlast⟩ := page_used hpage
    refine ⟨used, hused, ?_, body, by rw [hbodies]; rfl, hlast rfl⟩
    rw [hbodies, hkeys, List.flatMap_cons, List.flatMap_nil, List.append_nil]
  | case4 token exchanges page next left hpage _ ih =>
    obtain ⟨used, body, rfl, hbodies, hkeys, -⟩ := page_used hpage
    obtain ⟨used', rfl, hkeys', last, hlast, hwhole⟩ := ih h
    refine ⟨used ++ used', (List.append_assoc ..).symm, ?_, last, ?_, hwhole⟩
    · rw [List.map_append, hkeys, hkeys', List.filterMap_append, hbodies, List.flatMap_append,
        List.flatMap_cons, List.flatMap_nil, List.append_nil]
    · rw [List.filterMap_append, List.getLast?_append, hlast]
      rfl

/-- A listing raises something of its own exactly when a body it asks for is not readable. -/
theorem listFrom_raises_iff (pageSize : Int) (root : String) (token : Option String)
    {exchanges : List Exchange} :
    (listFrom P cfg pageSize root token exchanges).2.StoreErrorsOnly ↔
      ∀ body, Asked P cfg exchanges body → Readable P body := by
  fun_induction listFrom P cfg pageSize root token exchanges with
  | case1 token exchanges hpage =>
    refine ⟨fun _ body hbody => ?_, fun _ => trivial⟩
    obtain ⟨r, rest, ha, h200, -⟩ := asked_iff.mp hbody
    rcases listPage_cases P cfg pageSize root token exchanges with
      ⟨hn, -⟩ | ⟨_, _, _, _, e, he⟩ | ⟨_, _, _, _, ⟨e, _, he⟩ | ⟨found, _, he⟩⟩
    · rw [hn] at ha
      cases ha
    · rw [he] at hpage
      cases hpage
    · rw [he] at hpage
      cases hpage
    · rw [he] at hpage
      cases hpage
  | case2 token exchanges e hpage =>
    rcases listPage_cases P cfg pageSize root token exchanges with
      ⟨hn, ⟨s, he⟩ | he⟩ | ⟨r, rest, ha, h200, s, he⟩ |
        ⟨r, rest, ha, h200, ⟨e', hp, he⟩ | ⟨found, _, he⟩⟩
    · rw [he] at hpage
      cases hpage
      refine ⟨fun _ body hbody => ?_, fun _ => ⟨s, rfl⟩⟩
      obtain ⟨r, rest, ha, -⟩ := asked_iff.mp hbody
      rw [hn] at ha
      cases ha
    · rw [he] at hpage
      cases hpage
    · rw [he] at hpage
      cases hpage
      refine ⟨fun _ body hbody => ?_, fun _ => ⟨s, rfl⟩⟩
      obtain ⟨r', rest', ha', h200', -⟩ := asked_iff.mp hbody
      rw [ha] at ha'
      cases ha'
      exact absurd h200' h200
    · rw [he] at hpage
      cases hpage
      have hread : (∃ s, e = .store s) ↔ Readable P r.content := by
        rw [← parseListing_raises_iff, hp]
        exact ⟨fun h _ he' => by cases he'; exact h, fun h => h e rfl⟩
      refine ⟨fun h body hbody => ?_, fun h => hread.mpr (h _ (.first ha h200))⟩
      obtain ⟨r', rest', ha', -, rfl | ⟨page, token, hp', -⟩⟩ := asked_iff.mp hbody
      · rw [ha] at ha'
        cases ha'
        exact hread.mp h
      · rw [ha] at ha'
        cases ha'
        rw [hp] at hp'
        cases hp'
    · rw [he] at hpage
      cases hpage
  | case3 token exchanges page left hpage =>
    refine ⟨fun _ body hbody => ?_, fun _ => trivial⟩
    obtain ⟨r, ha, -, hp⟩ := listPage_returned P cfg hpage
    obtain ⟨r', rest', ha', -, rfl | ⟨page', token', hp', -⟩⟩ := asked_iff.mp hbody
    · rw [ha] at ha'
      cases ha'
      refine parseListing_raises_iff.mp fun e he => ?_
      rw [hp] at he
      cases he
    · rw [ha] at ha'
      cases ha'
      rw [hp] at hp'
      cases hp'
  | case4 token exchanges page next left hpage _ ih =>
    obtain ⟨r, ha, h200, hp⟩ := listPage_returned P cfg hpage
    rw [ih]
    refine ⟨fun h body hbody => ?_, fun h body hbody => h body (.next ha h200 hp hbody)⟩
    obtain ⟨r', rest', ha', -, rfl | ⟨page', token', hp', hrest⟩⟩ := asked_iff.mp hbody
    · rw [ha] at ha'
      cases ha'
      refine parseListing_raises_iff.mp fun e he => ?_
      rw [hp] at he
      cases he
    · rw [ha] at ha'
      cases ha'
      exact h body hrest

theorem completeOrError_iff {pageSize : Int} {root : String} {exchanges : List Exchange} :
    CompleteOrError P exchanges (list P cfg pageSize root exchanges) ↔
      ∀ body, Asked P cfg exchanges body → Readable P body := by
  rw [← listFrom_raises_iff pageSize root none]
  unfold CompleteOrError list
  cases h : (listFrom P cfg pageSize root none exchanges).2 with
  | returned u rest => exact ⟨fun _ => trivial, fun _ => listFrom_returned h⟩
  | raised e => exact Iff.rfl
  | waiting => exact Iff.rfl

end Pages

/-! ## What leaves the verbs -/

/-- `_object_url` takes the key. -/
def GoodKey (key : String) : Prop := ¬ (key = "" ∨ key.toList.head? = some '/')

/-- The content length of the answer, where one is read, is an integer. -/
def LengthReads (key : String) (exchanges : List Exchange) : Prop :=
  GoodKey key → ∀ r rest, answered cfg.attempts exchanges = some (r, rest) → r.status = 200 →
    ∃ n, intOfText P.text ((r.header "content-length").getD "0") = .ok n

/-- The retention of an object written at `now` ends at a date there is. -/
def RetentionEnds (now : Instant) : Prop :=
  ∀ r, cfg.retention = some r → ∃ t, checkedInstant (now + r.days * day) = .ok t

section Verbs

variable {P cfg} {key : String} {exchanges : List Exchange} {now : Instant}

theorem onObject_iff {α : Type} {method : String} {read : HttpAnswer → Except StoreExc α} :
    (onObject P cfg method key read exchanges).StoreErrorsOnly ↔
      (GoodKey key → ∀ r rest, answered cfg.attempts exchanges = some (r, rest) →
        ∀ e, read r = .error e → ∃ s, e = .store s) := by
  unfold onObject objectUrl GoodKey
  by_cases hkey : key = "" ∨ key.toList.head? = some '/'
  · rw [if_pos hkey]
    exact ⟨fun _ h => absurd hkey h, fun _ => ⟨_, rfl⟩⟩
  · rw [if_neg hkey]
    exact request_andThen.trans ⟨fun h _ => h, fun h => h hkey⟩

theorem raiseUnless_store {r : HttpAnswer} {what : String} {α : Type}
    {next : Except StoreExc α} (hnext : r.status = 200 → ∀ e, next = .error e → ∃ s, e = .store s) :
    ∀ e, (do raiseUnless P cfg r what; next) = .error e → ∃ s, e = .store s := by
  intro e h
  unfold raiseUnless at h
  by_cases h200 : r.status = 200
  · rw [if_pos h200] at h
    exact hnext h200 e h
  · rw [if_neg h200] at h
    cases h
    exact ⟨_, rfl⟩

theorem get_store : (get P cfg key exchanges).StoreErrorsOnly := by
  refine onObject_iff.mpr fun _ r rest _ e h => ?_
  by_cases h404 : r.status = 404
  · rw [if_pos h404] at h
    cases h
  · rw [if_neg h404] at h
    refine raiseUnless_store (fun _ e h => ?_) e h
    cases h

theorem head_iff : (head P cfg key exchanges).StoreErrorsOnly ↔ LengthReads P cfg key exchanges := by
  refine onObject_iff.trans
    (forall_congr' fun _ => forall_congr' fun r => forall_congr' fun rest =>
      forall_congr' fun _ => ?_)
  constructor
  · intro h h200
    have h404 : ¬ r.status = 404 := by omega
    rw [if_neg h404, raiseUnless, if_pos h200, intOf] at h
    cases hn : intOfText P.text ((r.header "content-length").getD "0") with
    | ok n => exact ⟨n, rfl⟩
    | error e =>
      rw [hn] at h
      obtain ⟨s, hs⟩ := h _ rfl
      cases hs
  · intro hn e h
    by_cases h404 : r.status = 404
    · rw [if_pos h404] at h
      cases h
    · rw [if_neg h404] at h
      refine raiseUnless_store (fun h200 e h => ?_) e h
      obtain ⟨n, hn⟩ := hn h200
      rw [intOf, hn] at h
      cases h

variable (cfg now) in
theorem retention_cases :
    (RetentionEnds cfg now ∧ ∃ until_, retentionHeaders cfg now = .ok until_) ∨
    (¬ RetentionEnds cfg now ∧ ∃ e, retentionHeaders cfg now = .error (.py e)) := by
  unfold RetentionEnds retentionHeaders
  cases cfg.retention with
  | none => exact .inl ⟨fun _ h => (nomatch h), none, rfl⟩
  | some r =>
    cases ht : checkedInstant (now + r.days * day) with
    | ok t =>
      refine .inl ⟨fun r' hr => ?_, some (r.mode, t), by simp only [ht]⟩
      cases hr
      exact ⟨t, ht⟩
    | error e =>
      refine .inr ⟨fun h => ?_, e, by simp only [ht]⟩
      obtain ⟨t, ht'⟩ := h r rfl
      rw [ht] at ht'
      cases ht'

theorem put_iff : (put P cfg now key exchanges).StoreErrorsOnly ↔ RetentionEnds cfg now := by
  unfold put
  rcases retention_cases cfg now with ⟨hends, _, h⟩ | ⟨hends, e, h⟩
  · rw [h]
    exact ⟨fun _ => hends, fun _ => onObject_iff.mpr fun _ _ _ _ =>
      raiseUnless_store fun _ _ h => (nomatch h)⟩
  · rw [h]
    exact ⟨fun ⟨_, hs⟩ => (nomatch hs), fun h => absurd h hends⟩

theorem putNew_iff : (putNew P cfg now key exchanges).StoreErrorsOnly ↔ RetentionEnds cfg now := by
  unfold putNew
  rcases retention_cases cfg now with ⟨hends, _, h⟩ | ⟨hends, e, h⟩
  · rw [h]
    refine ⟨fun _ => hends, fun _ => onObject_iff.mpr fun _ r rest _ e he => ?_⟩
    by_cases h412 : r.status = 412
    · rw [if_pos h412] at he
      cases he
    · rw [if_neg h412] at he
      refine raiseUnless_store (fun _ e h => ?_) e he
      cases h
  · rw [h]
    exact ⟨fun ⟨_, hs⟩ => (nomatch hs), fun h => absurd h hends⟩

end Verbs

/-- For every sequence of answers and transport failures: a listing is complete or an
`ObjectStoreError` exactly when the bodies it asks for are readable, and `head`, `put` and
`put_new` let nothing else escape exactly when the length they read is a number and the date they
compute exists; `get` never does. -/
theorem listing_complete_or_error_iff (pageSize : Int) (root key : String) (now : Instant)
    (exchanges : List Exchange) :
    (CompleteOrError P exchanges (list P cfg pageSize root exchanges) ↔
      ∀ body, Asked P cfg exchanges body → Readable P body) ∧
    ((head P cfg key exchanges).StoreErrorsOnly ↔ LengthReads P cfg key exchanges) ∧
    ((put P cfg now key exchanges).StoreErrorsOnly ↔ RetentionEnds cfg now) ∧
    ((putNew P cfg now key exchanges).StoreErrorsOnly ↔ RetentionEnds cfg now) ∧
    (get P cfg key exchanges).StoreErrorsOnly :=
  ⟨completeOrError_iff, head_iff, put_iff, putNew_iff, get_store⟩

/-- The parser on a document without a byte. -/
def emptyDocument : StorePrims where
  text := Ascii.text
  lower := String.toLower
  fromstring body :=
    if body = [] then .error "Document is empty, line 1, column 1" else .ok none

def localStore : ObjectStoreConfig := ⟨"https://minio.local", "bronze", none, 4⟩

/-- A gateway that answers a listing with 200 and no body: the parser's own exception escapes. -/
theorem empty_listing_escapes :
    ¬ ∀ (P : StorePrims) (cfg : ObjectStoreConfig) (pageSize : Int) (root : String)
      (exchanges : List Exchange),
      CompleteOrError P exchanges (list P cfg pageSize root exchanges) := by
  intro h
  have hasked : Asked emptyDocument localStore [.answer ⟨200, fun _ => none, []⟩] [] :=
    .first (r := ⟨200, fun _ => none, []⟩) rfl rfl
  obtain ⟨root, hroot, -⟩ := completeOrError_iff.mp (h emptyDocument localStore 1000 "captures/"
    [.answer ⟨200, fun _ => none, []⟩]) [] hasked
  cases hroot

end StoreClient

end EnergyPlatform
