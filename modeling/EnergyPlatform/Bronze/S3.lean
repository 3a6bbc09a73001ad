import EnergyPlatform.Bronze.Bronze
import EnergyPlatform.Fetch.ObjectStore

/-!
# Bronze.S3

Bronze on an S3-compatible bucket: the blob store and the capture log as programs of requests.

`Bucket.serve` is the store's side, with an atomic conditional `PUT`. `Network.send` is one request
of the client under the faults of its tries, with other writers acting between requests.
-/

namespace EnergyPlatform

open Lib (Dict Prog)

/-- The objects of the hot bucket: blobs under their hash, entries under their own key. -/
structure Bucket where
  blobs : BlobStore
  entries : Dict CaptureId CaptureEntry
  filed : ∀ {k e}, entries.get? k = some e → e.key = k

inductive Request where
  | head (sha : Sha256)
  | put (sha : Sha256) (data : Bytes)
  /-- `PUT` with `If-None-Match: *`. -/
  | putNew (entry : CaptureEntry)
  | get (key : CaptureId)
  /-- One page of the keys under `captures/<target>/…/<stamp>_`. -/
  | list (targetId : String) (stamp : Int) (token : Nat)
deriving DecidableEq

/-- What a 200 carries. -/
def Request.Content : Request → Type
  | head _ | put .. | putNew _ => Unit
  | get _ => CaptureEntry
  | list .. => List CaptureId × Option Nat

abbrev Request.Ans (rq : Request) : Type := Reply rq.Content

namespace Bucket

def empty : Bucket := ⟨.empty, .empty, fun h => by cases h⟩

def pageSize : Nat := 1000

/-- The entries whose keys carry the stamp. -/
def ofStamp (b : Bucket) (targetId : String) (stamp : Int) : List CaptureEntry :=
  b.entries.values.filter fun e => e.key.target = targetId ∧ e.key.stamp = stamp

/-- The next page of a listing and the token of the one after it, when keys remain. -/
def page (keys : List CaptureId) (token : Nat) : List CaptureId × Option Nat :=
  ((keys.drop token).take pageSize,
    if token + pageSize < keys.length then some (token + pageSize) else none)

def add (b : Bucket) (e : CaptureEntry) : Bucket where
  blobs := b.blobs
  entries := b.entries.set e.key e
  filed {k e'} h := by
    rw [Dict.get?_set] at h
    split at h
    · rename_i hk
      rw [← Option.some.inj h, hk]
    · exact b.filed h

def serve (b : Bucket) : (rq : Request) → rq.Ans × Bucket
  | .head sha => (if b.blobs.contains sha then .ok () else .notFound, b)
  | .put sha data => (.ok (), { b with blobs := b.blobs.set sha data })
  | .putNew e =>
    if b.entries.contains e.key then (.preconditionFailed, b) else (.ok (), b.add e)
  | .get key =>
    match b.entries.get? key with
    | some e => (.ok e, b)
    | none => (.notFound, b)
  | .list targetId stamp token => (.ok (page ((b.ofStamp targetId stamp).map (·.key)) token), b)

end Bucket

/-- What happens to each try of each request, and what other writers do before a request. -/
structure Network where
  /-- Attempts of the retry policy. -/
  attempts : Nat
  fault : Nat → Nat → RequestFault
  others : Nat → Bucket → Bucket

/-- The bucket and the number of requests made so far. -/
structure Wire where
  bucket : Bucket
  sent : Nat

def Network.tries (net : Network) (i : Nat) : List RequestFault :=
  (List.range net.attempts).map (net.fault i)

def Network.send (net : Network) (w : Wire) (rq : Request) :
    Except ObjectStoreError rq.Ans × Wire :=
  let (r, b) := ObjectStore.request Bucket.serve (net.tries w.sent) rq (net.others w.sent w.bucket)
  (r, ⟨b, w.sent + 1⟩)

namespace S3

/-- A program of the object-store client. -/
abbrev Client (α : Type) := Prog Request.Ans ObjectStoreError α

def send (rq : Request) : Client rq.Ans := Prog.perform rq

/-- `_raise_unless(response, {200}, what)`. -/
def orRaise {α : Type} (what : String) : Reply α → Client α
  | .ok content => .ret content
  | .notFound => .raise ⟨"NoSuchKey", "HTTP 404 for " ++ what⟩
  | .preconditionFailed => .raise ⟨"PreconditionFailed", "HTTP 412 for " ++ what⟩

/-- `ObjectStore.get`, of an entry. -/
def get (key : CaptureId) : Client (Option CaptureEntry) := do
  match ← send (.get key) with
  | .notFound => .ret none
  | reply => do
    let e ← orRaise key.text reply
    .ret (some e)

/-- `ObjectStore.head`: whether the blob is there. -/
def head (sha : Sha256) : Client Bool := do
  match ← send (.head sha) with
  | .notFound => .ret false
  | reply => do
    orRaise (BlobRef.text ⟨sha⟩) reply
    .ret true

/-- `ObjectStore.put_new`: `false` when the object already existed. -/
def putNew (e : CaptureEntry) : Client Bool := do
  match ← send (.putNew e) with
  | .preconditionFailed => .ret false
  | reply => do
    orRaise e.key.text reply
    .ret true

/-- The entries of a page that can still be read. -/
def readAll : List CaptureId → Client (List CaptureEntry)
  | [] => .ret []
  | key :: rest => do
    let found ← get key
    let others ← readAll rest
    .ret (found.toList ++ others)

/-- The pages from `token` on, at most `pages` of them, each one read before the next is asked. -/
def readPages (targetId : String) (stamp : Int) : Nat → Nat → Client (List CaptureEntry)
  | 0, _ => .raise ⟨"bad_listing", "the listing does not end"⟩
  | pages + 1, token => do
    let reply ← send (.list targetId stamp token)
    let (keys, next) ← orRaise targetId reply
    let found ← readAll keys
    match next with
    | none => .ret found
    | some token => do
      let others ← readPages targetId stamp pages token
      .ret (found ++ others)

/-- `S3CaptureLog.entries_for`; `pages` bounds the listing. -/
def entriesFor (pages : Nat) (targetId : String) (scheduledFor : Instant) :
    Client (List CaptureEntry) := do
  let found ← readPages targetId (scheduledFor / second) pages 0
  .ret (CaptureLog.ordered found)

/-- `S3BlobStore.put`. -/
def putBlob (sha256 : Bytes → Sha256) (data : Bytes) : Client Sha256 := do
  let sha := sha256 data
  if ← head sha then .ret sha
  else do
    let reply ← send (.put sha data)
    orRaise (BlobRef.text ⟨sha⟩) reply
    .ret sha

/-- `S3CaptureLog.put_new`: the conditional `PUT`, then a read-back of the key. -/
def putNewEntry (e : CaptureEntry) : Client Bool := do
  if ← putNew e then
    let stored ← get e.key
    .ret (stored.any fun s => s.captureId = e.captureId ∧ s.payloadSha256 = e.payloadSha256 ∧
      s.fetchedAt = e.fetchedAt)
  else .ret false

variable {L : Type} {LRet : L → Type}

def raised {α : Type} : Except ObjectStoreError α × Wire → Except Exn α × Wire
  | (.ok a, w) => (.ok a, w)
  | (.error e, w) => (.error (.py (.other e.text)), w)

/-- The calls a capture makes on Bronze, over the bucket. A listing has no more pages than the
bucket has entries, and one. -/
def answer (sha256 : Bytes → Sha256) (net : Network) (w : Wire) :
    (o : Op L) → Except Exn (o.Ret LRet) × Wire
  | .bronze (.entriesFor targetId at_) =>
    raised ((entriesFor (w.bucket.entries.values.length + 1) targetId at_).run net.send w)
  | .bronze (.putBlob data) => raised ((putBlob sha256 data).run net.send w)
  | .bronze (.putNew e) => raised ((putNewEntry e).run net.send w)
  | _ => (.error (.bronzeError "not a call of a capture"), w)

end S3

end EnergyPlatform
