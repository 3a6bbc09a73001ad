import EnergyPlatform.Contracts.Invalidation
import EnergyPlatform.Contracts.Parser
import EnergyPlatform.Lib.Dict

/-!
# Bronze.CaptureLog

The capture log, the blob store, and the reads and writes that are one atomic step each.

An entry is created, never overwritten; a blob is written once. The key of an entry
(`captures/<target>/…/<stamp>_<attempt>.json`) is determined by the same three parts as its capture
id and is kept as them. `raw_ref` is the object key of a blob, kept as the hash it ends in.
-/

namespace EnergyPlatform

open Lib (Dict)

/-- `bronze/blobs/<sha[:2]>/<sha>`. -/
structure BlobRef where
  sha256 : Sha256
deriving DecidableEq

def BlobRef.text (r : BlobRef) : String :=
  let sha := hexText 64 r.sha256.val
  "bronze/blobs/" ++ String.ofList (sha.toList.take 2) ++ "/" ++ sha

inductive Tier where
  | hot
  | cold
deriving DecidableEq, Repr

structure CaptureEntry where
  captureId : CaptureId
  targetId : String
  scheduledFor : Instant
  attempt : Nat
  fetchedAt : Instant
  sourceUrl : String
  httpStatus : Nat
  contentType : Option String
  payloadSha256 : Sha256
  rawRef : BlobRef
  size : Nat
  contentChanged : Bool
  sourceTransport : Transport
  sourcePublishedAt : Option Instant
  tier : Tier
  etag : Option String
  lastModified : Option String
  hops : List String
deriving DecidableEq

/-- `entry_key`. -/
def CaptureEntry.key (e : CaptureEntry) : CaptureId :=
  EnergyPlatform.captureId e.targetId e.scheduledFor e.attempt

structure CaptureLog where
  entries : Dict CaptureId CaptureEntry
  invalidationTable : Dict String Invalidation

namespace CaptureLog

def empty : CaptureLog := ⟨.empty, .empty⟩

/-- The order of `(scheduled_for, attempt)`. -/
def before (a b : CaptureEntry) : Prop :=
  a.scheduledFor < b.scheduledFor ∨ a.scheduledFor = b.scheduledFor ∧ a.attempt ≤ b.attempt

instance : DecidableRel before := fun a b =>
  inferInstanceAs (Decidable (a.scheduledFor < b.scheduledFor ∨
    a.scheduledFor = b.scheduledFor ∧ a.attempt ≤ b.attempt))

def ordered (l : List CaptureEntry) : List CaptureEntry := l.insertionSort before

/-- Create only: `false` when another writer got there first. -/
def putNew (l : CaptureLog) (e : CaptureEntry) : Bool × CaptureLog :=
  if l.entries.contains e.key then (false, l)
  else (true, { l with entries := l.entries.set e.key e })

def get (l : CaptureLog) (c : CaptureId) : Option CaptureEntry :=
  l.entries.values.find? fun e => e.captureId = c

def entriesFor (l : CaptureLog) (targetId : String) (scheduledFor : Instant) : List CaptureEntry :=
  ordered (l.entries.values.filter fun e => e.targetId = targetId ∧ e.scheduledFor = scheduledFor)

/-- Entries with `since <= scheduled_for < until`. -/
def list (l : CaptureLog) (targetId : String) (since until_ : Option Instant) : List CaptureEntry :=
  ordered (l.entries.values.filter fun e => e.targetId = targetId ∧
    (∀ t ∈ since, t ≤ e.scheduledFor) ∧ ∀ t ∈ until_, e.scheduledFor < t)

/-- Create only: `false` when the decision exists. -/
def putInvalidation (l : CaptureLog) (inv : Invalidation) : Bool × CaptureLog :=
  if l.invalidationTable.contains inv.key then (false, l)
  else (true, { l with invalidationTable := l.invalidationTable.set inv.key inv })

/-- The decisions of a target, in the order of their keys. -/
def invalidations (l : CaptureLog) (targetId : String) : List Invalidation :=
  (l.invalidationTable.values.filter fun i => i.targetId = targetId).insertionSort
    fun a b => a.key ≤ b.key

end CaptureLog

/-! ## Blobs -/

abbrev BlobStore := Dict Sha256 Bytes

/-- The two tiers of blobs and the log. -/
structure Bronze where
  hot : BlobStore
  cold : Option BlobStore
  log : CaptureLog

inductive BronzeCall where
  | putBlob (data : Bytes)
  | getHot (sha : Sha256)
  | getCold (sha : Sha256)
  | entriesFor (targetId : String) (scheduledFor : Instant)
  | list (targetId : String) (since until_ : Option Instant)
  | get (captureId : CaptureId)
  | putNew (entry : CaptureEntry)
  | putInvalidation (inv : Invalidation)
  | invalidations (targetId : String)

def BronzeCall.Ret : BronzeCall → Type
  | putBlob _ => Sha256
  | getHot _ | getCold _ => Option Bytes
  | entriesFor .. | list .. => List CaptureEntry
  | get _ => Option CaptureEntry
  | putNew _ | putInvalidation _ => Bool
  | invalidations _ => List Invalidation

namespace Bronze

variable (sha256 : Bytes → Sha256)

/-- A blob that is there is not written again. -/
def putBlob (b : Bronze) (data : Bytes) : Sha256 × Bronze :=
  (sha256 data, { b with hot := b.hot.setDefault (sha256 data) data })

def exec (b : Bronze) : (c : BronzeCall) → c.Ret × Bronze
  | .putBlob data => b.putBlob sha256 data
  | .getHot sha => (b.hot.get? sha, b)
  | .getCold sha => (b.cold.bind fun cold => cold.get? sha, b)
  | .entriesFor targetId at_ => (b.log.entriesFor targetId at_, b)
  | .list targetId since until_ => (b.log.list targetId since until_, b)
  | .get c => (b.log.get c, b)
  | .putNew e => ((b.log.putNew e).1, { b with log := (b.log.putNew e).2 })
  | .putInvalidation inv =>
    ((b.log.putInvalidation inv).1, { b with log := (b.log.putInvalidation inv).2 })
  | .invalidations targetId => (b.log.invalidations targetId, b)

end Bronze

end EnergyPlatform
