import EnergyPlatform.Runtime.Calls

/-!
# Bronze.Bronze

The Bronze facade: capture (blob, then entry) and read (hot, then cold).
-/

namespace EnergyPlatform

namespace Bronze

variable {L : Type} {LRet : L → Type}

/-- Retries of the attempt number when another writer created the same entry key. -/
def maxEntryCollisions : Nat := 5

structure CaptureOutcome where
  entry : CaptureEntry
  /-- `false` when an entry of the run already existed. -/
  created : Bool

/-- The capture a new one is compared with: by default the previous attempt of the same run. -/
inductive Baseline where
  | sameRun
  | given (e : Option CaptureEntry)

/-- What one fetch is recorded under. -/
structure CaptureArgs where
  targetId : String
  scheduledFor : Instant
  result : FetchResult
  transport : Transport
  force : Bool
  baseline : Baseline

/-- Hash, object key and size of a stored payload. -/
abbrev StoredBlob := Sha256 × BlobRef × Nat

def nextAttempt (existing : List CaptureEntry) : Nat :=
  (existing.map CaptureEntry.attempt).foldl max 0 + 1

def previousOf (baseline : Baseline) (existing : List CaptureEntry) : Option CaptureEntry :=
  match baseline with
  | .sameRun => existing.getLast?
  | .given e => e

/-- The payload a 304 points at, or the fetched one, stored once. -/
def storePayload (a : CaptureArgs) (previous : Option CaptureEntry) (blob : Option StoredBlob) :
    Verb LRet (StoredBlob × Option StoredBlob) :=
  if a.result.notModified then
    match previous with
    | none => .raise (.bronzeError "304 Not Modified without a previous capture to point at")
    | some p =>
      if p.sourceUrl ≠ a.result.url then
        .raise (.bronzeError ("304 Not Modified for a different resource than the baseline (" ++
          a.result.url ++ " vs " ++ p.sourceUrl ++ "): refusing to attach its payload"))
      else .ret ((p.payloadSha256, p.rawRef, p.size), blob)
  else
    match blob with
    | some b => .ret (b, blob)
    | none => do
      let sha ← EnergyPlatform.putBlob a.result.body
      let b : StoredBlob := (sha, ⟨sha⟩, a.result.body.length)
      .ret (b, some b)

/-- The entry of one attempt. -/
def entryOf (a : CaptureArgs) (previous : Option CaptureEntry) (attempt : Nat) (b : StoredBlob) :
    CaptureEntry where
  captureId := captureId a.targetId a.scheduledFor attempt
  targetId := a.targetId
  scheduledFor := a.scheduledFor
  attempt := attempt
  fetchedAt := a.result.fetchedAt
  sourceUrl := a.result.url
  httpStatus := a.result.status
  contentType := a.result.contentType
  payloadSha256 := b.1
  rawRef := b.2.1
  size := b.2.2
  contentChanged := previous.all fun p => p.payloadSha256 ≠ b.1
  sourceTransport := a.transport
  sourcePublishedAt := none
  tier := .hot
  etag := if a.result.notModified then previous.bind CaptureEntry.etag else a.result.etag
  lastModified :=
    if a.result.notModified then previous.bind CaptureEntry.lastModified else a.result.lastModified
  hops := a.result.hops

/-- The attempts left, the blob stored so far, and whether an attempt collided. -/
def captureLoop (a : CaptureArgs) : Nat → Option StoredBlob → Bool → Verb LRet CaptureOutcome
  | 0, _, _ =>
    .raise (.bronzeError (a.targetId ++ " " ++ minuteText a.scheduledFor ++
      ": capture-log entry collided " ++ toString maxEntryCollisions ++
      " times; another writer keeps taking the next attempt"))
  | n + 1, blob, collided => do
    let existing ← entriesFor a.targetId a.scheduledFor
    match if a.force ∨ collided then none else existing.getLast? with
    | some last => .ret ⟨last, false⟩
    | none =>
      let previous := previousOf a.baseline existing
      let (stored, blob) ← storePayload a previous blob
      let entry := entryOf a previous (nextAttempt existing) stored
      let created ← putNew entry
      if created then .ret ⟨entry, true⟩ else captureLoop a n blob true

/-- Persist one fetch result; idempotent per run unless forced. -/
def capture (a : CaptureArgs) : Verb LRet CaptureOutcome := captureLoop a maxEntryCollisions none false

structure Object where
  payload : Bytes
  tier : Tier

def verified (sha256 : Bytes → Sha256) (ref : BlobRef) (data : Bytes) (tier : Tier) :
    Verb LRet Object :=
  if sha256 data ≠ ref.sha256 then
    .raise (.bronzeError (ref.text ++ ": content does not match its address"))
  else .ret ⟨data, tier⟩

/-- Hot first, then cold; the content address is verified on the way out. -/
def read (sha256 : Bytes → Sha256) (ref : BlobRef) : Verb LRet Object := do
  match ← getHot ref.sha256 with
  | some data => verified sha256 ref data .hot
  | none =>
    match ← getCold ref.sha256 with
    | some data => verified sha256 ref data .cold
    | none => .raise (.bronzeError (ref.text ++ ": blob missing from hot and cold stores"))

end Bronze

end EnergyPlatform
