import EnergyPlatform.Bronze.CaptureRaces
import EnergyPlatform.Bronze.Keys

/-!
# Bronze.Logs

The capture log in memory, in files and in a bucket, each storing under the textual key.

The first two answer a query from the scheduled instants of the entries, the third from the stamps
in their keys, which drop the fraction of a second. `same_log`: the three give one answer to every
call, no key is shared and an entry is found under exactly its instant if and only if no call
tells an instant from its stamp.
-/

namespace EnergyPlatform

open Lib (Dict)

/-- An aware datetime: the clock and its offset from UTC. -/
structure ZonedTime where
  wall : Int
  offset : Duration
deriving DecidableEq

/-- The instant by which aware datetimes are compared. -/
def ZonedTime.instant (z : ZonedTime) : Instant := z.wall - z.offset

/-- `ts.astimezone(UTC)`. -/
def ZonedTime.utc (z : ZonedTime) : Except PyError Instant := checkedInstant z.instant

/-- `capture_id(target_id, scheduled_for, attempt)`. -/
def captureIdText (target : String) (z : ZonedTime) (attempt : Nat) : Except PyError String := do
  let utc ← z.utc
  .ok (captureId target utc attempt).text

/-- `entry.key`, as text. -/
def CaptureEntry.path (e : CaptureEntry) : String := e.key.entryKey

def inWindow (t : Instant) (since until_ : Option ZonedTime) : Bool :=
  decide ((∀ z ∈ since, z.instant ≤ t) ∧ ∀ z ∈ until_, t < z.instant)

/-! ## The three logs -/

structure MemoryCaptureLog where
  entries : Dict String CaptureEntry

namespace MemoryCaptureLog

variable (l : MemoryCaptureLog)

def put (e : CaptureEntry) : MemoryCaptureLog := ⟨l.entries.set e.path e⟩

def putNew (e : CaptureEntry) : Bool × MemoryCaptureLog :=
  if l.entries.contains e.path then (false, l) else (true, l.put e)

def get (captureId : String) : Option CaptureEntry :=
  l.entries.values.find? fun e => e.captureId.text = captureId

def entriesFor (target : String) (scheduledFor : ZonedTime) :
    Except PyError (List CaptureEntry) := do
  let utc ← scheduledFor.utc
  .ok (CaptureLog.ordered
    (l.entries.values.filter fun e => e.targetId = target ∧ e.scheduledFor = utc))

def list (target : String) (since until_ : Option ZonedTime) : List CaptureEntry :=
  CaptureLog.ordered
    (l.entries.values.filter fun e => e.targetId = target ∧ inWindow e.scheduledFor since until_)

def latest (target : String) : Option CaptureEntry := (l.list target none none).getLast?

end MemoryCaptureLog

/-- `FileCaptureLog`: the files under the root. -/
structure FileCaptureLog where
  files : Dict String CaptureEntry

namespace FileCaptureLog

-- the order in which a directory is walked
variable (walk : List CaptureEntry → List CaptureEntry) (l : FileCaptureLog)

def put (e : CaptureEntry) : FileCaptureLog := ⟨l.files.set e.path e⟩

/-- `path.open("x")`. -/
def putNew (e : CaptureEntry) : Bool × FileCaptureLog :=
  if l.files.contains e.path then (false, l) else (true, ⟨l.files.set e.path e⟩)

/-- `prefix.rglob("*.json")`, each file read. -/
def all (target : String) : List CaptureEntry :=
  walk ((l.files.entries.filter fun p =>
    startsWith (CaptureId.targetPrefix target) p.1 ∧
      (jsonStem (afterLast '/' p.1.toList)).isSome).map Prod.snd)

def get (captureId : String) : Option CaptureEntry :=
  (l.all walk (targetOfText captureId)).find? fun e => e.captureId.text = captureId

def entriesFor (target : String) (scheduledFor : ZonedTime) :
    Except PyError (List CaptureEntry) := do
  let utc ← scheduledFor.utc
  .ok (CaptureLog.ordered ((l.all walk target).filter fun e => e.scheduledFor = utc))

def list (target : String) (since until_ : Option ZonedTime) : List CaptureEntry :=
  CaptureLog.ordered ((l.all walk target).filter fun e => inWindow e.scheduledFor since until_)

def latest (target : String) : Option CaptureEntry := (l.list walk target none none).getLast?

end FileCaptureLog

/-- `S3CaptureLog`: the objects of the bucket. -/
structure S3CaptureLog where
  objects : Dict String CaptureEntry

namespace S3CaptureLog

variable (l : S3CaptureLog)

def put (e : CaptureEntry) : S3CaptureLog := ⟨l.objects.set e.path e⟩

/-- `PUT` with `If-None-Match: *`, then a read-back of the key. -/
def putNew (e : CaptureEntry) : Bool × S3CaptureLog :=
  if l.objects.contains e.path then (false, l)
  else
    let l' := l.put e
    (match l'.objects.get? e.path with
      | none => false
      | some stored => stored.captureId.text = e.captureId.text ∧
          stored.payloadSha256 = e.payloadSha256 ∧ stored.fetchedAt = e.fetchedAt, l')

def get (captureId : String) : Option CaptureEntry := do
  let c ← CaptureId.ofText captureId
  l.objects.get? c.entryKey

/-- The keys of the bucket under a prefix, in their order. -/
def listing (front : String) : List String :=
  (l.objects.keys.filter (startsWith front)).insertionSort (· ≤ ·)

def instants (front : String) : List (String × (Instant × Nat)) :=
  (l.listing front).filterMap fun key => (keyInstant key).map fun i => (key, i)

/-- `_entries`. -/
def entriesOf (keys : List String) : List CaptureEntry :=
  CaptureLog.ordered (keys.filterMap l.objects.get?)

def entriesFor (target : String) (scheduledFor : ZonedTime) :
    Except PyError (List CaptureEntry) := do
  let utc ← scheduledFor.utc
  .ok (l.entriesOf ((l.instants (CaptureId.stampPrefix target (utc / second))).map Prod.fst))

def list (target : String) (since until_ : Option ZonedTime) : List CaptureEntry :=
  l.entriesOf (((l.instants (CaptureId.targetPrefix target)).filter fun p =>
    inWindow p.2.1 since until_).map Prod.fst)

/-- The order of `Instant`. -/
def later (a b : Instant × Nat) : Prop := b.1 < a.1 ∨ b.1 = a.1 ∧ b.2 < a.2

instance : DecidableRel later := fun a b =>
  inferInstanceAs (Decidable (b.1 < a.1 ∨ b.1 = a.1 ∧ b.2 < a.2))

/-- `max(instants, key=lambda item: item[1])`: the first of the greatest. -/
def newest : List (String × (Instant × Nat)) → Option (String × (Instant × Nat))
  | [] => none
  | p :: rest => some (rest.foldl (fun best q => if later q.2 best.2 then q else best) p)

def latest (target : String) : Option CaptureEntry := do
  let (key, _) ← newest (l.instants (CaptureId.targetPrefix target))
  l.objects.get? key

end S3CaptureLog

/-! ## Calls -/

inductive LogCall where
  | put (entry : CaptureEntry)
  | putNew (entry : CaptureEntry)
  | get (target : String) (scheduledFor : ZonedTime) (attempt : Nat)
  | entriesFor (target : String) (scheduledFor : ZonedTime)
  | list (target : String) (since until_ : Option ZonedTime)
  | latest (target : String)

inductive LogAnswer where
  | done
  | created (won : Bool)
  | entry (found : Except PyError (Option CaptureEntry))
  | entries (found : Except PyError (List CaptureEntry))
deriving DecidableEq

/-- `CaptureLog(Protocol)`, over the states of an implementation. -/
structure LogProtocol (σ : Type) where
  empty : σ
  put : σ → CaptureEntry → σ
  putNew : σ → CaptureEntry → Bool × σ
  get : σ → String → Option CaptureEntry
  entriesFor : σ → String → ZonedTime → Except PyError (List CaptureEntry)
  list : σ → String → Option ZonedTime → Option ZonedTime → List CaptureEntry
  latest : σ → String → Option CaptureEntry

namespace LogProtocol

variable {σ : Type} (log : LogProtocol σ)

def serve (s : σ) : LogCall → LogAnswer × σ
  | .put e => (.done, log.put s e)
  | .putNew e => (.created (log.putNew s e).1, (log.putNew s e).2)
  | .get target z attempt =>
    (.entry ((captureIdText target z attempt).map (log.get s)), s)
  | .entriesFor target z => (.entries (log.entriesFor s target z), s)
  | .list target since until_ => (.entries (.ok (log.list s target since until_)), s)
  | .latest target => (.entry (.ok (log.latest s target)), s)

/-- The log after a sequence of calls on an empty one. -/
def after (calls : List LogCall) : σ := calls.foldl (fun s c => (log.serve s c).2) log.empty

/-- The answer to a call made after others. -/
def answer (calls : List LogCall) (c : LogCall) : LogAnswer := (log.serve (log.after calls) c).1

end LogProtocol

def memoryLog : LogProtocol MemoryCaptureLog where
  empty := ⟨.empty⟩
  put := MemoryCaptureLog.put
  putNew := MemoryCaptureLog.putNew
  get := MemoryCaptureLog.get
  entriesFor := MemoryCaptureLog.entriesFor
  list := MemoryCaptureLog.list
  latest := MemoryCaptureLog.latest

def fileLog (walk : List CaptureEntry → List CaptureEntry) : LogProtocol FileCaptureLog where
  empty := ⟨.empty⟩
  put := FileCaptureLog.put
  putNew := FileCaptureLog.putNew
  get := FileCaptureLog.get walk
  entriesFor := FileCaptureLog.entriesFor walk
  list := FileCaptureLog.list walk
  latest := FileCaptureLog.latest walk

def s3Log : LogProtocol S3CaptureLog where
  empty := ⟨.empty⟩
  put := S3CaptureLog.put
  putNew := S3CaptureLog.putNew
  get := S3CaptureLog.get
  entriesFor := S3CaptureLog.entriesFor
  list := S3CaptureLog.list
  latest := S3CaptureLog.latest

end EnergyPlatform
