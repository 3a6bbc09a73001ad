import EnergyPlatform.Lib.Dict
import EnergyPlatform.Store.Ordering

/-!
# Store.Memory

The in-memory `Store`: runs with leases and fences, attempts, derivations, version rows with one
occurrence per capture, invalidations and quality events.

A read of an id that no table holds is the `KeyError` of the source and reads `none`; such a call
changes nothing that a later call can observe.
-/

namespace EnergyPlatform

open Lib (Dict)

/-- The last id handed out in each table. -/
structure Seq where
  runs : Nat
  attempts : Nat
  rows : Nat
  events : Nat
deriving DecidableEq

/-- Per `fetched_at`: the ordering instant of that occurrence and the attempt that recorded it. -/
abbrev Occurrences := Dict Instant (Instant × Nat)

structure MemoryStore where
  runTable : Dict Nat Run
  attemptTable : Dict Nat RunAttempt
  derivationTable : Dict DerivationId Derivation
  rowTable : Dict Nat StoredObservation
  occurrenceTable : Dict Nat Occurrences
  invalidationTable : Dict (String × CaptureId × Option DerivationId) Invalidation
  eventTable : Dict Nat StoredEvent
  seq : Seq

/-- What `commit` is given besides the claim and the clock. -/
structure Commit where
  state : RunState
  outcome : AttemptOutcome
  error : Option String
  derivation : Option Derivation
  observations : List EnergyObservation
  events : List QualityEvent

namespace MemoryStore

def init : MemoryStore :=
  ⟨.empty, .empty, .empty, .empty, .empty, .empty, .empty, ⟨0, 0, 0, 0⟩⟩

/-! ## Runs -/

def find (s : MemoryStore) (targetId : String) (scheduledFor : Instant) : Option Run :=
  s.runTable.values.find? fun r => r.targetId = targetId ∧ r.scheduledFor = scheduledFor

def putRun (s : MemoryStore) (r : Run) : MemoryStore := { s with runTable := s.runTable.set r.id r }

def putAttempt (s : MemoryStore) (a : RunAttempt) : MemoryStore :=
  { s with attemptTable := s.attemptTable.set a.id a }

def final (state : RunState) : Bool := state = .processed

def ensureRun (s : MemoryStore) (targetId : String) (scheduledFor : Instant) (state : RunState)
    (origin : RunOrigin) (captureId : Option CaptureId) (now : Instant) : Run × MemoryStore :=
  match s.find targetId scheduledFor with
  | none =>
    let run : Run :=
      { id := s.seq.runs + 1, targetId, scheduledFor, state, fence := 0, origin, leaseOwner := none,
        leaseUntil := none, captureId, createdAt := now, updatedAt := now }
    (run, { s.putRun run with seq := { s.seq with runs := s.seq.runs + 1 } })
  | some existing =>
    if state = .captured ∧ ¬ final existing.state ∧ existing.captureId = none then
      let updated := { existing with state := .captured, captureId, updatedAt := now }
      (updated, s.putRun updated)
    else (existing, s)

def getRun (s : MemoryStore) (targetId : String) (scheduledFor : Instant) : Option Run :=
  s.find targetId scheduledFor

def runs (s : MemoryStore) (targetId : String) (since until_ : Option Instant) : List Run :=
  (s.runTable.values.filter fun r => r.targetId = targetId ∧
      (∀ t ∈ since, t ≤ r.scheduledFor) ∧ (∀ t ∈ until_, r.scheduledFor < t)).insertionSort
    fun a b => a.scheduledFor ≤ b.scheduledFor

/-- Unfenced: neither the fence nor the current state is looked at. -/
def setState (s : MemoryStore) (runId : Nat) (state : RunState) (now : Instant) :
    Option (Run × MemoryStore) := do
  let existing ← s.runTable.get? runId
  let run := { existing with state, updatedAt := now }
  some (run, s.putRun run)

/-- The run under a new generation. -/
def recaptured (run : Run) (captureId : CaptureId) (now : Instant) : Run :=
  { run with
    state := .captured, captureId := some captureId, fence := run.fence + 1, leaseOwner := none
    leaseUntil := none, updatedAt := now }

/-- A new generation: the fence is bumped, so that a claim in flight loses. -/
def markRecaptured (s : MemoryStore) (runId : Nat) (captureId : CaptureId) (now : Instant) :
    Option (Run × MemoryStore) := do
  let existing ← s.runTable.get? runId
  let run := recaptured existing captureId now
  some (run, s.putRun run)

/-! ## Attempts -/

def attempts (s : MemoryStore) (runId : Nat) : List RunAttempt :=
  s.attemptTable.values.filter fun a => a.runId = runId

/-- `RunAttempt(id=self._next("attempts"), …)`: a fresh attempt under the next id. -/
def newAttempt (s : MemoryStore) (mk : Nat → RunAttempt) : RunAttempt × MemoryStore :=
  let attempt := mk (s.seq.attempts + 1)
  (attempt, { s.putAttempt attempt with seq := { s.seq with attempts := s.seq.attempts + 1 } })

/-- A replay attempt nobody holds yet. -/
def replayAttempt (runId : Nat) (captureId : Option CaptureId) (now : Instant) (id : Nat) :
    RunAttempt where
  id := id
  runId := runId
  kind := .replay
  leaseOwner := none
  leaseUntil := none
  fence := none
  captureId := captureId
  derivationId := none
  outcome := none
  error := none
  startedAt := now
  finishedAt := none

def processAttempt (run : Run) (owner : String) (now : Instant) (id : Nat) : RunAttempt where
  id := id
  runId := run.id
  kind := .process
  leaseOwner := some owner
  leaseUntil := run.leaseUntil
  fence := some run.fence
  captureId := run.captureId
  derivationId := none
  outcome := none
  error := none
  startedAt := now
  finishedAt := none

/-- `pending` taken by the worker that was granted `run`. -/
def leased (run : Run) (owner : String) (now : Instant) (pending : RunAttempt) : RunAttempt :=
  { pending with
    leaseOwner := some owner, leaseUntil := run.leaseUntil, fence := some run.fence
    captureId := run.captureId, startedAt := now }

/-- An attempt whose holder lost its lease. -/
def closed (now : Instant) (dead : RunAttempt) : RunAttempt :=
  { dead with outcome := some .lostLease, finishedAt := some now }

def pendingReplay (a : RunAttempt) : Bool := a.kind = .replay ∧ a.pending

def expiredReplay (now : Instant) (a : RunAttempt) : Bool := a.kind = .replay ∧ a.expired now

/-- Close the replay attempts dead workers left behind. -/
def closeExpired (now : Instant) (s : MemoryStore) : List RunAttempt → MemoryStore
  | [] => s
  | dead :: rest =>
    if expiredReplay now dead then closeExpired now (s.putAttempt (closed now dead)) rest
    else closeExpired now s rest

/-- The lease of the run is empty or strictly in the past. -/
def Free (run : Run) (now : Instant) : Prop := ∀ t ∈ run.leaseUntil, t < now

instance (run : Run) (now : Instant) : Decidable (Free run now) :=
  inferInstanceAs (Decidable (∀ t ∈ run.leaseUntil, t < now))

/-- The attempt a granted claim works under: a pending replay attempt is adopted, an abandoned one
is reopened, and otherwise a process attempt is opened. -/
def openAttempt (s : MemoryStore) (run : Run) (owner : String) (now : Instant) :
    RunAttempt × MemoryStore :=
  let dead := s.attempts run.id
  let reopened := dead.any (expiredReplay now)
  let s := closeExpired now s dead
  match (s.attempts run.id).find? pendingReplay with
  | some pending =>
    let attempt := leased run owner now pending
    (attempt, s.putAttempt attempt)
  | none =>
    if reopened then
      s.newAttempt fun id => leased run owner now (replayAttempt run.id run.captureId now id)
    else s.newAttempt (processAttempt run owner now)

/-- The run under a new claim. -/
def granted (run : Run) (owner : String) (ttl : Duration) (now : Instant) : Run :=
  { run with
    fence := run.fence + 1, leaseOwner := some owner, leaseUntil := some (now + ttl)
    updatedAt := now }

def claim (s : MemoryStore) (runId : Nat) (owner : String) (ttl : Duration) (now : Instant) :
    Option (Option Claim × MemoryStore) := do
  let existing ← s.runTable.get? runId
  if Free existing now then
    let run := granted existing owner ttl now
    let (attempt, s) := (s.putRun run).openAttempt run owner now
    some (some ⟨run, run.fence, attempt⟩, s)
  else some (none, s)

def renewed (run : Run) (ttl : Duration) (now : Instant) : Run :=
  { run with leaseUntil := some (now + ttl), updatedAt := now }

def renew (s : MemoryStore) (claim : Claim) (ttl : Duration) (now : Instant) :
    Option (Bool × MemoryStore) := do
  let run ← s.runTable.get? claim.run.id
  if run.fence ≠ claim.fence then some (false, s) else some (true, s.putRun (renewed run ttl now))

def recordAttempt (s : MemoryStore) (runId : Nat) (kind : AttemptKind) (outcome : AttemptOutcome)
    (captureId : Option CaptureId) (error : Option String) (now : Instant) :
    RunAttempt × MemoryStore :=
  s.newAttempt fun id =>
    { id, runId, kind, leaseOwner := none, leaseUntil := none, fence := none, captureId
      derivationId := none, outcome := some outcome, error, startedAt := now
      finishedAt := some now }

def enqueueReplay (s : MemoryStore) (runId : Nat) (now : Instant) :
    Option (Option RunAttempt × MemoryStore) :=
  if (s.attempts runId).any pendingReplay then some (none, s)
  else do
    let run ← s.runTable.get? runId
    let (attempt, s) := s.newAttempt (replayAttempt runId run.captureId now)
    some (some attempt, s)

def pendingRuns (s : MemoryStore) (targetId : String) (now : Instant) : List Run :=
  (s.runs targetId none none).filter fun r => r.state = .captured ∨
    (s.attempts r.id).any fun a => a.kind = .replay ∧ (a.pending ∨ a.expired now)

/-! ## Derivations, events, invalidations -/

def registerDerivation (s : MemoryStore) (d : Derivation) (now : Instant) :
    Derivation × MemoryStore :=
  match s.derivationTable.get? d.derivationId with
  | some stored => (stored, s)
  | none =>
    let stored := { d with registeredAt := some now }
    (stored, { s with derivationTable := s.derivationTable.set d.derivationId stored })

def addEvent (targetId : String) (runAttemptId : Option Nat) (now : Instant) (s : MemoryStore)
    (e : QualityEvent) : MemoryStore :=
  let id := s.seq.events + 1
  { s with
    eventTable := s.eventTable.set id ⟨id, targetId, runAttemptId, e, now⟩
    seq := { s.seq with events := id } }

def addEvents (s : MemoryStore) (targetId : String) (events : List QualityEvent)
    (runAttemptId : Option Nat) (now : Instant) : Nat × MemoryStore :=
  (events.length, events.foldl (addEvent targetId runAttemptId now) s)

def addInvalidation (s : MemoryStore) (inv : Invalidation) : Bool × MemoryStore :=
  let key := (inv.targetId, inv.captureId, inv.derivationId)
  if s.invalidationTable.contains key then (false, s)
  else (true, { s with invalidationTable := s.invalidationTable.set key inv })

def invalidations (s : MemoryStore) (targetId : String) : List Invalidation :=
  (s.invalidationTable.values.filter fun i => i.targetId = targetId).insertionSort
    fun a b => a.key ≤ b.key

/-- A decision for every derivation covers each of them. -/
def isInvalidated (s : MemoryStore) (captureId : CaptureId) (derivationId : Option DerivationId) :
    Bool :=
  s.invalidationTable.contains (captureId.target, captureId, none) ||
    (derivationId.isSome && s.invalidationTable.contains (captureId.target, captureId, derivationId))

/-! ## Commit -/

/-- `existing`: the row id of every stored version. -/
def versionIds (s : MemoryStore) : Dict VersionIdentity Nat :=
  s.rowTable.entries.foldl (fun d p => d.set (versionIdentity p.2.observation) p.1) .empty

structure CommitLoop where
  store : MemoryStore
  existing : Dict VersionIdentity Nat
  inserted : Nat
  occurrences : Nat

/-- A new version row under the next id. -/
def addRow (s : MemoryStore) (attemptId : Nat) (o : EnergyObservation) : Nat × MemoryStore :=
  let id := s.seq.rows + 1
  (id, { s with
    rowTable := s.rowTable.set id ⟨id, attemptId, o⟩
    seq := { s.seq with rows := id } })

def seen (s : MemoryStore) (rowId : Nat) : Occurrences := (s.occurrenceTable.get? rowId).getD .empty

def addOccurrence (s : MemoryStore) (rowId : Nat) (attemptId : Nat) (o : EnergyObservation) :
    MemoryStore :=
  let seen := (s.seen rowId).setDefault o.fetchedAt (orderingInstant o, attemptId)
  { s with occurrenceTable := s.occurrenceTable.set rowId seen }

/-- The loop body of `commit`: the version row if it is new, then one occurrence per
`fetched_at`. -/
def insertOne (attemptId : Nat) (l : CommitLoop) (o : EnergyObservation) : CommitLoop :=
  let key := versionIdentity o
  match l.existing.get? key with
  | none =>
    let (rid, store) := l.store.addRow attemptId o
    ⟨store.addOccurrence rid attemptId o, l.existing.set key rid, l.inserted + 1, l.occurrences⟩
  | some rid =>
    let fresh := ! (l.store.seen rid).contains o.fetchedAt
    ⟨l.store.addOccurrence rid attemptId o, l.existing, l.inserted,
      l.occurrences + if fresh then 1 else 0⟩

def insertAll (s : MemoryStore) (attemptId : Nat) (observations : List EnergyObservation) :
    CommitLoop :=
  observations.foldl (insertOne attemptId) ⟨s, s.versionIds, 0, 0⟩

/-- The derivation a commit carries is registered first. -/
def registerAny (s : MemoryStore) (d : Option Derivation) (now : Instant) : MemoryStore :=
  match d with
  | some d => (s.registerDerivation d now).2
  | none => s

def released (run : Run) (state : RunState) (now : Instant) : Run :=
  { run with state, leaseOwner := none, leaseUntil := none, updatedAt := now }

def closeAttempt (attempt : RunAttempt) (c : Commit) (now : Instant) : RunAttempt :=
  { attempt with
    outcome := some c.outcome, error := c.error, finishedAt := some now
    derivationId := c.derivation.map Derivation.derivationId }

/-- A holder whose fence is stale changes nothing but its own open attempt. -/
def commit (s : MemoryStore) (claim : Claim) (c : Commit) (now : Instant) :
    Option (CommitResult × MemoryStore) := do
  let run ← s.runTable.get? claim.run.id
  if run.fence ≠ claim.fence then
    let stale ← s.attemptTable.get? claim.attempt.id
    let s := if stale.outcome = none then s.putAttempt (closed now stale) else s
    some (⟨0, true, 0⟩, s)
  else
    let s := s.registerAny c.derivation now
    let l := s.insertAll claim.attempt.id c.observations
    let s := (l.store.addEvents run.targetId c.events (some claim.attempt.id) now).2
    let attempt ← s.attemptTable.get? claim.attempt.id
    let s := s.putAttempt (closeAttempt attempt c now)
    let s := s.putRun (released run c.state now)
    some (⟨l.inserted, false, l.occurrences⟩, s)

/-! ## Silver -/

/-- Runs whose inserted rows carry the derivation. -/
def runsWithDerivation (s : MemoryStore) (d : DerivationId) : Option (List Run) := do
  let attemptIds := (s.rowTable.values.filter fun r => r.observation.derivationId = d).map
    StoredObservation.runAttemptId
  let found ← attemptIds.dedup.mapM s.attemptTable.get?
  let runs ← (found.map RunAttempt.runId).dedup.mapM s.runTable.get?
  some (runs.insertionSort fun a b => a.scheduledFor ≤ b.scheduledFor)

def attemptCaptures (s : MemoryStore) (targetId : String) : List (Nat × CaptureId) :=
  s.attemptTable.values.filterMap fun a =>
    if ∃ r ∈ s.runTable.values, r.targetId = targetId ∧ r.id = a.runId then
      a.captureId.map fun c => (a.id, c)
    else none

/-- Whether an occurrence of a capture stands for a derivation: the capture is not invalidated. -/
def occurrenceValid (s : MemoryStore) (d : DerivationId) (captureId : Option CaptureId) : Bool :=
  match captureId with
  | none => true
  | some c => ! s.isInvalidated c (some d)

def validAmong (s : MemoryStore) (d : DerivationId) : List (Instant × Nat) → Option (List Instant)
  | [] => some []
  | (instant, attemptId) :: rest => do
    let attempt ← s.attemptTable.get? attemptId
    let out ← validAmong s d rest
    some (if s.occurrenceValid d attempt.captureId then instant :: out else out)

/-- Ordering instants of the row's occurrences not produced by an invalidated capture. -/
def validOccurrences (s : MemoryStore) (row : StoredObservation) : Option (List Instant) :=
  s.validAmong row.observation.derivationId (s.seen row.id).values

/-- `max` of a nonempty list; Python raises on the empty one. -/
def newest : List Instant → Option Instant
  | [] => none
  | t :: rest => some (rest.foldl max t)

def registeredAt (s : MemoryStore) (d : DerivationId) : Option Instant :=
  (s.derivationTable.get? d).bind Derivation.registeredAt

variable (reg : Registry)

def rowRank (s : MemoryStore) (row : StoredObservation) (valid : List Instant) : Option Rank := do
  let registered ← s.registeredAt row.observation.derivationId
  let latest ← newest valid
  some (rank reg row.observation registered latest)

/-- The arguments of `current_rows`. -/
structure CurrentQuery where
  datasetId : String
  start : Option Instant
  stop : Option Instant
  metric : Option String
  transport : Option Transport

namespace CurrentQuery

/-- The tests the loop makes on a row before it looks at its occurrences. -/
def admits (q : CurrentQuery) (o : EnergyObservation) : Bool :=
  o.datasetId = q.datasetId ∧ (∀ t ∈ q.start, t ≤ o.deliveryStartUtc) ∧
    (∀ t ∈ q.stop, o.deliveryStartUtc < t) ∧ ∀ t ∈ q.transport, o.sourceTransport = t

/-- The selection key: the identity, with the transport when one is asked for. -/
def key (q : CurrentQuery) (o : EnergyObservation) : ObservationIdentity × Option Transport :=
  (observationIdentity o, q.transport.map fun _ => o.sourceTransport)

/-- The tests made on the selected rows. -/
def keeps (q : CurrentQuery) (o : EnergyObservation) : Bool :=
  (∀ m ∈ q.metric, o.metric = m) ∧ ∀ t ∈ q.transport, o.sourceTransport = t

end CurrentQuery

abbrev Best := Dict (ObservationIdentity × Option Transport) StoredObservation

/-- The loop body of `current_rows`. -/
def considerRow (s : MemoryStore) (q : CurrentQuery) (best : Best) (row : StoredObservation) :
    Option Best := do
  if ! q.admits row.observation then return best
  let key := q.key row.observation
  let valid ← s.validOccurrences row
  if valid = [] then return best
  match best.get? key with
  | none => return best.set key row
  | some current =>
    let mine ← s.rowRank reg row valid
    let theirs ← s.rowRank reg current (← s.validOccurrences current)
    return if theirs < mine then best.set key row else best

def currentRow (row : StoredObservation) : CurrentRow :=
  ⟨row.observation, row.runAttemptId, orderingBasis row.observation⟩

/-- `(delivery_start_utc, metric)`, the order of the result. -/
def sortKey (c : CurrentRow) : Instant ×ₗ String :=
  toLex (c.observation.deliveryStartUtc, c.observation.metric)

def currentRows (s : MemoryStore) (q : CurrentQuery) : Option (List CurrentRow) := do
  let best ← s.rowTable.values.foldlM (considerRow reg s q) .empty
  let rows := (best.values.filter fun r => q.keeps r.observation).map currentRow
  some (rows.insertionSort fun a b => sortKey a ≤ sortKey b)

end MemoryStore

end EnergyPlatform
