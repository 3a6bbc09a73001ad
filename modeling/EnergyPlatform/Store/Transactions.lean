import EnergyPlatform.Store.SqlView

/-!
# Store.Transactions

The ledger operations of `PostgresStore` as serial transactions over the tables of the schema.

A table is the list of its rows; no statement depends on their order. An identity column is the
last value it handed out: an `INSERT … ON CONFLICT` takes a value also when the row is there. A
statement that breaks a constraint raises and the transaction is rolled back: `none`. The values of
a row are those the client sent; texts with a NUL and numbers beyond `numeric` are left out.
-/

namespace EnergyPlatform

open Lib

/-- The nine operations of the ledger. -/
inductive LedgerCall where
  | ensureRun (targetId : String) (scheduledFor : Instant) (state : RunState) (origin : RunOrigin)
      (captureId : Option CaptureId) (now : Instant)
  | setState (runId : Nat) (state : RunState) (now : Instant)
  | markRecaptured (runId : Nat) (captureId : CaptureId) (now : Instant)
  | claim (runId : Nat) (owner : String) (ttl : Duration) (now : Instant)
  | renew (claim : Claim) (ttl : Duration) (now : Instant)
  | commit (claim : Claim) (args : Commit) (now : Instant)
  | recordAttempt (runId : Nat) (kind : AttemptKind) (outcome : AttemptOutcome)
      (captureId : Option CaptureId) (error : Option String) (now : Instant)
  | enqueueReplay (runId : Nat) (now : Instant)
  | pendingRuns (targetId : String) (now : Instant)

def LedgerCall.Ret : LedgerCall → Type
  | ensureRun .. | setState .. | markRecaptured .. => Run
  | claim .. => Option Claim
  | renew .. => Bool
  | commit .. => CommitResult
  | recordAttempt .. => RunAttempt
  | enqueueReplay .. => Option RunAttempt
  | pendingRuns .. => List Run

namespace MemoryStore

/-- The same operations on the memory store; `none` is a `KeyError`. -/
def ledger (s : MemoryStore) : (c : LedgerCall) → Option (c.Ret × MemoryStore)
  | .ensureRun targetId at_ state origin captureId now =>
    some (s.ensureRun targetId at_ state origin captureId now)
  | .setState runId state now => s.setState runId state now
  | .markRecaptured runId captureId now => s.markRecaptured runId captureId now
  | .claim runId owner ttl now => s.claim runId owner ttl now
  | .renew c ttl now => s.renew c ttl now
  | .commit c args now => s.commit c args now
  | .recordAttempt runId kind outcome captureId error now =>
    some (s.recordAttempt runId kind outcome captureId error now)
  | .enqueueReplay runId now => s.enqueueReplay runId now
  | .pendingRuns targetId now => some (s.pendingRuns targetId now, s)

end MemoryStore

namespace Postgres

/-- The last values of the identity columns. -/
structure Sequences where
  runs : Nat
  attempts : Nat
  observations : Nat
  events : Nat

structure Tables where
  runs : List Run
  attempts : List RunAttempt
  derivations : List Derivation
  observations : List ObservationRow
  occurrences : List OccurrenceRow
  events : List StoredEvent
  seq : Sequences

namespace Tables

def empty : Tables := ⟨[], [], [], [], [], [], ⟨0, 0, 0, 0⟩⟩

/-! ## Runs -/

/-- The condition of the three `CASE`s of `ensure_run`. -/
def overwrites (excluded r : Run) : Bool :=
  excluded.state = .captured ∧ r.state ≠ .processed ∧ r.captureId = none

/-- `DO UPDATE SET`. -/
def onConflict (excluded r : Run) : Run :=
  { r with
    state := if overwrites excluded r then .captured else r.state
    captureId := if overwrites excluded r then excluded.captureId else r.captureId
    updatedAt := if overwrites excluded r then excluded.updatedAt else r.updatedAt }

def ensureRun (t : Tables) (targetId : String) (scheduledFor : Instant) (state : RunState)
    (origin : RunOrigin) (captureId : Option CaptureId) (now : Instant) : Run × Tables :=
  let id := t.seq.runs + 1
  let seq := { t.seq with runs := id }
  let excluded : Run :=
    { id, targetId, scheduledFor, state, fence := 0, origin, leaseOwner := none
      leaseUntil := none, captureId, createdAt := now, updatedAt := now }
  match t.runs.find? fun r => r.targetId = targetId ∧ r.scheduledFor = scheduledFor with
  | none => (excluded, { t with runs := t.runs ++ [excluded], seq })
  | some r =>
    (onConflict excluded r,
      { t with runs := Sql.update (fun q => q.id = r.id) (onConflict excluded) t.runs, seq })

/-- `UPDATE runs SET … WHERE … RETURNING *`: the first row returned. -/
def updateRun (t : Tables) (c : Run → Bool) (set : Run → Run) : Option Run × Tables :=
  ((Sql.returning c set t.runs).head?, { t with runs := Sql.update c set t.runs })

def setState (t : Tables) (runId : Nat) (state : RunState) (now : Instant) : Option (Run × Tables) :=
  let (row, t) := t.updateRun (fun r => r.id = runId) fun r => { r with state, updatedAt := now }
  row.map fun row => (row, t)

def markRecaptured (t : Tables) (runId : Nat) (captureId : CaptureId) (now : Instant) :
    Option (Run × Tables) :=
  let (row, t) := t.updateRun (fun r => r.id = runId) fun r =>
    { r with
      state := .captured, captureId := some captureId, fence := r.fence + 1, leaseOwner := none
      leaseUntil := none, updatedAt := now }
  row.map fun row => (row, t)

/-! ## Attempts -/

/-- `INSERT INTO run_attempts … RETURNING *`. -/
def insertAttempt (t : Tables) (mk : Nat → RunAttempt) : RunAttempt × Tables :=
  let id := t.seq.attempts + 1
  (mk id, { t with attempts := t.attempts ++ [mk id], seq := { t.seq with attempts := id } })

/-- `kind = 'replay' AND outcome IS NULL`. -/
def openReplay (a : RunAttempt) : Bool := a.kind = .replay ∧ a.outcome = none

/-- An open replay attempt of the run nobody holds. -/
def unheld (runId : Nat) (a : RunAttempt) : Bool :=
  a.runId = runId && openReplay a && a.leaseOwner.isNone

/-- An open replay attempt of the run whose lease ran out. -/
def abandoned (runId : Nat) (now : Instant) (a : RunAttempt) : Bool :=
  a.runId = runId && openReplay a && a.leaseOwner.isSome && a.leaseUntil.any (· < now)

/-- `INSERT … (run_id, kind, capture_id, started_at)`; the other columns are NULL. -/
def replayRow (runId : Nat) (captureId : Option CaptureId) (now : Instant) (id : Nat) :
    RunAttempt where
  id := id
  runId := runId
  kind := .replay
  leaseOwner := none
  leaseUntil := none
  fence := none
  captureId := captureId
  derivationId := none
  outcome := none
  error := none
  startedAt := now
  finishedAt := none

/-- `INSERT … SELECT … WHERE NOT EXISTS (an unheld replay attempt)`. -/
def insertReplay (t : Tables) (runId : Nat) (captureId : Option CaptureId) (now : Instant) :
    Option RunAttempt × Tables :=
  if t.attempts.any (unheld runId) then (none, t)
  else
    let (a, t) := t.insertAttempt (replayRow runId captureId now)
    (some a, t)

/-- `UPDATE run_attempts SET outcome = 'lost_lease' … RETURNING id`: whether a row was closed. -/
def closeAbandoned (t : Tables) (runId : Nat) (now : Instant) : Bool × Tables :=
  (t.attempts.any (abandoned runId now),
    { t with
      attempts := Sql.update (abandoned runId now)
        (fun a => { a with outcome := some .lostLease, finishedAt := some now }) t.attempts })

/-- The unheld replay attempt with the least id is taken by the owner. -/
def adoptReplay (t : Tables) (run : Run) (owner : String) (now : Instant) :
    Option RunAttempt × Tables :=
  let first := ((t.attempts.filter (unheld run.id)).map RunAttempt.id).min?
  let set := fun a : RunAttempt =>
    { a with
      leaseOwner := some owner, leaseUntil := run.leaseUntil, fence := some run.fence
      captureId := run.captureId, startedAt := now }
  ((Sql.returning (fun a => first = some a.id) set t.attempts).head?,
    { t with attempts := Sql.update (fun a => first = some a.id) set t.attempts })

def processRow (run : Run) (owner : String) (now : Instant) (id : Nat) : RunAttempt where
  id := id
  runId := run.id
  kind := .process
  leaseOwner := some owner
  leaseUntil := run.leaseUntil
  fence := some run.fence
  captureId := run.captureId
  derivationId := none
  outcome := none
  error := none
  startedAt := now
  finishedAt := none

/-- The attempt a granted claim works under. -/
def openAttempt (t : Tables) (run : Run) (owner : String) (now : Instant) : RunAttempt × Tables :=
  let (dead, t) := t.closeAbandoned run.id now
  let t := if dead then (t.insertReplay run.id run.captureId now).2 else t
  match t.adoptReplay run owner now with
  | (some attempt, t) => (attempt, t)
  | (none, t) => t.insertAttempt (processRow run owner now)

def claim (t : Tables) (runId : Nat) (owner : String) (ttl : Duration) (now : Instant) :
    Option Claim × Tables :=
  let (row, granted) := t.updateRun
    (fun r => r.id = runId && (r.leaseUntil.isNone || r.leaseUntil.any (· < now))) fun r =>
      { r with
        fence := r.fence + 1, leaseOwner := some owner, leaseUntil := some (now + ttl)
        updatedAt := now }
  match row with
  | none => (none, t)
  | some run =>
    let (attempt, t) := granted.openAttempt run owner now
    (some ⟨run, run.fence, attempt⟩, t)

def renew (t : Tables) (claim : Claim) (ttl : Duration) (now : Instant) : Bool × Tables :=
  let (row, t) := t.updateRun (fun r => r.id = claim.run.id && r.fence = claim.fence) fun r =>
    { r with leaseUntil := some (now + ttl), updatedAt := now }
  (row.isSome, t)

/-- `run_id REFERENCES runs (id)`. -/
def recordAttempt (t : Tables) (runId : Nat) (kind : AttemptKind) (outcome : AttemptOutcome)
    (captureId : Option CaptureId) (error : Option String) (now : Instant) :
    Option (RunAttempt × Tables) :=
  if t.runs.any fun r => r.id = runId then
    some (t.insertAttempt fun id =>
      { id, runId, kind, leaseOwner := none, leaseUntil := none, fence := none, captureId
        derivationId := none, outcome := some outcome, error, startedAt := now
        finishedAt := some now })
  else none

/-- `INSERT … SELECT r.id, 'replay', r.capture_id … FROM runs r WHERE r.id = … AND NOT EXISTS …`. -/
def enqueueReplay (t : Tables) (runId : Nat) (now : Instant) : Option RunAttempt × Tables :=
  match t.runs.find? fun r => r.id = runId with
  | none => (none, t)
  | some r => t.insertReplay runId r.captureId now

def pendingRuns (t : Tables) (targetId : String) (now : Instant) : List Run :=
  (t.runs.filter fun r => r.targetId = targetId && (r.state = .captured ||
      t.attempts.any fun a => a.runId = r.id && openReplay a &&
        (a.leaseOwner.isNone || a.leaseUntil.any (· < now)))).insertionSort
    fun a b => a.scheduledFor ≤ b.scheduledFor

/-! ## Commit -/

/-- `INSERT INTO derivations … ON CONFLICT (derivation_id) DO NOTHING`. -/
def insertDerivation (t : Tables) (d : Derivation) (now : Instant) : Tables :=
  if t.derivations.any fun x => x.derivationId = d.derivationId then t
  else { t with derivations := t.derivations ++ [{ d with registeredAt := some now }] }

/-- `if derivation is not None`. -/
def insertAny (t : Tables) (d : Option Derivation) (now : Instant) : Tables :=
  match d with
  | some d => t.insertDerivation d now
  | none => t

/-- The two are one entry of the version-identity index. -/
def conflicts (o q : EnergyObservation) : Bool :=
  q.datasetId = o.datasetId ∧ q.dimensions = o.dimensions ∧
    q.deliveryStartUtc = o.deliveryStartUtc ∧ q.resolution = o.resolution ∧ q.metric = o.metric ∧
    q.sourceVersion = o.sourceVersion ∧ q.payloadSha256 = o.payloadSha256 ∧
    q.derivationId = o.derivationId

/-- `period_index integer CHECK (period_index IS NULL OR period_index >= 1)`. -/
def fits (o : EnergyObservation) : Bool := o.periodIndex.all fun n => 1 ≤ n && n < 2 ^ 31

variable (reg : Registry)

/-- `_INSERT_OBSERVATION`: the id of the version row and whether it was inserted. -/
def insertObservation (t : Tables) (attemptId : Nat) (o : EnergyObservation) :
    Option ((Nat × Bool) × Tables) :=
  let id := t.seq.observations + 1
  let seq := { t.seq with observations := id }
  if ! fits o then none
  else
    match t.observations.find? fun r => conflicts o r.observation with
    | some r => some ((r.id, false), { t with seq })
    | none =>
      -- `derivation_id REFERENCES derivations`, `run_attempt_id REFERENCES run_attempts`
      if t.derivations.any (fun d => d.derivationId = o.derivationId) &&
          t.attempts.any (fun a => a.id = attemptId) then
        let row : ObservationRow := ⟨id, attemptId, o, ownerTransportOf reg o⟩
        some ((id, true), { t with observations := t.observations ++ [row], seq })
      else none

/-- `_INSERT_OCCURRENCE`: the number of rows inserted. -/
def insertOccurrence (t : Tables) (observationId attemptId : Nat) (o : EnergyObservation) :
    Option (Nat × Tables) :=
  if t.occurrences.any fun oc => oc.observationId = observationId ∧ oc.fetchedAt = o.fetchedAt then
    some (0, t)
  else if t.attempts.any fun a => a.id = attemptId then
    some (1, { t with
      occurrences := t.occurrences ++
        [⟨observationId, attemptId, o.fetchedAt, o.sourcePublishedAt⟩] })
  else none

/-- The loop over the observations: the versions and the further occurrences inserted. -/
def insertObservations (attemptId : Nat) : List EnergyObservation → Nat × Nat → Tables →
    Option ((Nat × Nat) × Tables)
  | [], counts, t => some (counts, t)
  | o :: rest, (inserted, occurrences), t => do
    let ((id, newVersion), t) ← t.insertObservation reg attemptId o
    let (rowcount, t) ← t.insertOccurrence id attemptId o
    insertObservations attemptId rest
      (inserted + if newVersion then 1 else 0,
        occurrences + if rowcount ≠ 0 ∧ newVersion = false then 1 else 0) t

def insertEvents (targetId : String) (attemptId : Nat) (now : Instant) :
    List QualityEvent → Tables → Option Tables
  | [], t => some t
  | e :: rest, t =>
    if t.attempts.any fun a => a.id = attemptId then
      let id := t.seq.events + 1
      insertEvents targetId attemptId now rest
        { t with
          events := t.events ++ [⟨id, targetId, some attemptId, e, now⟩]
          seq := { t.seq with events := id } }
    else none

def commit (t : Tables) (claim : Claim) (c : Commit) (now : Instant) :
    Option (CommitResult × Tables) :=
  if ! t.runs.any fun r => r.id = claim.run.id && r.fence = claim.fence then
    some (⟨0, true, 0⟩, { t with
      attempts := Sql.update (fun a => a.id = claim.attempt.id && a.outcome.isNone)
        (fun a => { a with outcome := some .lostLease, finishedAt := some now }) t.attempts })
  else do
    let t := t.insertAny c.derivation now
    let ((inserted, occurrences), t) ←
      insertObservations reg claim.attempt.id c.observations (0, 0) t
    let t ← insertEvents claim.run.targetId claim.attempt.id now c.events t
    some (⟨inserted, false, occurrences⟩, { t with
      attempts := Sql.update (fun a => a.id = claim.attempt.id)
        (fun a => { a with
          outcome := some c.outcome, error := c.error, finishedAt := some now
          derivationId := c.derivation.map Derivation.derivationId }) t.attempts
      runs := Sql.update (fun r => r.id = claim.run.id && r.fence = claim.fence)
        (fun r => { r with
          state := c.state, leaseOwner := none, leaseUntil := none, updatedAt := now }) t.runs })

/-- One transaction; `none` is an exception, after which it is rolled back. -/
def exec (t : Tables) : (c : LedgerCall) → Option (c.Ret × Tables)
  | .ensureRun targetId at_ state origin captureId now =>
    some (t.ensureRun targetId at_ state origin captureId now)
  | .setState runId state now => t.setState runId state now
  | .markRecaptured runId captureId now => t.markRecaptured runId captureId now
  | .claim runId owner ttl now => some (t.claim runId owner ttl now)
  | .renew c ttl now => some (t.renew c ttl now)
  | .commit c args now => t.commit reg c args now
  | .recordAttempt runId kind outcome captureId error now =>
    t.recordAttempt runId kind outcome captureId error now
  | .enqueueReplay runId now => some (t.enqueueReplay runId now)
  | .pendingRuns targetId now => some (t.pendingRuns targetId now, t)

end Tables

end Postgres

end EnergyPlatform
