import EnergyPlatform.Contracts.Invalidation
import EnergyPlatform.Contracts.Json
import EnergyPlatform.Mapping.Quality

/-!
# Store.Protocol

The row types of the ledger and of Silver: runs, attempts, derivations, claims, stored
observations.
-/

namespace EnergyPlatform

inductive RunState where
  | scheduled
  | captured
  | processed
  | failed
  | missingCapture
  | unrecoverable
deriving DecidableEq, Repr

inductive RunOrigin where
  | scheduled
  | reconciled
  | backfill
  | replay
  | manual
deriving DecidableEq, Repr

inductive AttemptKind where
  | capture
  | process
  | backfill
  | replay
deriving DecidableEq, Repr

inductive AttemptOutcome where
  | ok
  | failed
  | lostLease
  | quarantined
  | noop
  | sourceUnavailable
deriving DecidableEq, Repr

/-- One run per `(target_id, scheduled_for)`. -/
structure Run where
  id : Nat
  targetId : String
  scheduledFor : Instant
  state : RunState
  fence : Nat
  origin : RunOrigin
  leaseOwner : Option String
  leaseUntil : Option Instant
  captureId : Option CaptureId
  createdAt : Instant
  updatedAt : Instant
deriving DecidableEq

structure RunAttempt where
  id : Nat
  runId : Nat
  kind : AttemptKind
  leaseOwner : Option String
  leaseUntil : Option Instant
  fence : Option Nat
  captureId : Option CaptureId
  derivationId : Option DerivationId
  outcome : Option AttemptOutcome
  error : Option String
  startedAt : Instant
  finishedAt : Option Instant
deriving DecidableEq

namespace RunAttempt

def pending (a : RunAttempt) : Bool := a.outcome.isNone && a.leaseOwner.isNone

/-- Unfinished, leased, and the lease ran out. -/
def expired (a : RunAttempt) (now : Instant) : Bool :=
  a.outcome.isNone && a.leaseOwner.isSome &&
    match a.leaseUntil with
    | some until_ => decide (until_ < now)
    | none => false

end RunAttempt

structure Derivation where
  derivationId : DerivationId
  platformVersion : String
  contractVersion : ContractVersion
  mappingBlock : Json
  parserRef : String
  registeredAt : Option Instant

structure Claim where
  run : Run
  fence : Nat
  attempt : RunAttempt
deriving DecidableEq

structure CommitResult where
  inserted : Nat
  lostLease : Bool
  occurrences : Nat
deriving DecidableEq

structure StoredObservation where
  id : Nat
  runAttemptId : Nat
  observation : EnergyObservation
deriving DecidableEq

inductive OrderingBasis where
  | sourcePublishedAt
  | fetchedAt
deriving DecidableEq, Repr

/-- One row of the current view: the observation plus how it won. -/
structure CurrentRow where
  observation : EnergyObservation
  runAttemptId : Nat
  orderingBasis : OrderingBasis
deriving DecidableEq

structure StoredEvent where
  id : Nat
  targetId : String
  runAttemptId : Option Nat
  event : QualityEvent
  createdAt : Instant
deriving DecidableEq

end EnergyPlatform
