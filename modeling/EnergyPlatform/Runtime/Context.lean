import EnergyPlatform.Mapping.Payload
import EnergyPlatform.Runtime.Calls

/-!
# Runtime.Context

What every verb needs: the manifest, the implementation, the store and the worker's identity.
-/

namespace EnergyPlatform

structure Runtime {L : Type} (LRet : L → Type) where
  manifest : Manifest
  impl : Implementation
  store : StoreImpl LRet
  owner : String
  leaseTtl : Duration
  reconcileWindow : Duration

namespace Runtime

variable {L : Type} {LRet : L → Type} (rt : Runtime LRet)

def targetId : String := rt.manifest.targetId

def timezone : String := rt.manifest.mapping.time.timezone

def env : Env := rt.impl.env

def zone : Zone := rt.env.zones rt.timezone

/-! The calls on the store, one by one. -/

def ensureRun (scheduledFor : Instant) (state : RunState) (origin : RunOrigin)
    (captureId : Option CaptureId) (now : Instant) : Verb LRet Run :=
  rt.store (.ensureRun rt.targetId scheduledFor state origin captureId now)

def getRun (scheduledFor : Instant) : Verb LRet (Option Run) :=
  rt.store (.getRun rt.targetId scheduledFor)

def runs (since until_ : Option Instant) : Verb LRet (List Run) :=
  rt.store (.runs rt.targetId since until_)

def setState (runId : Nat) (state : RunState) (now : Instant) : Verb LRet Run :=
  rt.store (.setState runId state now)

def markRecaptured (runId : Nat) (captureId : CaptureId) (now : Instant) : Verb LRet Run :=
  rt.store (.markRecaptured runId captureId now)

def claim (runId : Nat) (now : Instant) : Verb LRet (Option Claim) :=
  rt.store (.claim runId rt.owner rt.leaseTtl now)

def commit (claim : Claim) (args : Commit) (now : Instant) : Verb LRet CommitResult :=
  rt.store (.commit claim args now)

def recordAttempt (runId : Nat) (kind : AttemptKind) (outcome : AttemptOutcome)
    (captureId : Option CaptureId) (error : Option String) (now : Instant) :
    Verb LRet RunAttempt :=
  rt.store (.recordAttempt runId kind outcome captureId error now)

def enqueueReplay (runId : Nat) (now : Instant) : Verb LRet (Option RunAttempt) :=
  rt.store (.enqueueReplay runId now)

def pendingRuns (now : Instant) : Verb LRet (List Run) := rt.store (.pendingRuns rt.targetId now)

def runsWithDerivation (d : DerivationId) : Verb LRet (List Run) := rt.store (.runsWithDerivation d)

def addInvalidation (inv : Invalidation) : Verb LRet Bool := rt.store (.addInvalidation inv)

def storeInvalidations : Verb LRet (List Invalidation) := rt.store (.invalidations rt.targetId)

def isInvalidated (captureId : CaptureId) (d : Option DerivationId) : Verb LRet Bool :=
  rt.store (.isInvalidated captureId d)

def addEvents (events : List QualityEvent) (runAttemptId : Option Nat) (now : Instant) :
    Verb LRet Nat :=
  rt.store (.addEvents rt.targetId events runAttemptId now)

def currentRows (q : MemoryStore.CurrentQuery) : Verb LRet (List CurrentRow) :=
  rt.store (.currentRows q)

end Runtime

/-- The delivery day a run is for: the civil date of its instant. -/
def deliveryDayFor (zone : Zone) (scheduledFor : Instant) : Except PyError Day :=
  civilDate zone scheduledFor

/-- `[start, end)` of a civil day in UTC. -/
def deliveryDayBounds (zone : Zone) (d : Day) : Except PyError (Instant × Instant) := do
  let tomorrow ← checkedDay (d + 1)
  let start ← checkedInstant (zone.midnight d)
  let stop ← checkedInstant (zone.midnight tomorrow)
  .ok (start, stop)

end EnergyPlatform
