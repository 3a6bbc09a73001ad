import EnergyPlatform.Bronze.Bronze
import EnergyPlatform.Runtime.Context

/-!
# Runtime.Capture

`capture` and the fetching half of `backfill`: fetch, write raw, acknowledge, and last, best
effort, the ledger.
-/

namespace EnergyPlatform

inductive CaptureKind where
  | capture
  | backfill
deriving DecidableEq, Repr

def CaptureKind.origin : CaptureKind → RunOrigin
  | capture => .scheduled
  | backfill => .backfill

def CaptureKind.attemptKind : CaptureKind → AttemptKind
  | capture => .capture
  | backfill => .backfill

structure CaptureReport where
  scheduledFor : Instant
  outcome : AttemptOutcome
  entry : Option CaptureEntry
  created : Bool
  error : Option String
  ledgerUpdated : Bool

/-- The arguments of a capture besides the runtime. -/
structure CaptureRequest where
  scheduledFor : Instant
  deliveryDay : Option Day
  force : Bool
  kind : CaptureKind

section Verbs

variable {L : Type} {LRet : L → Type} (rt : Runtime LRet)

/-- What is acknowledged: the outcome, the capture it names, and whether it is a new generation. -/
structure Ack where
  outcome : AttemptOutcome
  captureId : Option CaptureId
  error : Option String
  recaptured : Bool

/-- `mark_recaptured`, when a forced attempt changed the payload and the run names another one. -/
def newGeneration (a : Ack) (run : Run) (now : Instant) : Verb LRet Run :=
  match a.captureId with
  | some c =>
    if a.recaptured ∧ run.captureId ≠ some c then rt.markRecaptured run.id c now else .ret run
  | none => .ret run

/-- The part of `_ack` inside its `try`. -/
def ackLedger (req : CaptureRequest) (a : Ack) (now : Instant) : Verb LRet Bool := do
  let state : RunState := if a.captureId.isSome then .captured else .scheduled
  let run ← rt.ensureRun req.scheduledFor state req.kind.origin a.captureId now
  let run ← newGeneration rt a run now
  if a.outcome = .noop then .ret true
  else do
    let _ ← rt.recordAttempt run.id req.kind.attemptKind a.outcome a.captureId a.error now
    .ret true

/-- Ledger bookkeeping after Bronze; only `StoreUnavailable` is caught. -/
def ack (req : CaptureRequest) (a : Ack) : Verb LRet Bool := do
  let now ← clock
  (ackLedger rt req a now).tryCatch fun
    | .storeUnavailable _ => .ret false
    | e => .raise e

/-- The entries with status 200 of one delivery day. -/
def sameDayEntries (zone : Zone) (d : Day) (entries : List CaptureEntry) :
    Except PyError (List CaptureEntry) := do
  let kept ← entries.filterMapM fun e =>
    if e.httpStatus = 200 then do
      let own ← deliveryDayFor zone e.scheduledFor
      .ok (if own = d then some e else none)
    else .ok none
  .ok kept

/-- The last real payload of this run's request: the newest HTTP 200 entry of the same delivery
day. -/
def captureBaseline (scheduledFor : Instant) : Verb LRet (Option CaptureEntry) := do
  let d ← pyExcept (deliveryDayFor rt.zone scheduledFor)
  let (since, until_) ← pyExcept (deliveryDayBounds rt.zone d)
  let entries ← listEntries rt.targetId (some since) (some until_)
  let sameDay ← pyExcept (sameDayEntries rt.zone d entries)
  .ret sameDay.getLast?

/-- A report without an entry, after the ledger was told. -/
def refusedReport (req : CaptureRequest) (outcome : AttemptOutcome) (error : String) :
    Verb LRet CaptureReport := do
  let updated ← ack rt req ⟨outcome, none, some error, false⟩
  .ret ⟨req.scheduledFor, outcome, none, false, some error, updated⟩

/-- The fetch, with the outcomes its exceptions are reported as. -/
def fetchOutcome (ctx : FetchContext) (conditional : Option Conditional) :
    Verb LRet (Except (AttemptOutcome × String) FetchResult) :=
  (fetchCall ctx conditional >>= fun r => .ret (.ok r)).tryCatch fun
    | .fetch (.unavailable msg) => .ret (.error (.sourceUnavailable, msg))
    | .fetch (.unbuildable msg) => .ret (.error (.failed, msg))
    | e => .raise e

def bronzeOutcome (a : Bronze.CaptureArgs) :
    Verb LRet (Except (AttemptOutcome × String) Bronze.CaptureOutcome) :=
  (Bronze.capture a >>= fun o => .ret (.ok o)).tryCatch fun
    | .bronzeError msg => .ret (.error (.failed, msg))
    | e => .raise e

/-- `delivery_day or delivery_day_for(scheduled_for, rt.timezone)`. -/
def requestedDay (req : CaptureRequest) : Verb LRet Day :=
  match req.deliveryDay with
  | some d => .ret d
  | none => pyExcept (deliveryDayFor rt.zone req.scheduledFor)

/-- Fetch and store one payload: what `capture` does once it has decided to fetch. -/
def captureNew (req : CaptureRequest) : Verb LRet CaptureReport := do
  let d ← requestedDay rt req
  let baseline ← captureBaseline rt req.scheduledFor
  let conditional := baseline.map fun b => ⟨b.etag, b.lastModified⟩
  match ← fetchOutcome ⟨req.scheduledFor, d⟩ conditional with
  | .error (outcome, msg) => refusedReport rt req outcome msg
  | .ok result =>
    match ← bronzeOutcome ⟨rt.targetId, req.scheduledFor, result,
        rt.manifest.contract.sourceTransport, req.force, .given baseline⟩ with
    | .error (outcome, msg) => refusedReport rt req outcome msg
    | .ok o => do
      let updated ← ack rt req
        ⟨.ok, some o.entry.captureId, none, req.force && o.created && o.entry.contentChanged⟩
      .ret ⟨req.scheduledFor, .ok, some o.entry, o.created, none, updated⟩

def capture (req : CaptureRequest) : Verb LRet CaptureReport := do
  let existing ← entriesFor rt.targetId req.scheduledFor
  match if req.force then none else existing.getLast? with
  | some entry => do
    let updated ← ack rt req ⟨.noop, some entry.captureId, none, false⟩
    .ret ⟨req.scheduledFor, .noop, some entry, false, none, updated⟩
  | none => captureNew rt req

end Verbs

end EnergyPlatform
