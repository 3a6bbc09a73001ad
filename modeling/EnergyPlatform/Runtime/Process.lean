import EnergyPlatform.Runtime.Reconcile
import EnergyPlatform.Runtime.Transports

/-!
# Runtime.Process

`process`: reconcile, claim, read Bronze, decode, parse, map, and one fenced commit. The verbs that
hand it work, `replay`, `backfill` and `recapture`, stand beside it.

`process_one` ends in one commit on every path, and only the last of them carries rows.
-/

namespace EnergyPlatform

open Lib (Dict Prog)

structure ProcessReport where
  runId : Nat
  scheduledFor : Instant
  attemptKind : AttemptKind
  outcome : AttemptOutcome
  inserted : Nat
  events : Nat
  error : Option String

section Verbs

variable {L : Type} {LRet : L → Type} (rt : Runtime LRet)

/-! ## One claim -/

/-- A commit of state `failed` with one event and no rows, and its report. -/
def commitFailed (c : Claim) (d : Derivation) (outcome : AttemptOutcome) (error : String)
    (event : QualityEvent) : Verb LRet ProcessReport := do
  let now ← clock
  let result ← rt.commit c ⟨.failed, outcome, some error, some d, [], [event]⟩ now
  .ret ⟨c.run.id, c.run.scheduledFor, c.attempt.kind,
    if result.lostLease then .lostLease else outcome, 0, 1, some error⟩

def fail (c : Claim) (d : Derivation) (error : String) : Verb LRet ProcessReport :=
  commitFailed rt c d .failed error ⟨"process_failed", .error, error, "", none⟩

/-- What a refused capture is reported with: the reasons of the decisions that cover it. -/
def invalidatedError (decisions : List Invalidation) (d : Derivation) (c : CaptureId) : String :=
  let reasons := (decisions.filter fun i => i.captureId = c ∧
    (i.derivationId = none ∨ i.derivationId = some d.derivationId)).map Invalidation.reason
  let text := "; ".intercalate reasons
  "invalidated: " ++ (if text = "" then "recorded decision" else text) ++ " (" ++ c.text ++ ")"

def refuseInvalidated (c : Claim) (d : Derivation) (captureId : CaptureId) :
    Verb LRet ProcessReport := do
  let decisions ← rt.storeInvalidations
  let error := invalidatedError decisions d captureId
  commitFailed rt c d .quarantined error ⟨"invalidated", .warning, error, "", none⟩

def refuseQuarantined (c : Claim) (d : Derivation) (q : Quarantined) : Verb LRet ProcessReport :=
  commitFailed rt c d .quarantined q.reason q.asEvent

def addTransportRows (datasetId : String) (start stop : Instant) (out : OtherCurrent) :
    List Transport → Verb LRet OtherCurrent
  | [] => .ret out
  | other :: rest => do
    let rows ← rt.currentRows ⟨datasetId, some start, some stop, none, some other⟩
    addTransportRows datasetId start stop (rows.foldl
      (fun out row => out.set (observationIdentity row.observation) (other, row.observation.value))
      out) rest

def readOtherTransports (observations : List EnergyObservation) : Verb LRet OtherCurrent :=
  match windowOf observations, dataset rt.manifest.contract.datasetId with
  | some (start, stop), some contract =>
    if contract.metrics.any fun m => m.ownerTransport.isSome then
      addTransportRows rt contract.datasetId start stop .empty
        (Transport.all.filter fun t => t ≠ rt.manifest.contract.sourceTransport)
    else .ret .empty
  | _, _ => .ret .empty

/-- `run.scheduled_for`, the entry and the clock make the context of a mapping. -/
def contextOf (entry : CaptureEntry) (scheduledFor : Instant) (d : Day) (processedAt : Instant)
    (derivationId : DerivationId) : MappingContext where
  targetId := rt.targetId
  scheduledFor := scheduledFor
  deliveryDay := d
  fetchedAt := entry.fetchedAt
  rawRef := entry.rawRef.text
  payloadSha256 := entry.payloadSha256
  processedAt := processedAt
  derivationId := derivationId

/-- The last commit of `process_one`, of a document that was mapped. -/
def commitMapped (c : Claim) (d : Derivation) (result : MappingResult) (extra : List QualityEvent) :
    Verb LRet ProcessReport := do
  let others ← readOtherTransports rt result.observations
  let compared ← pyExcept (reconcileTransports dataset result.observations others)
  let events := result.events ++ extra ++ compared
  let now ← clock
  let committed ← rt.commit c
    ⟨.processed, .ok, none, some d, result.observations, events⟩ now
  -- a payload that is current again is work done, not a noop
  .ret (if committed.lostLease then
      ⟨c.run.id, c.run.scheduledFor, c.attempt.kind, .lostLease, 0, 0, none⟩
    else
      ⟨c.run.id, c.run.scheduledFor, c.attempt.kind,
        if committed.inserted ≠ 0 ∨ committed.occurrences ≠ 0 ∨ result.observations = [] then .ok
        else .noop,
        committed.inserted, events.length, none⟩)

/-- `process_one` once the payload is read. -/
def processPayload (c : Claim) (d : Derivation) (entry : CaptureEntry) (payload : Bytes) :
    Verb LRet ProcessReport := do
  let deliveryDay ← pyExcept (deliveryDayFor rt.zone c.run.scheduledFor)
  let processedAt ← clock
  match mapPayload rt.env rt.manifest payload
      (contextOf rt entry c.run.scheduledFor deliveryDay processedAt d.derivationId) with
  | .error (.quarantined q) => refuseQuarantined rt c d q
  | .error (.raised e) => .raise (.py e)
  | .ok result => do
    let extra ← pyExcept
      (completenessEvents rt.env.txt rt.zone rt.timezone result.observations)
    commitMapped rt c d result extra

/-- `rt.bronze.read`, with the exception that `process_one` catches. -/
def readPayload (ref : BlobRef) : Verb LRet (Except String Bytes) :=
  (Bronze.read rt.env.sha256 ref >>= fun o => .ret (.ok o.payload)).tryCatch fun
    | .bronzeError msg => .ret (.error msg)
    | e => .raise e

/-- `process_one` once the capture is found. -/
def processEntry (c : Claim) (d : Derivation) (entry : CaptureEntry) : Verb LRet ProcessReport := do
  let void ← rt.isInvalidated entry.captureId (some d.derivationId)
  if void then refuseInvalidated rt c d entry.captureId
  else do
    match ← readPayload rt entry.rawRef with
    | .error msg => fail rt c d msg
    | .ok payload => processPayload rt c d entry payload

/-- `claim.attempt.capture_id or run.capture_id`. -/
def Claim.capture (c : Claim) : Option CaptureId := c.attempt.captureId.or c.run.captureId

/-- `capture_id!r`. -/
def reprCapture (c : Option CaptureId) : String :=
  match c with
  | some c => rt.env.txt.repr c.text
  | none => "None"

def findEntry (c : Option CaptureId) : Verb LRet (Option CaptureEntry) :=
  match c with
  | some c => getEntry c
  | none => .ret none

def processOne (c : Claim) (d : Derivation) : Verb LRet ProcessReport := do
  match ← findEntry c.capture with
  | none => fail rt c d ("capture entry " ++ reprCapture rt c.capture ++ " not found in Bronze")
  | some entry => processEntry rt c d entry

/-! ## A pass -/

/-- `derivation_for(rt.manifest, parser_ref(rt.manifest))`. -/
def ownDerivation : Verb LRet Derivation :=
  match derivationFor rt.impl rt.manifest with
  | some d => .ret d
  | none => .raise (.py (.valueError
      (rt.env.txt.repr rt.manifest.contract.datasetId ++ " is not registered")))

/-- The loop of `process` over the runs it listed. -/
def processRuns (d : Derivation) (limit : Option Int) :
    List Run → List ProcessReport → Verb LRet (List ProcessReport)
  | [], reports => .ret reports
  | run :: rest, reports =>
    if limit.any fun n => n ≤ (reports.length : Int) then .ret reports
    else do
      let now ← clock
      match ← rt.claim run.id now with
      | none => processRuns d limit rest reports
      | some c => do
        let report ← processOne rt c d
        processRuns d limit rest (reports ++ [report])

def process (limit : Option Int) : Verb LRet (List ProcessReport) := do
  let now ← clock
  let _ ← reconcile rt (some rt.reconcileWindow) (some now)
  let d ← ownDerivation rt
  let runs ← rt.pendingRuns now
  processRuns rt d limit runs []

/-! ## The verbs that hand it work -/

/-- The loop of `replay_range` and `replay_derivation`: a replay for every run that is admitted. -/
def enqueueReplays (admits : Run → Bool) (now : Instant) :
    List Run → List RunAttempt → Verb LRet (List RunAttempt)
  | [], queued => .ret queued
  | run :: rest, queued =>
    if admits run then do
      let attempt ← rt.enqueueReplay run.id now
      enqueueReplays admits now rest (queued ++ attempt.toList)
    else enqueueReplays admits now rest queued

def replayRange (since until_ : Instant) : Verb LRet (List RunAttempt) := do
  let now ← clock
  let _ ← reconcile rt none (some now)
  let runs ← rt.runs (some since) (some until_)
  enqueueReplays rt (fun r => r.captureId.isSome) now runs []

def replayDerivation (d : DerivationId) : Verb LRet (List RunAttempt) := do
  let now ← clock
  let runs ← rt.runsWithDerivation d
  enqueueReplays rt (fun r => r.targetId = rt.targetId) now runs []

/-- The loop of `backfill` over the runs it listed. -/
def backfillRuns (limit : Option Int) : List Run → List CaptureReport → Verb LRet (List CaptureReport)
  | [], reports => .ret reports
  | run :: rest, reports =>
    if run.state ≠ .missingCapture then backfillRuns limit rest reports
    else if limit.any fun n => n ≤ (reports.length : Int) then .ret reports
    else do
      let report ← capture rt ⟨run.scheduledFor, none, false, .backfill⟩
      backfillRuns limit rest (reports ++ [report])

def backfill (limit : Option Int) : Verb LRet (List CaptureReport) := do
  let runs ← rt.runs none none
  backfillRuns rt limit runs []

/-- `None` when the day had no run to capture again. -/
structure RecaptureReport where
  deliveryDay : Day
  scheduledFor : Option Instant
  capture : Option CaptureReport

/-- The loop of `last_run_of_day`. -/
def newestOfDay (zone : Zone) (d : Day) :
    List CaptureEntry → Option Instant → Except PyError (Option Instant)
  | [], newest => .ok newest
  | e :: rest, newest => do
    let own ← deliveryDayFor zone e.scheduledFor
    newestOfDay zone d rest (if own = d ∧ (newest.all fun t => t < e.scheduledFor)
      then some e.scheduledFor else newest)

/-- The newest `scheduled_for` in the capture log whose delivery day is `d`. -/
def lastRunOfDay (d : Day) : Verb LRet (Option Instant) := do
  let (since, until_) ← pyExcept (deliveryDayBounds rt.zone d)
  let entries ← listEntries rt.targetId (some since) (some until_)
  pyExcept (newestOfDay rt.zone d entries none)

def recaptureDay (d : Day) : Verb LRet RecaptureReport := do
  match ← lastRunOfDay rt d with
  | none => .ret ⟨d, none, none⟩
  | some at_ => do
    let report ← capture rt ⟨at_, none, true, .capture⟩
    .ret ⟨d, some at_, some report⟩

/-- The days `back`, `back + 1`, … before `today`, `n` of them. -/
def recaptureDays (today : Day) (back : Int) : Nat → Verb LRet (List RecaptureReport)
  | 0 => .ret []
  | n + 1 => do
    let d ← pyExcept (checkedDay (today - back))
    let report ← recaptureDay rt d
    let rest ← recaptureDays today (back + 1) n
    .ret (report :: rest)

def recapture (days : Int) (now : Option Instant) : Verb LRet (List RecaptureReport) :=
  if days < 1 then .raise (.py (.valueError "days must be >= 1"))
  else do
    let now ← match now with
      | some t => .ret t
      | none => clock
    let today ← pyExcept (deliveryDayFor rt.zone now)
    recaptureDays rt today 1 days.toNat

/-! ## Invalidation -/

/-- The loop of the command `invalidate`: a decision for each capture, in Bronze and, where there is
a ledger, there too. The creation of each is reported. -/
def invalidate (ledger : Bool) (derivation : Option DerivationId) (reason by_ : String)
    (now : Instant) : List CaptureId → Verb LRet (List Bool)
  | [] => .ret []
  | c :: rest =>
    if ! (rt.targetId ++ ":").toList.isPrefixOf c.text.toList then .raise (.exit 1)
    else do
      match ← getEntry c with
      | none => .raise (.exit 1)
      | some _ => do
        let inv : Invalidation := ⟨rt.targetId, c, derivation, reason, by_, now⟩
        let created ← putInvalidation inv
        let _ ← if ledger then rt.addInvalidation inv else .ret false
        let others ← invalidate ledger derivation reason by_ now rest
        .ret (created :: others)

end Verbs

end EnergyPlatform
