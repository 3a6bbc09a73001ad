import EnergyPlatform.Contracts.Calendar
import EnergyPlatform.Runtime.Cron
import EnergyPlatform.Runtime.Context

/-!
# Runtime.Gaps

The gap detector: the expected instants against Bronze and the ledger.
-/

namespace EnergyPlatform

open Lib (Dict Prog)

/-! ## `history.max_age` -/

section MaxAge

variable (txt : TextPrims)

/-- The digits of the groups of `_MAX_AGE`. -/
structure MaxAge where
  years : Option (Nat × Nat)
  months : Option (Nat × Nat)
  weeks : Option (Nat × Nat)
  days : Option (Nat × Nat)
  hours : Option (Nat × Nat)
  minutes : Option (Nat × Nat)

/-- `_MAX_AGE`. -/
def matchMaxAge (text : List Char) : Option MaxAge :=
  match text with
  | 'P' :: rest =>
    let (years, rest) := unitGroup txt 'Y' rest
    let (months, rest) := unitGroup txt 'M' rest
    let (weeks, rest) := unitGroup txt 'W' rest
    let (days, rest) := unitGroup txt 'D' rest
    match rest with
    | 'T' :: rest =>
      let (hours, rest) := unitGroup txt 'H' rest
      let (minutes, rest) := unitGroup txt 'M' rest
      if atEnd rest then some ⟨years, months, weeks, days, hours, minutes⟩ else none
    | rest => if atEnd rest then some ⟨years, months, weeks, days, none, none⟩ else none
  | _ => none

/-- `datetime(year, month, day)`, for a day that month has. -/
def civilDatetime (year : Int) (month dayOfMonth : Nat) : Except PyError Day :=
  if 1 ≤ year ∧ year ≤ 9999 then .ok (Ascii.dayOfCivil year.toNat month dayOfMonth)
  else .error (.valueError ("year " ++ toString year ++ " is out of range"))

/-- `_days_in_month`: the day before the first of the next month. -/
def daysInMonth (year : Int) (month : Nat) : Except PyError Nat := do
  let next ← civilDatetime (year + (month / 12 : Nat)) (month % 12 + 1) 1
  let last ← checkedDay (next - 1)
  .ok (civilOfDay last).day

/-- The wall clock `months` months before `wall`: the day is clamped, the time is kept. -/
def monthsBack (wall : Int) (months : Nat) : Except PyError Int := do
  let civil := civilOfDay (dayOf wall)
  let index := civil.year * 12 + (civil.month - 1) - months
  let year := index / 12
  let month := (index % 12).toNat + 1
  let length ← daysInMonth year month
  let date ← civilDatetime year month (min civil.day length)
  .ok (date * day + wall % day)

/-- `timedelta(…)`: the days are limited. -/
def checkedDelta (d : Duration) : Except PyError Duration :=
  if d / day ≤ timedeltaMaxDays then .ok d
  else .error (.overflowError "days must have magnitude <= 999999999")

/-- Oldest instant the source still serves; `none` when it serves no history at all. -/
def maxAgeCutoff (zone : Zone) (now : Instant) (maxAge : String) :
    Except PyError (Option Instant) :=
  if maxAge = "none" then .ok none
  else
    match if maxAge = "P" ∨ maxAge = "PT" then none else matchMaxAge txt maxAge.toList with
    | none => .error (.valueError
        ("history.max_age is not an ISO 8601 duration: " ++ txt.repr maxAge))
    | some g => do
      let years ← groupValue g.years
      let months ← groupValue g.months
      let weeks ← groupValue g.weeks
      let days ← groupValue g.days
      let hours ← groupValue g.hours
      let minutes ← groupValue g.minutes
      let wall ← checkedInstant (zone.toLocal now)
      let shifted ← monthsBack wall (years * 12 + months)
      let delta ← checkedDelta ((weeks * 7 + days : Nat) * day)
      let shifted ← checkedInstant (shifted - delta)
      let exact_ ← checkedDelta (hours * hour + minutes * minute)
      let instant ← checkedInstant (zone.ofLocal shifted)
      let cutoff ← checkedInstant (instant - exact_)
      .ok (some cutoff)

end MaxAge

/-! ## The verb -/

inductive GapKind where
  | pending
  | unprocessedCapture
  | missingCapture
  | unrecoverable
deriving DecidableEq, Repr

structure Gap where
  scheduledFor : Instant
  kind : GapKind
  action : String
deriving DecidableEq, Repr

/-- The event of an instant that is lost. -/
def gapEvent (maxAge : String) (t : Instant) : QualityEvent :=
  ⟨"unrecoverable_gap", .error,
    minuteText t ++ ": never captured and outside history.max_age " ++ maxAge, "", none⟩

section Verb

variable {L : Type} {LRet : L → Type} (rt : Runtime LRet)

def alert (t now : Instant) : Verb LRet Unit := do
  let _ ← rt.addEvents [gapEvent rt.manifest.maxAge t] none now
  .ret ()

/-- An instant with a capture-log entry. -/
def capturedInstant (entry : CaptureEntry) (run : Option Run) (t now : Instant) :
    Verb LRet (Option Gap) := do
  let run ← match run with
    | some r =>
      if r.captureId = none then
        rt.ensureRun t .captured .reconciled (some entry.captureId) now
      else .ret r
    | none => rt.ensureRun t .captured .reconciled (some entry.captureId) now
  .ret (if run.state ≠ .processed then
    some ⟨t, .unprocessedCapture, "replay: the next process run claims it"⟩ else none)

/-- An instant without an entry that the source still serves. -/
def missingInstant (run : Option Run) (t now : Instant) : Verb LRet (Option Gap) := do
  match run with
  | none => do
    let _ ← rt.ensureRun t .missingCapture .backfill none now
    .ret (some ⟨t, .missingCapture, "backfill: inside history.max_age"⟩)
  | some r =>
    if r.state = .scheduled ∨ r.state = .failed then do
      let _ ← rt.setState r.id .missingCapture now
      .ret (some ⟨t, .missingCapture, "backfill: inside history.max_age"⟩)
    else .ret (some ⟨t, .missingCapture, "backfill: inside history.max_age"⟩)

/-- An instant without an entry that the source serves no more. -/
def lostInstant (run : Option Run) (t now : Instant) : Verb LRet (Option Gap) := do
  match run with
  | none => do
    let _ ← rt.ensureRun t .unrecoverable .backfill none now
    alert rt t now
    .ret (some ⟨t, .unrecoverable, "alert: outside history.max_age, never captured"⟩)
  | some r =>
    if r.state ≠ .unrecoverable then do
      let _ ← rt.setState r.id .unrecoverable now
      alert rt t now
      .ret (some ⟨t, .unrecoverable, "alert: outside history.max_age, never captured"⟩)
    else .ret (some ⟨t, .unrecoverable, "alert: outside history.max_age, never captured"⟩)

/-- What a pass has read: the entries and the runs by instant, and its two bounds. -/
structure Expected where
  entries : Dict Instant CaptureEntry
  runs : Dict Instant Run
  tolerance : Duration
  cutoff : Option Instant
  now : Instant

def expectedInstant (x : Expected) (t : Instant) : Verb LRet (Option Gap) :=
  if x.now - t < x.tolerance then .ret (some ⟨t, .pending, "inside tolerance; nothing to do"⟩)
  else
    match x.entries.get? t with
    | some entry => capturedInstant rt entry (x.runs.get? t) t x.now
    | none =>
      if x.cutoff.any fun c => c ≤ t then missingInstant rt (x.runs.get? t) t x.now
      else lostInstant rt (x.runs.get? t) t x.now

def expectedInstants (x : Expected) : List Instant → Verb LRet (List Gap)
  | [] => .ret []
  | t :: rest => do
    let gap ← expectedInstant rt x t
    let gaps ← expectedInstants x rest
    .ret (gap.toList ++ gaps)

/-- `{e.scheduled_for: e}`: the last one wins. -/
def entriesByInstant (entries : List CaptureEntry) : Dict Instant CaptureEntry :=
  entries.foldl (fun d e => d.set e.scheduledFor e) .empty

def runsByInstant (runs : List Run) : Dict Instant Run :=
  runs.foldl (fun d r => d.set r.scheduledFor r) .empty

/-- `detect_gaps` once the bounds are known. The instants are enumerated before they are looked at;
their enumeration makes no call. -/
def detectFrom (tolerance : Duration) (cutoff : Option Instant) (lookback : Duration)
    (now : Instant) : Verb LRet (List Gap) := do
  let cadence := rt.manifest.cadence
  let start ← pyExcept (checkedInstant (now - lookback))
  let entries ← listEntries rt.targetId (some start) none
  let runs ← rt.runs (some start) none
  let instants ← pyExcept
    (cronInstants rt.env.txt (rt.env.zones cadence.timezone) cadence.cron start now)
  expectedInstants rt ⟨entriesByInstant entries, runsByInstant runs, tolerance, cutoff, now⟩ instants

/-- `lookback or rt.reconcile_window`: a lookback of zero counts as none. -/
def lookbackOf (lookback : Option Duration) : Duration :=
  match lookback with
  | some d => if d = 0 then rt.reconcileWindow else d
  | none => rt.reconcileWindow

/-- `detect_gaps` at a given time. -/
def detectAt (lookback : Option Duration) (now : Instant) : Verb LRet (List Gap) := do
  let smallest ← pyExcept (cadenceOf rt.env.txt (rt.env.zones rt.manifest.cadence.timezone)
    rt.manifest.cadence.cron now)
  let cutoff ← pyExcept (maxAgeCutoff rt.env.txt rt.zone now rt.manifest.maxAge)
  detectFrom rt (2 * smallest) cutoff (lookbackOf rt lookback) now

def detectGaps (lookback : Option Duration) (now : Option Instant) : Verb LRet (List Gap) := do
  let now ← match now with
    | some t => .ret t
    | none => clock
  detectAt rt lookback now

variable {rt}

/-- A pass whose bounds can be computed. -/
theorem detectGaps_of_bounds {lookback : Option Duration} {now smallest : Instant}
    {cutoff : Option Instant} (hc : cadenceOf rt.env.txt (rt.env.zones rt.manifest.cadence.timezone)
      rt.manifest.cadence.cron now = .ok smallest)
    (hm : maxAgeCutoff rt.env.txt rt.zone now rt.manifest.maxAge = .ok cutoff) :
    detectGaps rt lookback (some now) =
      detectFrom rt (2 * smallest) cutoff (lookbackOf rt lookback) now := by
  change detectAt rt lookback now = _
  unfold detectAt
  rw [hc, hm]
  rfl

end Verb

end EnergyPlatform
