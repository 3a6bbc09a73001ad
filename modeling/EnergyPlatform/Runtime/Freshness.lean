import EnergyPlatform.Contracts.DayTiling
import EnergyPlatform.Runtime.Gaps

/-!
# Runtime.Freshness

The freshness of a target: the partition of delivery periods an instant is in, what is expected of
it and by when, and how it is classified.

The store's answer to `count_periods` is a parameter, for it is read from the outside; so is the
`fold` of a clock reading, which decides a reading that occurs twice.
-/

namespace EnergyPlatform

/-- `SOURCE_TIMEZONE`, the civil time of the committed sources. -/
def sourceTimezone : String := "Europe/Prague"

/-- The readings of a clock that occur twice: whether an instant has the second occurrence of its
reading, and the instant of the second occurrence of a reading. -/
structure ZoneFold where
  fold : Instant → Bool
  ofSecond : Int → Instant

/-- `t.astimezone(zone).replace(…).astimezone(UTC)`: the reading keeps the `fold` of `t`. -/
def Zone.replaced (zone : Zone) (folds : ZoneFold) (t : Instant) (wall : Int) : Instant :=
  if folds.fold t then folds.ofSecond wall else zone.ofLocal wall

structure FreshTarget where
  manifest : Manifest
  templates : List String

def FreshTarget.timezone (target : FreshTarget) : String := target.manifest.mapping.time.timezone

/-! ## The month a request names -/

section MonthOffset

variable (txt : TextPrims)

def bracketed : List Char → Option Nat
  | a :: b :: rest =>
    match txt.digit a, txt.digit b with
    | none, _ => none
    | some x, none => if b = ']' then some x else none
    | some x, some y => if rest.head? = some ']' then some (10 * x + y) else none
  | _ => none

def searchMonthIndex : List Char → Option Nat
  | [] => none
  | c :: cs =>
    let here := if "month_start[".toList.isPrefixOf (c :: cs)
      then bracketed txt ((c :: cs).drop "month_start[".length) else none
    match here with
    | some k => some k
    | none => searchMonthIndex cs

/-- `k` when the request names `month_start[k]`. -/
def monthOffset (target : FreshTarget) : Option Nat :=
  target.templates.findSome? fun template => searchMonthIndex txt template.toList

example : searchMonthIndex Ascii.text "{month_start[1]:%Y-%m-%d}".toList = some 1 := by decide

end MonthOffset

/-! ## Partitions -/

structure PartitionBounds where
  start : Instant
  stop : Instant
  expected : Int
deriving DecidableEq, Repr

/-- `min(resolutions, key=parse_duration)`. -/
def finestResolution (txt : TextPrims) (resolutions : List String) : Except PyError String := do
  let keyed ← resolutions.mapM fun r => (parseDuration txt r).map fun step => (r, step.val)
  match keyed with
  | [] => .error (.valueError "min() iterable argument is empty")
  | p :: rest => .ok (rest.foldl (fun best q => if q.2 < best.2 then q else best) p).1

def wrapMonth (year month : Int) : Int × Int :=
  if month < 1 then wrapMonth (year - 1) (month + 12) else (year, month)
termination_by (1 - month).toNat

def shiftMonth (d : Day) (monthsBack : Nat) : Int × Int :=
  wrapMonth (civilOfDay d).year ((civilOfDay d).month - monthsBack)

def monthDays (year month : Int) : Except PyError (List Day) := do
  let first ← civilDatetime year month.toNat 1
  let next ← civilDatetime (year + month / 12) (month % 12 + 1).toNat 1
  .ok ((List.range (next - first).toNat).map fun i : Nat => first + (i : Int))

/-- `days[0][0].start, days[-1][-1].end, sum(len(d) for d in days)`. -/
def spanOf (days : List (List DeliveryInterval)) : Except PyError PartitionBounds :=
  match days.head?.bind List.head?, days.getLast?.bind List.getLast? with
  | some first, some last => .ok ⟨first.start, last.stop, (days.map List.length).sum⟩
  | _, _ => .error (.indexError "tuple index out of range")

section Bounds

variable (env : Env) (folds : String → ZoneFold) (target : FreshTarget)

/-- `local_day_intervals(d, resolution)`: in the zone that the function defaults to. -/
def sourceDayIntervals (resolution : String) (d : Day) : Except PyError (List DeliveryInterval) :=
  localDayIntervals env.txt (env.zones sourceTimezone) sourceTimezone d resolution

def monthPartition (resolution : String) (now : Instant) (monthsBack : Nat) :
    Except PyError PartitionBounds := do
  let d ← deliveryDayFor (env.zones target.timezone) now
  let days ← monthDays (shiftMonth d monthsBack).1 (shiftMonth d monthsBack).2
  let intervals ← days.mapM (sourceDayIntervals env resolution)
  spanOf intervals

/-- The full hour is that of the local clock; the hours before it are counted in UTC. -/
def hourPartition (resolution : String) (now : Instant) (back : Nat) :
    Except PyError PartitionBounds := do
  let wall ← checkedInstant ((env.zones target.timezone).toLocal now)
  let full ← checkedInstant
    ((env.zones target.timezone).replaced (folds target.timezone) now (wall - wall % hour))
  let delta ← checkedDelta (back * hour)
  let start ← checkedInstant (full - delta)
  let stop ← checkedInstant (start + hour)
  let step ← parseDuration env.txt resolution
  .ok ⟨start, stop, hour / step.val⟩

def dayPartition (resolution : String) (now : Instant) (back : Nat) :
    Except PyError PartitionBounds := do
  let today ← deliveryDayFor (env.zones target.timezone) now
  let _ ← checkedDelta (back * day)
  let d ← checkedDay (today - back)
  let intervals ← sourceDayIntervals env resolution d
  spanOf [intervals]

/-- The partition that contains `now`, or the one `back` partitions earlier. -/
def partitionBounds (now : Instant) (back : Nat) : Except PyError PartitionBounds :=
  match dataset target.manifest.contract.datasetId with
  | none => .error (.valueError
      (env.txt.repr target.manifest.contract.datasetId ++ " is not registered"))
  | some contract => do
    let resolution ← finestResolution env.txt contract.resolutions
    match monthOffset env.txt target with
    | some offset => monthPartition env target resolution now (offset + back)
    | none =>
      match contract.partition with
      | .hour => hourPartition env folds target resolution now back
      | .day => dayPartition env target resolution now back

end Bounds

/-! ## Classification -/

inductive FreshnessStatus where
  | complete
  | pending
  | late
  | incomplete
deriving DecidableEq, Repr

structure PartitionStatus where
  start : Instant
  stop : Instant
  expectedPeriods : Int
  observedPeriods : Int
  expectedBy : Instant
  status : FreshnessStatus
deriving DecidableEq, Repr

section Classify

variable (env : Env) (folds : String → ZoneFold) (target : FreshTarget)

def cadenceInstants (start stop : Instant) : Except PyError (List Instant) :=
  cronInstants env.txt (env.zones target.manifest.cadence.timezone) target.manifest.cadence.cron
    start stop

/-- The first firing of the month of `now`, the run that asks for a month partition. -/
def monthInstant (now : Instant) : Except PyError Instant := do
  let zone := env.zones target.manifest.cadence.timezone
  let wall ← checkedInstant (zone.toLocal now)
  let thisMonth := (dayOf wall - (civilOfDay (dayOf wall)).day + 1) * day
  let before ← checkedInstant (thisMonth - minute)
  let after ← checkedInstant (thisMonth + 62 * day)
  let instants ← cadenceInstants env target (zone.ofLocal before) (zone.ofLocal after)
  match instants.head? with
  | some t => .ok t
  | none => checkedInstant (zone.replaced (folds target.manifest.cadence.timezone) now thisMonth)

def partitionDeadline (now : Instant) (p : PartitionBounds) : Except PyError (Instant × Instant) :=
  match monthOffset env.txt target with
  | some _ => do
    let first ← monthInstant env folds target now
    let window ← checkedDelta ((target.manifest.cadence.correctionDays.getD 0 : Nat) * day)
    let expectedBy ← checkedInstant (first + window)
    .ok (first, expectedBy)
  | none => do
    let start ← checkedInstant (p.start - minute)
    let stop ← checkedInstant (p.stop - minute)
    let instants ← cadenceInstants env target start stop
    let cadence ← cadenceOf env.txt (env.zones target.manifest.cadence.timezone)
      target.manifest.cadence.cron now
    let expectedBy ← checkedInstant (instants.getLast?.getD p.stop + 2 * cadence)
    .ok (instants.head?.getD p.start, expectedBy)

def statusAt (now : Instant) (expected observed : Int) (first expectedBy : Instant) :
    FreshnessStatus :=
  if expected ≤ observed then .complete
  else if now < first then .pending
  else if expectedBy < now then .late
  else .incomplete

/-- `classify_partition`, of a store that counts `count start stop` complete periods. -/
def classifyPartition (count : Instant → Instant → Int) (now : Instant) (back : Nat) :
    Except PyError PartitionStatus := do
  let p ← partitionBounds env folds target now back
  let (first, expectedBy) ← partitionDeadline env folds target now p
  let observed := count p.start p.stop
  .ok ⟨p.start, p.stop, p.expected, observed, expectedBy,
    statusAt now p.expected observed first expectedBy⟩

end Classify

end EnergyPlatform
