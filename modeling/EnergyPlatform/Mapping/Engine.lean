import EnergyPlatform.Mapping.Quality
import EnergyPlatform.Parse.Generic

/-!
# Mapping.Engine

Source records to observations, as the mapping block says.

A document is either mapped, refused whole (`MapError.quarantined`), or mapping it raises an
exception that nothing catches (`MapError.raised`): an `OverflowError` or a signal of `decimal` is
not a `ValueError`.
-/

namespace EnergyPlatform

open Lib (Dict)

/-- Everything the envelope needs that is not in the document. -/
structure MappingContext where
  targetId : String
  scheduledFor : Instant
  deliveryDay : Day
  fetchedAt : Instant
  rawRef : String
  payloadSha256 : Sha256
  processedAt : Instant
  derivationId : DerivationId
deriving DecidableEq

structure MappingResult where
  observations : List EnergyObservation
  events : List QualityEvent

inductive MapError where
  | quarantined (q : Quarantined)
  | raised (e : PyError)
deriving DecidableEq

/-- The running interpreter and libraries: text routines, decoders, the call stack that is left,
the tz database, SHA-256. -/
structure Env where
  txt : TextPrims
  libs : DecodeLibs
  stack : CallStack
  zones : String → Zone
  sha256 : Bytes → Sha256

variable (env : Env)

abbrev Mapped (α : Type) := Except MapError α

def quarantine {α : Type} (reason locator : String) : Mapped α :=
  .error (.quarantined ⟨reason, locator⟩)

/-! ## Field references and coercions -/

/-- What a reference yields: a cell, or a date or datetime of the context. -/
inductive RefValue where
  | cell (c : Cell)
  | date (d : Day)
  | datetime (t : Instant)
deriving DecidableEq

/-- `datetime.isoformat` of a UTC datetime. -/
def isoDatetime (t : Instant) : String :=
  let us := (t % day).toNat
  let s := us / 1000000
  let fraction := if us % 1000000 = 0 then "" else "." ++ pad 6 (us % 1000000)
  isoDate (t / day) ++ "T" ++ pad 2 (s / 3600) ++ ":" ++ pad 2 (s / 60 % 60) ++ ":" ++ pad 2 (s % 60)
    ++ fraction ++ "+00:00"

def RefValue.repr (txt : TextPrims) : RefValue → String
  | cell c => c.repr txt
  | date d =>
    let c := civilOfDay d
    "datetime.date(" ++ toString c.year ++ ", " ++ toString c.month ++ ", " ++ toString c.day ++ ")"
  | datetime t =>
    let c := civilOfDay (t / day)
    let us := (t % day).toNat
    let s := us / 1000000
    let seconds := if us % 60000000 = 0 then "" else ", " ++ toString (s % 60)
    let fraction := if us % 1000000 = 0 then "" else ", " ++ toString (us % 1000000)
    "datetime.datetime(" ++ toString c.year ++ ", " ++ toString c.month ++ ", " ++ toString c.day
      ++ ", " ++ toString (s / 3600) ++ ", " ++ toString (s / 60 % 60) ++ seconds ++ fraction
      ++ ", tzinfo=datetime.timezone.utc)"

def contextValue (field : ContextField) (ctx : MappingContext) : RefValue :=
  match field with
  | .deliveryDay => .date ctx.deliveryDay
  | .scheduledFor => .datetime ctx.scheduledFor

def refValue (ref : FieldRef) (record : SourceRecord) (ctx : MappingContext) : RefValue :=
  match ref with
  | .source name => .cell (record.get name)
  | .constant text => .cell (.text text)
  | .context field => contextValue field ctx

def textOfRef (value : RefValue) (what locator : String) : Mapped String :=
  match value with
  | .cell .none => quarantine (what ++ " is empty") locator
  | .cell (.text s) =>
    if env.txt.strip s = "" then quarantine (what ++ " is empty") locator
    else .ok (env.txt.strip s)
  | .cell c => .ok (env.txt.strip c.toText)
  | .date d => .ok (env.txt.strip (isoDate d))
  | .datetime t => .ok (isoDatetime t)

/-- `int` of a text of `str.isdigit` characters. -/
def intOfDigits (text : List Char) : Except PyError Int :=
  match digitRun env.txt text with
  | (n, len, []) => (intOfRun n len).map Int.ofNat
  | _ => .error (.valueError ("invalid literal for int() with base 10: " ++
      env.txt.repr (String.ofList text)))

/-- Whether a finite decimal is integral, and the integer it is. -/
def integralOf (neg : Bool) (coeff : Nat) (exp : Int) : Option Int :=
  let scaled := if 0 ≤ exp then some (coeff * 10 ^ exp.toNat)
    else if coeff % 10 ^ (-exp).toNat = 0 then some (coeff / 10 ^ (-exp).toNat) else none
  scaled.map fun n => if neg then -(n : Int) else n

/-- `_int`; an exception of the conversion itself is left to the caller. -/
def intOfRef (value : RefValue) (what locator : String) : Mapped (Except PyError Int) :=
  let refused : Mapped (Except PyError Int) :=
    quarantine (what ++ " is not an integer: " ++ value.repr env.txt) locator
  match value with
  | .cell .none => quarantine (what ++ " is empty or not a number") locator
  | .cell (.bool _) => quarantine (what ++ " is empty or not a number") locator
  | .cell (.int n) => .ok (.ok n)
  | .cell (.decimal (.finite neg coeff exp)) =>
    match integralOf neg coeff exp with
    | some n => .ok (.ok n)
    | none => refused
  | .cell (.decimal (.infinity _)) =>
    .ok (.error (.overflowError "cannot convert Infinity to integer"))
  | .cell (.decimal (.nan true)) => .ok (.error (.invalidOperation "sNaN"))
  | .cell (.decimal (.nan false)) => refused
  | .cell (.text s) =>
    let text := (env.txt.strip s).toList
    if text ≠ [] ∧ text.all env.txt.isDigit then .ok (intOfDigits env text) else refused
  | .date _ => refused
  | .datetime _ => refused

def dateOfRef (value : RefValue) (locator : String) : Mapped Day :=
  match value with
  | .datetime t => .ok (dayOf t)
  | .date d => .ok d
  | .cell c => do
    let text ← textOfRef env (.cell c) "date" locator
    match env.txt.dateOfIso (if 10 ≤ text.length then String.ofList (text.toList.take 10) else text) with
    | some d => .ok d
    | none => quarantine ("date is not ISO 8601: " ++ env.txt.repr text) locator

/-- `_datetime`: the instant of an offset-aware datetime, nothing for an empty cell. -/
def datetimeOfRef (value : RefValue) (what locator : String) : Mapped (Option Instant) :=
  match value with
  | .cell .none => .ok none
  | .datetime t => .ok (some t)
  | .cell (.text s) =>
    if env.txt.strip s = "" then .ok none
    else
      match env.txt.datetimeOfIso (env.txt.strip s) with
      | none => quarantine (what ++ " is not ISO 8601: " ++ env.txt.repr s) locator
      | some ⟨_, none⟩ =>
        quarantine (what ++ " carries no UTC offset: " ++ env.txt.repr s ++ " (01 §7)") locator
      | some ⟨wall, some offset⟩ => .ok (some (wall - offset))
  | value => quarantine (what ++ " is not a timestamp: " ++ value.repr env.txt) locator

/-! ## Time -/

/-- `except (ValueError, IndexError) as exc: raise Quarantined(f"time: {exc}", locator)`. -/
def timeError {α : Type} (locator : String) : Except PyError α → Mapped α
  | .ok a => .ok a
  | .error (.valueError msg) => quarantine ("time: " ++ msg) locator
  | .error (.indexError msg) => quarantine ("time: " ++ msg) locator
  | .error e => .error (.raised e)

/-- `instant.astimezone(zone).date()`. -/
def civilDate (zone : Zone) (t : Instant) : Except PyError Day :=
  (checkedInstant (zone.toLocal t)).map dayOf

def timeOf (m : TimeMapping) (record : SourceRecord) (ctx : MappingContext) (resolution : String) :
    Mapped (DeliveryInterval × Day × Option Int) :=
  let zone := env.zones m.timezone
  match m.kind with
  | .periodIndex date index => do
    let localDate ← dateOfRef env (refValue date record ctx) record.locator
    let index ← intOfRef env (refValue index record ctx) "period_index" record.locator
    let index ← timeError record.locator index
    let interval ← timeError record.locator
      (intervalForIndex env.txt zone m.timezone localDate index resolution)
    .ok (interval, localDate, some index)
  | .timestamp stamp => do
    match ← datetimeOfRef env (refValue stamp record ctx) "timestamp" record.locator with
    | none => quarantine "timestamp is empty" record.locator
    | some ts =>
      let interval ← timeError record.locator
        (intervalFromTimestamp env.txt ts resolution m.intervalLabel)
      let localDate ← timeError record.locator (civilDate zone interval.start)
      .ok (interval, localDate, none)

/-! ## One observation -/

/-- `repr` of a tuple of strings. -/
def reprTuple (txt : TextPrims) (l : List String) : String :=
  match l with
  | [s] => "(" ++ txt.repr s ++ ",)"
  | l => "(" ++ ", ".intercalate (l.map txt.repr) ++ ")"

/-- `raise ValueError(msg)` inside a model validator. -/
def invalid (cond : Prop) [Decidable cond] (msg : String) : Except String Unit :=
  if cond then .error ("Value error, " ++ msg) else .ok ()

/-- `_against_registry`, for an observation of a registered dataset. -/
def againstRegistry (txt : TextPrims) (contract : DatasetContract) (o : EnergyObservation) :
    Except String Unit := do
  match contract.metric o.metric with
  | none => .error ("Value error, metric " ++ txt.repr o.metric ++ " is not registered for " ++ o.datasetId
      ++ " (registered: " ++ reprList txt (sortNames (contract.metrics.map MetricSpec.name)) ++ ")")
  | some spec =>
    invalid (o.unit ≠ spec.unit) ("unit " ++ txt.repr o.unit ++ " for " ++ o.metric ++
      " must be the registry unit " ++ txt.repr spec.unit)
    let expected := sortNames contract.manifestDimensions
    invalid (o.dimensions.keys ≠ expected) ("dimensions keys " ++ reprList txt o.dimensions.keys ++
      " must be exactly " ++ reprList txt expected ++
      " (identity key minus ('delivery_start_utc', 'resolution') and version)")
    match contract.fixedDimensions.find? fun p => o.dimensions.get? p.1 ≠ some p.2 with
    | some (key, fixed) => .error ("Value error, dimension " ++ key ++ "=" ++
        txt.repr ((o.dimensions.get? key).getD "") ++ " must be " ++ txt.repr fixed)
    | none =>
      match contract.allowedDimensionValues.find? fun p =>
          ! p.2.any fun v => o.dimensions.get? p.1 = some v with
      | some (key, allowed) => .error ("Value error, dimension " ++ key ++ "=" ++
          txt.repr ((o.dimensions.get? key).getD "") ++ " not in " ++ reprTuple txt allowed)
      | none =>
        invalid (contract.versionInIdentity ∧ o.sourceVersion = none) (o.datasetId ++
          " carries `version` in its identity key: source_version is required")
        invalid (o.resolution ∉ contract.resolutions) ("resolution " ++ txt.repr o.resolution ++
          " not declared for " ++ o.datasetId ++ " (declared: " ++ reprTuple txt contract.resolutions ++ ")")

/-- `EnergyObservation(…)`: the first validation error, or the exception of a validator. The
length of the interval is that of its resolution by construction. -/
def validated (contract : DatasetContract) (name locator : String) (o : EnergyObservation) :
    Mapped EnergyObservation :=
  match o.sourcePublishedAt.mapM checkedInstant with
  | .error e => .error (.raised e)
  | .ok _ =>
    if o.value.any fun v => ! v.isFinite then
      quarantine (name ++ ": Input should be a finite number") locator
    else
      match againstRegistry env.txt contract o with
      | .error msg => quarantine (name ++ ": " ++ msg) locator
      | .ok _ => .ok o

structure Envelope where
  resolution : String
  interval : DeliveryInterval
  localDate : Day
  periodIndex : Option Int
  sourceVersion : Option String
  publishedAt : Option Instant

def optionalRef {α : Type} (ref : Option FieldRef) (read : FieldRef → Mapped (Option α)) :
    Mapped (Option α) :=
  match ref with
  | none => .ok none
  | some r => read r

/-- The part of `_map_one` before its loop. -/
def envelopeOf (m : MappingBlock) (record : SourceRecord) (ctx : MappingContext) :
    Mapped Envelope := do
  let resolution ← textOfRef env (refValue m.time.resolution record ctx) "resolution" record.locator
  let (interval, localDate, periodIndex) ← timeOf env m.time record ctx resolution
  let sourceVersion ← optionalRef m.sourceVersion fun r =>
    (textOfRef env (refValue r record ctx) "source_version" record.locator).map some
  let publishedAt ← optionalRef m.sourcePublishedAt fun r =>
    datetimeOfRef env (refValue r record ctx) "source_published_at" record.locator
  .ok ⟨resolution, interval, localDate, periodIndex, sourceVersion, publishedAt⟩

/-- `value < 0` for a value that is there. -/
def negative (value : Option Decimal) : Except PyError Bool :=
  match value with
  | none => .ok false
  | some v => v.ltZero

/-- `except ValueError as exc: raise Quarantined(f"{name}: {exc}", locator)`. -/
def valueError {α : Type} (name locator : String) : Except PyError α → Mapped α
  | .ok a => .ok a
  | .error (.valueError msg) => quarantine (name ++ ": " ++ msg) locator
  | .error e => .error (.raised e)

def raisedOr {α : Type} : Except PyError α → Mapped α
  | .ok a => .ok a
  | .error e => .error (.raised e)

def valueText (value : Option Decimal) : String :=
  match value with
  | none => "None"
  | some v => v.toText

/-- The value of a metric of a record: a pure function of the record and the mapping. -/
def metricValue (mm : MetricMapping) (record : SourceRecord) : Except PyError (Option Decimal) := do
  let value ← parseDecimal env.txt (record.get mm.source) mm.decimalSeparator
  applySign value mm.sign

/-- The loop body of `_map_one`: the observation and the event it raises. -/
def mapMetric (manifest : Manifest) (contract : DatasetContract) (record : SourceRecord)
    (ctx : MappingContext) (e : Envelope) (name : String) (mm : MetricMapping) :
    Mapped (EnergyObservation × List QualityEvent) := do
  match contract.metric name with
  | none => quarantine ("metric " ++ env.txt.repr name ++ " is not registered") record.locator
  | some spec =>
    let value ← valueError name record.locator (metricValue env mm record)
    let isNegative ← raisedOr (negative value)
    if isNegative ∧ spec.sign = .nonNegative then
      quarantine (name ++ ": negative value " ++ valueText value ++ " for a non-negative metric")
        record.locator
    else
      let events := if isNegative ∧ spec.sign = .nonNegativeExpected then
        [⟨"negative_value", .warning, name ++ " = " ++ valueText value ++
          " (registry: >= 0 expected, not enforced)", record.locator, some name⟩] else []
      let o ← validated env contract name record.locator
        { sourceId := contract.sourceId
          datasetId := contract.datasetId
          sourceTransport := manifest.contract.sourceTransport
          contractVersion := contract.contractVersion
          derivationId := ctx.derivationId
          rawRef := ctx.rawRef
          payloadSha256 := ctx.payloadSha256
          fetchedAt := ctx.fetchedAt
          sourcePublishedAt := e.publishedAt
          sourceVersion := e.sourceVersion
          processedAt := ctx.processedAt
          deliveryInterval := e.interval
          resolution := e.resolution
          localDate := e.localDate
          periodIndex := e.periodIndex.map Int.toNat
          kind := .interval
          dimensions := manifest.mapping.dimensions
          metric := name
          value := value
          unit := mm.unit
          signConvention := mm.sign }
      .ok (o, events)

/-! ## The document -/

abbrev Seen := Dict ObservationIdentity EnergyObservation

/-- `earlier.value != value`. -/
def sameValue (a b : Option Decimal) : Bool :=
  match a, b with
  | none, none => true
  | some x, some y => x.eq y
  | _, _ => false

/-- The check on an observation whose identity was seen before; the first one is kept. -/
def noteObservation (locator : String) (seen : Seen) (o : EnergyObservation) : Mapped Seen :=
  match seen.get? (observationIdentity o) with
  | none => .ok (seen.set (observationIdentity o) o)
  | some earlier =>
    if sameValue earlier.value o.value then .ok seen
    else
      quarantine (o.metric ++ " for " ++ minuteText o.deliveryStartUtc ++
        " appears twice with different values (" ++ valueText earlier.value ++ " vs " ++
        valueText o.value ++ ")") locator

structure MapState where
  seen : Seen
  events : List QualityEvent
  unknown : List String

def mapMetricInto (manifest : Manifest) (contract : DatasetContract) (record : SourceRecord)
    (ctx : MappingContext) (e : Envelope) (s : MapState) (p : String × MetricMapping) :
    Mapped MapState := do
  let (o, events) ← mapMetric env manifest contract record ctx e p.1 p.2
  let seen ← noteObservation record.locator s.seen o
  .ok { s with seen := seen, events := s.events ++ events }

/-- The fields of a record that the mapping neither reads nor ignores. -/
def unknownFields (m : MappingBlock) (record : SourceRecord) : List String :=
  (record.fields.map Prod.fst).filter fun f =>
    ! (mappedSourceFields m).contains f && ! m.ignoreFields.contains f

def mapRecordInto (manifest : Manifest) (contract : DatasetContract) (ctx : MappingContext)
    (s : MapState) (record : SourceRecord) : Mapped MapState := do
  let s := { s with unknown := s.unknown ++ unknownFields manifest.mapping record }
  let e ← envelopeOf env manifest.mapping record ctx
  manifest.mapping.metrics.foldlM (mapMetricInto env manifest contract record ctx e) s

def mapRecords (manifest : Manifest) (records : List SourceRecord) (ctx : MappingContext) :
    Mapped MappingResult :=
  match dataset manifest.contract.datasetId with
  | none =>
    quarantine ("dataset " ++ env.txt.repr manifest.contract.datasetId ++ " is not registered") ""
  | some contract => do
    let s ← records.foldlM (mapRecordInto env manifest contract ctx) ⟨.empty, [], []⟩
    let unknown := sortNames s.unknown.eraseDups
    let events := if unknown = [] then s.events else s.events ++
      [⟨"unknown_field", .warning, "fields not referenced by the mapping: " ++
        reprList env.txt unknown, "", none⟩]
    .ok ⟨s.seen.values, events⟩

end EnergyPlatform
