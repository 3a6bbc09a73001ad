import EnergyPlatform.Mapping.Engine
import EnergyPlatform.Store.Ordering

/-!
# Mapping.Completeness

The status of each delivery day of a document, and the comparison of a document with the current
rows of the other transports. Both only add quality events.
-/

namespace EnergyPlatform

open Lib (Dict)

/-! ## Completeness -/

/-- The days of the observations, sorted. -/
def daysOf (observations : List EnergyObservation) : List Day :=
  (observations.map EnergyObservation.localDate).eraseDups.insertionSort fun a b => a ≤ b

/-- The periods of a day that carry at least one value. -/
def periodsOf (observations : List EnergyObservation) (d : Day) : List Instant :=
  ((observations.filter fun o => o.localDate = d ∧ o.value.isSome).map
    EnergyObservation.deliveryStartUtc).eraseDups

def partitionEvent (d : Day) (got expected : Nat) : QualityEvent :=
  let status := if expected ≤ got then "complete" else if got = 0 then "empty" else "partial"
  ⟨"partition_status", .info,
    isoDate d ++ ": " ++ status ++ " " ++ toString got ++ "/" ++ toString expected, "", none⟩

def partitionStatus (txt : TextPrims) (zone : Zone) (tz : String)
    (observations : List EnergyObservation) (resolution : String) :
    Except PyError (List QualityEvent) :=
  (daysOf observations).mapM fun d => do
    let expected ← localDayIntervals txt zone tz d resolution
    .ok (partitionEvent d (periodsOf observations d).length expected.length)

/-- `completeness_events`: one status for each resolution and day of the document. -/
def completenessEvents (txt : TextPrims) (zone : Zone) (tz : String)
    (observations : List EnergyObservation) : Except PyError (List QualityEvent) := do
  let resolutions := sortNames (observations.map EnergyObservation.resolution).eraseDups
  let events ← resolutions.mapM fun r =>
    partitionStatus txt zone tz (observations.filter fun o => o.resolution = r) r
  .ok events.flatten

/-! ## Other transports -/

/-- Each other transport's current value of an identity. -/
abbrev OtherCurrent := Dict ObservationIdentity (Transport × Option Decimal)

/-- `TOLERANCES`. -/
def tolerance (unit : String) : Decimal :=
  if unit = "EUR/MWh" then .finite false 1 (-2)
  else if unit = "MWh" then .finite false 1 (-3)
  else .finite false 0 0

def mismatchEvent (o : EnergyObservation) (owner : Transport) (value other : Decimal) :
    QualityEvent :=
  let own := o.sourceTransport = owner
  ⟨"reconciliation_mismatch", .warning,
    o.metric ++ " " ++ minuteText o.deliveryStartUtc ++ ": " ++ owner.name ++ "=" ++
      (if own then value else other).toText ++ " vs copy=" ++ (if own then other else value).toText ++
      " (tolerance " ++ (tolerance o.unit).toText ++ " " ++ o.unit ++ ")",
    "", some o.metric⟩

/-- The loop body of `reconcile_transports`. -/
def reconcileOne (reg : Registry) (others : OtherCurrent) (o : EnergyObservation) :
    Except PyError (List QualityEvent) :=
  match ownerTransportOf reg o, others.get? (observationIdentity o), o.value with
  | some owner, some (transport, some other), some value =>
    if transport = o.sourceTransport then .ok []
    else do
      let difference ← value.sub other
      let size ← difference.abs
      let large ← size.gt (tolerance o.unit)
      .ok (if large then [mismatchEvent o owner value other] else [])
  | _, _, _ => .ok []

def reconcileTransports (reg : Registry) (observations : List EnergyObservation)
    (others : OtherCurrent) : Except PyError (List QualityEvent) := do
  let events ← observations.mapM (reconcileOne reg others)
  .ok events.flatten

end EnergyPlatform
