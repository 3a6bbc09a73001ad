import EnergyPlatform.Contracts.Observation

/-!
# Contracts.Invalidation

Capture ids and durable invalidation decisions.

A capture id is the text `<target>:<stamp>:<attempt>`. It is kept as its three parts: a target id
contains no colon and neither does a stamp, so the text and the parts determine each other, and
`capture_id.split(":", 1)[0]` is the target.
-/

namespace EnergyPlatform

structure CaptureId where
  target : String
  /-- Seconds since the epoch; the stamp drops the fraction of the scheduled instant. -/
  stamp : Int
  attempt : Nat
deriving DecidableEq, Repr

def CaptureId.text (c : CaptureId) : String :=
  c.target ++ ":" ++ stampText c.stamp ++ ":" ++ toString c.attempt

/-- `f"{target_id}:{_stamp(scheduled_for)}:{attempt}"`. -/
def captureId (targetId : String) (scheduledFor : Instant) (attempt : Nat) : CaptureId :=
  ⟨targetId, scheduledFor / second, attempt⟩

/-- The output of `captureId` (for one derivation, or for every one) is known to be wrong. -/
structure Invalidation where
  targetId : String
  captureId : CaptureId
  derivationId : Option DerivationId
  reason : String
  recordedBy : String
  recordedAt : Instant
deriving DecidableEq

/-- The lowercase hexadecimal text of a number, `width` digits wide. -/
def hexText (width : Nat) (n : Nat) : String :=
  let digits := Nat.toDigits 16 n
  String.ofList (List.replicate (width - digits.length) '0' ++ digits)

/-- `invalidations/<target_id>/<stamp>_<attempt>[.<derivation>].json`. -/
def invalidationKey (targetId : String) (c : CaptureId) (derivationId : Option DerivationId) : String :=
  let scope := match derivationId with
    | none => ""
    | some d => "." ++ hexText 16 d.val
  "invalidations/" ++ targetId ++ "/" ++ stampText c.stamp ++ "_" ++ toString c.attempt ++ scope
    ++ ".json"

def Invalidation.key (i : Invalidation) : String :=
  invalidationKey i.targetId i.captureId i.derivationId

end EnergyPlatform
