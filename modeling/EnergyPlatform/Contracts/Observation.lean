import EnergyPlatform.Contracts.Registry

/-!
# Contracts.Observation

The canonical observation: one metric value for one observation identity, with its identity and
version identity.

Fixed-shape texts are kept as what they denote: a `derivation_id` is 16 lowercase hex digits and a
`payload_sha256` is 64, so both are numbers below a power of 16, and the order of such numbers is
the order of their texts. `dimensions` is an unordered mapping, kept sorted by key, which is the
form `observation_identity` takes.
-/

namespace EnergyPlatform

abbrev DerivationId := Fin (16 ^ 16)

abbrev Sha256 := Fin (16 ^ 64)

instance derivationId_card : NeZero (16 ^ 16) := ⟨by decide⟩

instance sha256_card : NeZero (16 ^ 64) := ⟨by decide⟩

inductive ObservationKind where
  | interval
  | point
deriving DecidableEq, Repr

/-- `[start, stop)` in UTC. -/
structure DeliveryInterval where
  start : Instant
  stop : Instant
  nonempty : start < stop
deriving DecidableEq

def DeliveryInterval.duration (i : DeliveryInterval) : Duration := i.stop - i.start

/-- A mapping from dimension to value, sorted by key. -/
structure Dimensions where
  entries : List (String × String)
  sorted : (entries.map Prod.fst).Pairwise (· < ·)
deriving DecidableEq

theorem Dimensions.sorted_single (key value : String) :
    ([(key, value)].map Prod.fst).Pairwise (· < ·) := List.pairwise_singleton _ _

def Dimensions.keys (d : Dimensions) : List String := d.entries.map Prod.fst

def Dimensions.get? (d : Dimensions) (key : String) : Option String :=
  (d.entries.find? fun p => p.1 = key).map Prod.snd

structure EnergyObservation where
  sourceId : String
  datasetId : String
  sourceTransport : Transport
  contractVersion : ContractVersion
  derivationId : DerivationId
  rawRef : String
  payloadSha256 : Sha256
  fetchedAt : Instant
  sourcePublishedAt : Option Instant
  sourceVersion : Option String
  processedAt : Instant
  deliveryInterval : DeliveryInterval
  resolution : String
  localDate : Day
  periodIndex : Option Nat
  kind : ObservationKind
  dimensions : Dimensions
  metric : String
  value : Option Decimal
  unit : String
  signConvention : Sign
deriving DecidableEq

def EnergyObservation.deliveryStartUtc (o : EnergyObservation) : Instant := o.deliveryInterval.start

def EnergyObservation.deliveryEndUtc (o : EnergyObservation) : Instant := o.deliveryInterval.stop

/-- Identity key, metric and `source_version` (`none` is a value). -/
structure ObservationIdentity where
  datasetId : String
  dimensions : List (String × String)
  deliveryStartUtc : Instant
  resolution : String
  metric : String
  sourceVersion : Option String
deriving DecidableEq

/-- The upsert key: same key, nothing is inserted. -/
structure VersionIdentity where
  identity : ObservationIdentity
  payloadSha256 : Sha256
  derivationId : DerivationId
deriving DecidableEq

def observationIdentity (o : EnergyObservation) : ObservationIdentity where
  datasetId := o.datasetId
  dimensions := o.dimensions.entries
  deliveryStartUtc := o.deliveryStartUtc
  resolution := o.resolution
  metric := o.metric
  sourceVersion := o.sourceVersion

def versionIdentity (o : EnergyObservation) : VersionIdentity :=
  ⟨observationIdentity o, o.payloadSha256, o.derivationId⟩

theorem versionIdentity_eq_iff {o o' : EnergyObservation} :
    versionIdentity o = versionIdentity o' ↔ observationIdentity o = observationIdentity o' ∧
      o.payloadSha256 = o'.payloadSha256 ∧ o.derivationId = o'.derivationId := by
  simp [versionIdentity]

end EnergyPlatform
