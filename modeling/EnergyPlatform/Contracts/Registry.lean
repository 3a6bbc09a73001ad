import EnergyPlatform.Contracts.Decimals

/-!
# Contracts.Registry

The dataset registry: the typed contracts a target may reference. A target registers a contract;
it cannot invent dimensions, units or metric names.
-/

namespace EnergyPlatform

inductive SignRule where
  | negativeAllowed
  | nonNegative
  | nonNegativeExpected
deriving DecidableEq, Repr

inductive Transport where
  | soap
  | xlsx
  | html
  | rest
deriving DecidableEq, Repr

def Transport.name : Transport → String
  | soap => "soap"
  | xlsx => "xlsx"
  | html => "html"
  | rest => "rest"

/-- `get_args(Transport)`. -/
def Transport.all : List Transport := [.soap, .xlsx, .html, .rest]

/-- A semantic version `major.minor.patch`; the pattern of the field admits nothing else. -/
structure ContractVersion where
  major : Nat
  minor : Nat
  patch : Nat
deriving DecidableEq, Repr

def ContractVersion.text (v : ContractVersion) : String :=
  toString v.major ++ "." ++ toString v.minor ++ "." ++ toString v.patch

structure MetricSpec where
  name : String
  unit : String
  currency : Option String
  sign : SignRule
  ownerTransport : Option Transport
deriving DecidableEq, Repr

inductive Partition where
  | day
  | hour
deriving DecidableEq, Repr

structure DatasetContract where
  datasetId : String
  sourceId : String
  contractVersion : ContractVersion
  identityKey : List String
  fixedDimensions : List (String × String)
  metrics : List MetricSpec
  resolutions : List String
  allowedDimensionValues : List (String × List String)
  partition : Partition
deriving DecidableEq, Repr

namespace DatasetContract

def metric (c : DatasetContract) (name : String) : Option MetricSpec :=
  c.metrics.find? fun s => s.name = name

def timeDimensions : List String := ["delivery_start_utc", "resolution"]

def versionDimension : String := "version"

/-- Identity dimensions the manifest must supply as constants, in identity-key order. -/
def manifestDimensions (c : DatasetContract) : List String :=
  c.identityKey.filter fun d => d ∉ timeDimensions ∧ d ≠ versionDimension

def versionInIdentity (c : DatasetContract) : Bool := versionDimension ∈ c.identityKey

end DatasetContract

def oteIdmContinuous : DatasetContract where
  datasetId := "ote.idm_continuous"
  sourceId := "ote"
  contractVersion := ⟨1, 0, 0⟩
  identityKey := ["bidding_zone", "delivery_start_utc", "resolution"]
  fixedDimensions := [("bidding_zone", "CZ")]
  resolutions := ["PT15M", "PT60M"]
  allowedDimensionValues := []
  partition := .day
  metrics :=
    [⟨"price_vwap", "EUR/MWh", some "EUR", .negativeAllowed, some .soap⟩,
     ⟨"volume_total", "MWh", none, .nonNegative, some .soap⟩,
     ⟨"volume_buy", "MWh", none, .nonNegative, some .xlsx⟩,
     ⟨"volume_sell", "MWh", none, .nonNegative, some .xlsx⟩,
     ⟨"price_min", "EUR/MWh", some "EUR", .negativeAllowed, some .xlsx⟩,
     ⟨"price_max", "EUR/MWh", some "EUR", .negativeAllowed, some .xlsx⟩,
     ⟨"price_last", "EUR/MWh", some "EUR", .negativeAllowed, some .xlsx⟩]

def oteDam : DatasetContract where
  datasetId := "ote.dam"
  sourceId := "ote"
  contractVersion := ⟨1, 0, 0⟩
  identityKey := ["bidding_zone", "delivery_start_utc", "resolution"]
  fixedDimensions := [("bidding_zone", "CZ")]
  resolutions := ["PT15M", "PT60M"]
  allowedDimensionValues := []
  partition := .day
  metrics :=
    [⟨"price", "EUR/MWh", some "EUR", .negativeAllowed, some .soap⟩,
     ⟨"price_hourly", "EUR/MWh", some "EUR", .negativeAllowed, some .soap⟩,
     ⟨"volume_total", "MWh", none, .nonNegative, some .soap⟩,
     ⟨"emergency_state", "1", none, .nonNegative, some .soap⟩]

def cepsLoad : DatasetContract where
  datasetId := "ceps.load"
  sourceId := "ceps"
  contractVersion := ⟨1, 0, 0⟩
  identityKey := ["area", "delivery_start_utc", "resolution", "aggregation_function", "version"]
  fixedDimensions := [("area", "CZ")]
  resolutions := ["PT15M"]
  allowedDimensionValues := [("aggregation_function", ["AVG"])]
  partition := .hour
  metrics :=
    [⟨"load_incl_pumping", "MW", none, .nonNegativeExpected, some .soap⟩,
     ⟨"load", "MW", none, .nonNegativeExpected, some .soap⟩]

def oteImbalanceSettlement : DatasetContract where
  datasetId := "ote.imbalance_settlement"
  sourceId := "ote"
  contractVersion := ⟨1, 0, 0⟩
  identityKey := ["bidding_zone", "delivery_start_utc", "resolution", "version"]
  fixedDimensions := [("bidding_zone", "CZ")]
  resolutions := ["PT15M", "PT60M"]
  allowedDimensionValues := []
  partition := .day
  metrics :=
    [⟨"system_imbalance", "MWh", none, .negativeAllowed, some .soap⟩,
     ⟨"imbalance_price", "CZK/MWh", some "CZK", .negativeAllowed, some .soap⟩,
     ⟨"counter_imbalance_price", "CZK/MWh", some "CZK", .negativeAllowed, some .soap⟩]

def datasets : List DatasetContract :=
  [oteIdmContinuous, oteDam, cepsLoad, oteImbalanceSettlement]

/-- A registry: what `dataset` looks a dataset id up in. The model is stated over any registry;
`dataset` is the committed one. -/
abbrev Registry := String → Option DatasetContract

/-- Exact lookup; `none` means "not admitted". -/
def dataset : Registry := fun datasetId =>
  datasets.find? fun c => c.datasetId = datasetId

end EnergyPlatform
