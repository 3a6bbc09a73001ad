import EnergyPlatform.Contracts.Intervals
import EnergyPlatform.Contracts.Json
import EnergyPlatform.Contracts.Parser

/-!
# Contracts.Manifest

The manifest: the source side of a target's contract.

Of the fields, those that a verb or the mapping reads are kept; the fetch block keeps its modality
and the table selector, since a fetch is one call on the outside world. The consistency checks of
`Manifest.model_validate` that relate kept fields are fields of the structures. The checks on texts
(URLs, templates, secrets, positional names) only admit fewer manifests and are left out.
-/

namespace EnergyPlatform

inductive Modality where
  | soapXml
  | datedFile
  | htmlTable
  | restJson
  | restXml
deriving DecidableEq, Repr

/-- `fetch`: exactly one block, named after the modality. -/
inductive FetchBlock where
  | soapXml
  | datedFile (fileFormat : DecodeKind)
  | htmlTable (tableSelector : String)
  | restJson
  | restXml
deriving DecidableEq, Repr

namespace FetchBlock

def modality : FetchBlock → Modality
  | soapXml => .soapXml
  | datedFile _ => .datedFile
  | htmlTable _ => .htmlTable
  | restJson => .restJson
  | restXml => .restXml

end FetchBlock

/-- `_MODALITY_TRANSPORTS`. -/
def Modality.transports : Modality → List Transport
  | soapXml => [.soap]
  | datedFile => [.xlsx, .rest]
  | htmlTable => [.html]
  | restJson => [.rest]
  | restXml => [.rest]

/-- `_MODALITY_DECODES`. -/
def Modality.decodes : Modality → List DecodeKind
  | soapXml => [.soap]
  | datedFile => [.xlsx, .csv]
  | htmlTable => [.htmlTable]
  | restJson => [.json]
  | restXml => [.xml]

structure Cadence where
  cron : String
  timezone : String
  /-- `correction.days`, when a correction is declared. -/
  correctionDays : Option Nat
deriving DecidableEq, Repr

structure Contract where
  datasetId : String
  sourceTransport : Transport
  decode : DecodeKind
  metrics : List String
deriving DecidableEq, Repr

inductive ContextField where
  | deliveryDay
  | scheduledFor
deriving DecidableEq, Repr

/-- Where a canonical field comes from: exactly one of a source field, a constant, the context. -/
inductive FieldRef where
  | source (name : String)
  | constant (text : String)
  | context (field : ContextField)
deriving DecidableEq, Repr

def FieldRef.sourceName : FieldRef → Option String
  | source name => some name
  | _ => none

/-- `time.kind` with the references that kind takes. -/
inductive TimeKind where
  | periodIndex (date index : FieldRef)
  | timestamp (timestamp : FieldRef)
deriving DecidableEq, Repr

namespace TimeKind

def date : TimeKind → Option FieldRef
  | periodIndex d _ => some d
  | timestamp _ => none

def index : TimeKind → Option FieldRef
  | periodIndex _ i => some i
  | timestamp _ => none

def stamp : TimeKind → Option FieldRef
  | periodIndex .. => none
  | timestamp t => some t

def name : TimeKind → String
  | periodIndex .. => "period_index"
  | timestamp _ => "timestamp"

end TimeKind

structure TimeMapping where
  kind : TimeKind
  timezone : String
  resolution : FieldRef
  intervalLabel : IntervalLabel
deriving DecidableEq, Repr

structure MetricMapping where
  source : String
  unit : String
  sign : Sign
  decimalSeparator : Separator
deriving DecidableEq, Repr

/-- `mapping`. The dimensions are a mapping, kept sorted by key; the metrics keep the order in
which they are written, which is the order the mapping visits them in. -/
structure MappingBlock where
  dimensions : Dimensions
  time : TimeMapping
  sourceVersion : Option FieldRef
  sourcePublishedAt : Option FieldRef
  metrics : List (String × MetricMapping)
  ignoreFields : List String
  metricsNodup : (metrics.map Prod.fst).Nodup
deriving DecidableEq

structure Manifest where
  targetId : String
  cadence : Cadence
  /-- `history.max_age`. -/
  maxAge : String
  fetch : FetchBlock
  contract : Contract
  mapping : MappingBlock
  transportAllowed : contract.sourceTransport ∈ fetch.modality.transports
  decodeAllowed : contract.decode ∈ fetch.modality.decodes
  fileFormat : ∀ f, fetch = .datedFile f → f = contract.decode
  metricsDeclared : ∀ name, name ∈ contract.metrics ↔ name ∈ mapping.metrics.map Prod.fst

/-! ## The mapping block as JSON -/

/-- `model_dump(mode="json", exclude_none=True)`. -/
def FieldRef.toJson : FieldRef → Json
  | source name => .obj [("source", .str name)]
  | constant text => .obj [("constant", .str text)]
  | context .deliveryDay => .obj [("context", .str "delivery_day")]
  | context .scheduledFor => .obj [("context", .str "scheduled_for")]

/-- A member of an object, absent when there is no value. -/
def optionalMember (key : String) (ref : Option FieldRef) : List (String × Json) :=
  match ref with
  | none => []
  | some r => [(key, r.toJson)]

def IntervalLabel.text : IntervalLabel → String
  | start => "start"
  | stop => "end"

def TimeMapping.toJson (t : TimeMapping) : Json :=
  .obj ([("kind", .str t.kind.name), ("timezone", .str t.timezone),
      ("resolution", t.resolution.toJson)]
    ++ optionalMember "date" t.kind.date ++ optionalMember "index" t.kind.index
    ++ optionalMember "timestamp" t.kind.stamp
    ++ [("interval_label", .str t.intervalLabel.text)])

def Sign.text : Sign → String
  | asPublished => "as_published"
  | inverted => "inverted"

def MetricMapping.toJson (m : MetricMapping) : Json :=
  .obj [("source", .str m.source), ("unit", .str m.unit), ("sign", .str m.sign.text),
    ("decimal_separator", .str m.decimalSeparator.name)]

/-- `mapping_block`. -/
def MappingBlock.toJson (m : MappingBlock) : Json :=
  .obj ([("dimensions", .obj (m.dimensions.entries.map fun p => (p.1, .str p.2))),
      ("time", m.time.toJson)]
    ++ optionalMember "source_version" m.sourceVersion
    ++ optionalMember "source_published_at" m.sourcePublishedAt
    ++ [("metrics", .obj (m.metrics.map fun p => (p.1, p.2.toJson))),
        ("ignore_fields", .arr (m.ignoreFields.map .str))])

def Manifest.mappingBlock (m : Manifest) : Json := m.mapping.toJson

end EnergyPlatform
