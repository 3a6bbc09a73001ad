import EnergyPlatform.Mapping.Engine
import EnergyPlatform.Store.Protocol

/-!
# Mapping.Payload

Decode, parse, map: what a payload means under a manifest; and the derivation of a manifest.
-/

namespace EnergyPlatform

variable (env : Env)

def decodePayload (m : Manifest) (payload : Bytes) : Except DocError DecodedDocument :=
  match m.contract.decode, m.fetch with
  | .htmlTable, .htmlTable selector => decodeHtmlTable env.txt env.libs payload selector
  | kind, _ => decode env.txt env.libs payload kind

def sourceRecords (m : Manifest) (payload : Bytes) : Except DocError (List SourceRecord) := do
  let doc ← decodePayload env m payload
  genericParse env.txt env.stack m.mapping m.contract.decode doc

/-- `except (DecodeError, ParseError) as exc: raise Quarantined(f"{type(exc).__name__}: {exc}")`. -/
def DocError.toMapError : DocError → MapError
  | decodeError msg => .quarantined ⟨"DecodeError: " ++ msg, ""⟩
  | soapFault msg => .quarantined ⟨"SoapFault: " ++ msg, ""⟩
  | parseError msg => .quarantined ⟨"ParseError: " ++ msg, ""⟩
  | raised e => .raised e

def mapPayload (m : Manifest) (payload : Bytes) (ctx : MappingContext) : Mapped MappingResult :=
  match sourceRecords env m payload with
  | .error e => .error e.toMapError
  | .ok records => mapRecords env m records ctx

/-- The running implementation: its version and the digest its derivation ids are made with. -/
structure Implementation where
  env : Env
  version : String
  digest : Json → DerivationId

/-- `derivation_for(manifest, parser_ref(manifest))`; nothing for an unregistered dataset, where
the source raises. -/
def derivationFor (impl : Implementation) (m : Manifest) : Option Derivation :=
  (dataset m.contract.datasetId).map fun contract =>
    let ref := parserRef m.contract.decode impl.version
    { derivationId := derivationId impl.digest impl.version contract.contractVersion m.mappingBlock ref
      platformVersion := impl.version
      contractVersion := contract.contractVersion
      mappingBlock := m.mappingBlock
      parserRef := ref
      registeredAt := none }

end EnergyPlatform
