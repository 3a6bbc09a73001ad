import EnergyPlatform.Contracts.Ascii
import EnergyPlatform.Mapping.Payload

/-!
# Mapping.Targets

The manifest of the target `ote_intraday_market`, and an implementation to run it with: ASCII
texts, Prague in winter, and whatever the decoders are given as.
-/

namespace EnergyPlatform

/-- A zone with one offset all year. -/
def Zone.fixed (offset : Duration) : Zone := ⟨fun t => t + offset, fun wall => wall - offset⟩

/-- `targets/ote_intraday_market/manifest.yaml`. -/
def oteIntradayMarket : Manifest where
  targetId := "ote_intraday_market"
  cadence := ⟨"*/15 * * * *", "Europe/Prague", some 3⟩
  maxAge := "P2Y"
  fetch := .soapXml
  contract := ⟨"ote.idm_continuous", .soap, .soap, ["price_vwap", "volume_total"]⟩
  mapping :=
    { dimensions := ⟨[("bidding_zone", "CZ")], Dimensions.sorted_single _ _⟩
      time := ⟨.periodIndex (.source "Date") (.source "PeriodIndex"), "Europe/Prague",
        .source "PeriodResolution", .start⟩
      sourceVersion := none
      sourcePublishedAt := none
      metrics := [("price_vwap", ⟨"Price", "EUR/MWh", .asPublished, .dot⟩),
        ("volume_total", ⟨"Volume", "MWh", .asPublished, .dot⟩)]
      ignoreFields := ["Emerg"]
      metricsNodup := by decide }
  transportAllowed := by decide
  decodeAllowed := by decide
  fileFormat := by
    intro f hf
    cases hf
  metricsDeclared := fun _ => Iff.rfl

/-- Libraries that refuse every payload. -/
def DecodeLibs.refusing : DecodeLibs where
  workbook _ := .error (.refused "not a workbook")
  xml _ := .error (.refused "no root element")
  json _ := .error (.refused "no value")
  csv _ := .error (.refused "not UTF-8")
  htmlTable _ _ := .error (.refused "no document")

/-- A stack of a thousand frames, a few of them for the calls made at a node. -/
def CallStack.thousand : CallStack := ⟨1000, fun _ _ => 4, fun _ _ => 4⟩

/-- An address for payloads of up to 64 bytes below 16: the hex number they spell. -/
def hexAddress (payload : Bytes) : Sha256 :=
  Fin.ofNat _ (payload.foldl (fun n b => 16 * n + b.toNat) 0)

def asciiImplementation (libs : DecodeLibs) (digest : Json → DerivationId) : Implementation where
  env := ⟨Ascii.text, libs, .thousand, fun _ => .fixed hour, hexAddress⟩
  version := "0.1.0"
  digest := digest

end EnergyPlatform
