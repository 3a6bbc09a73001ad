import EnergyPlatform.Mapping.Targets

/-!
# Mapping.DerivationIdentity

What a derivation id determines. `derivation_determines_mapping`: two manifests of one dataset with
one id have one decoder and one mapping block, up to the order of the metrics.
`derivation_determines_output`: with the fields that are read but not hashed equal as well, every
payload means the same under both.
-/

namespace EnergyPlatform

open Lib (Dict)

/-! ## The mapping block from its canonical form -/

theorem FieldRef.toJson_injective {r r' : FieldRef}
    (h : r.toJson.canonical = r'.toJson.canonical) : r = r' := by
  cases r with
  | source n => cases r' with
    | source n' => simp_all [toJson, Json.canonical, Json.canonicalMembers]
    | constant t => simp [toJson, Json.canonical, Json.canonicalMembers] at h
    | context f => cases f <;> simp [toJson, Json.canonical, Json.canonicalMembers] at h
  | constant t => cases r' with
    | source n => simp [toJson, Json.canonical, Json.canonicalMembers] at h
    | constant t' => simp_all [toJson, Json.canonical, Json.canonicalMembers]
    | context f => cases f <;> simp [toJson, Json.canonical, Json.canonicalMembers] at h
  | context f => cases r' with
    | source n => cases f <;> simp [toJson, Json.canonical, Json.canonicalMembers] at h
    | constant t => cases f <;> simp [toJson, Json.canonical, Json.canonicalMembers] at h
    | context f' =>
      cases f <;> cases f' <;> simp_all [toJson, Json.canonical, Json.canonicalMembers]

theorem optionalRef_injective {r r' : Option FieldRef}
    (h : (r.map FieldRef.toJson).map Json.canonical = (r'.map FieldRef.toJson).map Json.canonical) :
    r = r' := by
  cases r with
  | none => cases r' with
    | none => rfl
    | some r' => cases h
  | some r => cases r' with
    | none => cases h
    | some r' =>
      rw [FieldRef.toJson_injective (Option.some.inj h)]

theorem IntervalLabel.text_injective {l l' : IntervalLabel} (h : l.text = l'.text) : l = l' := by
  cases l <;> cases l' <;> first | rfl | (simp [text] at h)

/-- The members of the time block, by key. -/
theorem TimeMapping.member (t : TimeMapping) :
    ∃ l, t.toJson = .obj l ∧ (l.map Prod.fst).Nodup ∧
      Dict.lookup "kind" l = some (.str t.kind.name) ∧
      Dict.lookup "timezone" l = some (.str t.timezone) ∧
      Dict.lookup "resolution" l = some t.resolution.toJson ∧
      Dict.lookup "date" l = t.kind.date.map FieldRef.toJson ∧
      Dict.lookup "index" l = t.kind.index.map FieldRef.toJson ∧
      Dict.lookup "timestamp" l = t.kind.stamp.map FieldRef.toJson ∧
      Dict.lookup "interval_label" l = some (.str t.intervalLabel.text) := by
  refine ⟨_, rfl, ?_⟩
  cases t.kind with
  | periodIndex d i => simp [optionalMember, TimeKind.date, TimeKind.index, TimeKind.stamp, Dict.lookup]
  | timestamp s => simp [optionalMember, TimeKind.date, TimeKind.index, TimeKind.stamp, Dict.lookup]

theorem TimeMapping.toJson_injective {t t' : TimeMapping}
    (h : t.toJson.canonical = t'.toJson.canonical) : t = t' := by
  obtain ⟨l, hl, hn, hkind, hzone, hres, hdate, hindex, hstamp, hlabel⟩ := t.member
  obtain ⟨l', hl', hn', hkind', hzone', hres', hdate', hindex', hstamp', hlabel'⟩ := t'.member
  rw [hl, hl'] at h
  have hm := Json.member?_of_canonical_eq hn hn' h
  simp only [Json.member?] at hm
  have k₁ := hm "kind"
  have k₂ := hm "timezone"
  have k₃ := hm "resolution"
  have k₄ := hm "date"
  have k₅ := hm "index"
  have k₆ := hm "timestamp"
  have k₇ := hm "interval_label"
  rw [hkind, hkind'] at k₁
  rw [hzone, hzone'] at k₂
  rw [hres, hres'] at k₃
  rw [hdate, hdate'] at k₄
  rw [hindex, hindex'] at k₅
  rw [hstamp, hstamp'] at k₆
  rw [hlabel, hlabel'] at k₇
  have e₂ : t.timezone = t'.timezone := by simpa [Json.canonical] using k₂
  have e₃ := FieldRef.toJson_injective (Option.some.inj k₃)
  have e₄ := optionalRef_injective k₄
  have e₅ := optionalRef_injective k₅
  have e₆ := optionalRef_injective k₆
  have e₇ : t.intervalLabel = t'.intervalLabel :=
    IntervalLabel.text_injective (by simpa [Json.canonical] using k₇)
  have e₁ : t.kind = t'.kind := by
    cases hk : t.kind <;> cases hk' : t'.kind <;>
      simp_all [TimeKind.date, TimeKind.index, TimeKind.stamp]
  cases t
  cases t'
  simp only at e₁ e₂ e₃ e₇
  rw [e₁, e₂, e₃, e₇]

theorem MetricMapping.member (m : MetricMapping) :
    ∃ l, m.toJson = .obj l ∧ (l.map Prod.fst).Nodup ∧
      Dict.lookup "source" l = some (.str m.source) ∧
      Dict.lookup "unit" l = some (.str m.unit) ∧
      Dict.lookup "sign" l = some (.str m.sign.text) ∧
      Dict.lookup "decimal_separator" l = some (.str m.decimalSeparator.name) := by
  refine ⟨_, rfl, ?_⟩
  simp [Dict.lookup]

theorem MetricMapping.toJson_injective {m m' : MetricMapping}
    (h : m.toJson.canonical = m'.toJson.canonical) : m = m' := by
  obtain ⟨l, hl, hn, hsource, hunit, hsign, hsep⟩ := m.member
  obtain ⟨l', hl', hn', hsource', hunit', hsign', hsep'⟩ := m'.member
  rw [hl, hl'] at h
  have hm := Json.member?_of_canonical_eq hn hn' h
  simp only [Json.member?] at hm
  have k₁ := hm "source"
  have k₂ := hm "unit"
  have k₃ := hm "sign"
  have k₄ := hm "decimal_separator"
  rw [hsource, hsource'] at k₁
  rw [hunit, hunit'] at k₂
  rw [hsign, hsign'] at k₃
  rw [hsep, hsep'] at k₄
  simp only [Json.canonical, Option.map_some, Option.some.injEq, Json.str.injEq] at k₁ k₂ k₃ k₄
  have e₃ : m.sign = m'.sign := by
    cases hs : m.sign <;> cases hs' : m'.sign <;> simp_all [Sign.text]
  have e₄ : m.decimalSeparator = m'.decimalSeparator := by
    cases hs : m.decimalSeparator <;> cases hs' : m'.decimalSeparator <;> simp_all [Separator.name]
  cases m
  cases m'
  simp only at k₁ k₂ e₃ e₄
  rw [k₁, k₂, e₃, e₄]

/-! ### Lists and objects of members -/

theorem strings_of_canonical_eq {l l' : List String}
    (h : (Json.arr (l.map .str)).canonical = (Json.arr (l'.map .str)).canonical) : l = l' := by
  simp only [Json.canonical, Json.canonicalItems_eq, List.map_map, Json.arr.injEq] at h
  exact List.map_injective_iff.mpr (fun a b hab => by simpa [Json.canonical] using hab) h

/-- Objects with one canonical form have the same members, up to order, when members with one
canonical form are the same. -/
theorem perm_of_canonical_eq {α : Type} {f : α → Json}
    (hf : ∀ {a b}, (f a).canonical = (f b).canonical → a = b) {l l' : List (String × α)}
    (h : (Json.obj (l.map fun p => (p.1, f p.2))).canonical =
      (Json.obj (l'.map fun p => (p.1, f p.2))).canonical) : l.Perm l' := by
  obtain ⟨m, hm, hp⟩ := Json.canonical_obj (l.map fun p => (p.1, f p.2))
  obtain ⟨m', hm', hp'⟩ := Json.canonical_obj (l'.map fun p => (p.1, f p.2))
  rw [hm, hm', Json.obj.injEq] at h
  have hperm := hp.symm.trans (h ▸ hp')
  rw [List.map_map, List.map_map] at hperm
  refine (List.map_perm_map_iff ?_).mp hperm
  rintro ⟨k, a⟩ ⟨k', b⟩ hab
  simp only [Function.comp, Prod.mk.injEq] at hab
  rw [hab.1, hf hab.2]

theorem Dimensions.eq_of_perm {d d' : Dimensions} (h : d.entries.Perm d'.entries) : d = d' := by
  have hs := List.pairwise_map.mp d.sorted
  have hs' := List.pairwise_map.mp d'.sorted
  have he : d.entries = d'.entries :=
    h.eq_of_pairwise (fun _ _ _ _ hab hba => absurd hab (lt_asymm hba)) hs hs'
  cases d
  cases d'
  simp only at he
  subst he
  rfl

/-- The members of the mapping block, by key. -/
theorem MappingBlock.member (m : MappingBlock) :
    ∃ l, m.toJson = .obj l ∧ (l.map Prod.fst).Nodup ∧
      Dict.lookup "dimensions" l = some (.obj (m.dimensions.entries.map fun p => (p.1, .str p.2))) ∧
      Dict.lookup "time" l = some m.time.toJson ∧
      Dict.lookup "source_version" l = m.sourceVersion.map FieldRef.toJson ∧
      Dict.lookup "source_published_at" l = m.sourcePublishedAt.map FieldRef.toJson ∧
      Dict.lookup "metrics" l = some (.obj (m.metrics.map fun p => (p.1, p.2.toJson))) ∧
      Dict.lookup "ignore_fields" l = some (.arr (m.ignoreFields.map .str)) := by
  refine ⟨_, rfl, ?_⟩
  cases m.sourceVersion <;> cases m.sourcePublishedAt <;> simp [optionalMember, Dict.lookup]

/-- Mapping blocks with one canonical form differ in the order of the metrics at most. -/
structure MappingBlock.Same (m m' : MappingBlock) : Prop where
  dimensions : m.dimensions = m'.dimensions
  time : m.time = m'.time
  sourceVersion : m.sourceVersion = m'.sourceVersion
  sourcePublishedAt : m.sourcePublishedAt = m'.sourcePublishedAt
  metrics : m.metrics.Perm m'.metrics
  ignoreFields : m.ignoreFields = m'.ignoreFields

theorem MappingBlock.same_of_canonical_eq {m m' : MappingBlock}
    (h : m.toJson.canonical = m'.toJson.canonical) : m.Same m' := by
  obtain ⟨l, hl, hn, hdims, htime, hver, hpub, hmet, hign⟩ := m.member
  obtain ⟨l', hl', hn', hdims', htime', hver', hpub', hmet', hign'⟩ := m'.member
  rw [hl, hl'] at h
  have hm := Json.member?_of_canonical_eq hn hn' h
  simp only [Json.member?] at hm
  have k₁ := hm "dimensions"
  have k₂ := hm "time"
  have k₃ := hm "source_version"
  have k₄ := hm "source_published_at"
  have k₅ := hm "metrics"
  have k₆ := hm "ignore_fields"
  rw [hdims, hdims'] at k₁
  rw [htime, htime'] at k₂
  rw [hver, hver'] at k₃
  rw [hpub, hpub'] at k₄
  rw [hmet, hmet'] at k₅
  rw [hign, hign'] at k₆
  exact
    { dimensions := Dimensions.eq_of_perm
        (perm_of_canonical_eq (fun hab => by simpa [Json.canonical] using hab) (Option.some.inj k₁))
      time := TimeMapping.toJson_injective (Option.some.inj k₂)
      sourceVersion := optionalRef_injective k₃
      sourcePublishedAt := optionalRef_injective k₄
      metrics := perm_of_canonical_eq MetricMapping.toJson_injective (Option.some.inj k₅)
      ignoreFields := strings_of_canonical_eq (Option.some.inj k₆) }

/-- With the metrics in one order as well, they are equal. -/
theorem MappingBlock.Same.eq {m m' : MappingBlock} (h : m.Same m')
    (ho : m.metrics.map Prod.fst = m'.metrics.map Prod.fst) : m = m' := by
  have hmet := Dict.entries_eq_of_perm m.metricsNodup h.metrics ho
  obtain ⟨h₁, h₂, h₃, h₄, -, h₆⟩ := h
  cases m
  cases m'
  simp only at h₁ h₂ h₃ h₄ h₆ hmet
  subst h₁ h₂ h₃ h₄ h₆ hmet
  rfl

/-! ## What the id determines -/

section Id

variable {impl : Implementation} {m m' : Manifest}

/-- The document that is hashed for a manifest of a registered dataset. -/
def derivationDocumentOf (impl : Implementation) (contract : DatasetContract) (m : Manifest) : Json :=
  (derivationDocument impl.version contract.contractVersion m.mappingBlock
    (parserRef m.contract.decode impl.version)).canonical

theorem derivationFor_eq_some {d : Derivation} (h : derivationFor impl m = some d) :
    ∃ contract, dataset m.contract.datasetId = some contract ∧
      d.derivationId = impl.digest (derivationDocumentOf impl contract m) := by
  obtain ⟨contract, hc, rfl⟩ := Option.map_eq_some_iff.mp h
  exact ⟨contract, hc, rfl⟩

theorem DecodeKind.text_injective {k k' : DecodeKind} (h : k.text = k'.text) : k = k' := by
  cases k <;> cases k' <;> first | rfl | (simp [text] at h)

theorem parserRef_injective {k k' : DecodeKind} {version : String}
    (h : parserRef k version = parserRef k' version) : k = k' := by
  refine DecodeKind.text_injective (String.ext ?_)
  have ht := congrArg String.toList h
  simp only [parserRef, String.toList_append, List.append_assoc] at ht
  have hl := List.append_cancel_left ht
  rw [← List.append_assoc, ← List.append_assoc] at hl
  exact List.append_cancel_right (List.append_cancel_right hl)

/-- The members of the document that is hashed, by key. -/
theorem derivationDocument_member (platformVersion : String) (v : ContractVersion) (block : Json)
    (ref : String) :
    ∃ l, derivationDocument platformVersion v block ref = .obj l ∧ (l.map Prod.fst).Nodup ∧
      Dict.lookup "mapping_block" l = some block ∧
      Dict.lookup "parser_ref" l = some (.str ref) := by
  refine ⟨_, rfl, ?_⟩
  simp [Dict.lookup]

/-- One document, one decoder and one mapping block up to the order of the metrics. -/
theorem document_determines_mapping {contract : DatasetContract}
    (h : derivationDocumentOf impl contract m = derivationDocumentOf impl contract m') :
    m.contract.decode = m'.contract.decode ∧ m.mapping.Same m'.mapping := by
  obtain ⟨l, hl, hn, hblock, href⟩ := derivationDocument_member impl.version
    contract.contractVersion m.mappingBlock (parserRef m.contract.decode impl.version)
  obtain ⟨l', hl', hn', hblock', href'⟩ := derivationDocument_member impl.version
    contract.contractVersion m'.mappingBlock (parserRef m'.contract.decode impl.version)
  rw [derivationDocumentOf, derivationDocumentOf, hl, hl'] at h
  have hm := Json.member?_of_canonical_eq hn hn' h
  simp only [Json.member?] at hm
  have k₁ := hm "mapping_block"
  have k₂ := hm "parser_ref"
  rw [hblock, hblock'] at k₁
  rw [href, href'] at k₂
  have hp : parserRef m.contract.decode impl.version = parserRef m'.contract.decode impl.version := by
    simpa [Json.canonical] using k₂
  exact ⟨parserRef_injective hp, MappingBlock.same_of_canonical_eq (Option.some.inj k₁)⟩

end Id

/-! ## What is read besides -/

def FetchBlock.tableSelector : FetchBlock → Option String
  | htmlTable selector => some selector
  | _ => none

/-- The fields that decoding and mapping read and the id does not cover: the table selector, the
source transport, and the order of the metrics. -/
structure SameUnhashed (m m' : Manifest) : Prop where
  selector : m.fetch.tableSelector = m'.fetch.tableSelector
  transport : m.contract.sourceTransport = m'.contract.sourceTransport
  order : m.mapping.metrics.map Prod.fst = m'.mapping.metrics.map Prod.fst

section Output

variable {m m' : Manifest} (env : Env)

theorem decodePayload_congr (hd : m.contract.decode = m'.contract.decode)
    (hs : m.fetch.tableSelector = m'.fetch.tableSelector) (payload : Bytes) :
    decodePayload env m payload = decodePayload env m' payload := by
  unfold decodePayload
  rw [hd]
  cases hf : m.fetch <;> cases hf' : m'.fetch <;> cases m'.contract.decode <;>
    simp_all [FetchBlock.tableSelector]

theorem mapRecords_congr (hds : m.contract.datasetId = m'.contract.datasetId)
    (hm : m.mapping = m'.mapping) (ht : m.contract.sourceTransport = m'.contract.sourceTransport)
    (records : List SourceRecord) (ctx : MappingContext) :
    mapRecords env m records ctx = mapRecords env m' records ctx := by
  have hmetric : mapMetric env m = mapMetric env m' := by
    funext contract record ctx e name mm
    unfold mapMetric
    rw [hm, ht]
  have hinto : mapMetricInto env m = mapMetricInto env m' := by
    funext contract record ctx e s p
    unfold mapMetricInto
    rw [hmetric]
  have hrecord : mapRecordInto env m = mapRecordInto env m' := by
    funext contract ctx s record
    unfold mapRecordInto
    rw [hinto, hm]
  unfold mapRecords
  rw [hds, hrecord]

theorem mapPayload_congr (hds : m.contract.datasetId = m'.contract.datasetId)
    (hd : m.contract.decode = m'.contract.decode) (hm : m.mapping.Same m'.mapping)
    (hu : SameUnhashed m m') (payload : Bytes) (ctx : MappingContext) :
    mapPayload env m payload ctx = mapPayload env m' payload ctx := by
  have he := hm.eq hu.order
  have hr : sourceRecords env m payload = sourceRecords env m' payload := by
    unfold sourceRecords
    rw [decodePayload_congr env hd hu.selector, he, hd]
  unfold mapPayload
  rw [hr]
  cases sourceRecords env m' payload with
  | error e => rfl
  | ok records => exact mapRecords_congr env hds he hu.transport records ctx

end Output

/-! ## Derivation identity -/

/-- Two mappings of one payload came to the same: one list of observations, or no list for one
reason of one kind. -/
def SameOutput : Mapped MappingResult → Mapped MappingResult → Prop
  | .ok r, .ok r' => r.observations = r'.observations
  | .error (.quarantined _), .error (.quarantined _) => True
  | .error (.raised e), .error (.raised e') => e = e'
  | _, _ => False

theorem SameOutput.refl (r : Mapped MappingResult) : SameOutput r r := by
  cases r with
  | ok r => exact rfl
  | error e => cases e with
    | quarantined q => exact trivial
    | raised e => exact rfl

/-- Two manifests of one dataset with one derivation id, on whose documents the digest does not
collide: with the unhashed fields equal as well, every payload means the same under both. -/
theorem derivation_determines_output {impl : Implementation} {m m' : Manifest} {d d' : Derivation}
    (hds : m.contract.datasetId = m'.contract.datasetId)
    (hd : derivationFor impl m = some d) (hd' : derivationFor impl m' = some d')
    (hid : d.derivationId = d'.derivationId)
    (hinj : ∀ contract, impl.digest (derivationDocumentOf impl contract m) =
        impl.digest (derivationDocumentOf impl contract m') →
      derivationDocumentOf impl contract m = derivationDocumentOf impl contract m')
    (hu : SameUnhashed m m') (payload : Bytes) (ctx : MappingContext) :
    SameOutput (mapPayload impl.env m payload ctx) (mapPayload impl.env m' payload ctx) := by
  obtain ⟨contract, hc, he⟩ := derivationFor_eq_some hd
  obtain ⟨contract', hc', he'⟩ := derivationFor_eq_some hd'
  rw [hds, hc'] at hc
  cases hc
  rw [he, he'] at hid
  obtain ⟨hdec, hsame⟩ := document_determines_mapping (hinj _ hid)
  rw [mapPayload_congr impl.env hds hdec hsame hu payload ctx]
  exact .refl _

/-! ### Two tables of one page -/

section Tables

/-- A target that reads the table of a page that a selector finds. -/
def pricesTable (selector : String) : Manifest where
  targetId := "ote_prices"
  cadence := ⟨"0 * * * *", "Europe/Prague", none⟩
  maxAge := "none"
  fetch := .htmlTable selector
  contract := ⟨"ote.idm_continuous", .html, .htmlTable, ["price_vwap"]⟩
  mapping :=
    { dimensions := ⟨[("bidding_zone", "CZ")], Dimensions.sorted_single _ _⟩
      time := ⟨.timestamp (.source "Start"), "Europe/Prague", .constant "PT60M", .start⟩
      sourceVersion := none
      sourcePublishedAt := none
      metrics := [("price_vwap", ⟨"Price", "EUR/MWh", .asPublished, .dot⟩)]
      ignoreFields := []
      metricsNodup := by decide }
  transportAllowed := List.mem_singleton.mpr rfl
  decodeAllowed := List.mem_singleton.mpr rfl
  fileFormat := by
    intro f hf
    cases hf
  metricsDeclared := fun _ => Iff.rfl

/-- A page with two tables of one header and one period, at two prices. -/
def pageLibs : DecodeLibs :=
  { DecodeLibs.refusing with
    htmlTable := fun _ selector => .ok (some
      [[(true, "Start"), (true, "Price")],
       [(false, "2026-01-01T00:00:00+00:00"), (false, if selector = "#today" then "10" else "20")]]) }

def pageContext : MappingContext :=
  ⟨"ote_prices", 1767225600 * second, 20454, 1767225600 * second, "", 0, 1767225600 * second, 0⟩

/-- The prices a payload maps to. -/
def pricesOf (r : Mapped MappingResult) : List (Option Decimal) :=
  match r with
  | .ok r => r.observations.map EnergyObservation.value
  | .error _ => []

theorem SameOutput.prices {r r' : Mapped MappingResult} (h : SameOutput r r') :
    pricesOf r = pricesOf r' := by
  cases r with
  | ok r => cases r' with
    | ok r' => exact congrArg (List.map EnergyObservation.value) h
    | error e => exact h.elim
  | error e => cases r' with
    | ok r' => cases e <;> exact h.elim
    | error e' => rfl

theorem derivation_determines_output_prices :
    SameOutput
      (mapPayload (asciiImplementation pageLibs fun _ => 0).env (pricesTable "#today") [] pageContext)
      (mapPayload (asciiImplementation pageLibs fun _ => 0).env
        { pricesTable "#today" with maxAge := "P1D" } [] pageContext) :=
  derivation_determines_output rfl (d := (derivationFor (asciiImplementation pageLibs fun _ => 0)
    (pricesTable "#today")).get rfl) rfl rfl rfl (fun _ _ => rfl) ⟨rfl, rfl, rfl⟩ [] pageContext

/-- Two selectors, one derivation id, two prices. -/
theorem one_id_two_outputs :
    ((derivationFor (asciiImplementation pageLibs fun _ => 0) (pricesTable "#today")).map
        Derivation.derivationId =
      (derivationFor (asciiImplementation pageLibs fun _ => 0) (pricesTable "#tomorrow")).map
        Derivation.derivationId) ∧
    (∀ contract, derivationDocumentOf (asciiImplementation pageLibs fun _ => 0) contract
        (pricesTable "#today") =
      derivationDocumentOf (asciiImplementation pageLibs fun _ => 0) contract
        (pricesTable "#tomorrow")) ∧
    ¬ SameOutput
      (mapPayload (asciiImplementation pageLibs fun _ => 0).env (pricesTable "#today") [] pageContext)
      (mapPayload (asciiImplementation pageLibs fun _ => 0).env (pricesTable "#tomorrow") []
        pageContext) := by
  refine ⟨rfl, fun _ => rfl, fun h => ?_⟩
  have h₁ : pricesOf (mapPayload (asciiImplementation pageLibs fun _ => 0).env (pricesTable "#today")
    [] pageContext) = [some (.finite false 10 0)] := by decide
  have h₂ : pricesOf (mapPayload (asciiImplementation pageLibs fun _ => 0).env
    (pricesTable "#tomorrow") [] pageContext) = [some (.finite false 20 0)] := by decide
  have h := h.prices
  rw [h₁, h₂] at h
  cases h

end Tables

end EnergyPlatform
