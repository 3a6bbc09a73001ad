import EnergyPlatform.Contracts.Exact
import EnergyPlatform.Mapping.Engine

/-!
# Mapping.Emitted

What is known of an observation that the mapping emits.

`mapMetric_ok`: its value is that of its record and finite, and its time is that of the envelope.
`sameValue_iff`: on such values, the comparison of the mapping is equality of numbers.
-/

namespace EnergyPlatform

variable {env : Env} {manifest : Manifest} {contract : DatasetContract} {ctx : MappingContext}

/-- `o` is what the record gives for a metric. -/
def Yields (env : Env) (manifest : Manifest) (contract : DatasetContract) (ctx : MappingContext)
    (record : SourceRecord) (p : String × MetricMapping) (o : EnergyObservation) : Prop :=
  ∃ e events, envelopeOf env manifest.mapping record ctx = .ok e ∧
    mapMetric env manifest contract record ctx e p.1 p.2 = .ok (o, events)

theorem validated_ok {name locator : String} {o o' : EnergyObservation}
    (h : validated env contract name locator o = .ok o') :
    o' = o ∧ ∀ v, o.value = some v → v.isFinite := by
  unfold validated at h
  split at h
  · cases h
  · split at h
    · cases h
    · rename_i hfin
      split at h
      · cases h
      · refine ⟨(Except.ok.inj h).symm, ?_⟩
        intro v hv
        rw [hv] at hfin
        simpa using hfin

theorem valueError_ok {α : Type} {name locator : String} {x : Except PyError α} {a : α}
    (h : valueError name locator x = .ok a) : x = .ok a := by
  cases x with
  | ok b =>
    obtain rfl := Except.ok.inj h
    rfl
  | error e => cases e <;> cases h

/-- What an observation takes from its record, its envelope and its metric. -/
theorem mapMetric_ok {record : SourceRecord} {e : Envelope} {name : String} {mm : MetricMapping}
    {o : EnergyObservation} {events : List QualityEvent}
    (h : mapMetric env manifest contract record ctx e name mm = .ok (o, events)) :
    metricValue env mm record = .ok o.value ∧ (∀ v, o.value = some v → v.isFinite) ∧
      o.metric = name ∧ o.deliveryInterval = e.interval ∧ o.resolution = e.resolution ∧
      o.localDate = e.localDate ∧ o.sourcePublishedAt = e.publishedAt := by
  unfold mapMetric at h
  split at h
  · cases h
  · obtain ⟨value, hvalue, h⟩ := bind_eq_ok.mp h
    obtain ⟨isNegative, -, h⟩ := bind_eq_ok.mp h
    split at h
    · cases h
    · obtain ⟨o', ho', h⟩ := bind_eq_ok.mp h
      obtain ⟨rfl, hfin⟩ := validated_ok ho'
      obtain ⟨rfl, -⟩ := Prod.mk.inj (Except.ok.inj h)
      exact ⟨valueError_ok hvalue, hfin, rfl, rfl, rfl, rfl, rfl⟩

namespace Decimal

/-- A coefficient scaled to a lower exponent stands for the same number. -/
theorem scaledTo_toRat {low : Int} {neg : Bool} {c : Nat} {e : Int} (h : low ≤ e) :
    ((scaledTo low neg c e : Int) : ℚ) * 10 ^ low = (finite neg c e).toRat := by
  have hpow : (10 : ℚ) ^ e = 10 ^ (e - low).toNat * 10 ^ low := by
    rw [← zpow_natCast, Int.toNat_of_nonneg (Int.sub_nonneg.mpr h), ← zpow_add₀ (by norm_num)]
    congr 1
    omega
  rw [scaledTo, toRat, hpow]
  cases neg
  · simp only [Bool.false_eq_true, if_false]
    push_cast
    ring
  · simp only [if_true]
    push_cast
    ring

/-- `==` of finite decimals is equality of the numbers. -/
theorem eq_iff_toRat {d d' : Decimal} (hd : d.isFinite) (hd' : d'.isFinite) :
    d.eq d' = true ↔ d.toRat = d'.toRat := by
  obtain ⟨n, c, e, rfl⟩ := isFinite_cases hd
  obtain ⟨n', c', e', rfl⟩ := isFinite_cases hd'
  rw [← scaledTo_toRat (min_le_left e e'), ← scaledTo_toRat (min_le_right e e')]
  have hpow : (10 : ℚ) ^ min e e' ≠ 0 := zpow_ne_zero _ (by norm_num)
  rw [mul_left_inj' hpow, Int.cast_inj, Decimal.eq, beq_iff_eq]

end Decimal

def FiniteValue (value : Option Decimal) : Prop := ∀ v, value = some v → v.isFinite

/-- The comparison of the mapping, on values that are finite or not there. -/
theorem sameValue_iff {a b : Option Decimal} (ha : FiniteValue a) (hb : FiniteValue b) :
    sameValue a b = true ↔ a.map Decimal.toRat = b.map Decimal.toRat := by
  cases a with
  | none => cases b <;> simp [sameValue]
  | some x =>
    cases b with
    | none => simp [sameValue]
    | some y =>
      rw [sameValue, Decimal.eq_iff_toRat (ha x rfl) (hb y rfl)]
      simp

theorem Yields.finite {record : SourceRecord} {p : String × MetricMapping} {o : EnergyObservation}
    (h : Yields env manifest contract ctx record p o) : FiniteValue o.value := by
  obtain ⟨e, events, -, hmap⟩ := h
  exact (mapMetric_ok hmap).2.1

theorem Yields.metric {record : SourceRecord} {p : String × MetricMapping} {o : EnergyObservation}
    (h : Yields env manifest contract ctx record p o) : o.metric = p.1 := by
  obtain ⟨e, events, -, hmap⟩ := h
  exact (mapMetric_ok hmap).2.2.1

/-- A record gives one observation for a metric. -/
theorem Yields.unique {record : SourceRecord} {p : String × MetricMapping}
    {o o' : EnergyObservation} (h : Yields env manifest contract ctx record p o)
    (h' : Yields env manifest contract ctx record p o') : o = o' := by
  obtain ⟨e, events, he, hmap⟩ := h
  obtain ⟨e', events', he', hmap'⟩ := h'
  obtain rfl := Except.ok.inj (he.symm.trans he')
  exact (Prod.mk.inj (Except.ok.inj (hmap.symm.trans hmap'))).1

end EnergyPlatform
