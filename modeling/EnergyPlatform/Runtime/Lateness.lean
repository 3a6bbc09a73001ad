import EnergyPlatform.Runtime.Partitions

/-!
# Runtime.Lateness

Whether a partition that is late stays late.

`partition_of_bounds`: a target's partition is determined by its start and end.
`lateness_stable_iff`: a late partition is late at a later instant, by the same deadline, exactly
when the deadline is taken from the same cadence, or from the same run of the month.
-/

namespace EnergyPlatform

section Late

variable {env : Env} {folds : String → ZoneFold} {target : FreshTarget}
  {contract : DatasetContract}

/-- Two partitions of a target with one start and one end are one partition. -/
theorem partition_of_bounds (hds : dataset target.manifest.contract.datasetId = some contract)
    (hascii : env.txt.ReadsAscii) (hprague : (env.zones sourceTimezone).Increasing)
    {t₁ t₂ : Instant} {k₁ k₂ : Nat} {p q : PartitionBounds}
    (hp : partitionBounds env folds target t₁ k₁ = .ok p)
    (hq : partitionBounds env folds target t₂ k₂ = .ok q)
    (hstart : q.start = p.start) (hstop : q.stop = p.stop) : q = p := by
  have hstep := parse_quarter hascii
  have hexpected : q.expected = p.expected := by
    have hspans : ∀ {d e d' e' : Day}, Spans (env.zones sourceTimezone) quarter d e p →
        Spans (env.zones sourceTimezone) quarter d' e' q → q.expected = p.expected := by
      intro d e d' e' hspan hspan'
      have hlen := hspan'.length
      rw [hstart, hstop, ← hspan.length] at hlen
      exact Int.eq_of_mul_eq_mul_right quarter.property.ne' hlen
    rw [partitionBounds_eq hds hascii] at hp hq
    cases hmonth : monthOffset env.txt target with
    | some offset =>
      rw [hmonth] at hp hq
      obtain ⟨d, -, -, hspan⟩ := monthPartition_ok hprague hstep hp
      obtain ⟨d', -, -, hspan'⟩ := monthPartition_ok hprague hstep hq
      exact hspans hspan hspan'
    | none =>
      rw [hmonth] at hp hq
      cases hkind : contract.partition with
      | day =>
        rw [hkind] at hp hq
        obtain ⟨d, -, -, hspan⟩ := dayPartition_ok hprague hstep hp
        obtain ⟨d', -, -, hspan'⟩ := dayPartition_ok hprague hstep hq
        exact hspans hspan hspan'
      | hour =>
        rw [hkind] at hp hq
        rw [(hourPartition_ok hstep hp).1, (hourPartition_ok hstep hq).1]
  cases p
  cases q
  cases hstart
  cases hstop
  cases hexpected
  rfl

/-- What a partition's deadline is taken from is the same at two instants: the smallest gap of the
cadence around them, or the first firing of their months. -/
def SameDeadline (env : Env) (folds : String → ZoneFold) (target : FreshTarget)
    (t₁ t₂ : Instant) : Prop :=
  match monthOffset env.txt target with
  | some _ => monthInstant env folds target t₁ = monthInstant env folds target t₂
  | none =>
    cadenceOf env.txt (env.zones target.manifest.cadence.timezone) target.manifest.cadence.cron t₁ =
      cadenceOf env.txt (env.zones target.manifest.cadence.timezone) target.manifest.cadence.cron t₂

variable {t₁ t₂ : Instant} {p : PartitionBounds}

theorem partitionDeadline_same (h : SameDeadline env folds target t₁ t₂) :
    partitionDeadline env folds target t₁ p = partitionDeadline env folds target t₂ p := by
  unfold SameDeadline at h
  unfold partitionDeadline
  cases hmonth : monthOffset env.txt target with
  | some offset =>
    rw [hmonth] at h
    dsimp only at h ⊢
    rw [h]
  | none =>
    rw [hmonth] at h
    dsimp only at h ⊢
    rw [h]

/-- One deadline of a partition, at two instants, is taken from the same cadence. -/
theorem same_of_expectedBy {first₁ first₂ expectedBy : Instant}
    (h₁ : partitionDeadline env folds target t₁ p = .ok (first₁, expectedBy))
    (h₂ : partitionDeadline env folds target t₂ p = .ok (first₂, expectedBy)) :
    SameDeadline env folds target t₁ t₂ := by
  unfold partitionDeadline at h₁ h₂
  unfold SameDeadline
  cases hmonth : monthOffset env.txt target with
  | some offset =>
    rw [hmonth] at h₁ h₂
    dsimp only at h₁ h₂ ⊢
    obtain ⟨f₁, hf₁, h₁⟩ := bind_eq_ok.mp h₁
    obtain ⟨w, hw, h₁⟩ := bind_eq_ok.mp h₁
    obtain ⟨e₁, he₁, h₁⟩ := bind_eq_ok.mp h₁
    obtain ⟨f₂, hf₂, h₂⟩ := bind_eq_ok.mp h₂
    obtain ⟨w', hw', h₂⟩ := bind_eq_ok.mp h₂
    obtain ⟨e₂, he₂, h₂⟩ := bind_eq_ok.mp h₂
    obtain ⟨-, rfl⟩ := Prod.mk.inj (Except.ok.inj h₁)
    obtain ⟨-, rfl⟩ := Prod.mk.inj (Except.ok.inj h₂)
    obtain rfl := Except.ok.inj (hw.symm.trans hw')
    have heq := (checkedInstant_eq he₁).symm.trans (checkedInstant_eq he₂)
    have hfirst : f₁ = f₂ := by
      unfold Instant Duration at *
      omega
    rw [hf₁, hf₂, hfirst]
  | none =>
    rw [hmonth] at h₁ h₂
    dsimp only at h₁ h₂ ⊢
    obtain ⟨a, ha, h₁⟩ := bind_eq_ok.mp h₁
    obtain ⟨b, hb, h₁⟩ := bind_eq_ok.mp h₁
    obtain ⟨l, hl, h₁⟩ := bind_eq_ok.mp h₁
    obtain ⟨c₁, hc₁, h₁⟩ := bind_eq_ok.mp h₁
    obtain ⟨e₁, he₁, h₁⟩ := bind_eq_ok.mp h₁
    obtain ⟨a', ha', h₂⟩ := bind_eq_ok.mp h₂
    obtain ⟨b', hb', h₂⟩ := bind_eq_ok.mp h₂
    obtain ⟨l', hl', h₂⟩ := bind_eq_ok.mp h₂
    obtain ⟨c₂, hc₂, h₂⟩ := bind_eq_ok.mp h₂
    obtain ⟨e₂, he₂, h₂⟩ := bind_eq_ok.mp h₂
    obtain ⟨-, rfl⟩ := Prod.mk.inj (Except.ok.inj h₁)
    obtain ⟨-, rfl⟩ := Prod.mk.inj (Except.ok.inj h₂)
    obtain rfl := Except.ok.inj (ha.symm.trans ha')
    obtain rfl := Except.ok.inj (hb.symm.trans hb')
    obtain rfl := Except.ok.inj (hl.symm.trans hl')
    have heq := (checkedInstant_eq he₁).symm.trans (checkedInstant_eq he₂)
    have hcad : c₁ = c₂ := by
      unfold Instant Duration at *
      omega
    rw [hc₁, hc₂, hcad]

theorem statusAt_late {now : Instant} {expected observed : Int} {first expectedBy : Instant} :
    statusAt now expected observed first expectedBy = .late ↔
      observed < expected ∧ first ≤ now ∧ expectedBy < now := by
  unfold statusAt
  unfold Instant
  split_ifs <;> simp <;> omega

/-- What a classification is made of. -/
theorem classifyPartition_ok {count : Instant → Instant → Int} {now : Instant} {back : Nat}
    {r : PartitionStatus} (h : classifyPartition env folds target count now back = .ok r) :
    ∃ p first, partitionBounds env folds target now back = .ok p ∧
      partitionDeadline env folds target now p = .ok (first, r.expectedBy) ∧
      r.start = p.start ∧ r.stop = p.stop ∧
      r.status = statusAt now p.expected (count p.start p.stop) first r.expectedBy := by
  obtain ⟨p, hp, h⟩ := bind_eq_ok.mp h
  obtain ⟨⟨first, expectedBy⟩, hd, h⟩ := bind_eq_ok.mp h
  obtain rfl := Except.ok.inj h
  exact ⟨p, first, hp, hd, rfl, rfl, rfl⟩

/-- A partition that is late is late at every later instant, and by the same deadline, exactly when
the deadline is taken from the same cadence there. -/
theorem lateness_stable_iff (hds : dataset target.manifest.contract.datasetId = some contract)
    (hascii : env.txt.ReadsAscii) (hprague : (env.zones sourceTimezone).Increasing)
    {count : Instant → Instant → Int} (hlt : t₁ < t₂) {k₁ k₂ : Nat} {r₁ r₂ : PartitionStatus}
    (h₁ : classifyPartition env folds target count t₁ k₁ = .ok r₁)
    (h₂ : classifyPartition env folds target count t₂ k₂ = .ok r₂)
    (hstart : r₂.start = r₁.start) (hstop : r₂.stop = r₁.stop) (hlate : r₁.status = .late) :
    (r₂.status = .late ∧ r₂.expectedBy = r₁.expectedBy) ↔
      SameDeadline env folds target t₁ t₂ := by
  obtain ⟨p, first₁, hp, hd₁, hs₁, he₁, hst₁⟩ := classifyPartition_ok h₁
  obtain ⟨q, first₂, hq, hd₂, hs₂, he₂, hst₂⟩ := classifyPartition_ok h₂
  obtain rfl := partition_of_bounds hds hascii hprague hp hq
    (hs₂.symm.trans (hstart.trans hs₁)) (he₂.symm.trans (hstop.trans he₁))
  constructor
  · intro h
    rw [h.2] at hd₂
    exact same_of_expectedBy hd₁ hd₂
  · intro h
    rw [partitionDeadline_same h] at hd₁
    obtain ⟨rfl, hby⟩ := Prod.mk.inj (Except.ok.inj (hd₁.symm.trans hd₂))
    rw [hst₁, statusAt_late] at hlate
    obtain ⟨hcount, hfirst, hpast⟩ := hlate
    refine ⟨?_, hby.symm⟩
    rw [hst₂, statusAt_late]
    exact ⟨hcount, hfirst.trans hlt.le, hby ▸ hpast.trans hlt⟩

end Late

/-! ### A cadence of the working week -/

/-- The market, polled twice on every working day. -/
def weekdayMarket : FreshTarget :=
  { marketIn sourceTimezone with
    manifest :=
      { oteIntradayMarket with
        cadence := ⟨"0 9,18 * * 1-5", sourceTimezone, none⟩ } }

/-- Friday 2026-09-18, at noon. -/
def fridayNoon : Instant := 20714 * day + 12 * hour

/-- Saturday, half an hour before the Thursday's deadline of two days. -/
def saturdayAfternoon : Instant := 20715 * day + 15 * hour + 30 * minute

def emptyStore : Instant → Instant → Int := fun _ _ => 0

/-- The Thursday before, as it is classified by a deadline. -/
def thursday (expectedBy : Instant) (status : FreshnessStatus) : PartitionStatus :=
  ⟨20713 * day - 2 * hour, 20714 * day - 2 * hour, 96, 0, expectedBy, status⟩

theorem thursday_late : classifyPartition summerEnv noFolds weekdayMarket emptyStore fridayNoon 1 =
    .ok (thursday (20714 * day + 10 * hour) .late) := eq_ok_of_toOption (by decide +kernel)

theorem thursday_late_after : classifyPartition summerEnv noFolds weekdayMarket emptyStore
    (fridayNoon + hour) 1 = .ok (thursday (20714 * day + 10 * hour) .late) :=
  eq_ok_of_toOption (by decide +kernel)

theorem thursday_incomplete : classifyPartition summerEnv noFolds weekdayMarket emptyStore
    saturdayAfternoon 2 = .ok (thursday (20715 * day + 16 * hour) .incomplete) :=
  eq_ok_of_toOption (by decide +kernel)

/-- Thursday is late on Friday, and on Saturday its data may still come. -/
theorem late_then_incomplete : ∃ r₁ r₂, fridayNoon < saturdayAfternoon ∧
    classifyPartition summerEnv noFolds weekdayMarket emptyStore fridayNoon 1 = .ok r₁ ∧
    classifyPartition summerEnv noFolds weekdayMarket emptyStore saturdayAfternoon 2 = .ok r₂ ∧
    r₂.start = r₁.start ∧ r₂.stop = r₁.stop ∧ r₁.status = .late ∧
    ¬ (r₂.status = .late ∧ r₂.expectedBy = r₁.expectedBy) :=
  ⟨_, _, by decide, thursday_late, thursday_incomplete, rfl, rfl, rfl, by decide⟩

theorem thursday_stays_late :
    SameDeadline summerEnv noFolds weekdayMarket fridayNoon (fridayNoon + hour) :=
  (lateness_stable_iff rfl (fun c _ => rfl) summer_increasing (by decide) thursday_late
    thursday_late_after rfl rfl rfl).mp ⟨rfl, rfl⟩

end EnergyPlatform
