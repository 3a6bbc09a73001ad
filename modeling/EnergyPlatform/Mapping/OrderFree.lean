import EnergyPlatform.Lib.Merge
import EnergyPlatform.Mapping.Emitted
import EnergyPlatform.Mapping.Targets

/-!
# Mapping.OrderFree

What `map_records` keeps of its records, and what the order of the records decides.

`Follows`: the fold over the records is the merge of what they give, one after the other.
`maps_faithfully_iff`: nothing is lost and the order does not matter, unless a record raises an
exception that is no quarantine, or two records of one identity and value were published at
different times: the merge compares values only, and keeps the first.
-/

namespace EnergyPlatform

open Lib (Dict)

/-- The observations of a list of sources, in their order, or the first error. -/
def gather : List (Mapped (List EnergyObservation)) → Mapped (List EnergyObservation)
  | [] => .ok []
  | m :: rest => do
    let first ← m
    let others ← gather rest
    .ok (first ++ others)

section Outcomes

variable {α β : Type}

def Quarantines (x : Mapped α) : Prop := ∃ q, x = .error (.quarantined q)

theorem Quarantines.bind {x : Mapped α} {f : α → Mapped β} (h : Quarantines x) :
    Quarantines (x >>= f) := by
  obtain ⟨q, rfl⟩ := h
  exact ⟨q, rfl⟩

theorem not_quarantines_ok {a : α} : ¬ Quarantines (.ok a : Mapped α) := by
  intro h
  obtain ⟨q, h⟩ := h
  cases h

theorem gather_ok {ms : List (Mapped (List EnergyObservation))} {obs : List EnergyObservation}
    (h : gather ms = .ok obs) : (∀ m ∈ ms, ∃ l, m = .ok l) ∧
      ∀ o, o ∈ obs ↔ ∃ l, .ok l ∈ ms ∧ o ∈ l := by
  induction ms generalizing obs with
  | nil =>
    obtain rfl := Except.ok.inj h
    simp
  | cons m rest ih =>
    rw [gather] at h
    obtain ⟨first, hfirst, h⟩ := bind_eq_ok.mp h
    obtain ⟨others, hothers, h⟩ := bind_eq_ok.mp h
    obtain rfl := Except.ok.inj h
    obtain rfl := hfirst
    obtain ⟨hall, hmem⟩ := ih hothers
    refine ⟨?_, ?_⟩
    · intro m hm
      cases hm with
      | head => exact ⟨first, rfl⟩
      | tail _ hm => exact hall m hm
    · intro o
      rw [List.mem_append, hmem]
      constructor
      · intro ho
        rcases ho with ho | ⟨l, hl, ho⟩
        · exact ⟨first, .head _, ho⟩
        · exact ⟨l, .tail _ hl, ho⟩
      · intro ho
        obtain ⟨l, hl, ho⟩ := ho
        cases hl with
        | head => exact .inl ho
        | tail _ hl => exact .inr ⟨l, hl, ho⟩

theorem gather_error {ms : List (Mapped (List EnergyObservation))} {e : MapError}
    (h : gather ms = .error e) : .error e ∈ ms := by
  induction ms with
  | nil => cases h
  | cons m rest ih =>
    cases m with
    | error e' =>
      obtain rfl := Except.error.inj h
      exact .head _
    | ok first =>
      cases hrest : gather rest with
      | error e' =>
        rw [gather, hrest] at h
        obtain rfl := Except.error.inj h
        exact .tail _ (ih hrest)
      | ok others =>
        rw [gather, hrest] at h
        cases h

end Outcomes

/-! ## The fold is a merge -/

abbrev mergeObs : Seen → List EnergyObservation → Option Seen :=
  Lib.merge observationIdentity fun a b => sameValue a.value b.value

theorem mergeObs_append {d : Seen} {l l' : List EnergyObservation} :
    mergeObs d (l ++ l') = (mergeObs d l).bind fun d' => mergeObs d' l' := Lib.merge_append

/-- What the fold has done after the observations of `m`, when it kept `d` before. -/
def Follows (d : Seen) (m : Mapped (List EnergyObservation)) (x : Mapped MapState) : Prop :=
  match m with
  | .ok obs =>
    match mergeObs d obs with
    | some d' => ∃ s, x = .ok s ∧ s.seen = d'
    | none => Quarantines x
  | .error (.quarantined _) => Quarantines x
  | .error (.raised e) => Quarantines x ∨ x = .error (.raised e)

section Fold

variable {env : Env} {manifest : Manifest} {contract : DatasetContract} {ctx : MappingContext}

theorem Follows.error {d : Seen} {e : MapError} : Follows d (.error e) (.error e) := by
  cases e with
  | quarantined q => exact ⟨q, rfl⟩
  | raised e => exact .inr rfl

theorem Follows.bind {d : Seen} {m m' : Mapped (List EnergyObservation)} {x : Mapped MapState}
    {k : MapState → Mapped MapState} (h : Follows d m x) (hk : ∀ s, Follows s.seen m' (k s)) :
    Follows d (do let first ← m; let others ← m'; .ok (first ++ others)) (x >>= k) := by
  cases m with
  | error e =>
    cases e with
    | quarantined q => exact Quarantines.bind h
    | raised e =>
      rcases h with h | rfl
      · exact .inl h.bind
      · exact .inr rfl
  | ok first =>
    simp only [Follows] at h
    cases hmerge : mergeObs d first with
    | none =>
      rw [hmerge] at h
      have hq : Quarantines (x >>= k) := Quarantines.bind h
      cases m' with
      | error e =>
        cases e with
        | quarantined q => exact hq
        | raised e => exact .inl hq
      | ok others =>
        have hnone : mergeObs d (first ++ others) = none := by
          rw [mergeObs_append, hmerge]
          rfl
        change Follows d (.ok (first ++ others)) (x >>= k)
        simp only [Follows, hnone]
        exact hq
    | some d' =>
      rw [hmerge] at h
      obtain ⟨s, rfl, rfl⟩ := h
      have hs := hk s
      cases m' with
      | error e => cases e <;> exact hs
      | ok others =>
        have hsame : mergeObs d (first ++ others) = mergeObs s.seen others := by
          rw [mergeObs_append, hmerge]
          rfl
        change Follows d (.ok (first ++ others)) (k s)
        simp only [Follows] at hs ⊢
        rw [hsame]
        exact hs

theorem Follows.nil (s : MapState) : Follows s.seen (gather []) (.ok s) := ⟨s, rfl, rfl⟩

/-- A fold whose every step follows a source follows all of them. -/
theorem Follows.foldlM {ι : Type} {f : MapState → ι → Mapped MapState}
    {g : ι → Mapped (List EnergyObservation)} (h : ∀ s i, Follows s.seen (g i) (f s i))
    (is : List ι) (s : MapState) : Follows s.seen (gather (is.map g)) (is.foldlM f s) := by
  induction is generalizing s with
  | nil => exact Follows.nil s
  | cons i is ih =>
    rw [List.foldlM_cons, List.map_cons, gather]
    exact (h s i).bind ih

/-- Noting an observation is one step of the merge. -/
theorem noteObservation_some {locator : String} {seen seen' : Seen} {o : EnergyObservation}
    (h : mergeObs seen [o] = some seen') : noteObservation locator seen o = .ok seen' := by
  obtain ⟨d, hone, hd⟩ := Option.bind_eq_some_iff.mp h
  obtain rfl := Option.some.inj hd
  unfold Lib.mergeOne at hone
  unfold noteObservation
  split at hone
  · rename_i hnone
    rw [hnone]
    exact congrArg _ (Option.some.inj hone)
  · rename_i earlier hsome
    rw [hsome]
    dsimp only
    split at hone
    · rename_i hsame
      rw [if_pos hsame]
      exact congrArg _ (Option.some.inj hone)
    · cases hone

theorem noteObservation_none {locator : String} {seen : Seen} {o : EnergyObservation}
    (h : mergeObs seen [o] = none) : Quarantines (noteObservation locator seen o) := by
  cases hnote : noteObservation locator seen o with
  | ok seen' =>
    unfold noteObservation at hnote
    unfold mergeObs Lib.merge at h
    rw [List.foldlM_cons] at h
    split at hnote
    · rename_i hnone
      simp [Lib.mergeOne, hnone] at h
    · rename_i earlier hsome
      split at hnote
      · rename_i hsame
        simp [Lib.mergeOne, hsome, hsame] at h
      · cases hnote
  | error e =>
    unfold noteObservation at hnote
    split at hnote
    · cases hnote
    · split at hnote
      · cases hnote
      · obtain rfl := Except.error.inj hnote
        exact ⟨_, rfl⟩

/-- The observation of a metric of a record, as a source of the merge. -/
def metricSource (env : Env) (manifest : Manifest) (contract : DatasetContract)
    (record : SourceRecord) (ctx : MappingContext) (e : Envelope) (p : String × MetricMapping) :
    Mapped (List EnergyObservation) :=
  (mapMetric env manifest contract record ctx e p.1 p.2).map fun r => [r.1]

/-- The observations that `_map_one` yields for a record. -/
def mapOne (env : Env) (manifest : Manifest) (contract : DatasetContract) (ctx : MappingContext)
    (record : SourceRecord) : Mapped (List EnergyObservation) := do
  let e ← envelopeOf env manifest.mapping record ctx
  gather (manifest.mapping.metrics.map (metricSource env manifest contract record ctx e))

theorem follows_metric (record : SourceRecord) (e : Envelope) (s : MapState)
    (p : String × MetricMapping) : Follows s.seen (metricSource env manifest contract record ctx e p)
      (mapMetricInto env manifest contract record ctx e s p) := by
  unfold metricSource mapMetricInto
  cases hmap : mapMetric env manifest contract record ctx e p.1 p.2 with
  | error err => exact Follows.error
  | ok r =>
    obtain ⟨o, events⟩ := r
    simp only [Follows, Except.map, bind, Except.bind]
    cases hmerge : mergeObs s.seen [o] with
    | none =>
      obtain ⟨q, hq⟩ := @noteObservation_none record.locator _ _ hmerge
      exact ⟨q, by rw [hq]⟩
    | some d =>
      exact ⟨_, by rw [noteObservation_some hmerge], rfl⟩

theorem follows_record (s : MapState) (record : SourceRecord) :
    Follows s.seen (mapOne env manifest contract ctx record)
      (mapRecordInto env manifest contract ctx s record) := by
  unfold mapOne mapRecordInto
  cases henv : envelopeOf env manifest.mapping record ctx with
  | error err => exact Follows.error
  | ok e =>
    exact Follows.foldlM (follows_metric record e) manifest.mapping.metrics
      { s with unknown := s.unknown ++ unknownFields manifest.mapping record }

/-- The whole fold follows what its records give. -/
theorem follows_records (records : List SourceRecord) :
    Follows .empty (gather (records.map (mapOne env manifest contract ctx)))
      (records.foldlM (mapRecordInto env manifest contract ctx) ⟨.empty, [], []⟩) :=
  Follows.foldlM follows_record records ⟨.empty, [], []⟩

/-! ## One record -/

theorem mapOne_mem {record : SourceRecord} {l : List EnergyObservation}
    (h : mapOne env manifest contract ctx record = .ok l) (o : EnergyObservation) :
    o ∈ l ↔ ∃ p ∈ manifest.mapping.metrics, Yields env manifest contract ctx record p o := by
  obtain ⟨e, he, h⟩ := bind_eq_ok.mp h
  obtain ⟨-, hmem⟩ := gather_ok h
  rw [hmem]
  constructor
  · intro ho
    obtain ⟨l, hl, ho⟩ := ho
    obtain ⟨p, hp, hpl⟩ := List.mem_map.mp hl
    unfold metricSource at hpl
    cases hmap : mapMetric env manifest contract record ctx e p.1 p.2 with
    | error err =>
      rw [hmap] at hpl
      cases hpl
    | ok r =>
      rw [hmap] at hpl
      obtain rfl := Except.ok.inj hpl
      obtain rfl := List.mem_singleton.mp ho
      exact ⟨p, hp, e, r.2, he, hmap⟩
  · intro ho
    obtain ⟨p, hp, e', events, he', hmap⟩ := ho
    obtain rfl := Except.ok.inj (he.symm.trans he')
    refine ⟨[o], List.mem_map.mpr ⟨p, hp, ?_⟩, List.mem_singleton_self o⟩
    rw [metricSource, hmap]
    rfl

/-- A record whose mapping was not refused gives an observation for every metric. -/
theorem mapOne_yields {record : SourceRecord} {l : List EnergyObservation}
    (h : mapOne env manifest contract ctx record = .ok l) {p : String × MetricMapping}
    (hp : p ∈ manifest.mapping.metrics) : ∃ o, Yields env manifest contract ctx record p o := by
  obtain ⟨e, he, h⟩ := bind_eq_ok.mp h
  obtain ⟨l', hl'⟩ := (gather_ok h).1 _ (List.mem_map_of_mem hp)
  unfold metricSource at hl'
  cases hmap : mapMetric env manifest contract record ctx e p.1 p.2 with
  | error err =>
    rw [hmap] at hl'
    cases hl'
  | ok r => exact ⟨r.1, e, r.2, he, hmap⟩

/-- The metrics of one record have identities of their own, so its first error is what is raised. -/
theorem metrics_error {record : SourceRecord} {e : Envelope} {err : MapError}
    {ps : List (String × MetricMapping)} {s : MapState} (hnodup : (ps.map Prod.fst).Nodup)
    (hkeys : ∀ k o, s.seen.get? k = some o → k.metric ∉ ps.map Prod.fst)
    (h : gather (ps.map (metricSource env manifest contract record ctx e)) = .error err) :
    ps.foldlM (mapMetricInto env manifest contract record ctx e) s = .error err := by
  induction ps generalizing s with
  | nil => cases h
  | cons p ps ih =>
    rw [List.map_cons, gather, metricSource] at h
    rw [List.foldlM_cons, mapMetricInto]
    cases hmap : mapMetric env manifest contract record ctx e p.1 p.2 with
    | error err' =>
      rw [hmap] at h
      obtain rfl := Except.error.inj h
      rfl
    | ok r =>
      obtain ⟨o, events⟩ := r
      have hmetric : (observationIdentity o).metric = p.1 := (mapMetric_ok hmap).2.2.1
      have hfresh : s.seen.get? (observationIdentity o) = none := by
        cases hget : s.seen.get? (observationIdentity o) with
        | none => rfl
        | some o' => exact absurd (by rw [hmetric]; exact .head _) (hkeys _ o' hget)
      have hnote : noteObservation record.locator s.seen o =
          .ok (s.seen.set (observationIdentity o) o) := by
        rw [noteObservation, hfresh]
      have hrest : gather (ps.map (metricSource env manifest contract record ctx e)) =
          .error err := by
        rw [hmap] at h
        cases hg : gather (ps.map (metricSource env manifest contract record ctx e)) with
        | error err' =>
          rw [hg] at h
          exact congrArg _ (Except.error.inj h)
        | ok others =>
          rw [hg] at h
          cases h
      simp only [bind, Except.bind, hnote]
      rw [List.map_cons, List.nodup_cons] at hnodup
      refine ih hnodup.2 ?_ hrest
      intro k o' hk
      rw [Dict.get?_set] at hk
      split at hk
      · rename_i heq
        rw [heq, hmetric]
        exact hnodup.1
      · intro hmem
        exact hkeys k o' hk (.tail _ hmem)

theorem record_error {record : SourceRecord} {err : MapError}
    (h : mapOne env manifest contract ctx record = .error err) :
    mapRecordInto env manifest contract ctx ⟨.empty, [], []⟩ record = .error err := by
  unfold mapOne at h
  unfold mapRecordInto
  cases henv : envelopeOf env manifest.mapping record ctx with
  | error err' =>
    rw [henv] at h
    obtain rfl := Except.error.inj h
    rfl
  | ok e =>
    rw [henv] at h
    exact metrics_error manifest.mapping.metricsNodup (fun _ _ hk => by cases hk) h

/-! ## The document -/

/-- The observations that the records give. -/
def Yielded (env : Env) (manifest : Manifest) (contract : DatasetContract) (ctx : MappingContext)
    (records : List SourceRecord) (o : EnergyObservation) : Prop :=
  ∃ record ∈ records, ∃ p ∈ manifest.mapping.metrics, Yields env manifest contract ctx record p o

theorem Yielded.perm {records records' : List SourceRecord} {o : EnergyObservation}
    (hp : records.Perm records') (h : Yielded env manifest contract ctx records o) :
    Yielded env manifest contract ctx records' o := by
  obtain ⟨record, hr, h⟩ := h
  exact ⟨record, hp.mem_iff.mp hr, h⟩

theorem gather_yielded {records : List SourceRecord} {obs : List EnergyObservation}
    (h : gather (records.map (mapOne env manifest contract ctx)) = .ok obs)
    (o : EnergyObservation) : o ∈ obs ↔ Yielded env manifest contract ctx records o := by
  rw [(gather_ok h).2]
  constructor
  · intro ho
    obtain ⟨l, hl, ho⟩ := ho
    obtain ⟨record, hr, hrl⟩ := List.mem_map.mp hl
    exact ⟨record, hr, (mapOne_mem hrl o).mp ho⟩
  · intro ho
    obtain ⟨record, hr, ho⟩ := ho
    obtain ⟨l, hl⟩ := (gather_ok h).1 _ (List.mem_map_of_mem hr)
    exact ⟨l, List.mem_map.mpr ⟨record, hr, hl⟩, (mapOne_mem hl o).mpr ho⟩

section Registered

variable (hds : dataset manifest.contract.datasetId = some contract)
include hds

theorem mapRecords_merged {records : List SourceRecord} {obs : List EnergyObservation} {d : Seen}
    (hg : gather (records.map (mapOne env manifest contract ctx)) = .ok obs)
    (hm : mergeObs .empty obs = some d) :
    ∃ events, mapRecords env manifest records ctx = .ok ⟨d.values, events⟩ := by
  have h := @follows_records env manifest contract ctx records
  rw [hg] at h
  simp only [Follows, hm] at h
  obtain ⟨s, hs, rfl⟩ := h
  unfold mapRecords
  rw [hds]
  dsimp only
  rw [hs]
  exact ⟨_, rfl⟩

theorem mapRecords_fold {records : List SourceRecord}
    (h : Quarantines (records.foldlM (mapRecordInto env manifest contract ctx) ⟨.empty, [], []⟩)) :
    Quarantines (mapRecords env manifest records ctx) := by
  unfold mapRecords
  rw [hds]
  exact h.bind

theorem mapRecords_conflict {records : List SourceRecord} {obs : List EnergyObservation}
    (hg : gather (records.map (mapOne env manifest contract ctx)) = .ok obs)
    (hm : mergeObs .empty obs = none) : Quarantines (mapRecords env manifest records ctx) := by
  have h := @follows_records env manifest contract ctx records
  rw [hg] at h
  simp only [Follows, hm] at h
  exact mapRecords_fold hds h

theorem mapRecords_quarantined {records : List SourceRecord} {q : Quarantined}
    (hg : gather (records.map (mapOne env manifest contract ctx)) = .error (.quarantined q)) :
    Quarantines (mapRecords env manifest records ctx) := by
  have h := @follows_records env manifest contract ctx records
  rw [hg] at h
  exact mapRecords_fold hds h

/-- A record that raises does so when it is the first. -/
theorem mapRecords_raised {record : SourceRecord} {rest : List SourceRecord} {e : PyError}
    (h : mapOne env manifest contract ctx record = .error (.raised e)) :
    mapRecords env manifest (record :: rest) ctx = .error (.raised e) := by
  unfold mapRecords
  rw [hds]
  dsimp only
  rw [List.foldlM_cons, record_error h]
  rfl

end Registered

/-! ## Nothing is lost, and the order does not matter -/

/-- One observation for each identity, every record and metric represented, nothing made up. -/
structure Lossless (env : Env) (manifest : Manifest) (contract : DatasetContract)
    (ctx : MappingContext) (records : List SourceRecord) (obs : List EnergyObservation) : Prop where
  unique : (obs.map observationIdentity).Nodup
  represented : ∀ record ∈ records, ∀ p ∈ manifest.mapping.metrics, ∃ o v,
    Yields env manifest contract ctx record p o ∧ metricValue env p.2 record = .ok v ∧
      ∃ o' ∈ obs, observationIdentity o' = observationIdentity o ∧ sameValue o'.value v
  sourced : ∀ o ∈ obs, Yielded env manifest contract ctx records o

/-- Every identity, value and publication time of one list is in the other. -/
def Covers (obs obs' : List EnergyObservation) : Prop :=
  ∀ o ∈ obs, ∃ o' ∈ obs', observationIdentity o' = observationIdentity o ∧
    sameValue o'.value o.value ∧ o'.sourcePublishedAt = o.sourcePublishedAt

/-- `map_records` loses nothing and ignores the order of the records. -/
structure MapsFaithfully (env : Env) (manifest : Manifest) (ctx : MappingContext)
    (records : List SourceRecord) : Prop where
  lossless : Quarantines (mapRecords env manifest records ctx) ∨
    ∃ result, mapRecords env manifest records ctx = .ok result ∧
      ∀ contract, dataset manifest.contract.datasetId = some contract →
        Lossless env manifest contract ctx records result.observations
  orderFree : ∀ records', records.Perm records' →
    (Quarantines (mapRecords env manifest records ctx) ∧
      Quarantines (mapRecords env manifest records' ctx)) ∨
    ∃ result result', mapRecords env manifest records ctx = .ok result ∧
      mapRecords env manifest records' ctx = .ok result' ∧
      Covers result.observations result'.observations ∧
      Covers result'.observations result.observations

/-- Two records claim one identity with different values. -/
def Conflict (env : Env) (manifest : Manifest) (contract : DatasetContract) (ctx : MappingContext)
    (records : List SourceRecord) : Prop :=
  ∃ o o', Yielded env manifest contract ctx records o ∧
    Yielded env manifest contract ctx records o' ∧
    observationIdentity o = observationIdentity o' ∧ ¬ sameValue o.value o'.value

/-- Records of one identity carry one publication time. -/
def OnePublication (env : Env) (manifest : Manifest) (contract : DatasetContract)
    (ctx : MappingContext) (records : List SourceRecord) : Prop :=
  ∀ o o', Yielded env manifest contract ctx records o →
    Yielded env manifest contract ctx records o' → observationIdentity o = observationIdentity o' →
    o.sourcePublishedAt = o'.sourcePublishedAt

theorem Yielded.finite {records : List SourceRecord} {o : EnergyObservation}
    (h : Yielded env manifest contract ctx records o) : FiniteValue o.value := by
  obtain ⟨record, -, p, -, h⟩ := h
  exact h.finite

theorem sameValue_refl {a : Option Decimal} (ha : FiniteValue a) : sameValue a a :=
  (sameValue_iff ha ha).mpr rfl

theorem sameValue_symm {a b : Option Decimal} (ha : FiniteValue a) (hb : FiniteValue b)
    (h : sameValue a b) : sameValue b a :=
  (sameValue_iff hb ha).mpr ((sameValue_iff ha hb).mp h).symm

theorem sameValue_trans {a b c : Option Decimal} (ha : FiniteValue a) (hb : FiniteValue b)
    (hc : FiniteValue c) (h : sameValue a b) (h' : sameValue b c) : sameValue a c :=
  (sameValue_iff ha hc).mpr (((sameValue_iff ha hb).mp h).trans ((sameValue_iff hb hc).mp h'))

/-- The merge has a result exactly when no two records are in conflict. -/
theorem mergeObs_isSome_iff {records : List SourceRecord} {obs : List EnergyObservation}
    (hg : gather (records.map (mapOne env manifest contract ctx)) = .ok obs) :
    (mergeObs .empty obs).isSome ↔ ¬ Conflict env manifest contract ctx records := by
  have hmem := gather_yielded hg
  have hfin : ∀ o ∈ obs, FiniteValue o.value := fun o ho => ((hmem o).mp ho).finite
  have hiff := @Lib.merge_isSome_iff _ _ _ observationIdentity
    (fun a b => sameValue a.value b.value) obs (fun o ho => sameValue_refl (hfin o ho))
    (fun o ho o' ho' => sameValue_symm (hfin o ho) (hfin o' ho'))
    (fun o ho e he o' ho' => sameValue_trans (hfin o ho) (hfin e he) (hfin o' ho'))
  refine hiff.trans ?_
  constructor
  · intro h hconf
    obtain ⟨o, o', ho, ho', hid, hne⟩ := hconf
    exact hne (h o ((hmem o).mpr ho) o' ((hmem o').mpr ho') hid)
  · intro h o ho o' ho' hid
    by_contra hne
    exact h ⟨o, o', (hmem o).mp ho, (hmem o').mp ho', hid, hne⟩

/-- What is kept for an identity was given by a record, and has the value of all that claim it. -/
theorem kept_of_yielded {records : List SourceRecord} {obs : List EnergyObservation} {d : Seen}
    (hg : gather (records.map (mapOne env manifest contract ctx)) = .ok obs)
    (hm : mergeObs .empty obs = some d) {o : EnergyObservation}
    (ho : Yielded env manifest contract ctx records o) :
    ∃ o' ∈ d.values, observationIdentity o' = observationIdentity o ∧
      sameValue o'.value o.value ∧ Yielded env manifest contract ctx records o' := by
  have hmem := gather_yielded hg
  have hrefl : ∀ x ∈ obs, (fun a b : EnergyObservation => sameValue a.value b.value) x x = true :=
    fun x hx => sameValue_refl ((hmem x).mp hx).finite
  obtain ⟨o', hget, hsame⟩ := Lib.merge_same hrefl hm ((hmem o).mpr ho)
  obtain ⟨hin, hid⟩ := Lib.mem_of_merge hm hget
  exact ⟨o', Dict.mem_values.mpr ⟨_, hget⟩, hid, hsame, (hmem o').mp hin⟩

theorem yielded_of_kept {records : List SourceRecord} {obs : List EnergyObservation} {d : Seen}
    (hg : gather (records.map (mapOne env manifest contract ctx)) = .ok obs)
    (hm : mergeObs .empty obs = some d) {o : EnergyObservation} (ho : o ∈ d.values) :
    Yielded env manifest contract ctx records o := by
  obtain ⟨k, hget⟩ := Dict.mem_values.mp ho
  exact (gather_yielded hg o).mp (Lib.mem_of_merge hm hget).1

theorem kept_identities {obs : List EnergyObservation} {d : Seen}
    (hm : mergeObs .empty obs = some d) : (d.values.map observationIdentity).Nodup := by
  have hkeys : d.values.map observationIdentity = d.keys := by
    unfold Dict.values Dict.keys
    rw [List.map_map]
    apply List.map_congr_left
    intro p hp
    exact (Lib.mem_of_merge hm (Dict.get?_eq_some_iff.mpr hp)).2
  rw [hkeys]
  exact d.nodup

theorem lossless_of_merge {records : List SourceRecord} {obs : List EnergyObservation} {d : Seen}
    (hg : gather (records.map (mapOne env manifest contract ctx)) = .ok obs)
    (hm : mergeObs .empty obs = some d) :
    Lossless env manifest contract ctx records d.values := by
  constructor
  case unique => exact kept_identities hm
  case sourced =>
    intro o ho
    exact yielded_of_kept hg hm ho
  case represented =>
    intro record hr p hp
    obtain ⟨l, hl⟩ := (gather_ok hg).1 _ (List.mem_map_of_mem hr)
    obtain ⟨o, ho⟩ := mapOne_yields hl hp
    obtain ⟨o', ho', hid, hsame, -⟩ := kept_of_yielded hg hm ⟨record, hr, p, hp, ho⟩
    have hvalue : metricValue env p.2 record = .ok o.value := by
      obtain ⟨e, events, -, hmap⟩ := ho
      exact (mapMetric_ok hmap).1
    exact ⟨o, o.value, ho, hvalue, o', ho', hid, hsame⟩

/-- With one publication time for an identity, another order keeps the same facts. -/
theorem covers_of_merge {records records' : List SourceRecord} {obs obs' : List EnergyObservation}
    {d d' : Seen} (hone : OnePublication env manifest contract ctx records')
    (hp : records.Perm records')
    (hg : gather (records.map (mapOne env manifest contract ctx)) = .ok obs)
    (hm : mergeObs .empty obs = some d)
    (hg' : gather (records'.map (mapOne env manifest contract ctx)) = .ok obs')
    (hm' : mergeObs .empty obs' = some d') : Covers d.values d'.values := by
  intro o ho
  have hy := (yielded_of_kept hg hm ho).perm hp
  obtain ⟨o', ho', hid, hsame, hy'⟩ := kept_of_yielded hg' hm' hy
  exact ⟨o', ho', hid, hsame, hone o' o hy' hy hid⟩

/-- The first record's observations are the ones that are kept. -/
theorem first_kept {record : SourceRecord} {rest : List SourceRecord}
    {obs : List EnergyObservation} {d : Seen} {p : String × MetricMapping} {o : EnergyObservation}
    (hg : gather ((record :: rest).map (mapOne env manifest contract ctx)) = .ok obs)
    (hm : mergeObs .empty obs = some d) (hp : p ∈ manifest.mapping.metrics)
    (ho : Yields env manifest contract ctx record p o) : o ∈ d.values := by
  rw [List.map_cons, gather] at hg
  obtain ⟨first, hfirst, hg⟩ := bind_eq_ok.mp hg
  obtain ⟨others, -, hg⟩ := bind_eq_ok.mp hg
  obtain rfl := Except.ok.inj hg
  have hmem : o ∈ first := (mapOne_mem hfirst o).mpr ⟨p, hp, ho⟩
  have hfound : (first.find? fun x => observationIdentity x = observationIdentity o).isSome :=
    List.find?_isSome.mpr ⟨o, hmem, decide_eq_true rfl⟩
  obtain ⟨x, hx⟩ := Option.isSome_iff_exists.mp hfound
  have hxid : observationIdentity x = observationIdentity o := by simpa using List.find?_some hx
  obtain ⟨p', hp', hx'⟩ := (mapOne_mem hfirst x).mp (List.mem_of_find?_eq_some hx)
  have hname : p'.1 = p.1 := by
    rw [← hx'.metric, ← ho.metric]
    exact congrArg ObservationIdentity.metric hxid
  obtain rfl := List.inj_on_of_nodup_map manifest.mapping.metricsNodup hp' hp hname
  obtain rfl := hx'.unique ho
  have hget : d.get? (observationIdentity x) = some x := by
    rw [Lib.merge_get? hm, Dict.get?_empty, Option.none_or, List.find?_append, hx, Option.some_or]
  exact Dict.mem_values.mpr ⟨_, hget⟩

/-- When `map_records` is faithful to the records, for a registered dataset. -/
def FaithfulWhen (env : Env) (manifest : Manifest) (contract : DatasetContract)
    (ctx : MappingContext) (records : List SourceRecord) : Prop :=
  (∀ record ∈ records, ∀ e, mapOne env manifest contract ctx record ≠ .error (.raised e)) ∧
    ((∃ record ∈ records, Quarantines (mapOne env manifest contract ctx record)) ∨
      Conflict env manifest contract ctx records ∨
      OnePublication env manifest contract ctx records)

theorem Conflict.perm {records records' : List SourceRecord} (hp : records.Perm records')
    (h : Conflict env manifest contract ctx records) :
    Conflict env manifest contract ctx records' := by
  obtain ⟨o, o', ho, ho', h⟩ := h
  exact ⟨o, o', ho.perm hp, ho'.perm hp, h⟩

section Registered

variable (hds : dataset manifest.contract.datasetId = some contract)
include hds

/-- The outcome of the mapping when no record raises: one of the three below. -/
theorem outcome {records : List SourceRecord}
    (hraise : ∀ record ∈ records, ∀ e,
      mapOne env manifest contract ctx record ≠ .error (.raised e)) :
    (Quarantines (mapRecords env manifest records ctx) ∧
      ((∃ record ∈ records, Quarantines (mapOne env manifest contract ctx record)) ∨
        Conflict env manifest contract ctx records)) ∨
    ∃ obs d events, gather (records.map (mapOne env manifest contract ctx)) = .ok obs ∧
      mergeObs .empty obs = some d ∧ mapRecords env manifest records ctx = .ok ⟨d.values, events⟩ := by
  cases hg : gather (records.map (mapOne env manifest contract ctx)) with
  | error err =>
    obtain ⟨record, hr, hrec⟩ := List.mem_map.mp (gather_error hg)
    cases err with
    | quarantined q => exact .inl ⟨mapRecords_quarantined hds hg, .inl ⟨record, hr, q, hrec⟩⟩
    | raised e => exact absurd hrec (hraise record hr e)
  | ok obs =>
    cases hm : mergeObs .empty obs with
    | none =>
      refine .inl ⟨mapRecords_conflict hds hg hm, .inr ?_⟩
      by_contra hconf
      have hsome := (mergeObs_isSome_iff hg).mpr hconf
      rw [hm] at hsome
      cases hsome
    | some d =>
      obtain ⟨events, hmap⟩ := mapRecords_merged hds hg hm
      exact .inr ⟨obs, d, events, rfl, hm, hmap⟩

theorem quarantines_of {records : List SourceRecord}
    (hraise : ∀ record ∈ records, ∀ e,
      mapOne env manifest contract ctx record ≠ .error (.raised e))
    (h : (∃ record ∈ records, Quarantines (mapOne env manifest contract ctx record)) ∨
      Conflict env manifest contract ctx records) :
    Quarantines (mapRecords env manifest records ctx) := by
  rcases outcome hds hraise with ⟨hq, -⟩ | ⟨obs, d, events, hg, hm, -⟩
  · exact hq
  · rcases h with ⟨record, hr, q, hq⟩ | hconf
    · obtain ⟨l, hl⟩ := (gather_ok hg).1 _ (List.mem_map_of_mem hr)
      cases hl.symm.trans hq
    · exact absurd hconf ((mergeObs_isSome_iff hg).mp (Option.isSome_iff_exists.mpr ⟨d, hm⟩))

theorem faithful_of_when {records : List SourceRecord}
    (h : FaithfulWhen env manifest contract ctx records) :
    MapsFaithfully env manifest ctx records := by
  obtain ⟨hraise, hwhen⟩ := h
  have hraise' : ∀ {records'}, records.Perm records' → ∀ record ∈ records', ∀ e,
      mapOne env manifest contract ctx record ≠ .error (.raised e) :=
    fun hp record hr => hraise record (hp.mem_iff.mpr hr)
  constructor
  case lossless =>
    rcases outcome hds hraise with ⟨hq, -⟩ | ⟨obs, d, events, hg, hm, hmap⟩
    · exact .inl hq
    · refine .inr ⟨_, hmap, ?_⟩
      intro contract' hds'
      obtain rfl := Option.some.inj (hds.symm.trans hds')
      exact lossless_of_merge hg hm
  case orderFree =>
    intro records' hp
    rcases outcome hds hraise with ⟨hq, hbad⟩ | ⟨obs, d, events, hg, hm, hmap⟩
    · refine .inl ⟨hq, quarantines_of hds (hraise' hp) ?_⟩
      rcases hbad with ⟨record, hr, hrec⟩ | hconf
      · exact .inl ⟨record, hp.mem_iff.mp hr, hrec⟩
      · exact .inr (hconf.perm hp)
    · rcases outcome hds (hraise' hp) with ⟨-, hbad⟩ | ⟨obs', d', events', hg', hm', hmap'⟩
      · refine absurd (quarantines_of hds hraise ?_) (by rw [hmap]; exact not_quarantines_ok)
        rcases hbad with ⟨record, hr, hrec⟩ | hconf
        · exact .inl ⟨record, hp.mem_iff.mpr hr, hrec⟩
        · exact .inr (hconf.perm hp.symm)
      · have hone : OnePublication env manifest contract ctx records := by
          rcases hwhen with hq | hconf | hone
          · exact absurd (quarantines_of hds hraise (.inl hq)) (by rw [hmap]; exact not_quarantines_ok)
          · exact absurd (quarantines_of hds hraise (.inr hconf))
              (by rw [hmap]; exact not_quarantines_ok)
          · exact hone
        have hone' : OnePublication env manifest contract ctx records' :=
          fun o o' ho ho' => hone o o' (ho.perm hp.symm) (ho'.perm hp.symm)
        exact .inr ⟨_, _, hmap, hmap', covers_of_merge hone' hp hg hm hg' hm',
          covers_of_merge hone hp.symm hg' hm' hg hm⟩

/-- A faithful mapping keeps the publication time of every record. -/
theorem kept_publication {records : List SourceRecord} {d : Seen} {events : List QualityEvent}
    (h : MapsFaithfully env manifest ctx records)
    (hraise : ∀ record ∈ records, ∀ e,
      mapOne env manifest contract ctx record ≠ .error (.raised e))
    (hmap : mapRecords env manifest records ctx = .ok ⟨d.values, events⟩)
    {o : EnergyObservation} (ho : Yielded env manifest contract ctx records o) :
    ∃ x ∈ d.values, observationIdentity x = observationIdentity o ∧
      x.sourcePublishedAt = o.sourcePublishedAt := by
  obtain ⟨record, hr, p, hp, ho⟩ := ho
  have hperm := List.perm_cons_erase hr
  have hraise' : ∀ x ∈ record :: records.erase record, ∀ e,
      mapOne env manifest contract ctx x ≠ .error (.raised e) :=
    fun x hx => hraise x (hperm.mem_iff.mpr hx)
  rcases outcome hds hraise' with ⟨hq, -⟩ | ⟨obs', d', events', hg', hm', hmap'⟩
  · rcases h.orderFree _ hperm with ⟨hq', -⟩ | ⟨result, result', -, hres', -⟩
    · rw [hmap] at hq'
      exact absurd hq' not_quarantines_ok
    · rw [hres'] at hq
      exact absurd hq not_quarantines_ok
  · rcases h.orderFree _ hperm with ⟨hq', -⟩ | ⟨result, result', hres, hres', -, hcov⟩
    · rw [hmap] at hq'
      exact absurd hq' not_quarantines_ok
    · obtain rfl := Except.ok.inj (hmap.symm.trans hres)
      obtain rfl := Except.ok.inj (hmap'.symm.trans hres')
      obtain ⟨x, hx, hid, -, hpub⟩ := hcov o (first_kept hg' hm' hp ho)
      exact ⟨x, hx, hid, hpub⟩

theorem when_of_faithful {records : List SourceRecord}
    (h : MapsFaithfully env manifest ctx records) :
    FaithfulWhen env manifest contract ctx records := by
  have hraise : ∀ record ∈ records, ∀ e,
      mapOne env manifest contract ctx record ≠ .error (.raised e) := by
    intro record hr e he
    have hmap : mapRecords env manifest (record :: records.erase record) ctx = .error (.raised e) :=
      mapRecords_raised hds he
    rcases h.orderFree _ (List.perm_cons_erase hr) with ⟨-, hq⟩ | ⟨result, result', -, hres', -⟩
    · rw [hmap] at hq
      obtain ⟨q, hq⟩ := hq
      cases hq
    · cases hmap.symm.trans hres'
  refine ⟨hraise, ?_⟩
  rcases outcome hds hraise with ⟨-, hbad⟩ | ⟨obs, d, events, hg, hm, hmap⟩
  · rcases hbad with hq | hconf
    · exact .inl hq
    · exact .inr (.inl hconf)
  · refine .inr (.inr ?_)
    intro o o' ho ho' hid
    obtain ⟨x, hx, hxid, hxpub⟩ := kept_publication hds h hraise hmap ho
    obtain ⟨y, hy, hyid, hypub⟩ := kept_publication hds h hraise hmap ho'
    obtain rfl := List.inj_on_of_nodup_map (kept_identities hm) hx hy
      (hxid.trans (hid.trans hyid.symm))
    rw [← hxpub, hypub]

end Registered

/-- Exactly when nothing is lost and the order of the records does not matter. -/
theorem maps_faithfully_iff (env : Env) (manifest : Manifest) (ctx : MappingContext)
    (records : List SourceRecord) : MapsFaithfully env manifest ctx records ↔
      ∀ contract, dataset manifest.contract.datasetId = some contract →
        FaithfulWhen env manifest contract ctx records := by
  constructor
  · intro h contract hds
    exact when_of_faithful hds h
  · intro h
    cases hds : dataset manifest.contract.datasetId with
    | some contract => exact faithful_of_when hds (h contract hds)
    | none =>
      have hq : ∀ records', Quarantines (mapRecords env manifest records' ctx) := by
        intro records'
        unfold mapRecords
        rw [hds]
        exact ⟨_, rfl⟩
      exact ⟨.inl (hq records), fun records' _ => .inl ⟨hq records, hq records'⟩⟩

end Fold

/-! ### One period, published twice -/

section Published

/-- The intraday market with a publication time for each record. -/
def publishedMarket : Manifest :=
  { oteIntradayMarket with
    mapping := { oteIntradayMarket.mapping with sourcePublishedAt := some (.source "Published") } }

/-- The first hour of a day, published at some time. -/
def publishedRecord (stamp : String) : SourceRecord where
  fields := [("Date", .text "2026-01-01"), ("PeriodIndex", .text "1"),
    ("PeriodResolution", .text "PT60M"), ("Price", .text "10.5"), ("Volume", .text "3"),
    ("Published", .text stamp)]
  locator := "/Result/Item"

def publishedEnv : Env := (asciiImplementation DecodeLibs.refusing fun _ => 0).env

def publishedContext : MappingContext :=
  ⟨"ote_intraday_market", 1767225600 * second, 20454, 1767225600 * second, "", 0,
    1767225600 * second, 0⟩

/-- The publication times that a mapping keeps. -/
def publicationsOf (r : Mapped MappingResult) : List (Option Instant) :=
  match r with
  | .ok r => r.observations.map EnergyObservation.sourcePublishedAt
  | .error _ => []

theorem publications_of_covers {obs obs' : List EnergyObservation} (h : Covers obs obs')
    {t : Option Instant} (ht : t ∈ obs.map EnergyObservation.sourcePublishedAt) :
    t ∈ obs'.map EnergyObservation.sourcePublishedAt := by
  obtain ⟨o, ho, rfl⟩ := List.mem_map.mp ht
  obtain ⟨o', ho', -, -, hpub⟩ := h o ho
  exact hpub ▸ List.mem_map_of_mem ho'

/-- The same two records in the other order keep the other publication time. -/
theorem publication_depends_on_order :
    ¬ MapsFaithfully publishedEnv publishedMarket publishedContext
      [publishedRecord "2026-01-01T01:00:00+00:00", publishedRecord "2026-01-01T02:00:00+00:00"] := by
  intro h
  have h₁ : publicationsOf (mapRecords publishedEnv publishedMarket
      [publishedRecord "2026-01-01T01:00:00+00:00", publishedRecord "2026-01-01T02:00:00+00:00"]
      publishedContext) = [some (1767229200 * second), some (1767229200 * second)] := by
    decide +kernel
  have h₂ : publicationsOf (mapRecords publishedEnv publishedMarket
      [publishedRecord "2026-01-01T02:00:00+00:00", publishedRecord "2026-01-01T01:00:00+00:00"]
      publishedContext) = [some (1767232800 * second), some (1767232800 * second)] := by
    decide +kernel
  rcases h.orderFree _ (.swap _ _ _) with ⟨⟨q, hq⟩, -⟩ | ⟨result, result', hres, hres', hcov, -⟩
  · rw [hq] at h₁
    cases h₁
  · rw [hres] at h₁
    rw [hres'] at h₂
    have hmem : some (1767229200 * second) ∈ result.observations.map
        EnergyObservation.sourcePublishedAt := by
      rw [show result.observations.map EnergyObservation.sourcePublishedAt = _ from h₁]
      exact .head _
    have hmem' := publications_of_covers hcov hmem
    rw [show result'.observations.map EnergyObservation.sourcePublishedAt = _ from h₂] at hmem'
    exact absurd hmem' (by decide)

end Published

end EnergyPlatform
