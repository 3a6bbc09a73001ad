import EnergyPlatform.Store.CurrentView

/-!
# Store.InsertionOrder

When the current view depends on what a store holds and not on the order it was inserted in.

Two stores with the `SameContents` have the same eligible rows under the same ranks. Ranks can tie:
two versions of one derivation whose newest occurrences carry one publication time have equal
ranks, and `current_rows` then keeps the row inserted first. `insertion_order_iff` says exactly
when the claim of order independence holds; `unchanged_publication_depends` is a corrected payload
under an unchanged publication time, where it does not.
-/

namespace EnergyPlatform

open Lib (Dict FirstMax)

namespace MemoryStore

variable {s s' : MemoryStore}

/-! ## Stores with the same contents -/

/-- An occurrence with the capture it came from in place of the attempt that recorded it. -/
def OccurrenceBy (s : MemoryStore) (v : VersionIdentity) (f t : Instant) (c : Option CaptureId) :
    Prop :=
  ∃ a att, HasOccurrence s v f t a ∧ s.attemptTable.get? a = some att ∧ att.captureId = c

structure SameContents (s s' : MemoryStore) : Prop where
  versions : ∀ o, (∃ row ∈ s.rowTable.values, row.observation = o) ↔
    ∃ row ∈ s'.rowTable.values, row.observation = o
  occurrences : ∀ v f t c, OccurrenceBy s v f t c ↔ OccurrenceBy s' v f t c
  registrations : ∀ d, s.registeredAt d = s'.registeredAt d
  invalidations : ∀ k, s.invalidationTable.contains k = s'.invalidationTable.contains k

theorem SameContents.symm (hc : SameContents s s') : SameContents s' s where
  versions o := (hc.versions o).symm
  occurrences v f t c := (hc.occurrences v f t c).symm
  registrations d := (hc.registrations d).symm
  invalidations k := (hc.invalidations k).symm

theorem SameContents.twin (hc : SameContents s s') {row : StoredObservation}
    (hrow : row ∈ s.rowTable.values) :
    ∃ row' ∈ s'.rowTable.values, row'.observation = row.observation :=
  (hc.versions _).mp ⟨row, hrow, rfl⟩

theorem WellFormed.row_filed (h : WellFormed s) {row : StoredObservation}
    (hrow : row ∈ s.rowTable.values) : s.rowTable.get? row.id = some row := by
  obtain ⟨i, hi⟩ := Dict.mem_values.mp hrow
  rw [h.silver.id hi]
  exact hi

/-- A store has one row of each version. -/
theorem WellFormed.row_unique (h : WellFormed s) {row row' : StoredObservation}
    (hrow : row ∈ s.rowTable.values) (hrow' : row' ∈ s.rowTable.values)
    (hv : versionIdentity row.observation = versionIdentity row'.observation) : row = row' := by
  have hr := h.row_filed hrow
  have hr' := h.row_filed hrow'
  rw [h.silver.unique hr hr' hv, hr', Option.some.injEq] at hr
  exact hr.symm

/-- A valid instant of a row, said with captures instead of attempts. -/
theorem validInstant_iff (h : WellFormed s) {row : StoredObservation}
    (hrow : row ∈ s.rowTable.values) {t : Instant} : ValidInstant s row t ↔
      ∃ f c, OccurrenceBy s (versionIdentity row.observation) f t c ∧
        s.occurrenceValid row.observation.derivationId c = true := by
  constructor
  · rintro ⟨f, a, att, hf, ha, hv⟩
    exact ⟨f, att.captureId, ⟨a, att, ⟨row.id, row, h.row_filed hrow, rfl, hf⟩, ha, rfl⟩, hv⟩
  · rintro ⟨f, c, ⟨a, att, ⟨i, r, hr, hvr, hf⟩, ha, rfl⟩, hv⟩
    obtain rfl := h.row_unique (Dict.mem_values.mpr ⟨i, hr⟩) hrow hvr
    rw [← h.silver.id hr] at hf
    exact ⟨f, a, att, hf, ha, hv⟩

theorem SameContents.occurrenceValid (hc : SameContents s s') (d : DerivationId)
    (c : Option CaptureId) : s.occurrenceValid d c = s'.occurrenceValid d c := by
  cases c with
  | none => rfl
  | some c => simp only [MemoryStore.occurrenceValid, isInvalidated, hc.invalidations]

section Twins

variable (h : WellFormed s) (h' : WellFormed s') (hc : SameContents s s')
  {row row' : StoredObservation} (hrow : row ∈ s.rowTable.values)
  (hrow' : row' ∈ s'.rowTable.values) (heq : row'.observation = row.observation)

include h h' hc hrow hrow' heq

theorem validInstant_twin (t : Instant) : ValidInstant s row t ↔ ValidInstant s' row' t := by
  rw [validInstant_iff h hrow, validInstant_iff h' hrow', heq]
  simp only [hc.occurrences, hc.occurrenceValid]

theorem eligible_twin : Eligible s row ↔ Eligible s' row' :=
  exists_congr (validInstant_twin h h' hc hrow hrow' heq)

theorem newest_twin : newest (s.validOf row) = newest (s'.validOf row') := by
  have hmem : ∀ t, t ∈ s.validOf row ↔ t ∈ s'.validOf row' := fun t => by
    rw [mem_validOf h.readable, mem_validOf h'.readable, validInstant_twin h h' hc hrow hrow' heq]
  have hset : {t | t ∈ s.validOf row} = {t | t ∈ s'.validOf row'} := Set.ext hmem
  by_cases hne : s.validOf row = []
  · have hne' : s'.validOf row' = [] :=
      List.eq_nil_iff_forall_not_mem.mpr fun t ht => by
        have := (hmem t).mpr ht
        rw [hne] at this; cases this
    rw [hne, hne']
  · have hne' : s'.validOf row' ≠ [] := by
      obtain ⟨t, ht⟩ := List.exists_mem_of_ne_nil _ hne
      exact List.ne_nil_of_mem ((hmem t).mp ht)
    obtain ⟨t, ht, hg⟩ := newest_spec hne
    obtain ⟨t', ht', hg'⟩ := newest_spec hne'
    rw [hset] at hg
    rw [ht, ht', hg.unique hg']

theorem rankOf_twin (reg : Registry) : s.rankOf reg row = s'.rankOf reg row' := by
  rw [rankOf, rankOf, newest_twin h h' hc hrow hrow' heq, heq, hc.registrations]

theorem isCandidate_twin (q : CurrentQuery) : s.isCandidate q row = s'.isCandidate q row' := by
  rw [Bool.eq_iff_iff, isCandidate_iff h.readable, isCandidate_iff h'.readable, heq,
    eligible_twin h h' hc hrow hrow' heq]

end Twins

theorem SameContents.comparable (hc : SameContents s s') (h : WellFormed s) (h' : WellFormed s')
    {q : CurrentQuery} (hq : Comparable s q) : Comparable s' q := by
  intro r' hr' p' hp' hcr hcp hk hne
  obtain ⟨r, hr, her⟩ := hc.symm.twin hr'
  obtain ⟨p, hp, hep⟩ := hc.symm.twin hp'
  rw [← hc.registrations, ← her]
  refine hq r hr p hp ?_ ?_ ?_ ?_
  · rw [isCandidate_twin h h' hc hr hr' her.symm]; exact hcr
  · rw [isCandidate_twin h h' hc hp hp' hep.symm]; exact hcp
  · rw [her, hep]; exact hk
  · rintro rfl
    exact hne (h'.row_unique hr' hp' (by rw [← her, ← hep]))

/-! ## Ties -/

/-- No two different eligible versions of one identity and transport have one rank. -/
def NoTie (reg : Registry) (s : MemoryStore) : Prop :=
  ∀ a ∈ s.rowTable.values, ∀ b ∈ s.rowTable.values, a ≠ b → Eligible s a → Eligible s b →
    observationIdentity a.observation = observationIdentity b.observation →
    a.observation.sourceTransport = b.observation.sourceTransport →
    ∀ ρ, ¬ (Ranked reg s a ρ ∧ Ranked reg s b ρ)

/-- No two different eligible versions of one identity and transport share a registered derivation,
the contract version and the newest valid ordering instant. -/
def Distinguished (s : MemoryStore) : Prop :=
  ∀ a ∈ s.rowTable.values, ∀ b ∈ s.rowTable.values, a ≠ b →
    observationIdentity a.observation = observationIdentity b.observation →
    a.observation.sourceTransport = b.observation.sourceTransport →
    s.registeredAt a.observation.derivationId ≠ none →
    a.observation.derivationId = b.observation.derivationId →
    a.observation.contractVersion = b.observation.contractVersion →
    ∀ t, ¬ (IsGreatest {x | ValidInstant s a x} t ∧ IsGreatest {x | ValidInstant s b x} t)

/-- An eligible version that no eligible version of its identity outranks. -/
structure Top (reg : Registry) (s : MemoryStore) (row : StoredObservation) : Prop where
  mem : row ∈ s.rowTable.values
  eligible : Eligible s row
  max : ∀ row' ∈ s.rowTable.values, Eligible s row' →
    observationIdentity row'.observation = observationIdentity row.observation →
    ∀ ρ ρ', Ranked reg s row ρ → Ranked reg s row' ρ' → ρ' ≤ ρ

/-- Of the top versions of an identity, the one inserted first. -/
structure TopFirst (reg : Registry) (s : MemoryStore) (row : StoredObservation) : Prop
    extends Top reg s row where
  first : ∀ row', Top reg s row' →
    observationIdentity row'.observation = observationIdentity row.observation → row.id ≤ row'.id

/-- Of the top versions of an identity, both stores were given the same one first, wherever all
versions of the dataset and delivery range asked for can be ranked. -/
def SameFirst (reg : Registry) (s s' : MemoryStore) : Prop :=
  ∀ q, q.transport = none → Comparable s q → ∀ row row', TopFirst reg s row → TopFirst reg s' row' →
    observationIdentity row.observation = observationIdentity row'.observation →
    q.admits row.observation = true → row.observation = row'.observation

variable (reg : Registry)

theorem ownerRank_congr {a b : EnergyObservation} (hid : observationIdentity a = observationIdentity b)
    (ht : a.sourceTransport = b.sourceTransport) : ownerRank reg a = ownerRank reg b := by
  rw [ownerRank, ownerRank, ownerTransportOf_congr reg hid, ht]

/-- A tie is two versions that share what `Distinguished` lists. -/
theorem noTie_iff : NoTie reg s ↔ Distinguished s := by
  constructor
  · intro hno a ha b hb hne hid ht hreg hd hv t ⟨hga, hgb⟩
    obtain ⟨r, hr⟩ := Option.ne_none_iff_exists'.mp hreg
    refine hno a ha b hb hne ⟨t, hga.1⟩ ⟨t, hgb.1⟩ hid ht _ ⟨⟨r, t, hr, hga, rfl⟩, r, t, hd ▸ hr, hgb, ?_⟩
    exact rank_eq_iff.mpr ⟨ownerRank_congr reg hid ht, rfl, hv, rfl, hd⟩
  · rintro hdis a ha b hb hne - - hid ht ρ ⟨⟨r, t, hr, hg, rfl⟩, r', t', hr', hg', heq⟩
    obtain ⟨-, rfl, hv, rfl, hd⟩ := rank_eq_iff.mp heq
    exact hdis a ha b hb hne hid ht (by rw [hr]; simp) hd hv t ⟨hg, hg'⟩

theorem Distinguished.twin (hd : Distinguished s) (h : WellFormed s) (h' : WellFormed s')
    (hc : SameContents s s') : Distinguished s' := by
  intro a' ha' b' hb' hne hid ht hreg hder hv t ⟨hga, hgb⟩
  obtain ⟨a, ha, hea⟩ := hc.symm.twin ha'
  obtain ⟨b, hb, heb⟩ := hc.symm.twin hb'
  rw [← hea, ← heb] at hid ht hder hv
  rw [← hea, ← hc.registrations] at hreg
  have hset : ∀ {r r'}, r ∈ s.rowTable.values → r' ∈ s'.rowTable.values →
      r.observation = r'.observation → {x | ValidInstant s r x} = {x | ValidInstant s' r' x} :=
    fun hr hr' he => Set.ext (validInstant_twin h h' hc hr hr' he.symm)
  refine hd a ha b hb ?_ hid ht hreg hder hv t
    ⟨hset ha ha' hea ▸ hga, hset hb hb' heb ▸ hgb⟩
  rintro rfl
  exact hne (h'.row_unique ha' hb' (by rw [← hea, ← heb]))

/-! ## Winners -/

theorem rankOf_of_ranked (h : Readable s) {row : StoredObservation} {ρ : Rank}
    (hr : Ranked reg s row ρ) : s.rankOf reg row = ρ := by
  obtain ⟨t, latest, ht, hg, rfl⟩ := hr
  obtain ⟨n, hn, hgn⟩ := newest_spec ((eligible_iff h).mp ⟨latest, hg.1⟩)
  have hset : {x | x ∈ s.validOf row} = {x | ValidInstant s row x} :=
    Set.ext fun x => mem_validOf h
  rw [hset] at hgn
  rw [rankOf, ht, hn, hgn.unique hg]
  rfl

theorem ranked_of_registered (h : Readable s) {row : StoredObservation} (he : Eligible s row)
    {t : Instant} (ht : s.registeredAt row.observation.derivationId = some t) :
    Ranked reg s row (s.rankOf reg row) := by
  obtain ⟨n, hn, hgn⟩ := newest_spec ((eligible_iff h).mp he)
  have hset : {x | x ∈ s.validOf row} = {x | ValidInstant s row x} :=
    Set.ext fun x => mem_validOf h
  refine ⟨t, n, ht, hset ▸ hgn, ?_⟩
  rw [rankOf, ht, hn]
  rfl

theorem key_of_identity {q : CurrentQuery} (hq : q.transport = none) {o o' : EnergyObservation} :
    q.key o = q.key o' ↔ observationIdentity o = observationIdentity o' := by
  simp [CurrentQuery.key, hq]

/-- Rows stand in the table in the order of their ids. -/
theorem WellFormed.rows_ordered (h : WellFormed s) :
    s.rowTable.values.Pairwise fun a b => a.id < b.id := by
  have hid : s.rowTable.values.map StoredObservation.id = s.rowTable.keys := by
    simp only [Dict.values, Dict.keys, List.map_map]
    exact List.map_congr_left fun e he => h.silver.id (Dict.get?_eq_some_iff.mpr he)
  have := h.silver.order
  rw [← hid, List.pairwise_map] at this
  exact this

theorem Wins.topFirst (h : WellFormed s) {q : CurrentQuery} (hq : q.transport = none)
    (hcomp : Comparable s q) {row : StoredObservation} (hw : Wins reg s q row) :
    TopFirst reg s row := by
  obtain ⟨hrow, ha, he⟩ := hw.candidate reg h.readable
  have hcand := (isCandidate_iff h.readable).mpr ⟨ha, he⟩
  refine ⟨⟨hrow, he, ?_⟩, ?_⟩
  · intro row' hrow' he' hid ρ ρ' hρ hρ'
    rw [← rankOf_of_ranked reg h.readable hρ, ← rankOf_of_ranked reg h.readable hρ']
    exact hw.max reg h.readable hrow' he' ((key_of_identity hq).mpr hid)
  · intro row' htop hid
    by_cases hne : row = row'
    · rw [hne]
    · have hk := (key_of_identity hq).mpr hid
      have hcand' := (isCandidate_iff h.readable).mpr
        ⟨CurrentQuery.admits_of_key ha hk, htop.eligible⟩
      obtain ⟨t, ht⟩ := hcomp row hrow row' htop.mem hcand hcand' hk.symm hne
      obtain ⟨t', ht'⟩ := hcomp row' htop.mem row hrow hcand' hcand hk (Ne.symm hne)
      have hle := htop.max row hrow he hid.symm _ _ (ranked_of_registered reg h.readable htop.eligible ht')
        (ranked_of_registered reg h.readable he ht)
      refine FirstMax.first hw ?_ (List.mem_filter.mpr ⟨List.mem_filter.mpr ⟨htop.mem, hcand'⟩, ?_⟩) hle
      · exact (h.rows_ordered.filter _).filter _
      · simpa using hk

/-- Without a transport, the winners of a query are the top versions inserted first. -/
theorem wins_iff_topFirst (h : WellFormed s) {q : CurrentQuery} (hq : q.transport = none)
    (hcomp : Comparable s q) {row : StoredObservation} :
    Wins reg s q row ↔ q.admits row.observation = true ∧ TopFirst reg s row := by
  constructor
  · exact fun hw => ⟨(hw.candidate reg h.readable).2.1, hw.topFirst reg h hq hcomp⟩
  · rintro ⟨ha, ht⟩
    obtain ⟨w, hw, hk, -⟩ := exists_wins reg h.readable ht.mem ha ht.eligible
    have hw' := hw.topFirst reg h hq hcomp
    have hid := (key_of_identity hq).mp hk
    have hle := ht.first w hw'.toTop hid
    have hge := hw'.first row ht.toTop hid.symm
    have hr := h.row_filed ht.mem
    rw [le_antisymm hle hge, h.row_filed hw'.mem, Option.some.injEq] at hr
    exact hr ▸ hw

/-- Where no two versions of an identity have one rank, of whatever transports, the order of their
insertion decides nothing. -/
theorem sameFirst_of_ranks_differ (h : WellFormed s) (h' : WellFormed s') (hc : SameContents s s')
    (hreg : Registered s) (hreg' : Registered s')
    (hdiffer : ∀ a ∈ s.rowTable.values, ∀ b ∈ s.rowTable.values,
      observationIdentity a.observation = observationIdentity b.observation →
      s.rankOf reg a = s.rankOf reg b → a = b) :
    Distinguished s ∧ SameFirst reg s s' := by
  constructor
  · rw [← noTie_iff reg]
    rintro a ha b hb hne - - hid - ρ ⟨hra, hrb⟩
    refine hne (hdiffer a ha b hb hid ?_)
    rw [rankOf_of_ranked reg h.readable hra, rankOf_of_ranked reg h.readable hrb]
  · intro q _ _ row row' htop htop' hid _
    obtain ⟨w, hw, hew⟩ := hc.symm.twin htop'.mem
    obtain ⟨w', hw', hew'⟩ := hc.twin htop.mem
    have hwe := (eligible_twin h h' hc hw htop'.mem hew.symm).mpr htop'.eligible
    have hwe' := (eligible_twin h h' hc htop.mem hw' hew').mp htop.eligible
    -- each of the two tops outranks the twin of the other
    have hle : s.rankOf reg w ≤ s.rankOf reg row :=
      htop.max w hw hwe (by rw [hew, hid]) _ _
        (rankOf_ranked reg h.readable hreg htop.mem htop.eligible)
        (rankOf_ranked reg h.readable hreg hw hwe)
    have hge : s.rankOf reg row ≤ s.rankOf reg w := by
      rw [rankOf_twin h h' hc htop.mem hw' hew' reg, rankOf_twin h h' hc hw htop'.mem hew.symm reg]
      exact htop'.max w' hw' hwe' (by rw [hew', hid]) _ _
        (rankOf_ranked reg h'.readable hreg' htop'.mem htop'.eligible)
        (rankOf_ranked reg h'.readable hreg' hw' hwe')
    rw [hdiffer row htop.mem w hw (by rw [hew, hid]) (le_antisymm hge hle), hew]

/-- The winner of a key in one store is, as an observation, its winner in the other. -/
theorem wins_twin (h : WellFormed s) (h' : WellFormed s') (hc : SameContents s s')
    (hd : Distinguished s) (hf : SameFirst reg s s') {q : CurrentQuery} (hcomp : Comparable s q)
    {row : StoredObservation} (hw : Wins reg s q row) :
    ∃ row', Wins reg s' q row' ∧ row'.observation = row.observation := by
  obtain ⟨hrow, ha, he⟩ := hw.candidate reg h.readable
  obtain ⟨tw, htw, heq⟩ := hc.twin hrow
  have he' := (eligible_twin h h' hc hrow htw heq).mp he
  obtain ⟨w', hw', hk', hle⟩ := exists_wins reg h'.readable htw (heq ▸ ha) he'
  refine ⟨w', hw', ?_⟩
  rw [heq] at hk'
  cases hq : q.transport with
  | none =>
    have hcomp' := hc.comparable h h' hcomp
    exact (hf q hq hcomp row w' (hw.topFirst reg h hq hcomp) (hw'.topFirst reg h' hq hcomp')
      ((key_of_identity hq).mp hk').symm ha).symm
  | some tr =>
    obtain ⟨hwm', ha', hwe'⟩ := hw'.candidate reg h'.readable
    obtain ⟨w, hwm, hew⟩ := hc.symm.twin hwm'
    by_cases hne : row = w
    · rw [hne, hew]
    · exfalso
      have hkw : q.key w.observation = q.key row.observation := by rw [hew]; exact hk'
      have hwe := (eligible_twin h h' hc hwm hwm' hew.symm).mpr hwe'
      have hcr := (isCandidate_iff h.readable).mpr ⟨ha, he⟩
      have hcw := (isCandidate_iff h.readable).mpr ⟨CurrentQuery.admits_of_key ha hkw, hwe⟩
      obtain ⟨t, ht⟩ := hcomp row hrow w hwm hcr hcw hkw.symm hne
      obtain ⟨t', ht'⟩ := hcomp w hwm row hrow hcw hcr hkw (Ne.symm hne)
      have hrank : s.rankOf reg row = s.rankOf reg w := by
        refine le_antisymm ?_ (hw.max reg h.readable hwm hwe hkw)
        rw [rankOf_twin h h' hc hrow htw heq reg, rankOf_twin h h' hc hwm hwm' hew.symm reg]
        exact hle
      have hkey := hkw
      simp only [CurrentQuery.key, hq, Option.map_some, Prod.mk.injEq, Option.some.injEq] at hkey
      have hr := ranked_of_registered reg h.readable he ht
      rw [hrank] at hr
      exact (noTie_iff reg).mpr hd row hrow w hwm hne he hwe hkey.1.symm hkey.2.symm _
        ⟨hr, ranked_of_registered reg h.readable hwe ht'⟩

/-! ## The view -/

/-- Both calls raise, or both return the same observations. -/
def SameResult : Option (List CurrentRow) → Option (List CurrentRow) → Prop
  | none, none => True
  | some rows, some rows' =>
    (rows.map CurrentRow.observation).Perm (rows'.map CurrentRow.observation)
  | _, _ => False

instance (a b : Option (List CurrentRow)) : Decidable (SameResult a b) := by
  cases a <;> cases b <;> simp only [SameResult] <;> infer_instance

/-- The observations `current_rows` returns, where it does not raise. -/
theorem currentRows_observations (h : WellFormed s) {q : CurrentQuery} (hcomp : Comparable s q) :
    ∃ rows, s.currentRows reg q = some rows ∧ (rows.map CurrentRow.observation).Nodup ∧
      ∀ o, o ∈ rows.map CurrentRow.observation ↔
        ∃ r, (q.Satisfies r.observation ∧ Wins reg s q r) ∧ r.observation = o := by
  have hperm := (List.perm_insertionSort (fun a b => sortKey a ≤ sortKey b)
    (((s.selected reg q).values.filter fun r => q.keeps r.observation).map currentRow)).map
      CurrentRow.observation
  rw [List.map_map] at hperm
  refine ⟨_, currentRows_eq reg h.readable q hcomp, hperm.nodup_iff.mpr ?_, fun o => ?_⟩
  · refine List.Nodup.of_map q.key ?_
    rw [List.map_map]
    exact kept_keys_nodup reg q
  · rw [hperm.mem_iff, List.mem_map]
    simp only [mem_kept reg h.readable q]
    rfl

theorem sameResult_of_winners (h : WellFormed s) (h' : WellFormed s') (hc : SameContents s s')
    (hd : Distinguished s) (hf : SameFirst reg s s') (hf' : SameFirst reg s' s) (q : CurrentQuery) :
    SameResult (s.currentRows reg q) (s'.currentRows reg q) := by
  by_cases hcomp : Comparable s q
  · have hcomp' := hc.comparable h h' hcomp
    obtain ⟨rows, hr, hnd, hmem⟩ := currentRows_observations reg h hcomp
    obtain ⟨rows', hr', hnd', hmem'⟩ := currentRows_observations reg h' hcomp'
    rw [hr, hr']
    refine (List.perm_ext_iff_of_nodup hnd hnd').mpr fun o => ?_
    rw [hmem, hmem']
    constructor
    · rintro ⟨r, ⟨hsat, hw⟩, rfl⟩
      obtain ⟨r', hw', heq⟩ := wins_twin reg h h' hc hd hf hcomp hw
      exact ⟨r', ⟨heq ▸ hsat, hw'⟩, heq⟩
    · rintro ⟨r', ⟨hsat, hw'⟩, rfl⟩
      obtain ⟨r, hw, heq⟩ := wins_twin reg h' h hc.symm (hd.twin h h' hc) hf' hcomp' hw'
      exact ⟨r, ⟨heq ▸ hsat, hw⟩, heq⟩
  · have hcomp' : ¬ Comparable s' q := fun hcomp' => hcomp (hc.symm.comparable h' h hcomp')
    rw [currentRows_eq_none reg h.readable q hcomp, currentRows_eq_none reg h'.readable q hcomp']
    trivial

theorem SameFirst.symm (h : WellFormed s) (h' : WellFormed s') (hc : SameContents s s')
    (hf : SameFirst reg s s') : SameFirst reg s' s := by
  intro q hq hcomp' row' row ht' ht hid ha'
  refine (hf q hq (hc.symm.comparable h' h hcomp') row row' ht ht' hid.symm ?_).symm
  exact CurrentQuery.admits_of_key ha' ((key_of_identity hq).mpr hid.symm)

/-- Exactly when the current view of two stores with the same contents is the same whatever the
order of insertion, and no two versions of one identity and transport tie: when no two of them
share derivation, contract version and newest instant, and the versions that tie across transports
were inserted in an order that puts the same one first. -/
theorem insertion_order_iff (hs : Reachable s) (hs' : Reachable s') (hc : SameContents s s') :
    ((∀ q, SameResult (s.currentRows reg q) (s'.currentRows reg q)) ∧ NoTie reg s) ↔
      Distinguished s ∧ SameFirst reg s s' := by
  have h := hs.wellFormed
  have h' := hs'.wellFormed
  constructor
  · rintro ⟨hsame, hno⟩
    refine ⟨(noTie_iff reg).mp hno, ?_⟩
    intro q hq hcomp row row' ht ht' hid ha
    -- the metric plays no part in the selection
    let q' : CurrentQuery := { q with metric := none }
    have hcomp₁ : Comparable s q' := hcomp
    have hcomp₂ : Comparable s' q' := hc.comparable h h' hcomp₁
    have hw : Wins reg s q' row := (wins_iff_topFirst reg h hq hcomp₁).mpr ⟨ha, ht⟩
    have ha' : q'.admits row'.observation = true :=
      CurrentQuery.admits_of_key (q := q') ha ((key_of_identity hq).mpr hid.symm)
    have hw' : Wins reg s' q' row' := (wins_iff_topFirst reg h' hq hcomp₂).mpr ⟨ha', ht'⟩
    obtain ⟨rows, hr, -, hmem⟩ := currentRows_observations reg h hcomp₁
    obtain ⟨rows', hr', -, hmem'⟩ := currentRows_observations reg h' hcomp₂
    have hperm := hsame q'
    rw [hr, hr'] at hperm
    have hin := (hmem row.observation).mpr ⟨row, ⟨⟨ha, nofun⟩, hw⟩, rfl⟩
    obtain ⟨r', ⟨-, hwr⟩, heq⟩ := (hmem' row.observation).mp (hperm.mem_iff.mp hin)
    have hk : q'.key r'.observation = q'.key row'.observation := by
      rw [heq]; exact (key_of_identity hq).mpr hid
    rw [Wins, hk] at hwr
    rw [← heq, hwr.unique hw']
  · rintro ⟨hd, hf⟩
    exact ⟨sameResult_of_winners reg h h' hc hd hf (hf.symm reg h h' hc), (noTie_iff reg).mpr hd⟩

/-! ## A corrected payload under an unchanged publication time -/

/-- What the store holds, as lists that can be compared. -/
def occurrenceList (s : MemoryStore) : List (VersionIdentity × Instant × Instant × Option CaptureId) :=
  s.rowTable.entries.flatMap fun e => (s.seen e.1).entries.filterMap fun x =>
    (s.attemptTable.get? x.2.2).map fun att =>
      (versionIdentity e.2.observation, x.1, x.2.1, att.captureId)

def registrationList (s : MemoryStore) : List (DerivationId × Option Instant) :=
  s.derivationTable.entries.map fun e => (e.1, e.2.registeredAt)

theorem mem_occurrenceList {v : VersionIdentity} {f t : Instant} {c : Option CaptureId} :
    (v, f, t, c) ∈ s.occurrenceList ↔ OccurrenceBy s v f t c := by
  simp only [occurrenceList, List.mem_flatMap, List.mem_filterMap, Option.map_eq_some_iff,
    Prod.mk.injEq, OccurrenceBy, HasOccurrence, Prod.exists, Dict.get?_eq_some_iff]
  constructor
  · rintro ⟨i, r, hr, f', t', a, hf, att, ha, rfl, rfl, rfl, rfl⟩
    exact ⟨a, att, ⟨i, r, hr, rfl, hf⟩, ha, rfl⟩
  · rintro ⟨a, att, ⟨i, r, hr, rfl, hf⟩, ha, rfl⟩
    exact ⟨i, r, hr, f, t, a, hf, att, ha, rfl, rfl, rfl, rfl⟩

theorem registeredAt_of_list (h : s.registrationList = s'.registrationList) (d : DerivationId) :
    s.registeredAt d = s'.registeredAt d := by
  have hmap : ∀ l : List (DerivationId × Derivation), (Dict.lookup d l).bind Derivation.registeredAt =
      (Dict.lookup d (l.map fun e => (e.1, e.2.registeredAt))).join := by
    intro l
    induction l with
    | nil => rfl
    | cons e l ih =>
      obtain ⟨k, x⟩ := e
      by_cases hk : k = d
      · simp [Dict.lookup, hk]
      · simpa [Dict.lookup, hk] using ih
  rw [registeredAt, registeredAt, Dict.get?, Dict.get?, hmap, hmap]
  exact congrArg (fun l => (Dict.lookup d l).join) h

theorem sameContents_of_lists
    (hv : (s.rowTable.values.map StoredObservation.observation).Perm
      (s'.rowTable.values.map StoredObservation.observation))
    (ho : s.occurrenceList.Perm s'.occurrenceList) (hr : s.registrationList = s'.registrationList)
    (hi : s.invalidationTable.keys = s'.invalidationTable.keys) : SameContents s s' where
  versions o := by
    have := hv.mem_iff (a := o)
    simpa only [List.mem_map] using this
  occurrences v f t c := by rw [← mem_occurrenceList, ← mem_occurrenceList, ho.mem_iff]
  registrations := registeredAt_of_list hr
  invalidations k := by
    rw [Bool.eq_iff_iff, Dict.contains_iff, Dict.contains_iff, ← Dict.mem_keys, ← Dict.mem_keys, hi]

/-- The price, and two corrected payloads: one carries the same publication time, one its own. -/
def firstPayload : List EnergyObservation := [dayAheadPrice 1 .soap 0 (some 0)]

def correctedPayload : List EnergyObservation := [dayAheadPrice 2 .soap hour (some 0)]

def republishedPayload : List EnergyObservation := [dayAheadPrice 2 .soap hour (some hour)]

def liveCalls (later : List EnergyObservation) : List StoreCall :=
  .registerDerivation dayAheadDerivation 0 :: commitRun 1 1 0 0 firstPayload ++
    commitRun 2 2 hour hour later

/-- The later capture is processed first. -/
def rebuiltCalls (later : List EnergyObservation) : List StoreCall :=
  .registerDerivation dayAheadDerivation 0 :: commitRun 1 1 hour day later ++
    commitRun 2 2 0 day firstPayload

/-- The live store, and the rebuilt one. -/
def liveStore : MemoryStore := (init.after (liveCalls correctedPayload)).get (by decide)

def rebuiltStore : MemoryStore := (init.after (rebuiltCalls correctedPayload)).get (by decide)

theorem live_reachable : Reachable liveStore := Reachable.init.after (Option.some_get _).symm

theorem rebuilt_reachable : Reachable rebuiltStore := Reachable.init.after (Option.some_get _).symm

theorem live_rebuilt : SameContents liveStore rebuiltStore :=
  sameContents_of_lists (by decide) (by decide) (by decide) (by decide)

theorem unchanged_publication_depends :
    Reachable liveStore ∧ Reachable rebuiltStore ∧ SameContents liveStore rebuiltStore ∧
      ¬ SameResult (liveStore.currentRows dataset (dayAheadQuery none))
        (rebuiltStore.currentRows dataset (dayAheadQuery none)) :=
  ⟨live_reachable, rebuilt_reachable, live_rebuilt, by decide⟩

/-- The same stores, where the corrected payload has a publication time of its own. -/
def liveRepublished : MemoryStore := (init.after (liveCalls republishedPayload)).get (by decide)

def rebuiltRepublished : MemoryStore :=
  (init.after (rebuiltCalls republishedPayload)).get (by decide)

theorem republished_order : SameContents liveRepublished rebuiltRepublished ∧
    liveRepublished.rowTable.values.length = 2 ∧
    (∀ q, SameResult (liveRepublished.currentRows dataset q)
      (rebuiltRepublished.currentRows dataset q)) ∧ NoTie dataset liveRepublished := by
  have hlive : Reachable liveRepublished := Reachable.init.after (Option.some_get _).symm
  have hrebuilt : Reachable rebuiltRepublished := Reachable.init.after (Option.some_get _).symm
  have hcontents : SameContents liveRepublished rebuiltRepublished :=
    sameContents_of_lists (by decide) (by decide) (by decide) (by decide)
  refine ⟨hcontents, by decide, ?_⟩
  exact (insertion_order_iff dataset hlive hrebuilt hcontents).mpr
    (sameFirst_of_ranks_differ dataset hlive.wellFormed hrebuilt.wellFormed hcontents (by decide)
      (by decide) (by decide))

end MemoryStore

end EnergyPlatform
