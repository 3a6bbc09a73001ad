import EnergyPlatform.Lib.Select
import EnergyPlatform.Store.WellFormed
import Mathlib.Order.Bounds.Basic

/-!
# Store.CurrentView

What `current_rows` returns. `currentRows_eq` reduces the loop, which can raise, to one `select`
over the candidate rows; `current_view_exact` states the result without the loop: one row for each
key with an eligible row, of greatest rank, owner first, the filters commuting with the selection.
-/

namespace EnergyPlatform

open Lib (Dict select FirstMax)

namespace MemoryStore

variable {s : MemoryStore}

/-- What reading the view relies on: rows are filed under their ids, and the attempt that recorded
an occurrence is in the table. -/
structure Readable (s : MemoryStore) : Prop where
  rowId : ∀ {i r}, s.rowTable.get? i = some r → r.id = i
  seenAttempt : ∀ {i f t a}, (s.seen i).get? f = some (t, a) →
    ∃ att, s.attemptTable.get? a = some att

theorem WellFormed.readable (h : WellFormed s) : Readable s where
  rowId := h.silver.id
  seenAttempt {i f t a} hf := by
    obtain ⟨r, hr⟩ := h.silver.seenRow hf
    exact h.seenAttempt ⟨i, r, hr, rfl, hf⟩

/-- `t` is the ordering instant of an occurrence of the row that no invalidation voids. -/
def ValidInstant (s : MemoryStore) (row : StoredObservation) (t : Instant) : Prop :=
  ∃ f a att, (s.seen row.id).get? f = some (t, a) ∧ s.attemptTable.get? a = some att ∧
    s.occurrenceValid row.observation.derivationId att.captureId = true

def Eligible (s : MemoryStore) (row : StoredObservation) : Prop := ∃ t, ValidInstant s row t

/-- The derivation of every stored row is registered. -/
def Registered (s : MemoryStore) : Prop :=
  ∀ row ∈ s.rowTable.values, ∃ t, s.registeredAt row.observation.derivationId = some t

instance (s : MemoryStore) : Decidable (Registered s) :=
  decidable_of_iff
    (∀ row ∈ s.rowTable.values, (s.registeredAt row.observation.derivationId).isSome = true)
    (by simp only [Registered, Option.isSome_iff_exists])

/-- `ρ` is the rank of the row, by its newest valid occurrence. -/
def Ranked (reg : Registry) (s : MemoryStore) (row : StoredObservation) (ρ : Rank) : Prop :=
  ∃ registered latest, s.registeredAt row.observation.derivationId = some registered ∧
    IsGreatest {t | ValidInstant s row t} latest ∧
    ρ = rank reg row.observation registered latest

/-! ## The loop as a selection -/

theorem validAmong_spec (d : DerivationId) (l : List (Instant × Nat)) :
    (∀ p ∈ l, ∃ att, s.attemptTable.get? p.2 = some att) →
    ∃ out, s.validAmong d l = some out ∧ ∀ t, t ∈ out ↔
      ∃ a att, (t, a) ∈ l ∧ s.attemptTable.get? a = some att ∧ s.occurrenceValid d att.captureId = true := by
  induction l with
  | nil => intro _; exact ⟨[], rfl, by simp⟩
  | cons p l ih =>
    intro hl
    obtain ⟨t₀, a₀⟩ := p
    obtain ⟨out, hout, hmem⟩ := ih fun q hq => hl q (List.mem_cons_of_mem _ hq)
    obtain ⟨att₀, hatt₀⟩ := hl (t₀, a₀) (by simp)
    simp only at hatt₀
    refine ⟨if s.occurrenceValid d att₀.captureId then t₀ :: out else out, by
      simp [validAmong, hatt₀, hout], fun t => ?_⟩
    by_cases hv : s.occurrenceValid d att₀.captureId = true
    · rw [if_pos hv, List.mem_cons, hmem]
      constructor
      · rintro (rfl | ⟨a, att, hm, h⟩)
        · exact ⟨a₀, att₀, by simp, hatt₀, hv⟩
        · exact ⟨a, att, List.mem_cons_of_mem _ hm, h⟩
      · rintro ⟨a, att, hm, h⟩
        rcases List.mem_cons.mp hm with heq | hm
        · exact .inl (Prod.mk.inj heq).1
        · exact .inr ⟨a, att, hm, h⟩
    · rw [if_neg hv, hmem]
      constructor
      · rintro ⟨a, att, hm, h⟩
        exact ⟨a, att, List.mem_cons_of_mem _ hm, h⟩
      · rintro ⟨a, att, hm, ha, hatt⟩
        rcases List.mem_cons.mp hm with heq | hm
        · obtain ⟨-, rfl⟩ := Prod.mk.inj heq
          rw [hatt₀, Option.some.injEq] at ha
          exact absurd (ha ▸ hatt) hv
        · exact ⟨a, att, hm, ha, hatt⟩

theorem validOccurrences_spec (h : Readable s) (row : StoredObservation) :
    ∃ valid, s.validOccurrences row = some valid ∧ ∀ t, t ∈ valid ↔ ValidInstant s row t := by
  have hall : ∀ p ∈ (s.seen row.id).values, ∃ att, s.attemptTable.get? p.2 = some att := by
    rintro ⟨t, a⟩ hp
    obtain ⟨f, hf⟩ := Dict.mem_values.mp hp
    exact h.seenAttempt hf
  obtain ⟨valid, hv, hmem⟩ := validAmong_spec row.observation.derivationId _ hall
  refine ⟨valid, hv, fun t => ?_⟩
  rw [hmem, ValidInstant]
  simp only [Dict.mem_values]
  constructor
  · rintro ⟨a, att, ⟨f, hf⟩, h⟩
    exact ⟨f, a, att, hf, h⟩
  · rintro ⟨f, a, att, hf, h⟩
    exact ⟨a, att, ⟨f, hf⟩, h⟩

theorem foldl_max_spec (l : List Instant) : ∀ t : Instant,
    IsGreatest {x | x = t ∨ x ∈ l} (l.foldl max t) := by
  induction l with
  | nil => intro t; simp [IsGreatest, upperBounds]
  | cons y l ih =>
    intro t
    obtain ⟨hm, hub⟩ := ih (max t y)
    refine ⟨?_, ?_⟩
    · rcases hm with hm | hm
      · rcases max_choice t y with hty | hty
        · exact .inl (hm.trans hty)
        · exact .inr (by rw [List.foldl_cons, hm, hty]; simp)
      · exact .inr (List.mem_cons_of_mem _ hm)
    · rintro x (rfl | hx)
      · exact (le_max_left _ y).trans (hub (.inl rfl))
      · rcases List.mem_cons.mp hx with rfl | hx
        · exact (le_max_right t _).trans (hub (.inl rfl))
        · exact hub (.inr hx)

theorem newest_spec {l : List Instant} (h : l ≠ []) :
    ∃ t, newest l = some t ∧ IsGreatest {x | x ∈ l} t := by
  cases l with
  | nil => exact absurd rfl h
  | cons y l => exact ⟨_, rfl, by simpa [List.mem_cons] using foldl_max_spec l y⟩

/-- The valid instants of a row, and its rank, where nothing raises. -/
def validOf (s : MemoryStore) (row : StoredObservation) : List Instant :=
  (s.validOccurrences row).getD []

variable (reg : Registry)

def rankOf (s : MemoryStore) (row : StoredObservation) : Rank :=
  rank reg row.observation ((s.registeredAt row.observation.derivationId).getD 0)
    ((newest (s.validOf row)).getD 0)

def isCandidate (s : MemoryStore) (q : CurrentQuery) (row : StoredObservation) : Bool :=
  q.admits row.observation && s.validOf row ≠ []

def selected (s : MemoryStore) (q : CurrentQuery) : Best :=
  select (fun r : StoredObservation => q.key r.observation) (s.rankOf reg)
    (s.rowTable.values.filter (s.isCandidate q))

theorem mem_validOf (h : Readable s) {row : StoredObservation} {t : Instant} :
    t ∈ s.validOf row ↔ ValidInstant s row t := by
  obtain ⟨valid, hv, hmem⟩ := validOccurrences_spec h row
  simp [validOf, hv, hmem]

theorem validOccurrences_eq (h : Readable s) (row : StoredObservation) :
    s.validOccurrences row = some (s.validOf row) := by
  obtain ⟨valid, hv, -⟩ := validOccurrences_spec h row
  simp [validOf, hv]

theorem eligible_iff (h : Readable s) {row : StoredObservation} :
    Eligible s row ↔ s.validOf row ≠ [] := by
  constructor
  · rintro ⟨t, ht⟩
    exact List.ne_nil_of_mem ((mem_validOf h).mpr ht)
  · intro hne
    obtain ⟨t, ht⟩ := List.exists_mem_of_ne_nil _ hne
    exact ⟨t, (mem_validOf h).mp ht⟩

theorem isCandidate_iff (h : Readable s) {q : CurrentQuery} {row : StoredObservation} :
    s.isCandidate q row = true ↔ q.admits row.observation = true ∧ Eligible s row := by
  rw [eligible_iff h]
  simp [isCandidate]

theorem rankOf_ranked (h : Readable s) (hreg : Registered s) {row : StoredObservation}
    (hrow : row ∈ s.rowTable.values) (he : Eligible s row) : Ranked reg s row (s.rankOf reg row) := by
  obtain ⟨t, ht⟩ := hreg row hrow
  obtain ⟨latest, hl, hg⟩ := newest_spec ((eligible_iff h).mp he)
  refine ⟨t, latest, ht, ?_, by simp [rankOf, ht, hl]⟩
  have : {x | x ∈ s.validOf row} = {x | ValidInstant s row x} := by
    ext x; exact mem_validOf h
  rwa [← this]

theorem Ranked.unique {row : StoredObservation} {ρ ρ' : Rank} (h : Ranked reg s row ρ)
    (h' : Ranked reg s row ρ') : ρ = ρ' := by
  obtain ⟨r, t, hr, ht, rfl⟩ := h
  obtain ⟨r', t', hr', ht', rfl⟩ := h'
  rw [hr, Option.some.injEq] at hr'
  rw [hr', ht.unique ht']

theorem rowRank_eq {row : StoredObservation} (hne : s.validOf row ≠ []) {t : Instant}
    (ht : s.registeredAt row.observation.derivationId = some t) :
    s.rowRank reg row (s.validOf row) = some (s.rankOf reg row) := by
  obtain ⟨latest, hl, -⟩ := newest_spec hne
  simp [rowRank, rankOf, ht, hl]

theorem rowRank_eq_none {row : StoredObservation} {valid : List Instant}
    (ht : s.registeredAt row.observation.derivationId = none) :
    s.rowRank reg row valid = none := by
  simp [rowRank, ht]

/-- Wherever two candidates of `l` share a key, their derivations are registered, so that they can
be ranked. -/
def ComparableIn (s : MemoryStore) (q : CurrentQuery) (l : List StoredObservation) : Prop :=
  ∀ r ∈ l, ∀ r' ∈ l, s.isCandidate q r = true → s.isCandidate q r' = true →
    q.key r.observation = q.key r'.observation → r ≠ r' →
    ∃ t, s.registeredAt r.observation.derivationId = some t

/-- `current_rows` can rank all it has to. -/
def Comparable (s : MemoryStore) (q : CurrentQuery) : Prop := ComparableIn s q s.rowTable.values

theorem Registered.comparable (hreg : Registered s) (q : CurrentQuery) : Comparable s q :=
  fun r hr _ _ _ _ _ _ => hreg r hr

theorem Readable.rows_nodup (h : Readable s) : s.rowTable.values.Nodup := by
  have hid : s.rowTable.values.map StoredObservation.id = s.rowTable.keys := by
    simp only [Dict.values, Dict.keys, List.map_map]
    exact List.map_congr_left fun e he => h.rowId (Dict.get?_eq_some_iff.mpr he)
  refine List.Nodup.of_map StoredObservation.id ?_
  rw [hid]
  exact s.rowTable.nodup

section Loop

variable (h : Readable s) (q : CurrentQuery)

/-- The selection among the candidates of `l`. -/
abbrev selectIn (s : MemoryStore) (q : CurrentQuery) (l : List StoredObservation) : Best :=
  select (fun r : StoredObservation => q.key r.observation) (s.rankOf reg)
    (l.filter (s.isCandidate q))

theorem selectIn_mem {l : List StoredObservation} {k : ObservationIdentity × Option Transport}
    {r : StoredObservation} (hk : (s.selectIn reg q l).get? k = some r) :
    r ∈ l ∧ s.isCandidate q r = true ∧ q.key r.observation = k := by
  obtain ⟨hm, hkey⟩ := Lib.key_of_get?_select _ _ hk
  exact ⟨(List.mem_filter.mp hm).1, (List.mem_filter.mp hm).2, hkey⟩

include h

theorem considerRow_skip {best : Best} {row : StoredObservation}
    (hc : s.isCandidate q row = false) : s.considerRow reg q best row = some best := by
  by_cases ha : q.admits row.observation = true
  · have hne : s.validOf row = [] := by simpa [isCandidate, ha] using hc
    simp [considerRow, validOccurrences_eq h, ha, hne]
  · simp [considerRow, ha]

theorem considerRow_take {best : Best} {row : StoredObservation}
    (hc : s.isCandidate q row = true) : s.considerRow reg q best row =
      match best.get? (q.key row.observation) with
      | none => some (best.set (q.key row.observation) row)
      | some current => (s.rowRank reg row (s.validOf row)).bind fun mine =>
        (s.rowRank reg current (s.validOf current)).bind fun theirs =>
          some (if theirs < mine then best.set (q.key row.observation) row else best) := by
  obtain ⟨ha, hne⟩ : q.admits row.observation = true ∧ s.validOf row ≠ [] := by
    simpa [isCandidate] using hc
  cases hbest : best.get? (q.key row.observation) with
  | none => simp [considerRow, validOccurrences_eq h, ha, hne, hbest]
  | some current => simp [considerRow, validOccurrences_eq h, ha, hne, hbest]

/-- One row more: ranking it raises exactly when it cannot be compared. -/
theorem considerRow_snoc {l : List StoredObservation} (hl : ComparableIn s q l)
    {row : StoredObservation} (hrow : row ∉ l) :
    (ComparableIn s q (l ++ [row]) →
      s.considerRow reg q (s.selectIn reg q l) row = some (s.selectIn reg q (l ++ [row]))) ∧
    (¬ ComparableIn s q (l ++ [row]) →
      s.considerRow reg q (s.selectIn reg q l) row = none) := by
  have hext : (s.isCandidate q row = true → ∀ r ∈ l, s.isCandidate q r = true →
      q.key r.observation = q.key row.observation →
        (∃ t, s.registeredAt r.observation.derivationId = some t) ∧
        ∃ t, s.registeredAt row.observation.derivationId = some t) →
      ComparableIn s q (l ++ [row]) := by
    intro hnew r hr r' hr' hc hc' hk hne
    rcases List.mem_append.mp hr with hm | hm <;> rcases List.mem_append.mp hr' with hm' | hm'
    · exact hl r hm r' hm' hc hc' hk hne
    · obtain rfl := List.mem_singleton.mp hm'
      exact (hnew hc' r hm hc hk).1
    · obtain rfl := List.mem_singleton.mp hm
      exact (hnew hc r' hm' hc' hk.symm).2
    · rw [List.mem_singleton.mp hm, List.mem_singleton.mp hm'] at hne
      exact absurd rfl hne
  cases hc : s.isCandidate q row with
  | false =>
    refine ⟨fun _ => ?_, fun hno => absurd (hext fun e => by rw [hc] at e; cases e) hno⟩
    rw [considerRow_skip reg h q hc]
    simp [selectIn, List.filter_append, hc]
  | true =>
    have hsnoc : s.selectIn reg q (l ++ [row]) = Lib.consider
        (fun r : StoredObservation => q.key r.observation) (s.rankOf reg) (s.selectIn reg q l) row := by
      simp [selectIn, List.filter_append, hc, Lib.select_snoc]
    rw [considerRow_take reg h q hc, hsnoc, Lib.consider]
    cases hg : (s.selectIn reg q l).get? (q.key row.observation) with
    | none =>
      refine ⟨fun _ => rfl, fun hno => absurd (hext fun _ r hr hcr hk => ?_) hno⟩
      have hnil := (Lib.get?_select_eq_none _ _ _ _).mp hg
      have hin : r ∈ (l.filter (s.isCandidate q)).filter
          fun x => q.key x.observation = q.key row.observation := by simp [hr, hcr, hk]
      rw [hnil] at hin
      cases hin
    | some current =>
      obtain ⟨hcl, hcc, hck⟩ := selectIn_mem reg q hg
      have hne : current ≠ row := by rintro rfl; exact hrow hcl
      have hvalid : ∀ {r}, s.isCandidate q r = true → s.validOf r ≠ [] := by
        intro r hr
        simp only [isCandidate, Bool.and_eq_true, decide_eq_true_eq] at hr
        exact hr.2
      constructor
      · intro hcomp
        obtain ⟨t, ht⟩ := hcomp row (by simp) current (by simp [hcl]) hc hcc hck.symm hne.symm
        obtain ⟨t', ht'⟩ := hcomp current (by simp [hcl]) row (by simp) hcc hc hck hne
        simp only [rowRank_eq reg (hvalid hc) ht, rowRank_eq reg (hvalid hcc) ht', Option.bind_some]
      · intro hno
        cases ht : s.registeredAt row.observation.derivationId with
        | none => simp only [rowRank_eq_none reg ht, Option.bind_none]
        | some t =>
          cases ht' : s.registeredAt current.observation.derivationId with
          | none => simp only [rowRank_eq_none reg ht', Option.bind_none, Option.bind_fun_none]
          | some t' =>
            refine absurd (hext fun _ r hr hcr hk => ⟨?_, t, ht⟩) hno
            by_cases hrc : r = current
            · exact ⟨t', hrc ▸ ht'⟩
            · exact hl r hr current hcl hcr hcc (hk.trans hck.symm) hrc

theorem foldlM_considerRow (l : List StoredObservation) : l.Nodup →
    (ComparableIn s q l →
      l.foldlM (s.considerRow reg q) .empty = some (s.selectIn reg q l)) ∧
    (¬ ComparableIn s q l → l.foldlM (s.considerRow reg q) .empty = none) := by
  induction l using List.reverseRecOn with
  | nil => exact fun _ => ⟨fun _ => rfl, fun hno => absurd (fun _ hr => by cases hr) hno⟩
  | append_singleton l row ih =>
    intro hnd
    obtain ⟨hl, -, hdisj⟩ := List.nodup_append.mp hnd
    have hrow : row ∉ l := fun hm => hdisj row hm row (by simp) rfl
    obtain ⟨hyes, hno⟩ := ih hl
    have hmono : ComparableIn s q (l ++ [row]) → ComparableIn s q l := fun hc r hr r' hr' =>
      hc r (List.mem_append_left _ hr) r' (List.mem_append_left _ hr')
    rw [List.foldlM_append]
    by_cases hc : ComparableIn s q l
    · simp only [hyes hc, Option.bind_eq_bind, Option.bind_some, List.foldlM_cons, List.foldlM_nil,
        Option.pure_def, Option.bind_fun_some]
      exact considerRow_snoc reg h q hc hrow
    · simp only [hno hc, Option.bind_eq_bind, Option.bind_none]
      exact ⟨fun hc' => absurd (hmono hc') hc, fun _ => trivial⟩

/-- The result of `current_rows` where every comparison it makes is between registered rows: the
loop selects one row for each key. -/
theorem currentRows_eq (hc : Comparable s q) :
    s.currentRows reg q = some
      ((((s.selected reg q).values.filter fun r => q.keeps r.observation).map currentRow).insertionSort
        fun a b => sortKey a ≤ sortKey b) := by
  simp only [currentRows]
  rw [(foldlM_considerRow reg h q _ h.rows_nodup).1 hc]
  rfl

/-- Elsewhere it raises. -/
theorem currentRows_eq_none (hc : ¬ Comparable s q) : s.currentRows reg q = none := by
  simp only [currentRows]
  rw [(foldlM_considerRow reg h q _ h.rows_nodup).2 hc]
  rfl

end Loop

/-! ## What is selected -/

/-- The row is selected for its key: the first candidate of greatest rank. -/
def Wins (s : MemoryStore) (q : CurrentQuery) (r : StoredObservation) : Prop :=
  FirstMax (s.rankOf reg) ((s.rowTable.values.filter (s.isCandidate q)).filter
    fun x => q.key x.observation = q.key r.observation) r

theorem mem_selected (q : CurrentQuery) {r : StoredObservation} :
    r ∈ (s.selected reg q).values ↔ Wins reg s q r := by
  rw [Dict.mem_values]
  constructor
  · rintro ⟨k, hk⟩
    obtain ⟨-, rfl⟩ := Lib.key_of_get?_select _ _ hk
    exact (Lib.get?_select _ _).mp hk
  · exact fun h => ⟨_, (Lib.get?_select _ _).mpr h⟩

theorem selected_keys (q : CurrentQuery) :
    ∀ e ∈ (s.selected reg q).entries, q.key e.2.observation = e.1 :=
  fun _ he => (Lib.key_of_get?_select _ _ (Dict.get?_eq_some_iff.mpr he)).2

/-- The arguments a row has to satisfy. -/
def CurrentQuery.Satisfies (q : CurrentQuery) (o : EnergyObservation) : Prop :=
  q.admits o = true ∧ ∀ m ∈ q.metric, o.metric = m

theorem CurrentQuery.keeps_iff {q : CurrentQuery} {o : EnergyObservation} (h : q.admits o = true) :
    q.keeps o = true ↔ ∀ m ∈ q.metric, o.metric = m := by
  simp only [admits, decide_eq_true_eq] at h
  simp only [keeps, decide_eq_true_eq]
  exact ⟨fun hk => hk.1, fun hk => ⟨hk, h.2.2.2⟩⟩

theorem CurrentQuery.satisfies_of_key {q : CurrentQuery} {o o' : EnergyObservation}
    (h : q.Satisfies o) (hk : q.key o' = q.key o) : q.Satisfies o' := by
  obtain ⟨ha, hm⟩ := h
  simp only [CurrentQuery.key, observationIdentity, Prod.mk.injEq, ObservationIdentity.mk.injEq] at hk
  obtain ⟨⟨hd, -, hs, -, hmet, -⟩, ht⟩ := hk
  simp only [admits, decide_eq_true_eq] at ha
  simp only [Satisfies, admits, decide_eq_true_eq, hd, hs, hmet]
  refine ⟨⟨ha.1, ha.2.1, ha.2.2.1, fun t htr => ?_⟩, hm⟩
  rw [Option.mem_def.mp htr] at ht
  rw [← ha.2.2.2 t htr]
  simpa using ht

theorem CurrentQuery.admits_of_key {q : CurrentQuery} {o o' : EnergyObservation}
    (h : q.admits o = true) (hk : q.key o' = q.key o) : q.admits o' = true :=
  (CurrentQuery.satisfies_of_key (q := { q with metric := none }) ⟨h, nofun⟩ hk).1

theorem Wins.candidate (h : Readable s) {q : CurrentQuery} {r : StoredObservation}
    (hw : Wins reg s q r) :
    r ∈ s.rowTable.values ∧ q.admits r.observation = true ∧ Eligible s r := by
  obtain ⟨hr, hc⟩ := List.mem_filter.mp (List.mem_filter.mp hw.mem).1
  exact ⟨hr, (isCandidate_iff h).mp hc⟩

theorem Wins.max (h : Readable s) {q : CurrentQuery} {r row : StoredObservation}
    (hw : Wins reg s q r) (hrow : row ∈ s.rowTable.values) (he : Eligible s row)
    (hk : q.key row.observation = q.key r.observation) : s.rankOf reg row ≤ s.rankOf reg r := by
  refine FirstMax.le hw ?_
  have ha := CurrentQuery.admits_of_key (hw.candidate reg h).2.1 hk
  simp [hrow, (isCandidate_iff h).mpr ⟨ha, he⟩, hk]

/-- Every key with a candidate has a winner. -/
theorem exists_wins (h : Readable s) {q : CurrentQuery} {row : StoredObservation}
    (hrow : row ∈ s.rowTable.values) (ha : q.admits row.observation = true) (he : Eligible s row) :
    ∃ r, Wins reg s q r ∧ q.key r.observation = q.key row.observation ∧
      s.rankOf reg row ≤ s.rankOf reg r := by
  have hin : row ∈ (s.rowTable.values.filter (s.isCandidate q)).filter
      fun x => q.key x.observation = q.key row.observation := by
    simp [hrow, (isCandidate_iff h).mpr ⟨ha, he⟩]
  obtain ⟨r, hr⟩ := Lib.exists_firstMax (s.rankOf reg) (List.ne_nil_of_mem hin)
  have hk : q.key r.observation = q.key row.observation := by
    simpa using (List.mem_filter.mp hr.mem).2
  exact ⟨r, by rw [Wins, hk]; exact hr, hk, hr.le hin⟩

/-- The rows `current_rows` returns, before they are sorted. -/
theorem mem_kept (h : Readable s) (q : CurrentQuery) {r : StoredObservation} :
    r ∈ (s.selected reg q).values.filter (fun r => q.keeps r.observation) ↔
      q.Satisfies r.observation ∧ Wins reg s q r := by
  rw [List.mem_filter, mem_selected]
  constructor
  · rintro ⟨hf, hk⟩
    have hc := (List.mem_filter.mp (List.mem_filter.mp hf.mem).1).2
    have ha := ((isCandidate_iff h).mp hc).1
    exact ⟨⟨ha, (CurrentQuery.keeps_iff ha).mp hk⟩, hf⟩
  · rintro ⟨⟨ha, hm⟩, hf⟩
    exact ⟨hf, (CurrentQuery.keeps_iff ha).mpr hm⟩

theorem kept_keys_nodup (q : CurrentQuery) :
    (((s.selected reg q).values.filter fun r => q.keeps r.observation).map
      fun r => q.key r.observation).Nodup := by
  have hkeys : (s.selected reg q).values.map (fun r => q.key r.observation) =
      (s.selected reg q).keys := by
    simp only [Dict.values, Dict.keys, List.map_map]
    exact List.map_congr_left (selected_keys reg q)
  have hnd : ((s.selected reg q).values.map fun r => q.key r.observation).Nodup :=
    hkeys ▸ (s.selected reg q).nodup
  exact hnd.sublist (List.filter_sublist.map _)

/-- The query without its start, end and metric. -/
def CurrentQuery.unrestricted (q : CurrentQuery) : CurrentQuery :=
  { q with start := none, stop := none, metric := none }

/-- The start, end and metric of the query, as a test on a returned row. -/
def CurrentQuery.within (q : CurrentQuery) (o : EnergyObservation) : Bool :=
  (∀ t ∈ q.start, t ≤ o.deliveryStartUtc) ∧ (∀ t ∈ q.stop, o.deliveryStartUtc < t) ∧
    ∀ m ∈ q.metric, o.metric = m

/-- Start and end read the selection key only. -/
def CurrentQuery.spans (q : CurrentQuery) (k : ObservationIdentity × Option Transport) : Bool :=
  (∀ t ∈ q.start, t ≤ k.1.deliveryStartUtc) ∧ ∀ t ∈ q.stop, k.1.deliveryStartUtc < t

theorem selected_unrestricted (q : CurrentQuery) :
    s.selected reg q = (s.selected reg q.unrestricted).filterKeys q.spans := by
  rw [selected, selected, ← Lib.select_filter, List.filter_filter]
  congr 1
  refine List.filter_congr fun r _ => ?_
  rw [Bool.eq_iff_iff]
  simp only [isCandidate, CurrentQuery.admits, CurrentQuery.spans, Bool.and_eq_true,
    decide_eq_true_eq]
  simp only [CurrentQuery.unrestricted, CurrentQuery.key, observationIdentity,
    Option.not_mem_none, IsEmpty.forall_iff, implies_true, true_and]
  tauto

theorem kept_unrestricted (q : CurrentQuery) :
    (s.selected reg q).values.filter (fun r => q.keeps r.observation) =
      ((s.selected reg q.unrestricted).values.filter fun r =>
        q.unrestricted.keeps r.observation).filter fun r => q.within r.observation := by
  rw [selected_unrestricted, Lib.values_filterKeys _ _
    (fun r : StoredObservation => q.unrestricted.key r.observation) (selected_keys reg _),
    List.filter_filter, List.filter_filter]
  refine List.filter_congr fun r _ => ?_
  rw [Bool.eq_iff_iff]
  simp only [CurrentQuery.keeps, CurrentQuery.spans, CurrentQuery.within, Bool.and_eq_true,
    decide_eq_true_eq]
  simp only [CurrentQuery.unrestricted, CurrentQuery.key, observationIdentity,
    Option.not_mem_none, IsEmpty.forall_iff, implies_true, true_and]
  tauto

theorem sortKey_total : Std.Total fun a b : CurrentRow => sortKey a ≤ sortKey b :=
  ⟨fun _ _ => le_total _ _⟩

theorem sortKey_trans : IsTrans CurrentRow fun a b => sortKey a ≤ sortKey b :=
  ⟨fun _ _ _ => le_trans⟩

/-- Restricting by start, end or metric is selecting first and filtering afterwards. -/
theorem currentRows_within (h : Readable s) (hreg : Registered s) (q : CurrentQuery) :
    ∃ all, s.currentRows reg q.unrestricted = some all ∧
      s.currentRows reg q = some (all.filter fun c => q.within c.observation) := by
  have := sortKey_total
  have := sortKey_trans
  refine ⟨_, currentRows_eq reg h _ (hreg.comparable q.unrestricted), ?_⟩
  rw [currentRows_eq reg h q (hreg.comparable q), Lib.filter_insertionSort, List.filter_map, kept_unrestricted]
  rfl

theorem ownerRank_eq_one {o : EnergyObservation} {owner : Transport}
    (h : ownerTransportOf reg o = some owner) : ownerRank reg o = 1 ↔ o.sourceTransport = owner := by
  simp [ownerRank, h]

theorem ownerTransportOf_congr {o o' : EnergyObservation}
    (h : observationIdentity o = observationIdentity o') :
    ownerTransportOf reg o = ownerTransportOf reg o' := by
  simp only [observationIdentity, ObservationIdentity.mk.injEq] at h
  rw [ownerTransportOf, ownerTransportOf, h.1, h.2.2.2.2.1]

theorem ownerRank_le_of_rank_le {o o' : EnergyObservation} {r n r' n' : Instant}
    (h : rank reg o r n ≤ rank reg o' r' n') : ownerRank reg o ≤ ownerRank reg o' := by
  rw [rank, rank, Prod.Lex.toLex_le_toLex] at h
  rcases h with h | h
  · exact h.le
  · exact h.1.le

/-- The rows are those that are selected and kept, in another order. -/
theorem currentRows_perm (h : Readable s) (hreg : Registered s) {q : CurrentQuery}
    {rows : List CurrentRow} (hrows : s.currentRows reg q = some rows) :
    rows.Perm (((s.selected reg q).values.filter fun r => q.keeps r.observation).map currentRow) := by
  rw [Option.some.inj (hrows.symm.trans (currentRows_eq reg h q (hreg.comparable q)))]
  exact List.perm_insertionSort _ _

theorem mem_currentRows (h : Readable s) (hreg : Registered s) {q : CurrentQuery}
    {rows : List CurrentRow} (hrows : s.currentRows reg q = some rows) {c : CurrentRow} :
    c ∈ rows ↔ ∃ r, (q.Satisfies r.observation ∧ Wins reg s q r) ∧ currentRow r = c := by
  rw [(currentRows_perm reg h hreg hrows).mem_iff, List.mem_map]
  simp only [mem_kept reg h q]

/-- One row for each key. -/
theorem currentRows_keys_nodup (h : Readable s) (hreg : Registered s) {q : CurrentQuery}
    {rows : List CurrentRow} (hrows : s.currentRows reg q = some rows) :
    (rows.map fun c => q.key c.observation).Nodup := by
  refine ((currentRows_perm reg h hreg hrows).map _).nodup_iff.mpr ?_
  rw [List.map_map]
  exact kept_keys_nodup reg q

/-- The current view is exact. In every reachable store whose rows' derivations are registered,
whatever the arguments: one row for each key that has an eligible row satisfying them, nothing
else; it is an eligible stored row of greatest rank among those of its key; without a transport it
comes from the owner transport whenever an eligible row does; and restricting by start, end or
metric is filtering the unrestricted result. -/
theorem current_view_exact (hs : Reachable s) (hreg : Registered s) (q : CurrentQuery) :
    ∃ rows all, s.currentRows reg q = some rows ∧
      s.currentRows reg q.unrestricted = some all ∧
      (rows.map fun c => q.key c.observation).Nodup ∧
      (∀ k, k ∈ rows.map (fun c => q.key c.observation) ↔ ∃ row ∈ s.rowTable.values,
        q.Satisfies row.observation ∧ Eligible s row ∧ q.key row.observation = k) ∧
      (∀ c ∈ rows, ∃ row ∈ s.rowTable.values, c = currentRow row ∧ q.Satisfies row.observation ∧
        Eligible s row ∧ ∃ ρ, Ranked reg s row ρ ∧ ∀ row' ∈ s.rowTable.values, Eligible s row' →
          q.key row'.observation = q.key row.observation → ∃ ρ', Ranked reg s row' ρ' ∧ ρ' ≤ ρ) ∧
      (q.transport = none → ∀ row ∈ s.rowTable.values, q.Satisfies row.observation →
        Eligible s row → ∀ owner, ownerTransportOf reg row.observation = some owner →
        row.observation.sourceTransport = owner → ∃ c ∈ rows,
          observationIdentity c.observation = observationIdentity row.observation ∧
          c.observation.sourceTransport = owner) ∧
      rows = all.filter fun c => q.within c.observation := by
  have h := hs.wellFormed.readable
  obtain ⟨all, hall, hrows⟩ := currentRows_within reg h hreg q
  have hmem := fun c => @mem_currentRows s reg h hreg q _ hrows c
  refine ⟨_, all, hrows, hall, currentRows_keys_nodup reg h hreg hrows, ?_, ?_, ?_, rfl⟩
  · intro k
    rw [List.mem_map]
    constructor
    · rintro ⟨c, hc, rfl⟩
      obtain ⟨r, ⟨hsat, hf⟩, rfl⟩ := (hmem c).mp hc
      obtain ⟨hr, -, he⟩ := hf.candidate reg h
      exact ⟨r, hr, hsat, he, rfl⟩
    · rintro ⟨row, hrow, hsat, he, rfl⟩
      obtain ⟨r, hr, hk, -⟩ := exists_wins reg h hrow hsat.1 he
      exact ⟨currentRow r, (hmem _).mpr ⟨r, ⟨q.satisfies_of_key hsat hk, hr⟩, rfl⟩, hk⟩
  · intro c hc
    obtain ⟨r, ⟨hsat, hf⟩, rfl⟩ := (hmem c).mp hc
    obtain ⟨hr, -, he⟩ := hf.candidate reg h
    refine ⟨r, hr, rfl, hsat, he, _, rankOf_ranked reg h hreg hr he, ?_⟩
    intro row' hrow' he' hk
    exact ⟨_, rankOf_ranked reg h hreg hrow' he', hf.max reg h hrow' he' hk⟩
  · intro hq row hrow hsat he owner ho ht
    obtain ⟨r, hr, hk, hle⟩ := exists_wins reg h hrow hsat.1 he
    have hid : observationIdentity r.observation = observationIdentity row.observation :=
      congrArg Prod.fst hk
    refine ⟨currentRow r, (hmem _).mpr ⟨r, ⟨q.satisfies_of_key hsat hk, hr⟩, rfl⟩, hid, ?_⟩
    have ho' : ownerTransportOf reg r.observation = some owner :=
      (ownerTransportOf_congr reg hid).trans ho
    have h1 := (ownerRank_eq_one reg ho).mpr ht
    have h2 := ownerRank_le_of_rank_le reg hle
    exact (ownerRank_eq_one reg ho').mp (le_antisymm (ownerRank_le_one reg _) (h1 ▸ h2))

/-! ## A day-ahead price -/

/-- The price of the first hour of 1970 in Czechia, as some payload of some transport gives it. -/
def dayAheadPrice (payload : Sha256) (transport : Transport) (fetchedAt : Instant)
    (publishedAt : Option Instant) : EnergyObservation where
  sourceId := "ote"
  datasetId := "ote.dam"
  sourceTransport := transport
  contractVersion := ⟨1, 0, 0⟩
  derivationId := 0
  rawRef := "blobs/0"
  payloadSha256 := payload
  fetchedAt := fetchedAt
  sourcePublishedAt := publishedAt
  sourceVersion := none
  processedAt := fetchedAt
  deliveryInterval := ⟨0, hour, by decide⟩
  resolution := "PT60M"
  localDate := 0
  periodIndex := some 1
  kind := .interval
  dimensions := ⟨[("bidding_zone", "CZ")], Dimensions.sorted_single _ _⟩
  metric := "price"
  value := some (.ofInt 42)
  unit := "EUR/MWh"
  signConvention := .asPublished

def dayAheadDerivation : Derivation := ⟨0, "1.0.0", ⟨1, 0, 0⟩, .obj [], "generic:xml@1.0.0", none⟩

/-- One run captured, claimed and committed with the given observations, all at time `now`. The
claim is the one `claim` grants on a fresh run. -/
def commitRun (runId attemptId : Nat) (at_ now : Instant) (obs : List EnergyObservation) :
    List StoreCall :=
  let run : Run :=
    { id := runId, targetId := "ote", scheduledFor := at_, state := .captured, fence := 0
      origin := .scheduled, leaseOwner := none, leaseUntil := none
      captureId := some (captureId "ote" at_ 1), createdAt := now, updatedAt := now }
  let held := granted run "worker" minute now
  [.ensureRun "ote" at_ .captured .scheduled (some (captureId "ote" at_ 1)) now,
   .claim runId "worker" minute now,
   .commit ⟨held, held.fence, processAttempt held "worker" now attemptId⟩
    ⟨.processed, .ok, none, some dayAheadDerivation, obs, []⟩ now]

def dayAheadQuery (transport : Option Transport) : CurrentQuery :=
  ⟨"ote.dam", none, none, none, transport⟩

/-- A price and its correction, from two captures. -/
def corrected : List StoreCall :=
  commitRun 1 1 0 0 [dayAheadPrice 1 .soap 0 none] ++
    commitRun 2 2 hour hour [dayAheadPrice 2 .soap hour none]

theorem current_view_exact_corrected : ∃ s rows, init.after corrected = some s ∧
    s.currentRows dataset (dayAheadQuery none) = some rows ∧
    (rows.map fun c => (dayAheadQuery none).key c.observation).Nodup := by
  obtain ⟨s, hs, hreg⟩ := (Option.any_eq_true _ _).mp
    (by decide : (init.after corrected).any (fun s => decide (Registered s)) = true)
  obtain ⟨rows, all, hrows, -, hnodup, -⟩ := current_view_exact dataset (Reachable.init.after hs)
    (of_decide_eq_true hreg) (dayAheadQuery none)
  exact ⟨s, rows, hs, hrows, hnodup⟩

end MemoryStore

end EnergyPlatform
