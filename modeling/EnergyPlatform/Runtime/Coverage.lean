import EnergyPlatform.Runtime.Lateness
import EnergyPlatform.Store.SqlView

/-!
# Runtime.Coverage

A partition that is reported complete against the rows of the current view.

* `partitionStarts_ok`: the starts of a partition's intervals, as many as are expected of it.
* `countPeriods_eq`: the in-memory count as the size of a set of starts.
* `complete_covers_iff`: exactly when `complete` says that every expected row is there.
* `count_agrees`: the SQL count is the in-memory count.
-/

namespace EnergyPlatform

open Lib

/-! ## The starts of a partition -/

/-- `n` starts, a step apart. -/
def startsFrom (start : Instant) (step : Step) (n : Nat) : List Instant :=
  (List.range n).map fun k : Nat => start + (k : Int) * step.val

theorem startsFrom_add (start : Instant) (step : Step) (m n : Nat) :
    startsFrom start step (m + n) =
      startsFrom start step m ++ startsFrom (start + (m : Int) * step.val) step n := by
  unfold startsFrom
  rw [List.range_add, List.map_append, List.map_map]
  congr 1
  refine List.map_congr_left fun k _ => ?_
  change start + ((m + k : Nat) : Int) * step.val = start + (m : Int) * step.val + k * step.val
  rw [Nat.cast_add, Int.add_mul]
  exact (add_assoc _ _ _).symm

theorem startsFrom_nodup (start : Instant) (step : Step) (n : Nat) :
    (startsFrom start step n).Nodup := by
  refine List.Nodup.map (fun a b h => ?_) List.nodup_range
  have hpos : (0 : Int) < step.val := step.property
  have heq : (a : Int) * step.val = b * step.val := Int.add_left_cancel h
  exact_mod_cast Int.eq_of_mul_eq_mul_right hpos.ne' heq

theorem mem_startsFrom {start t : Instant} {step : Step} {n : Nat}
    (h : t ∈ startsFrom start step n) : start ≤ t ∧ t < start + (n : Int) * step.val := by
  obtain ⟨k, hk, rfl⟩ := List.mem_map.mp h
  have hlt : k + 1 ≤ n := List.mem_range.mp hk
  have hpos : (0 : Int) < step.val := step.property
  have hnn : 0 ≤ (k : Int) * step.val := Int.mul_nonneg (by omega) hpos.le
  have hle : ((k : Int) + 1) * step.val ≤ (n : Int) * step.val :=
    Int.mul_le_mul_of_nonneg_right (by exact_mod_cast hlt) hpos.le
  rw [Int.add_mul, Int.one_mul] at hle
  unfold Instant Duration at *
  omega

section Starts

variable (env : Env) (folds : String → ZoneFold) (target : FreshTarget)

/-- The interval starts of the partition: those `local_day_intervals` gives for its days, or the
start of the hour and whole multiples of the resolution after it. -/
def partitionStarts (now : Instant) (back : Nat) : Except PyError (List Instant) :=
  match dataset target.manifest.contract.datasetId with
  | none => .error (.valueError
      (env.txt.repr target.manifest.contract.datasetId ++ " is not registered"))
  | some contract => do
    let resolution ← finestResolution env.txt contract.resolutions
    match monthOffset env.txt target with
    | some offset => do
      let d ← deliveryDayFor (env.zones target.timezone) now
      let days ← monthDays (shiftMonth d (offset + back)).1 (shiftMonth d (offset + back)).2
      let lists ← days.mapM (sourceDayIntervals env resolution)
      .ok (lists.flatten.map DeliveryInterval.start)
    | none =>
      match contract.partition with
      | .hour => do
        let p ← hourPartition env folds target resolution now back
        let step ← parseDuration env.txt resolution
        .ok (startsFrom p.start step (hour / step.val).toNat)
      | .day => do
        let today ← deliveryDayFor (env.zones target.timezone) now
        let d ← checkedDay (today - back)
        let intervals ← sourceDayIntervals env resolution d
        .ok (intervals.map DeliveryInterval.start)

end Starts

section Days

variable {txt : TextPrims} {zone : Zone} {tz resolution : String} {step : Step} {d : Day}

theorem starts_day (hinc : zone.Increasing) (hstep : parseDuration txt resolution = .ok step)
    (hd : IsDate d) {l : List DeliveryInterval}
    (h : localDayIntervals txt zone tz d resolution = .ok l) :
    l.map DeliveryInterval.start = startsFrom (zone.midnight d) step l.length ∧
      (l.length : Int) * step.val = zone.midnight (d + 1) - zone.midnight d := by
  obtain ⟨step', hstep', hnext, hdiv, hl⟩ := localDayIntervals_ok h
  obtain rfl := Except.ok.inj (hstep.symm.trans hstep')
  have hlt := hinc d (d + 1) hd hnext (Int.lt_succ d)
  have hpos : (0 : Int) < step.val := step.property
  have hnn : 0 ≤ (zone.midnight (d + 1) - zone.midnight d) / step.val :=
    Int.ediv_nonneg (Int.sub_nonneg.mpr hlt.le) hpos.le
  have hlen : l.length = ((zone.midnight (d + 1) - zone.midnight d) / step.val).toNat := by
    rw [hl, List.length_map, List.length_range]
  constructor
  · rw [hlen, hl, List.map_map]
    rfl
  · rw [hlen, Int.toNat_of_nonneg hnn, Int.ediv_mul_cancel (Int.dvd_of_emod_eq_zero hdiv)]

theorem starts_dayRun (hinc : zone.Increasing) (hstep : parseDuration txt resolution = .ok step)
    {n : Nat} {lists : List (List DeliveryInterval)} (hdates : ∀ e ∈ dayRun d n, IsDate e)
    (h : List.Forall₂ (fun e l => localDayIntervals txt zone tz e resolution = .ok l)
      (dayRun d n) lists) :
    lists.flatten.map DeliveryInterval.start =
        startsFrom (zone.midnight d) step lists.flatten.length ∧
      (lists.flatten.length : Int) * step.val = zone.midnight (d + n) - zone.midnight d := by
  induction n generalizing d lists with
  | zero =>
    cases h
    refine ⟨rfl, ?_⟩
    have hzero : d + ((0 : Nat) : Int) = d := Int.add_zero d
    rw [hzero]
    exact (Int.zero_mul _).trans (Int.sub_self _).symm
  | succ n ih =>
    rw [dayRun_succ] at h hdates
    cases h with
    | @cons _ l _ rest hl hrest =>
      obtain ⟨hstarts, hlen⟩ := starts_day hinc hstep (hdates d (.head _)) hl
      obtain ⟨hstarts', hlen'⟩ := ih (fun e he => hdates e (.tail _ he)) hrest
      have hend : d + 1 + (n : Int) = d + ((n + 1 : Nat) : Int) := by
        unfold Day at *
        omega
      rw [hend] at hlen'
      constructor
      · have hnext : zone.midnight d + (l.length : Int) * step.val = zone.midnight (d + 1) := by
          rw [hlen]
          unfold Instant
          omega
        rw [List.flatten_cons, List.map_append, List.length_append, startsFrom_add, hstarts,
          hstarts', hnext]
      · rw [List.flatten_cons, List.length_append, Nat.cast_add, Int.add_mul, hlen, hlen']
        unfold Instant
        omega

end Days

theorem spanOf_expected {lists : List (List DeliveryInterval)} {p : PartitionBounds}
    (h : spanOf lists = .ok p) : p.expected = (lists.flatten.length : Int) := by
  unfold spanOf at h
  split at h
  · cases h
    rw [List.length_flatten]
  · cases h

section Partition

variable {env : Env} {folds : String → ZoneFold} {target : FreshTarget} {now : Instant}
  {contract : DatasetContract} {p : PartitionBounds}

/-- As many intervals are expected of a partition as it has starts; they are a quarter of an hour
apart and fill it. -/
theorem partitionStarts_ok (hds : dataset target.manifest.contract.datasetId = some contract)
    (hascii : env.txt.ReadsAscii) (hprague : (env.zones sourceTimezone).Increasing) {back : Nat}
    (h : partitionBounds env folds target now back = .ok p) :
    partitionStarts env folds target now back =
        .ok (startsFrom p.start quarter p.expected.toNat) ∧
      0 ≤ p.expected ∧ p.expected * quarter.val = p.stop - p.start := by
  have hstep := parse_quarter hascii
  have hpos : (0 : Int) < quarter.val := quarter.property
  rw [partitionBounds_eq hds hascii] at h
  unfold partitionStarts
  rw [hds]
  dsimp only
  rw [finestResolution_registered hascii hds]
  cases hmonth : monthOffset env.txt target with
  | some offset =>
    rw [hmonth] at h
    obtain ⟨d', hd', -, hspan⟩ := monthPartition_ok hprague hstep h
    obtain ⟨d, hd, h⟩ := bind_eq_ok.mp h
    obtain ⟨days, hdays, h⟩ := bind_eq_ok.mp h
    obtain ⟨lists, hlists, hp⟩ := bind_eq_ok.mp h
    obtain rfl := Except.ok.inj (hd.symm.trans hd')
    have hmonths := hdays
    rw [shiftMonth_eq (civilDate_isDate hd)] at hmonths
    obtain ⟨hn, hrun⟩ := monthDays_ok.mp hmonths
    rw [← hrun] at hlists
    have hdates : ∀ e ∈ dayRun (monthStart (monthNumber d - (offset + back : Nat)))
        (monthStart (monthNumber d - (offset + back : Nat) + 1) -
          monthStart (monthNumber d - (offset + back : Nat))).toNat, IsDate e :=
      fun e he => month_isDate hn rfl he
    obtain ⟨hstarts, -⟩ := starts_dayRun hprague hstep hdates (mapM_ok_iff.mp hlists)
    have hexpected := spanOf_expected hp
    refine ⟨?_, by rw [hexpected]; exact Int.natCast_nonneg _, hspan.length⟩
    refine bind_eq_ok.mpr ⟨_, rfl, ?_⟩
    dsimp only
    refine bind_eq_ok.mpr ⟨d, hd, bind_eq_ok.mpr ⟨days, hdays, bind_eq_ok.mpr ⟨lists, ?_, ?_⟩⟩⟩
    · rw [← hrun]
      exact hlists
    · rw [hstarts, hspan.start, hexpected]
      rfl
  | none =>
    rw [hmonth] at h
    cases hkind : contract.partition with
    | hour =>
      rw [hkind] at h
      dsimp only at h ⊢
      obtain ⟨rfl, -⟩ := hourPartition_ok hstep h
      refine ⟨?_, (by decide : (0 : Int) ≤ hour / quarter.val), ?_⟩
      swap
      · have hfour : hour / quarter.val * quarter.val = hour := by decide
        dsimp only
        rw [hfour]
        unfold Instant Duration
        omega
      refine bind_eq_ok.mpr ⟨_, rfl, ?_⟩
      exact bind_eq_ok.mpr ⟨_, h, bind_eq_ok.mpr ⟨_, hstep, rfl⟩⟩
    | day =>
      rw [hkind] at h
      dsimp only at h ⊢
      obtain ⟨d', hd', -, hspan⟩ := dayPartition_ok hprague hstep h
      obtain ⟨d, hd, h⟩ := bind_eq_ok.mp h
      obtain ⟨delta, -, h⟩ := bind_eq_ok.mp h
      obtain ⟨e, he, h⟩ := bind_eq_ok.mp h
      obtain ⟨l, hl, hp⟩ := bind_eq_ok.mp h
      obtain rfl := Except.ok.inj (hd.symm.trans hd')
      have hdate := checkedDay_isDate he
      obtain ⟨hstarts, -⟩ := starts_day hprague hstep (checkedDay_eq he ▸ hdate) hl
      have hexpected := spanOf_expected hp
      rw [List.flatten_singleton] at hexpected
      refine ⟨?_, by rw [hexpected]; exact Int.natCast_nonneg _, hspan.length⟩
      refine bind_eq_ok.mpr ⟨_, rfl, ?_⟩
      refine bind_eq_ok.mpr ⟨d, hd, bind_eq_ok.mpr ⟨e, he, bind_eq_ok.mpr ⟨l, hl, ?_⟩⟩⟩
      rw [hstarts, hspan.start, hexpected, checkedDay_eq he]
      rfl

end Partition

/-! ## The in-memory count -/

namespace MemoryStore

variable (reg : Registry) (s : MemoryStore)

/-- The attempt is one of a run of the target. -/
def ownsAttempt (targetId : String) (attemptId : Nat) : Bool :=
  match s.attemptTable.get? attemptId with
  | some a => s.runTable.values.any fun r => r.targetId = targetId ∧ r.id = a.runId
  | none => false

/-- `_target_current`: the target's own rows among the transport's current rows, with a value. -/
def targetCurrent (datasetId targetId : String) (transport : Transport)
    (start stop : Option Instant) : Option (List CurrentRow) :=
  (s.currentRows reg ⟨datasetId, start, stop, none, some transport⟩).map fun rows =>
    rows.filter fun c => s.ownsAttempt targetId c.runAttemptId && c.observation.value.isSome

end MemoryStore

/-- `seen.setdefault(…, set()).add(…)`. -/
def notePeriod (seen : Dict Instant (List String)) (c : CurrentRow) : Dict Instant (List String) :=
  seen.set c.observation.deliveryStartUtc
    (((seen.get? c.observation.deliveryStartUtc).getD []).insert c.observation.metric)

def countSeen (metrics : List String) (rows : List CurrentRow) : Nat :=
  ((rows.foldl notePeriod .empty).values.filter fun present =>
    metrics.all fun m => present.contains m).length

def MemoryStore.countPeriods (reg : Registry) (s : MemoryStore) (datasetId : String)
    (start stop : Instant) (targetId : String) (transport : Transport) (metrics : List String) :
    Option Nat :=
  (s.targetCurrent reg datasetId targetId transport (some start) (some stop)).map
    (countSeen metrics)

/-- The starts at which every metric has a row. -/
def completeStarts (metrics : List String) (rows : List CurrentRow) : Finset Instant :=
  (rows.map fun c => c.observation.deliveryStartUtc).toFinset.filter fun t =>
    ∀ m ∈ metrics, ∃ c ∈ rows, c.observation.deliveryStartUtc = t ∧ c.observation.metric = m

theorem mem_completeStarts {metrics : List String} {rows : List CurrentRow} {t : Instant} :
    t ∈ completeStarts metrics rows ↔ (∃ c ∈ rows, c.observation.deliveryStartUtc = t) ∧
      ∀ m ∈ metrics, ∃ c ∈ rows,
        c.observation.deliveryStartUtc = t ∧ c.observation.metric = m := by
  unfold completeStarts
  rw [Finset.mem_filter, List.mem_toFinset, List.mem_map]

section Seen

variable {metrics : List String}

theorem get?_notePeriod (seen : Dict Instant (List String)) (c : CurrentRow) (t : Instant) :
    (notePeriod seen c).get? t =
      if t = c.observation.deliveryStartUtc then
        some (((seen.get? t).getD []).insert c.observation.metric)
      else seen.get? t := by
  unfold notePeriod
  rw [Dict.get?_set]
  split
  · rename_i h
    rw [h]
  · rfl

theorem seen_isSome (rows : List CurrentRow) (t : Instant) : ∀ seen : Dict Instant (List String),
    ((rows.foldl notePeriod seen).get? t).isSome = true ↔
      (seen.get? t).isSome = true ∨ ∃ c ∈ rows, c.observation.deliveryStartUtc = t := by
  induction rows with
  | nil => intro seen; simp
  | cons c rows ih =>
    intro seen
    rw [List.foldl_cons, ih, get?_notePeriod]
    by_cases hc : t = c.observation.deliveryStartUtc
    · simp [hc]
    · have hne : ¬ c.observation.deliveryStartUtc = t := fun h => hc h.symm
      simp [hc, hne]

theorem mem_seen (rows : List CurrentRow) (t : Instant) (m : String) :
    ∀ seen : Dict Instant (List String),
    m ∈ ((rows.foldl notePeriod seen).get? t).getD [] ↔
      m ∈ (seen.get? t).getD [] ∨
        ∃ c ∈ rows, c.observation.deliveryStartUtc = t ∧ c.observation.metric = m := by
  induction rows with
  | nil => intro seen; simp
  | cons c rows ih =>
    intro seen
    rw [List.foldl_cons, ih, get?_notePeriod]
    by_cases hc : t = c.observation.deliveryStartUtc
    · have heq : c.observation.deliveryStartUtc = t := hc.symm
      rw [if_pos hc, Option.getD_some, List.mem_insert_iff]
      constructor
      · rintro ((rfl | h) | ⟨d, hd, h⟩)
        · exact .inr ⟨c, List.mem_cons_self, heq, rfl⟩
        · exact .inl h
        · exact .inr ⟨d, List.mem_cons_of_mem _ hd, h⟩
      · rintro (h | ⟨d, hd, h⟩)
        · exact .inl (.inr h)
        · rcases List.mem_cons.mp hd with rfl | hd
          · exact .inl (.inl h.2.symm)
          · exact .inr ⟨d, hd, h⟩
    · have hne : ¬ c.observation.deliveryStartUtc = t := fun h => hc h.symm
      rw [if_neg hc]
      constructor
      · rintro (h | ⟨d, hd, h⟩)
        · exact .inl h
        · exact .inr ⟨d, List.mem_cons_of_mem _ hd, h⟩
      · rintro (h | ⟨d, hd, h⟩)
        · exact .inl h
        · rcases List.mem_cons.mp hd with rfl | hd
          · exact absurd h.1 hne
          · exact .inr ⟨d, hd, h⟩

theorem countSeen_eq (rows : List CurrentRow) :
    countSeen metrics rows = (completeStarts metrics rows).card := by
  unfold countSeen
  have hlen : ((rows.foldl notePeriod .empty).values.filter fun present =>
      metrics.all fun m => present.contains m).length =
        (((rows.foldl notePeriod .empty).entries.filter fun e =>
          metrics.all fun m => e.2.contains m).map Prod.fst).length := by
    rw [Dict.values, List.filter_map, List.length_map, List.length_map]
    rfl
  have hnodup : (((rows.foldl notePeriod .empty).entries.filter fun e =>
      metrics.all fun m => e.2.contains m).map Prod.fst).Nodup :=
    (rows.foldl notePeriod .empty).nodup.sublist (List.filter_sublist.map _)
  rw [hlen, ← List.toFinset_card_of_nodup hnodup]
  congr 1
  ext t
  have hempty : (Dict.empty : Dict Instant (List String)).get? t = none := rfl
  have hsome := seen_isSome rows t .empty
  rw [hempty] at hsome
  unfold completeStarts
  simp only [List.mem_toFinset, List.mem_map, List.mem_filter, List.all_eq_true, Finset.mem_filter]
  constructor
  · rintro ⟨e, ⟨he, hall⟩, rfl⟩
    have hget := Dict.get?_eq_some_iff.mpr he
    refine ⟨?_, fun m hm => ?_⟩
    · rcases hsome.mp (by rw [hget]; rfl) with h | h
      · cases h
      · exact h
    · have hmem := (mem_seen rows e.1 m .empty).mp (by
        rw [hget]
        simpa using hall m hm)
      rcases hmem with h | h
      · rw [hempty] at h
        cases h
      · exact h
  · rintro ⟨hstart, hall⟩
    obtain ⟨present, hget⟩ := Option.isSome_iff_exists.mp (hsome.mpr (.inr hstart))
    refine ⟨(t, present), ⟨Dict.get?_eq_some_iff.mp hget, fun m hm => ?_⟩, rfl⟩
    have hmem := (mem_seen rows t m .empty).mpr (.inr (hall m hm))
    rw [hget] at hmem
    simpa using hmem

end Seen

/-! ## Complete and covered -/

section Covered

variable (rows : List CurrentRow) (resolution : String) (metrics : List String)

/-- Each metric has a row of that start and that resolution. -/
def Covered (t : Instant) : Prop :=
  ∀ m ∈ metrics, ∃ c ∈ rows, c.observation.deliveryStartUtc = t ∧
    c.observation.resolution = resolution ∧ c.observation.metric = m

instance (t : Instant) : Decidable (Covered rows resolution metrics t) :=
  inferInstanceAs (Decidable (∀ m ∈ metrics, _))

def missingStarts (starts : List Instant) : Finset Instant :=
  starts.toFinset.filter fun t => ¬ Covered rows resolution metrics t

/-- The starts inside the partition's bounds at which every metric has a row of some resolution,
but which are no covered starts of the partition. -/
def strayStarts (starts : List Instant) (start stop : Instant) : Finset Instant :=
  (completeStarts metrics rows).filter fun t =>
    (start ≤ t ∧ t < stop) ∧ ¬ (t ∈ starts ∧ Covered rows resolution metrics t)

variable {rows resolution metrics}

/-- A count that is not less than the number of starts says that all of them are covered exactly
when the strays do not make up for the missing. -/
theorem count_covers_iff {starts : List Instant} {start stop : Instant} (hnodup : starts.Nodup)
    (hmetrics : metrics ≠ []) (hin : ∀ t ∈ starts, start ≤ t ∧ t < stop) :
    ((starts.length ≤ ((completeStarts metrics rows).filter fun t =>
        start ≤ t ∧ t < stop).card) ↔ ∀ t ∈ starts, Covered rows resolution metrics t) ↔
      (∀ t ∈ starts, Covered rows resolution metrics t) ∨
        (strayStarts rows resolution metrics starts start stop).card <
          (missingStarts rows resolution metrics starts).card := by
  have hstarts : starts.length =
      (starts.toFinset.filter fun t => Covered rows resolution metrics t).card +
        (missingStarts rows resolution metrics starts).card := by
    rw [← List.toFinset_card_of_nodup hnodup]
    exact (Finset.card_filter_add_card_filter_not _).symm
  have hseen : ((completeStarts metrics rows).filter fun t => start ≤ t ∧ t < stop).card =
      (starts.toFinset.filter fun t => Covered rows resolution metrics t).card +
        (strayStarts rows resolution metrics starts start stop).card := by
    rw [← Finset.card_filter_add_card_filter_not
      (fun t => t ∈ starts ∧ Covered rows resolution metrics t)]
    congr 1
    · congr 1
      ext t
      simp only [Finset.mem_filter, List.mem_toFinset]
      constructor
      · exact fun h => h.2
      · intro h
        obtain ⟨m, hm⟩ := List.exists_mem_of_ne_nil metrics hmetrics
        obtain ⟨c, hc, hstart, -⟩ := h.2 m hm
        refine ⟨⟨?_, hin t h.1⟩, h⟩
        unfold completeStarts
        simp only [Finset.mem_filter, List.mem_toFinset, List.mem_map]
        refine ⟨⟨c, hc, hstart⟩, fun m hm => ?_⟩
        obtain ⟨c, hc, hstart, -, hmetric⟩ := h.2 m hm
        exact ⟨c, hc, hstart, hmetric⟩
    · unfold strayStarts
      rw [Finset.filter_filter]
  have hall : (∀ t ∈ starts, Covered rows resolution metrics t) ↔
      (missingStarts rows resolution metrics starts).card = 0 := by
    unfold missingStarts
    rw [Finset.card_eq_zero, Finset.filter_eq_empty_iff]
    simp
  rw [hall, hstarts, hseen]
  omega

end Covered

/-! ## The count in SQL -/

/-- The columns of `run_attempts (id, run_id)` and `runs (id, target_id)` that the query joins. -/
structure RunTables where
  attempts : List (Nat × Nat)
  runs : List (Nat × String)

/-- The same attempts and runs as a memory store. -/
structure RunTables.Mirror (tables : RunTables) (s : MemoryStore) : Prop where
  attempts : ∀ i r, (i, r) ∈ tables.attempts ↔
    ∃ a, s.attemptTable.get? i = some a ∧ a.runId = r
  runs : ∀ i t, (i, t) ∈ tables.runs ↔ ∃ r ∈ s.runTable.values, r.id = i ∧ r.targetId = t

def RunTables.ofStore (s : MemoryStore) : RunTables where
  attempts := s.attemptTable.entries.map fun e => (e.1, e.2.runId)
  runs := s.runTable.values.map fun r => (r.id, r.targetId)

theorem RunTables.ofStore_mirror (s : MemoryStore) : (RunTables.ofStore s).Mirror s where
  attempts i r := by
    simp only [RunTables.ofStore, List.mem_map, Prod.exists, Prod.mk.injEq, Dict.get?_eq_some_iff]
    constructor
    · rintro ⟨i, a, h, rfl, rfl⟩
      exact ⟨a, h, rfl⟩
    · rintro ⟨a, h, rfl⟩
      exact ⟨i, a, h, rfl, rfl⟩
  runs i t := by
    simp only [RunTables.ofStore, List.mem_map, Prod.mk.injEq]

section Sql

variable (tables : RunTables) (out : List JoinedRow) (datasetId : String) (start stop : Instant)
  (targetId : String) (transport : Transport) (metrics : List String)

/-- The start and the metric of the rows that the query groups: the join, and its `WHERE`. -/
def periodRows : List (Instant × String) :=
  (out.filter fun j => j.row.observation.datasetId = datasetId ∧
      j.row.observation.sourceTransport = transport ∧ j.row.observation.value.isSome ∧
      start ≤ j.row.observation.deliveryStartUtc ∧ j.row.observation.deliveryStartUtc < stop ∧
      j.row.observation.metric ∈ metrics).flatMap fun j =>
    ((tables.attempts.filter fun a => a.1 = j.row.runAttemptId).flatMap fun a =>
      tables.runs.filter fun r => r.1 = a.2 ∧ r.2 = targetId).map fun _ =>
        (j.row.observation.deliveryStartUtc, j.row.observation.metric)

/-- `GROUP BY 1 HAVING count(DISTINCT c.metric) = …`, counted. -/
def countGroups (metrics : List String) (rows : List (Instant × String)) : Nat :=
  ((rows.map Prod.fst).dedup.filter fun t =>
    ((rows.filter fun e => e.1 = t).map Prod.snd).dedup.length = metrics.dedup.length).length

/-- `PostgresStore.count_periods`, of a result of the view by transport. -/
def countPeriodsSql : Nat :=
  countGroups metrics (periodRows tables out datasetId start stop targetId transport metrics)

end Sql

section Agrees

variable {reg : Registry} {db : Database} {s : MemoryStore} {tables : RunTables}
  {out : List JoinedRow} {metrics : List String}

theorem ownsAttempt_iff (ht : tables.Mirror s) {targetId : String} {i : Nat} :
    s.ownsAttempt targetId i = true ↔
      ∃ a ∈ tables.attempts, a.1 = i ∧ ∃ r ∈ tables.runs, r.1 = a.2 ∧ r.2 = targetId := by
  unfold MemoryStore.ownsAttempt
  constructor
  · intro h
    split at h
    · rename_i a ha
      obtain ⟨r, hr, hkey⟩ := List.any_eq_true.mp h
      obtain ⟨htarget, hid⟩ := of_decide_eq_true hkey
      exact ⟨(i, a.runId), (ht.attempts _ _).mpr ⟨a, ha, rfl⟩, rfl, (r.id, r.targetId),
        (ht.runs _ _).mpr ⟨r, hr, rfl, rfl⟩, hid, htarget⟩
    · cases h
  · rintro ⟨⟨i, run⟩, ha, rfl, ⟨id, t⟩, hr, rfl, rfl⟩
    obtain ⟨a, hget, hrun⟩ := (ht.attempts _ _).mp ha
    obtain ⟨r, hr, hid, htarget⟩ := (ht.runs _ _).mp hr
    rw [hget]
    exact List.any_eq_true.mpr ⟨r, hr, decide_eq_true ⟨htarget, hid.trans hrun.symm⟩⟩

/-- The groups that have every metric, when each row is of one of the metrics. -/
theorem countGroups_eq {pairs : List (Instant × String)} {rows : List CurrentRow}
    (hmetrics : metrics ≠ [])
    (hmem : ∀ t m, (t, m) ∈ pairs ↔ m ∈ metrics ∧
      ∃ c ∈ rows, c.observation.deliveryStartUtc = t ∧ c.observation.metric = m) :
    countGroups metrics pairs = (completeStarts metrics rows).card := by
  unfold countGroups
  have hnodup := (List.nodup_dedup (pairs.map Prod.fst)).filter fun t =>
    decide (((pairs.filter fun e => e.1 = t).map Prod.snd).dedup.length = metrics.dedup.length)
  rw [← List.toFinset_card_of_nodup hnodup]
  congr 1
  ext t
  have hgroup : ∀ m, m ∈ (pairs.filter fun e => e.1 = t).map Prod.snd ↔ (t, m) ∈ pairs := by
    intro m
    simp only [List.mem_map, List.mem_filter, decide_eq_true_eq]
    constructor
    · rintro ⟨⟨t', m'⟩, ⟨h, rfl⟩, rfl⟩
      exact h
    · exact fun h => ⟨(t, m), ⟨h, rfl⟩, rfl⟩
  have hcount : ((pairs.filter fun e => e.1 = t).map Prod.snd).dedup.length =
      metrics.dedup.length ↔ ∀ m ∈ metrics, (t, m) ∈ pairs := by
    rw [← List.card_toFinset, ← List.card_toFinset]
    have hsub : ((pairs.filter fun e => e.1 = t).map Prod.snd).toFinset ⊆ metrics.toFinset := by
      intro m hm
      rw [List.mem_toFinset, hgroup] at hm
      exact List.mem_toFinset.mpr ((hmem t m).mp hm).1
    constructor
    · intro hcard m hm
      have heq := Finset.eq_of_subset_of_card_le hsub hcard.ge
      rw [← hgroup, ← List.mem_toFinset, heq, List.mem_toFinset]
      exact hm
    · intro hall
      refine congrArg Finset.card (hsub.antisymm fun m hm => ?_)
      rw [List.mem_toFinset, hgroup]
      exact hall m (List.mem_toFinset.mp hm)
  unfold completeStarts
  simp only [List.mem_toFinset, List.mem_filter, List.mem_dedup, decide_eq_true_eq, hcount,
    Finset.mem_filter, List.mem_map]
  constructor
  · rintro ⟨⟨⟨t', m⟩, hpair, rfl⟩, hall⟩
    obtain ⟨-, c, hc, hstart, -⟩ := (hmem _ _).mp hpair
    exact ⟨⟨c, hc, hstart⟩, fun m hm => ((hmem _ _).mp (hall m hm)).2⟩
  · rintro ⟨-, hall⟩
    have hpairs : ∀ m ∈ metrics, (t, m) ∈ pairs := fun m hm => (hmem t m).mpr ⟨hm, hall m hm⟩
    obtain ⟨m, hm⟩ := List.exists_mem_of_ne_nil metrics hmetrics
    exact ⟨⟨(t, m), hpairs m hm, rfl⟩, hpairs⟩

theorem count_agrees (hm : Mirrors reg db s) (ht : tables.Mirror s) (hr : MemoryStore.Readable s)
    (hreg : MemoryStore.Registered s) (hp : Prefixed db) (hv : VersionsFit s)
    (hno : MemoryStore.NoTie reg s)
    {c : Sql.ColumnOrder (ObservationIdentity × Transport)} (hout : db.CurrentByTransport c out)
    (datasetId : String) (start stop : Instant) (targetId : String) (transport : Transport)
    (hmetrics : metrics ≠ []) :
    s.countPeriods reg datasetId start stop targetId transport metrics =
      some (countPeriodsSql tables out datasetId start stop targetId transport metrics) := by
  have hq : (⟨datasetId, some start, some stop, none, some transport⟩ :
      MemoryStore.CurrentQuery).transport ≠ none := Option.some_ne_none transport
  obtain ⟨rows, hrows, hperm⟩ := transport_view_agrees hm hr hreg hp hv hno hout hq
  unfold MemoryStore.countPeriods MemoryStore.targetCurrent countPeriodsSql
  rw [hrows, Option.map_some, Option.map_some, countSeen_eq, ← countGroups_eq hmetrics]
  have hwhere : ∀ j : JoinedRow, (⟨datasetId, some start, some stop, none, some transport⟩ :
      MemoryStore.CurrentQuery).whereClause j.row.observation = true ↔
        j.row.observation.datasetId = datasetId ∧ start ≤ j.row.observation.deliveryStartUtc ∧
          j.row.observation.deliveryStartUtc < stop ∧
            j.row.observation.sourceTransport = transport := by
    intro j
    simp [MemoryStore.CurrentQuery.whereClause]
  intro t m
  unfold periodRows
  simp only [List.mem_flatMap, List.mem_map, List.mem_filter, decide_eq_true_eq, Bool.and_eq_true,
    ownsAttempt_iff ht]
  constructor
  · rintro ⟨j, ⟨hj, hds, htr, hvalue, hlo, hhi, hmetric⟩, r, ⟨a, ⟨ha, hid⟩, hr, hrun⟩, heq⟩
    cases heq
    refine ⟨hmetric, j.currentRow, ⟨?_, ⟨a, ha, hid, r, hr, hrun⟩, hvalue⟩, rfl, rfl⟩
    refine hperm.mem_iff.mp (List.mem_map.mpr ⟨j, List.mem_filter.mpr ⟨hj, ?_⟩, rfl⟩)
    exact (hwhere j).mpr ⟨hds, hlo, hhi, htr⟩
  · rintro ⟨hmetric, c, ⟨hc, ⟨a, ha, hid, r, hr, hrun⟩, hvalue⟩, rfl, rfl⟩
    obtain ⟨j, hj, rfl⟩ := List.mem_map.mp (hperm.mem_iff.mpr hc)
    obtain ⟨hj, hq⟩ := List.mem_filter.mp hj
    obtain ⟨hds, hlo, hhi, htr⟩ := (hwhere j).mp hq
    exact ⟨j, ⟨hj, hds, htr, hvalue, hlo, hhi, hmetric⟩, r, ⟨a, ⟨ha, hid⟩, hr, hrun⟩, rfl⟩

end Agrees

/-! ## The classification -/

/-- The periods that the store counts for a target. -/
def MemoryStore.periodsOf (reg : Registry) (s : MemoryStore) (target : FreshTarget)
    (start stop : Instant) : Int :=
  ((s.countPeriods reg target.manifest.contract.datasetId start stop target.manifest.targetId
    target.manifest.contract.sourceTransport (target.manifest.mapping.metrics.map Prod.fst)).getD 0 :
      Nat)

section Classified

variable {env : Env} {folds : String → ZoneFold} {target : FreshTarget} {now : Instant}
  {contract : DatasetContract} {reg : Registry} {s : MemoryStore}

theorem statusAt_complete {expected observed : Int} {first expectedBy : Instant} :
    statusAt now expected observed first expectedBy = .complete ↔ expected ≤ observed := by
  unfold statusAt
  split_ifs <;> simp [*]

/-- The count over a span of starts, of the target's rows in the whole view. -/
theorem countPeriods_eq (hr : MemoryStore.Readable s) (hreg : MemoryStore.Registered s)
    (datasetId : String) (start stop : Instant) (targetId : String) (transport : Transport)
    (metrics : List String) :
    ∃ rows, s.targetCurrent reg datasetId targetId transport none none = some rows ∧
      s.countPeriods reg datasetId start stop targetId transport metrics =
        some ((completeStarts metrics rows).filter fun t => start ≤ t ∧ t < stop).card := by
  obtain ⟨all, hall, hrows⟩ := MemoryStore.currentRows_within reg hr hreg
    ⟨datasetId, some start, some stop, none, some transport⟩
  have hall' : s.currentRows reg ⟨datasetId, none, none, none, some transport⟩ = some all := hall
  unfold MemoryStore.countPeriods MemoryStore.targetCurrent
  rw [hall', hrows, Option.map_some, Option.map_some, Option.map_some]
  refine ⟨_, rfl, ?_⟩
  rw [countSeen_eq]
  congr 2
  ext t
  rw [Finset.mem_filter, mem_completeStarts, mem_completeStarts]
  have hmem : ∀ c, c ∈ (all.filter fun c => (⟨datasetId, some start, some stop, none,
      some transport⟩ : MemoryStore.CurrentQuery).within c.observation).filter (fun c =>
        s.ownsAttempt targetId c.runAttemptId && c.observation.value.isSome) ↔
      c ∈ all.filter (fun c =>
        s.ownsAttempt targetId c.runAttemptId && c.observation.value.isSome) ∧
        start ≤ c.observation.deliveryStartUtc ∧ c.observation.deliveryStartUtc < stop := by
    intro c
    rw [List.mem_filter, List.mem_filter, List.mem_filter]
    simp only [MemoryStore.CurrentQuery.within, decide_eq_true_eq, Option.mem_def,
      Option.some.injEq, forall_eq', reduceCtorEq, false_implies, implies_true, and_true]
    tauto
  constructor
  · rintro ⟨⟨c, hc, rfl⟩, hmetrics⟩
    obtain ⟨hc, hin⟩ := (hmem c).mp hc
    refine ⟨⟨⟨c, hc, rfl⟩, fun m hm => ?_⟩, hin⟩
    obtain ⟨d, hd, heq⟩ := hmetrics m hm
    exact ⟨d, ((hmem d).mp hd).1, heq⟩
  · rintro ⟨⟨⟨c, hc, rfl⟩, hmetrics⟩, hin⟩
    refine ⟨⟨c, (hmem c).mpr ⟨hc, hin⟩, rfl⟩, fun m hm => ?_⟩
    obtain ⟨d, hd, hstart, hmetric⟩ := hmetrics m hm
    exact ⟨d, (hmem d).mpr ⟨hd, hstart ▸ hin⟩, hstart, hmetric⟩

/-- `complete` says that every interval start of the partition has, at the finest resolution, a
value of every metric, exactly when the strays do not make up for the missing; and both stores
count the same. -/
theorem complete_covers_iff (hds : dataset target.manifest.contract.datasetId = some contract)
    (hmetrics : target.manifest.mapping.metrics ≠ []) (hascii : env.txt.ReadsAscii)
    (hprague : (env.zones sourceTimezone).Increasing) (hs : MemoryStore.Reachable s)
    (hreg : MemoryStore.Registered s) {back : Nat} {status : PartitionStatus}
    (h : classifyPartition env folds target (s.periodsOf reg target) now back = .ok status) :
    (∃ rows starts resolution,
      s.targetCurrent reg target.manifest.contract.datasetId target.manifest.targetId
        target.manifest.contract.sourceTransport none none = some rows ∧
      partitionStarts env folds target now back = .ok starts ∧
      finestResolution env.txt contract.resolutions = .ok resolution ∧
      ((status.status = .complete ↔ ∀ t ∈ starts,
          Covered rows resolution (target.manifest.mapping.metrics.map Prod.fst) t) ↔
        (∀ t ∈ starts, Covered rows resolution (target.manifest.mapping.metrics.map Prod.fst) t) ∨
          (strayStarts rows resolution (target.manifest.mapping.metrics.map Prod.fst) starts
            status.start status.stop).card <
          (missingStarts rows resolution (target.manifest.mapping.metrics.map Prod.fst)
            starts).card)) ∧
    ∀ db tables c out, Mirrors reg db s → RunTables.Mirror tables s → Prefixed db →
      VersionsFit s → MemoryStore.NoTie reg s → db.CurrentByTransport c out →
      ∀ datasetId start stop targetId transport metrics, metrics ≠ [] →
        s.countPeriods reg datasetId start stop targetId transport metrics =
          some (countPeriodsSql tables out datasetId start stop targetId transport metrics) := by
  have hr := hs.wellFormed.readable
  constructor
  · obtain ⟨p, hp, h⟩ := bind_eq_ok.mp h
    obtain ⟨⟨first, expectedBy⟩, -, h⟩ := bind_eq_ok.mp h
    cases h
    obtain ⟨hstarts, hnn, hlen⟩ := partitionStarts_ok hds hascii hprague hp
    obtain ⟨rows, hrows, hcount⟩ := @countPeriods_eq reg s hr hreg
      target.manifest.contract.datasetId p.start p.stop target.manifest.targetId
      target.manifest.contract.sourceTransport (target.manifest.mapping.metrics.map Prod.fst)
    refine ⟨rows, _, _, hrows, hstarts, finestResolution_registered hascii hds, ?_⟩
    have hin : ∀ t ∈ startsFrom p.start quarter p.expected.toNat, p.start ≤ t ∧ t < p.stop := by
      intro t ht
      obtain ⟨hlo, hhi⟩ := mem_startsFrom ht
      rw [Int.toNat_of_nonneg hnn, hlen] at hhi
      refine ⟨hlo, ?_⟩
      unfold Instant at *
      omega
    have hnames : target.manifest.mapping.metrics.map Prod.fst ≠ [] := by
      rw [ne_eq, List.map_eq_nil_iff]
      exact hmetrics
    have hperiods : s.periodsOf reg target p.start p.stop =
        (((completeStarts (target.manifest.mapping.metrics.map Prod.fst) rows).filter fun t =>
          p.start ≤ t ∧ t < p.stop).card : Int) := by
      unfold MemoryStore.periodsOf
      rw [hcount]
      rfl
    have hexpected : (startsFrom p.start quarter p.expected.toNat).length = p.expected.toNat := by
      unfold startsFrom
      rw [List.length_map, List.length_range]
    dsimp only
    rw [statusAt_complete, hperiods,
      ← count_covers_iff (startsFrom_nodup p.start quarter p.expected.toNat) hnames hin, hexpected]
    have hle : ∀ n : Nat, p.expected ≤ (n : Int) ↔ p.expected.toNat ≤ n := by
      intro n
      omega
    rw [hle]
  · intro db tables c out hm ht hp hv hno hout datasetId start stop targetId transport metrics hne
    exact count_agrees hm ht hr hreg hp hv hno hout datasetId start stop targetId transport hne

end Classified

/-! ### Quarters of an hour off the grid -/

def loadTarget : FreshTarget where
  manifest :=
    { targetId := "ote"
      cadence := ⟨"*/15 * * * *", sourceTimezone, some 1⟩
      maxAge := "P1Y"
      fetch := .soapXml
      contract := ⟨"ceps.load", .soap, .soap, ["load"]⟩
      mapping :=
        { dimensions := ⟨[("area", "CZ")], Dimensions.sorted_single _ _⟩
          time := ⟨.timestamp (.source "@date"), sourceTimezone, .constant "PT15M", .start⟩
          sourceVersion := some (.constant "RT")
          sourcePublishedAt := none
          metrics := [("load", ⟨"@value2", "MW", .asPublished, .dot⟩)]
          ignoreFields := []
          metricsNodup := by decide }
      transportAllowed := by decide
      decodeAllowed := by decide
      fileFormat := by
        intro f hf
        cases hf
      metricsDeclared := fun _ => Iff.rfl }
  templates := []

def lateQuarter (k : Nat) : EnergyObservation :=
  { MemoryStore.dayAheadPrice 1 .soap fridayNoon none with
    datasetId := "ceps.load"
    deliveryInterval := nthInterval (fridayNoon + 5 * minute) quarter k
    resolution := "PT15M"
    dimensions := ⟨[("area", "CZ")], Dimensions.sorted_single _ _⟩
    metric := "load" }

/-- A store with one run of the target and its four late quarters. -/
def lateQuarters : MemoryStore :=
  (MemoryStore.init.after (MemoryStore.commitRun 1 1 fridayNoon fridayNoon
    [lateQuarter 0, lateQuarter 1, lateQuarter 2, lateQuarter 3])).get (by decide +kernel)

theorem lateQuarters_reachable : MemoryStore.Reachable lateQuarters :=
  MemoryStore.Reachable.init.after (Option.some_get _).symm

/-- The hour counts as complete without a row at any of its interval starts. -/
theorem off_grid_complete : MemoryStore.Reachable lateQuarters ∧
    MemoryStore.Registered lateQuarters ∧ ∃ status starts rows,
      classifyPartition summerEnv noFolds loadTarget (lateQuarters.periodsOf dataset loadTarget)
        (fridayNoon + 2 * minute) 0 = .ok status ∧ status.status = .complete ∧
      partitionStarts summerEnv noFolds loadTarget (fridayNoon + 2 * minute) 0 = .ok starts ∧
      lateQuarters.targetCurrent dataset "ceps.load" "ote" .soap none none = some rows ∧
      ∀ t ∈ starts, ¬ Covered rows "PT15M" ["load"] t := by
  refine ⟨lateQuarters_reachable, by decide +kernel,
    ⟨fridayNoon, fridayNoon + hour, 4, 4, fridayNoon + 75 * minute, .complete⟩,
    startsFrom fridayNoon quarter 4, _, eq_ok_of_toOption (by decide +kernel), rfl,
    eq_ok_of_toOption (by decide +kernel), (Option.some_get (by decide +kernel)).symm,
    by decide +kernel⟩

def promptQuarter (k : Nat) : EnergyObservation :=
  { lateQuarter k with deliveryInterval := nthInterval fridayNoon quarter k }

/-- A store with one run of the target and the four quarters of the hour. -/
def promptQuarters : MemoryStore :=
  (MemoryStore.init.after (MemoryStore.commitRun 1 1 fridayNoon fridayNoon
    [promptQuarter 0, promptQuarter 1, promptQuarter 2, promptQuarter 3])).get (by decide +kernel)

/-- With a row at each interval start the hour is complete, and PostgreSQL counts the four. -/
theorem prompt_hour_covers : ∃ status starts rows,
    classifyPartition summerEnv noFolds loadTarget (promptQuarters.periodsOf dataset loadTarget)
      (fridayNoon + 2 * minute) 0 = .ok status ∧
    partitionStarts summerEnv noFolds loadTarget (fridayNoon + 2 * minute) 0 = .ok starts ∧
    promptQuarters.targetCurrent dataset "ceps.load" "ote" .soap none none = some rows ∧
    (∀ t ∈ starts, Covered rows "PT15M" ["load"] t) ∧ status.status = .complete ∧
    ∀ c out, (Database.ofStore dataset promptQuarters).CurrentByTransport c out →
      countPeriodsSql (.ofStore promptQuarters) out "ceps.load" fridayNoon (fridayNoon + hour) "ote"
        .soap ["load"] = 4 := by
  have hs : MemoryStore.Reachable promptQuarters :=
    MemoryStore.Reachable.init.after (Option.some_get _).symm
  have hclass : classifyPartition summerEnv noFolds loadTarget
      (promptQuarters.periodsOf dataset loadTarget) (fridayNoon + 2 * minute) 0 =
        .ok ⟨fridayNoon, fridayNoon + hour, 4, 4, fridayNoon + 75 * minute, .complete⟩ :=
    eq_ok_of_toOption (by decide +kernel)
  have hstarts : partitionStarts summerEnv noFolds loadTarget (fridayNoon + 2 * minute) 0 =
      .ok (startsFrom fridayNoon quarter 4) := eq_ok_of_toOption (by decide +kernel)
  have hcount : promptQuarters.countPeriods dataset "ceps.load" fridayNoon (fridayNoon + hour) "ote"
      .soap ["load"] = some 4 := by decide +kernel
  have hcovered : ∀ rows, promptQuarters.targetCurrent dataset "ceps.load" "ote" .soap none none =
      some rows → ∀ t ∈ startsFrom fridayNoon quarter 4, Covered rows "PT15M" ["load"] t := by
    intro rows hrows
    have hget := Option.get_of_eq_some (by decide +kernel) hrows
    rw [← hget]
    decide +kernel
  have hno : MemoryStore.NoTie dataset promptQuarters := by
    have hone : ∀ a ∈ promptQuarters.rowTable.values, ∀ b ∈ promptQuarters.rowTable.values,
        observationIdentity a.observation = observationIdentity b.observation → a = b := by
      decide +kernel
    exact fun a ha b hb hab _ _ hid => absurd (hone a ha b hb hid) hab
  obtain ⟨⟨rows, starts, resolution, hrows, hstarts', hresolution, hexact⟩, hagree⟩ :=
    complete_covers_iff rfl (by decide) (fun c _ => rfl) summer_increasing hs (by decide +kernel)
      hclass
  obtain rfl := Except.ok.inj (hstarts.symm.trans hstarts')
  obtain rfl : "PT15M" = resolution := Except.ok.inj hresolution
  have hall := hcovered rows hrows
  refine ⟨_, _, rows, hclass, hstarts, hrows, hall, (hexact.mpr (.inl hall)).mpr hall, ?_⟩
  intro c out hout
  have hsame := hagree _ _ c out (ofStore_mirrors dataset hs)
    (RunTables.ofStore_mirror promptQuarters) (by unfold Prefixed; decide +kernel)
    (by unfold VersionsFit; decide +kernel) hno hout "ceps.load" fridayNoon
    (fridayNoon + hour) "ote" .soap ["load"] (by decide)
  exact (Option.some.inj (hcount.symm.trans hsame)).symm

end EnergyPlatform
