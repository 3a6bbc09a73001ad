import EnergyPlatform.Mapping.Targets
import EnergyPlatform.Runtime.Freshness

/-!
# Runtime.Partitions

The partitions of a target's freshness against the civil days, hours and months of its zone.

`spanOf_dayRun`: the intervals of consecutive days span them, and their number is the length of the
span in steps. `monthDays_eq`: the days that `_shift_month` and `_month_days` list are those of a
calendar month. `partitions_tile_iff`: when the partitions tile time in the manifest's zone.
-/

namespace EnergyPlatform

/-! ## Months -/

/-- The month of a date, counted from year 0. -/
def monthNumber (d : Day) : Int := (civilOfDay d).year * 12 + ((civilOfDay d).month - 1)

/-- The first day of a month. -/
def monthStart (n : Int) : Day := Ascii.dayOfCivil (n / 12).toNat (n % 12 + 1).toNat 1

theorem wrapMonth_eq {year month : Int} (h : month ≤ 12) :
    wrapMonth year month =
      ((year * 12 + (month - 1)) / 12, (year * 12 + (month - 1)) % 12 + 1) := by
  induction year, month using wrapMonth.induct with
  | case1 year month hlt ih =>
    rw [wrapMonth, if_pos hlt, ih (by omega)]
    congr 1 <;> omega
  | case2 year month hle =>
    rw [wrapMonth, if_neg hle]
    congr 1 <;> omega

theorem shiftMonth_eq {d : Day} (hd : IsDate d) (monthsBack : Nat) :
    shiftMonth d monthsBack =
      ((monthNumber d - monthsBack) / 12, (monthNumber d - monthsBack) % 12 + 1) := by
  have hmonth := (civil_bounds hd).2.2.1
  unfold shiftMonth monthNumber
  rw [wrapMonth_eq (by omega)]
  congr 1 <;> omega

/-- The days before the March of a year, from the March of year 0. -/
def leapDays (y : Int) : Int := y / 400 * 146097 + (y % 400 * 365 + y % 400 / 4 - y % 400 / 100)

theorem leapDays_succ (y : Int) :
    leapDays y + 365 ≤ leapDays (y + 1) ∧ leapDays (y + 1) ≤ leapDays y + 366 := by
  unfold leapDays
  omega

theorem monthStart_eq {year month : Nat} (h : month < 12) :
    monthStart (year * 12 + month) =
      if month < 2 then leapDays (year - 1) + (153 * (month + 10) + 2) / 5 - 719468
      else leapDays year + (153 * (month - 2) + 2) / 5 - 719468 := by
  have hyear : (((year : Int) * 12 + month) / 12).toNat = year := by omega
  have hmonth : (((year : Int) * 12 + month) % 12 + 1).toNat = month + 1 := by omega
  unfold monthStart Ascii.dayOfCivil leapDays
  rw [hyear, hmonth]
  by_cases h2 : month < 2
  · have h₁ : month + 1 ≤ 2 := by omega
    have h₂ : ¬ 2 < month + 1 := by omega
    simp only [if_pos h2, if_pos h₁, if_neg h₂]
    unfold Day
    push_cast
    omega
  · have h₁ : ¬ month + 1 ≤ 2 := by omega
    have h₂ : 2 < month + 1 := by omega
    simp only [if_neg h2, if_neg h₁, if_pos h₂]
    unfold Day
    push_cast
    omega

theorem monthStart_lt {n : Int} (h : 0 ≤ n) : monthStart n < monthStart (n + 1) := by
  obtain ⟨year, month, hmonth, rfl⟩ : ∃ year month : Nat, month < 12 ∧ n = year * 12 + month :=
    ⟨(n / 12).toNat, (n % 12).toNat, by omega, by omega⟩
  rw [monthStart_eq hmonth]
  by_cases hlast : month = 11
  · have hnext : (year : Int) * 12 + month + 1 = ((year + 1 : Nat) : Int) * 12 + (0 : Nat) := by
      omega
    rw [hnext, monthStart_eq (by decide)]
    subst hlast
    simp
  · have hnext : (year : Int) * 12 + month + 1 = (year : Int) * 12 + (month + 1 : Nat) := by omega
    rw [hnext, monthStart_eq (by omega)]
    have hsucc := leapDays_succ (year - 1)
    rw [sub_add_cancel] at hsucc
    unfold Day
    split_ifs <;> omega

theorem leapDays_bounds {y : Int} (h : 0 ≤ y) :
    365 * y ≤ leapDays y ∧ 400 * leapDays y ≤ 146097 * y + 400 := by
  unfold leapDays
  omega

theorem monthStart_isDate {n : Int} (h : 12 ≤ n ∧ n < 120000) : IsDate (monthStart n) := by
  obtain ⟨year, month, hmonth, rfl⟩ : ∃ year month : Nat, month < 12 ∧ n = year * 12 + month :=
    ⟨(n / 12).toNat, (n % 12).toNat, by omega, by omega⟩
  rw [monthStart_eq hmonth]
  have hlo := @leapDays_bounds (year - 1) (by omega)
  have hhi := @leapDays_bounds year (by omega)
  unfold IsDate dateMin dateMax
  unfold Day
  split_ifs <;> omega

theorem civilDatetime_ok {year : Int} {month dayOfMonth : Nat} {d : Day} :
    civilDatetime year month dayOfMonth = .ok d ↔
      (1 ≤ year ∧ year ≤ 9999) ∧ Ascii.dayOfCivil year.toNat month dayOfMonth = d := by
  unfold civilDatetime
  split
  · rename_i h
    rw [Except.ok.injEq, and_iff_right h]
  · rename_i h
    constructor
    · intro heq
      cases heq
    · intro heq
      exact absurd heq.1 h

/-- `n` consecutive days from `d`. -/
def dayRun (d : Day) (n : Nat) : List Day := (List.range n).map fun i : Nat => d + (i : Int)

theorem dayRun_succ (d : Day) (n : Nat) : dayRun d (n + 1) = d :: dayRun (d + 1) n := by
  unfold dayRun
  rw [List.range_succ_eq_map, List.map_cons, List.map_map]
  refine congrArg₂ _ (Int.add_zero d) (List.map_congr_left fun i _ => ?_)
  change d + ((i + 1 : Nat) : Int) = d + 1 + i
  unfold Day at *
  omega

theorem mem_dayRun {d e : Day} {n : Nat} : e ∈ dayRun d n ↔ d ≤ e ∧ e < d + n := by
  unfold dayRun
  rw [List.mem_map]
  constructor
  · intro h
    obtain ⟨i, hi, rfl⟩ := h
    have hlt := List.mem_range.mp hi
    unfold Day at *
    omega
  · intro h
    unfold Day at *
    exact ⟨(e - d).toNat, List.mem_range.mpr (by omega), by omega⟩

/-- The days that are listed for a month are those from its start to the next one's. -/
theorem monthDays_ok {n : Int} {days : List Day} :
    monthDays (n / 12) (n % 12 + 1) = .ok days ↔ (12 ≤ n ∧ n + 1 < 120000) ∧
      dayRun (monthStart n) (monthStart (n + 1) - monthStart n).toNat = days := by
  have hyear : n / 12 + (n % 12 + 1) / 12 = (n + 1) / 12 := by omega
  have hmonth : (n % 12 + 1) % 12 + 1 = (n + 1) % 12 + 1 := by omega
  unfold monthDays
  rw [hyear, hmonth]
  constructor
  · intro h
    obtain ⟨first, hfirst, h⟩ := bind_eq_ok.mp h
    obtain ⟨next, hnext, h⟩ := bind_eq_ok.mp h
    obtain ⟨hlo, rfl⟩ := civilDatetime_ok.mp hfirst
    obtain ⟨hhi, rfl⟩ := civilDatetime_ok.mp hnext
    exact ⟨⟨by omega, by omega⟩, Except.ok.inj h⟩
  · intro h
    obtain ⟨hrange, rfl⟩ := h
    refine bind_eq_ok.mpr ⟨_, civilDatetime_ok.mpr ⟨⟨by omega, by omega⟩, rfl⟩, ?_⟩
    exact bind_eq_ok.mpr ⟨_, civilDatetime_ok.mpr ⟨⟨by omega, by omega⟩, rfl⟩, rfl⟩

/-! ## The span of consecutive days -/

/-- The days that a step divides. -/
structure DaySplit (zone : Zone) (step : Step) (d : Day) : Prop where
  midnight : zone.HasMidnight d
  next : zone.HasMidnight (d + 1)
  divides : (zone.midnight (d + 1) - zone.midnight d) % step.val = 0

/-- A partition from one local midnight to another, as long as the periods expected of it. -/
structure Spans (zone : Zone) (step : Step) (first next : Day) (p : PartitionBounds) : Prop where
  start : p.start = zone.midnight first
  stop : p.stop = zone.midnight next
  length : p.expected * step.val = p.stop - p.start

section Days

variable {txt : TextPrims} {zone : Zone} {tz resolution : String} {step : Step} {d : Day}

theorem localDayIntervals_split (hstep : parseDuration txt resolution = .ok step) (hd : IsDate d) :
    (∃ l, localDayIntervals txt zone tz d resolution = .ok l) ↔ DaySplit zone step d := by
  constructor
  · intro h
    obtain ⟨l, h⟩ := h
    obtain ⟨step', hstep', h⟩ := bind_eq_ok.mp h
    obtain rfl := Except.ok.inj (hstep.symm.trans hstep')
    obtain ⟨start, hstart, h⟩ := bind_eq_ok.mp h
    obtain ⟨tomorrow, htomorrow, h⟩ := bind_eq_ok.mp h
    obtain ⟨stop, hstop, h⟩ := bind_eq_ok.mp h
    have hnext := checkedDay_isDate htomorrow
    obtain rfl := checkedDay_eq htomorrow
    have hfirst := checkedInstant_range hstart
    have hlast := checkedInstant_range hstop
    obtain rfl := checkedInstant_eq hstart
    obtain rfl := checkedInstant_eq hstop
    refine ⟨⟨hd, hfirst⟩, ⟨hnext, hlast⟩, ?_⟩
    dsimp only at h
    split at h
    · cases h
    · rename_i htile
      exact not_not.mp htile
  · intro h
    exact ⟨_, localDayIntervals_eq hstep h.midnight h.next h.divides⟩

/-- The intervals of one day span it. -/
theorem spanOf_day (hinc : zone.Increasing) (hstep : parseDuration txt resolution = .ok step)
    (hd : IsDate d) {l : List DeliveryInterval}
    (h : localDayIntervals txt zone tz d resolution = .ok l) :
    ∃ p, spanOf [l] = .ok p ∧ Spans zone step d (d + 1) p := by
  obtain ⟨step', hstep', hnext, hdiv, hl⟩ := localDayIntervals_ok h
  obtain rfl := Except.ok.inj (hstep.symm.trans hstep')
  have hlt := hinc d (d + 1) hd hnext (Int.lt_succ d)
  have htiles := localDayIntervals_tilesDay hstep hlt h
  obtain ⟨i, hi, hstart⟩ := htiles.first
  obtain ⟨j, hj, hstop⟩ := htiles.last
  refine ⟨⟨i.start, j.stop, l.length⟩, ?_, hstart, hstop, ?_⟩
  · unfold spanOf
    rw [List.head?_cons, List.getLast?_singleton, Option.bind_some, Option.bind_some, hi, hj]
    rfl
  · have hpos : (0 : Int) < step.val := step.property
    have hnn : 0 ≤ (zone.midnight (d + 1) - zone.midnight d) / step.val :=
      Int.ediv_nonneg (Int.sub_nonneg.mpr hlt.le) hpos.le
    rw [hstart, hstop, hl, List.length_map, List.length_range, Int.toNat_of_nonneg hnn,
      Int.ediv_mul_cancel (Int.dvd_of_emod_eq_zero hdiv)]

theorem spanOf_cons {l : List DeliveryInterval} {rest : List (List DeliveryInterval)}
    {p q : PartitionBounds} (h : spanOf [l] = .ok p) (hrest : spanOf rest = .ok q) :
    spanOf (l :: rest) = .ok ⟨p.start, q.stop, p.expected + q.expected⟩ := by
  cases rest with
  | nil => cases hrest
  | cons l' rest =>
    unfold spanOf at h hrest ⊢
    split at h
    · rename_i i j hi hj
      split at hrest
      · rename_i i' j' hi' hj'
        obtain rfl := Except.ok.inj h
        obtain rfl := Except.ok.inj hrest
        rw [List.head?_cons, List.getLast?_cons_cons, hj']
        rw [List.head?_cons] at hi
        rw [hi]
        simp
      · cases hrest
    · cases h

/-- The intervals of consecutive days span them. -/
theorem spanOf_dayRun (hinc : zone.Increasing) (hstep : parseDuration txt resolution = .ok step)
    {n : Nat} {lists : List (List DeliveryInterval)} (hdates : ∀ e ∈ dayRun d (n + 1), IsDate e)
    (h : List.Forall₂ (fun e l => localDayIntervals txt zone tz e resolution = .ok l)
      (dayRun d (n + 1)) lists) :
    ∃ p, spanOf lists = .ok p ∧ Spans zone step d (d + (n + 1 : Nat)) p := by
  induction n generalizing d lists with
  | zero =>
    rw [dayRun_succ] at h hdates
    cases h with
    | cons hl hnil =>
      cases hnil
      exact spanOf_day hinc hstep (hdates d (.head _)) hl
  | succ n ih =>
    rw [dayRun_succ] at h hdates
    cases h with
    | cons hl hrest =>
      obtain ⟨p, hp, hspan⟩ := spanOf_day hinc hstep (hdates d (.head _)) hl
      obtain ⟨q, hq, hspan'⟩ := ih (fun e he => hdates e (.tail _ he)) hrest
      refine ⟨_, spanOf_cons hp hq, hspan.start, ?_, ?_⟩
      · change q.stop = _
        rw [hspan'.stop]
        refine congrArg _ ?_
        unfold Day at *
        omega
      · change (p.expected + q.expected) * step.val = q.stop - p.start
        rw [Int.add_mul, hspan.length, hspan'.length, hspan.stop, hspan'.start]
        unfold Instant
        omega

end Days

/-! ## The three kinds of partition -/

/-- The intervals of every day of a month. -/
structure MonthSplit (zone : Zone) (step : Step) (n : Int) : Prop where
  years : 12 ≤ n ∧ n + 1 < 120000
  days : ∀ d, monthStart n ≤ d → d < monthStart (n + 1) → DaySplit zone step d

theorem civilDate_isDate {zone : Zone} {t : Instant} {d : Day} (h : civilDate zone t = .ok d) :
    IsDate d := by
  unfold civilDate at h
  cases hw : checkedInstant (zone.toLocal t) with
  | error e =>
    rw [hw] at h
    cases h
  | ok wall =>
    rw [hw] at h
    obtain rfl := Except.ok.inj h
    obtain rfl := checkedInstant_eq hw
    exact day_bounds (checkedInstant_range hw)

theorem checkedDelta_ok {d : Duration} (h : d / day ≤ timedeltaMaxDays) : checkedDelta d = .ok d :=
  if_pos h

section Kinds

variable {env : Env} {folds : String → ZoneFold} {target : FreshTarget} {resolution : String}
  {step : Step} {now : Instant} {p : PartitionBounds}

theorem dayPartition_ok (hprague : (env.zones sourceTimezone).Increasing)
    (hstep : parseDuration env.txt resolution = .ok step) {back : Nat}
    (h : dayPartition env target resolution now back = .ok p) :
    ∃ d, deliveryDayFor (env.zones target.timezone) now = .ok d ∧
      DaySplit (env.zones sourceTimezone) step (d - back) ∧
      Spans (env.zones sourceTimezone) step (d - back) (d - back + 1) p := by
  obtain ⟨d, hd, h⟩ := bind_eq_ok.mp h
  obtain ⟨delta, -, h⟩ := bind_eq_ok.mp h
  obtain ⟨e, he, h⟩ := bind_eq_ok.mp h
  obtain ⟨l, hl, hp⟩ := bind_eq_ok.mp h
  have hdate := checkedDay_isDate he
  obtain rfl := checkedDay_eq he
  obtain ⟨q, hq, hspan⟩ := spanOf_day hprague hstep hdate hl
  obtain rfl := Except.ok.inj (hq.symm.trans hp)
  exact ⟨d, hd, (localDayIntervals_split hstep hdate).mp ⟨l, hl⟩, hspan⟩

theorem dayPartition_total (hprague : (env.zones sourceTimezone).Increasing)
    (hstep : parseDuration env.txt resolution = .ok step) {d : Day} {back : Nat}
    (hd : deliveryDayFor (env.zones target.timezone) now = .ok d)
    (hsplit : DaySplit (env.zones sourceTimezone) step (d - back)) :
    ∃ p, dayPartition env target resolution now back = .ok p := by
  have hdate := hsplit.midnight.1
  have hdelta : checkedDelta (back * day) = .ok (back * day) := by
    refine checkedDelta_ok ?_
    have hback := (civilDate_isDate hd).2
    have hlow := hdate.1
    rw [Int.mul_ediv_cancel _ (by decide)]
    unfold dateMin dateMax Day at *
    unfold timedeltaMaxDays Duration
    omega
  obtain ⟨l, hl⟩ := (localDayIntervals_split hstep hdate).mpr hsplit
  obtain ⟨p, hp, -⟩ := spanOf_day hprague hstep hdate hl
  refine ⟨p, ?_⟩
  refine bind_eq_ok.mpr ⟨d, hd, bind_eq_ok.mpr ⟨_, hdelta, ?_⟩⟩
  exact bind_eq_ok.mpr ⟨_, checkedDay_ok hdate, bind_eq_ok.mpr ⟨l, hl, hp⟩⟩

/-- The days of a month are dates. -/
theorem month_isDate {n : Int} (hn : 12 ≤ n ∧ n + 1 < 120000) {m : Nat} {d : Day}
    (hm : (monthStart (n + 1) - monthStart n).toNat = m)
    (hd : d ∈ dayRun (monthStart n) m) : IsDate d := by
  have hlt := @monthStart_lt n (by omega)
  have hlo := (@monthStart_isDate n (by omega)).1
  have hhi := (@monthStart_isDate (n + 1) (by omega)).2
  obtain ⟨h₁, h₂⟩ := mem_dayRun.mp hd
  unfold IsDate
  unfold Day at *
  omega

/-- A month is a run of dates, of a day at least. -/
theorem month_run {n : Int} (hn : 12 ≤ n ∧ n + 1 < 120000) :
    ∃ m, (monthStart (n + 1) - monthStart n).toNat = m + 1 ∧
      ∀ d ∈ dayRun (monthStart n) (m + 1), IsDate d := by
  have hlt := @monthStart_lt n (by omega)
  obtain ⟨m, hm⟩ : ∃ m, (monthStart (n + 1) - monthStart n).toNat = m + 1 :=
    ⟨_, (Nat.succ_pred_eq_of_pos (by unfold Day at *; omega)).symm⟩
  exact ⟨m, hm, fun d hd => month_isDate hn hm hd⟩

theorem monthPartition_ok (hprague : (env.zones sourceTimezone).Increasing)
    (hstep : parseDuration env.txt resolution = .ok step) {back : Nat}
    (h : monthPartition env target resolution now back = .ok p) :
    ∃ d, deliveryDayFor (env.zones target.timezone) now = .ok d ∧
      MonthSplit (env.zones sourceTimezone) step (monthNumber d - back) ∧
      Spans (env.zones sourceTimezone) step (monthStart (monthNumber d - back))
        (monthStart (monthNumber d - back + 1)) p := by
  obtain ⟨d, hd, h⟩ := bind_eq_ok.mp h
  obtain ⟨days, hdays, h⟩ := bind_eq_ok.mp h
  obtain ⟨lists, hlists, hp⟩ := bind_eq_ok.mp h
  rw [shiftMonth_eq (civilDate_isDate hd)] at hdays
  obtain ⟨hn, rfl⟩ := monthDays_ok.mp hdays
  have hall := mapM_ok_iff.mp hlists
  have hlt := @monthStart_lt (monthNumber d - back) (by omega)
  obtain ⟨m, hm, hdates⟩ := month_run hn
  rw [hm] at hall
  obtain ⟨q, hq, hspan⟩ := spanOf_dayRun hprague hstep hdates hall
  obtain rfl := Except.ok.inj (hq.symm.trans hp)
  have hend : monthStart (monthNumber d - back) + ((m + 1 : Nat) : Int) =
      monthStart (monthNumber d - back + 1) := by
    unfold Day at *
    omega
  rw [hend] at hspan
  refine ⟨d, hd, ⟨hn, fun e h₁ h₂ => ?_⟩, hspan⟩
  have hmem : e ∈ dayRun (monthStart (monthNumber d - back)) (m + 1) :=
    mem_dayRun.mpr ⟨h₁, hend ▸ h₂⟩
  obtain ⟨i, hi, hget⟩ := List.mem_iff_getElem.mp hmem
  have hone := hall.get hi (hall.length_eq ▸ hi)
  simp only [List.get_eq_getElem, hget] at hone
  exact (localDayIntervals_split hstep (hdates e hmem)).mp ⟨_, hone⟩

theorem monthPartition_total (hprague : (env.zones sourceTimezone).Increasing)
    (hstep : parseDuration env.txt resolution = .ok step) {d : Day} {back : Nat}
    (hd : deliveryDayFor (env.zones target.timezone) now = .ok d)
    (hsplit : MonthSplit (env.zones sourceTimezone) step (monthNumber d - back)) :
    ∃ p, monthPartition env target resolution now back = .ok p := by
  have hn := hsplit.years
  have hlt := @monthStart_lt (monthNumber d - back) (by omega)
  obtain ⟨m, hm, hdates⟩ := month_run hn
  have heach : ∀ e ∈ dayRun (monthStart (monthNumber d - back)) (m + 1),
      ∃ l, sourceDayIntervals env resolution e = .ok l := by
    intro e he
    have hin := mem_dayRun.mp he
    refine (localDayIntervals_split hstep (hdates e he)).mpr (hsplit.days e hin.1 ?_)
    unfold Day at *
    omega
  obtain ⟨lists, hlists⟩ := mapM_total heach
  obtain ⟨p, hp, -⟩ := spanOf_dayRun hprague hstep hdates (mapM_ok_iff.mp hlists)
  refine ⟨p, bind_eq_ok.mpr ⟨d, hd, bind_eq_ok.mpr ⟨_, ?_, bind_eq_ok.mpr ⟨lists, hlists, hp⟩⟩⟩⟩
  rw [shiftMonth_eq (civilDate_isDate hd)]
  exact monthDays_ok.mpr ⟨hn, by rw [hm]⟩

/-- What a clock that reads times of years 1 to 9999 can show. -/
def IsInstant (t : Instant) : Prop := datetimeMin ≤ t ∧ t ≤ datetimeMax

theorem checkedInstant_isInstant {t u : Instant} (h : checkedInstant t = .ok u) :
    IsInstant t ∧ u = t := ⟨checkedInstant_range h, checkedInstant_eq h⟩

/-- The instant of the full hour of the local clock. -/
def fullHour (env : Env) (folds : String → ZoneFold) (target : FreshTarget) (now : Instant) :
    Instant :=
  (env.zones target.timezone).replaced (folds target.timezone) now
    ((env.zones target.timezone).toLocal now - (env.zones target.timezone).toLocal now % hour)

theorem hourPartition_ok (hstep : parseDuration env.txt resolution = .ok step) {back : Nat}
    (h : hourPartition env folds target resolution now back = .ok p) :
    p = ⟨fullHour env folds target now - back * hour,
      fullHour env folds target now - back * hour + hour, hour / step.val⟩ ∧
      IsInstant ((env.zones target.timezone).toLocal now) ∧
      IsInstant (fullHour env folds target now) ∧ IsInstant p.stop := by
  obtain ⟨wall, hwall, h⟩ := bind_eq_ok.mp h
  obtain ⟨full, hfull, h⟩ := bind_eq_ok.mp h
  obtain ⟨delta, hdelta, h⟩ := bind_eq_ok.mp h
  obtain ⟨start, hstart, h⟩ := bind_eq_ok.mp h
  obtain ⟨stop, hstop, h⟩ := bind_eq_ok.mp h
  obtain ⟨step', hstep', h⟩ := bind_eq_ok.mp h
  obtain rfl := Except.ok.inj (hstep.symm.trans hstep')
  obtain ⟨hin, rfl⟩ := checkedInstant_isInstant hwall
  obtain ⟨hin', rfl⟩ := checkedInstant_isInstant hfull
  obtain ⟨-, rfl⟩ := checkedInstant_isInstant hstart
  obtain ⟨hin'', rfl⟩ := checkedInstant_isInstant hstop
  have hback : delta = back * hour := by
    unfold checkedDelta at hdelta
    split at hdelta
    · exact (Except.ok.inj hdelta).symm
    · cases hdelta
  obtain rfl := hback
  obtain rfl := Except.ok.inj h
  exact ⟨rfl, hin, hin', hin''⟩

theorem hourPartition_now (hstep : parseDuration env.txt resolution = .ok step)
    (hwall : IsInstant ((env.zones target.timezone).toLocal now))
    (hfull : IsInstant (fullHour env folds target now))
    (hstop : IsInstant (fullHour env folds target now + hour)) :
    hourPartition env folds target resolution now 0 = .ok ⟨fullHour env folds target now,
      fullHour env folds target now + hour, hour / step.val⟩ := by
  have hzero : fullHour env folds target now - ((0 : Nat) : Int) * hour =
      fullHour env folds target now := by
    rw [Nat.cast_zero, Int.zero_mul]
    exact sub_zero _
  have hstart : checkedInstant (fullHour env folds target now - ((0 : Nat) : Int) * hour) =
      .ok (fullHour env folds target now) := by
    rw [hzero]
    exact checkedInstant_ok hfull.1 hfull.2
  refine bind_eq_ok.mpr ⟨_, checkedInstant_ok hwall.1 hwall.2, ?_⟩
  refine bind_eq_ok.mpr ⟨_, checkedInstant_ok hfull.1 hfull.2, ?_⟩
  refine bind_eq_ok.mpr ⟨_, checkedDelta_ok (by decide), bind_eq_ok.mpr ⟨_, hstart, ?_⟩⟩
  refine bind_eq_ok.mpr ⟨_, checkedInstant_ok hstop.1 hstop.2, ?_⟩
  exact bind_eq_ok.mpr ⟨_, hstep, rfl⟩

end Kinds

/-! ## The registered resolutions -/

/-- The digits of ASCII characters are the ASCII digits. -/
def TextPrims.ReadsAscii (txt : TextPrims) : Prop :=
  ∀ c : Char, c.toNat < 128 → txt.digit c = Ascii.digit c

section Registered

variable {txt : TextPrims}

/-- Fifteen minutes. -/
def quarter : Step := ⟨15 * minute, by decide⟩

theorem parse_quarter (h : txt.ReadsAscii) : parseDuration txt "PT15M" = .ok quarter := by
  have hT : txt.digit 'T' = none := h 'T' (by decide)
  have h1 : txt.digit '1' = some 1 := h '1' (by decide)
  have h5 : txt.digit '5' = some 5 := h '5' (by decide)
  have hM : txt.digit 'M' = none := h 'M' (by decide)
  have hread : matchDuration txt "PT15M".toList = some (none, none, some (15, 2)) := by
    simp [matchDuration, unitGroup, digitRun, hT, h1, h5, hM, atEnd]
  unfold parseDuration
  rw [if_neg (by decide), hread]
  rfl

theorem parse_hour (h : txt.ReadsAscii) :
    parseDuration txt "PT60M" = .ok ⟨60 * minute, by decide⟩ := by
  have hT : txt.digit 'T' = none := h 'T' (by decide)
  have h6 : txt.digit '6' = some 6 := h '6' (by decide)
  have h0 : txt.digit '0' = some 0 := h '0' (by decide)
  have hM : txt.digit 'M' = none := h 'M' (by decide)
  have hread : matchDuration txt "PT60M".toList = some (none, none, some (60, 2)) := by
    simp [matchDuration, unitGroup, digitRun, hT, h6, h0, hM, atEnd]
  unfold parseDuration
  rw [if_neg (by decide), hread]
  rfl

/-- The finest resolution of every registered dataset is a quarter of an hour. -/
theorem finestResolution_registered (h : txt.ReadsAscii) {datasetId : String}
    {contract : DatasetContract} (hds : dataset datasetId = some contract) :
    finestResolution txt contract.resolutions = .ok "PT15M" := by
  have hmem : contract.resolutions = ["PT15M", "PT60M"] ∨ contract.resolutions = ["PT15M"] := by
    have hin := List.mem_of_find?_eq_some hds
    revert hin
    generalize contract = c
    revert c
    decide
  unfold finestResolution
  rcases hmem with hres | hres
  · rw [hres]
    simp only [List.mapM_cons, List.mapM_nil, parse_quarter h, parse_hour h]
    rfl
  · rw [hres]
    simp only [List.mapM_cons, List.mapM_nil, parse_quarter h]
    rfl

end Registered

/-! ## Partitions tile time -/

section Tile

variable (env : Env) (folds : String → ZoneFold) (target : FreshTarget)
  (contract : DatasetContract) (now : Instant)

/-- The partitions of a target, looked back on from `now`, tile time in the manifest's zone. -/
structure PartitionsTile : Prop where
  contains : monthOffset env.txt target = none →
    ∃ p, partitionBounds env folds target now 0 = .ok p ∧ p.start ≤ now ∧ now < p.stop
  contiguous : ∀ (k : Nat) p q, partitionBounds env folds target now k = .ok p →
    partitionBounds env folds target now (k + 1) = .ok q → q.stop = p.start
  civilDay : monthOffset env.txt target = none → contract.partition = .day →
    ∀ (k : Nat) p, partitionBounds env folds target now k = .ok p →
      ∃ d, deliveryDayFor (env.zones target.timezone) now = .ok d ∧
        p.start = (env.zones target.timezone).midnight (d - k) ∧
        p.stop = (env.zones target.timezone).midnight (d - k + 1)
  civilMonth : ∀ offset, monthOffset env.txt target = some offset →
    ∀ (k : Nat) p, partitionBounds env folds target now k = .ok p →
      ∃ d, deliveryDayFor (env.zones target.timezone) now = .ok d ∧
        p.start = (env.zones target.timezone).midnight
          (monthStart (monthNumber d - (offset + k : Nat))) ∧
        p.stop = (env.zones target.timezone).midnight
          (monthStart (monthNumber d - (offset + k : Nat) + 1))
  expected : ∀ (k : Nat) p, partitionBounds env folds target now k = .ok p →
    ∀ resolution step, finestResolution env.txt contract.resolutions = .ok resolution →
      parseDuration env.txt resolution = .ok step → p.expected * step.val = p.stop - p.start

/-- The source's zone and the manifest's zone agree on the midnight that starts a day. -/
def SameMidnight (d : Day) : Prop :=
  (env.zones sourceTimezone).midnight d = (env.zones target.timezone).midnight d

/-- The offset of the zone at the full hour of the local clock, less the offset at `now`. -/
def clockShift : Duration :=
  ((env.zones target.timezone).toLocal now - (env.zones target.timezone).toLocal now % hour -
    fullHour env folds target now) - ((env.zones target.timezone).toLocal now - now)

/-- The day partitions are those of the manifest's zone. -/
structure DayWhen (d : Day) : Prop where
  today : deliveryDayFor (env.zones target.timezone) now = .ok d
  inside : (env.zones target.timezone).midnight d ≤ now ∧
    now < (env.zones target.timezone).midnight (d + 1)
  split : DaySplit (env.zones sourceTimezone) quarter d
  same : ∀ k : Nat, DaySplit (env.zones sourceTimezone) quarter (d - k) →
    SameMidnight env target (d - k) ∧ SameMidnight env target (d - k + 1)

/-- The clock was not changed since the full hour by as much as to leave the hour. -/
structure HourWhen : Prop where
  wall : IsInstant ((env.zones target.timezone).toLocal now)
  full : IsInstant (fullHour env folds target now)
  stop : IsInstant (fullHour env folds target now + hour)
  steady : 0 ≤ (env.zones target.timezone).toLocal now % hour + clockShift env folds target now ∧
    (env.zones target.timezone).toLocal now % hour + clockShift env folds target now < hour

def MonthWhen (offset : Nat) : Prop :=
  ∀ d, deliveryDayFor (env.zones target.timezone) now = .ok d → ∀ k : Nat,
    MonthSplit (env.zones sourceTimezone) quarter (monthNumber d - (offset + k : Nat)) →
      SameMidnight env target (monthStart (monthNumber d - (offset + k : Nat))) ∧
      SameMidnight env target (monthStart (monthNumber d - (offset + k : Nat) + 1))

/-- When the partitions of a target tile time in the manifest's zone. -/
def TilesWhen : Prop :=
  match monthOffset env.txt target, contract.partition with
  | some offset, _ => MonthWhen env target now offset
  | none, .hour => HourWhen env folds target now
  | none, .day => ∃ d, DayWhen env target now d

variable {env folds target contract now}

section Kind

variable (hds : dataset target.manifest.contract.datasetId = some contract)
  (hascii : env.txt.ReadsAscii)
include hds hascii

theorem partitionBounds_eq (back : Nat) : partitionBounds env folds target now back =
    match monthOffset env.txt target with
    | some offset => monthPartition env target "PT15M" now (offset + back)
    | none =>
      match contract.partition with
      | .hour => hourPartition env folds target "PT15M" now back
      | .day => dayPartition env target "PT15M" now back := by
  unfold partitionBounds
  rw [hds]
  dsimp only
  rw [finestResolution_registered hascii hds]
  rfl

theorem quarter_of_finest {resolution : String} {step : Step}
    (hres : finestResolution env.txt contract.resolutions = .ok resolution)
    (hstep : parseDuration env.txt resolution = .ok step) : step = quarter := by
  obtain rfl := Except.ok.inj (hres.symm.trans (finestResolution_registered hascii hds))
  exact Except.ok.inj (hstep.symm.trans (parse_quarter hascii))

theorem month_tile_iff (hprague : (env.zones sourceTimezone).Increasing) {offset : Nat}
    (hmonth : monthOffset env.txt target = some offset) :
    PartitionsTile env folds target contract now ↔ MonthWhen env target now offset := by
  have hstep := parse_quarter hascii
  have heq : ∀ back, partitionBounds env folds target now back =
      monthPartition env target "PT15M" now (offset + back) := by
    intro back
    rw [partitionBounds_eq hds hascii, hmonth]
  constructor
  · intro h d hd k hsplit
    obtain ⟨p, hp⟩ := monthPartition_total hprague hstep hd hsplit
    obtain ⟨d', hd', hstart, hstop⟩ := h.civilMonth offset hmonth k p ((heq k).trans hp)
    obtain ⟨e, he, -, hspan⟩ := monthPartition_ok hprague hstep hp
    obtain rfl := Except.ok.inj (hd.symm.trans hd')
    obtain rfl := Except.ok.inj (hd.symm.trans he)
    exact ⟨hspan.start.symm.trans hstart, hspan.stop.symm.trans hstop⟩
  · intro h
    constructor
    case contains =>
      intro hnone
      cases hnone.symm.trans hmonth
    case contiguous =>
      intro k p q hp hq
      rw [heq] at hp hq
      obtain ⟨d, hd, -, hspan⟩ := monthPartition_ok hprague hstep hp
      obtain ⟨d', hd', -, hspan'⟩ := monthPartition_ok hprague hstep hq
      obtain rfl := Except.ok.inj (hd.symm.trans hd')
      rw [hspan.start, hspan'.stop]
      refine congrArg (fun n => (env.zones sourceTimezone).midnight (monthStart n)) ?_
      push_cast
      omega
    case civilDay =>
      intro hnone
      cases hnone.symm.trans hmonth
    case civilMonth =>
      intro offset' hoffset k p hp
      obtain rfl := Option.some.inj (hmonth.symm.trans hoffset)
      rw [heq] at hp
      obtain ⟨d, hd, hsplit, hspan⟩ := monthPartition_ok hprague hstep hp
      obtain ⟨hfirst, hnext⟩ := h d hd k hsplit
      exact ⟨d, hd, hspan.start.trans hfirst, hspan.stop.trans hnext⟩
    case expected =>
      intro k p hp resolution step hres hfinest
      obtain rfl := quarter_of_finest hds hascii hres hfinest
      rw [heq] at hp
      obtain ⟨d, -, -, hspan⟩ := monthPartition_ok hprague hstep hp
      exact hspan.length

theorem day_tile_iff (hprague : (env.zones sourceTimezone).Increasing)
    (hmonth : monthOffset env.txt target = none) (hday : contract.partition = .day) :
    PartitionsTile env folds target contract now ↔ ∃ d, DayWhen env target now d := by
  have hstep := parse_quarter hascii
  have heq : ∀ back, partitionBounds env folds target now back =
      dayPartition env target "PT15M" now back := by
    intro back
    rw [partitionBounds_eq hds hascii, hmonth, hday]
  constructor
  · intro h
    obtain ⟨p, hp, hle, hlt⟩ := h.contains hmonth
    obtain ⟨d, hd, hstart, hstop⟩ := h.civilDay hmonth hday 0 p hp
    obtain ⟨e, he, hsplit, -⟩ := dayPartition_ok hprague hstep ((heq 0).symm.trans hp)
    obtain rfl := Except.ok.inj (hd.symm.trans he)
    rw [Nat.cast_zero, sub_zero] at hstart hstop hsplit
    refine ⟨d, hd, ⟨hstart ▸ hle, hstop ▸ hlt⟩, hsplit, ?_⟩
    intro k hk
    obtain ⟨q, hq⟩ := dayPartition_total hprague hstep hd hk
    obtain ⟨d', hd', hfirst, hnext⟩ := h.civilDay hmonth hday k q ((heq k).trans hq)
    obtain ⟨e', he', -, hspan⟩ := dayPartition_ok hprague hstep hq
    obtain rfl := Except.ok.inj (hd.symm.trans hd')
    obtain rfl := Except.ok.inj (hd.symm.trans he')
    exact ⟨hspan.start.symm.trans hfirst, hspan.stop.symm.trans hnext⟩
  · intro h
    obtain ⟨d, h⟩ := h
    have hcivil : ∀ (k : Nat) p, partitionBounds env folds target now k = .ok p →
        p.start = (env.zones target.timezone).midnight (d - k) ∧
          p.stop = (env.zones target.timezone).midnight (d - k + 1) := by
      intro k p hp
      obtain ⟨e, he, hsplit, hspan⟩ := dayPartition_ok hprague hstep ((heq k).symm.trans hp)
      obtain rfl := Except.ok.inj (h.today.symm.trans he)
      obtain ⟨hfirst, hnext⟩ := h.same k hsplit
      exact ⟨hspan.start.trans hfirst, hspan.stop.trans hnext⟩
    have hzero : d - ((0 : Nat) : Int) = d := by rw [Nat.cast_zero, sub_zero]
    constructor
    case contains =>
      intro _
      have hsplit : DaySplit (env.zones sourceTimezone) quarter (d - ((0 : Nat) : Int)) := by
        rw [hzero]
        exact h.split
      obtain ⟨p, hp⟩ := dayPartition_total hprague hstep h.today hsplit
      obtain ⟨hstart, hstop⟩ := hcivil 0 p ((heq 0).trans hp)
      rw [hzero] at hstart hstop
      exact ⟨p, (heq 0).trans hp, hstart ▸ h.inside.1, hstop ▸ h.inside.2⟩
    case contiguous =>
      intro k p q hp hq
      rw [(hcivil k p hp).1, (hcivil (k + 1) q hq).2]
      refine congrArg (env.zones target.timezone).midnight ?_
      unfold Day
      push_cast
      omega
    case civilDay =>
      intro _ _ k p hp
      exact ⟨d, h.today, hcivil k p hp⟩
    case civilMonth =>
      intro offset hoffset
      cases hmonth.symm.trans hoffset
    case expected =>
      intro k p hp resolution step hres hfinest
      obtain rfl := quarter_of_finest hds hascii hres hfinest
      obtain ⟨e, -, -, hspan⟩ := dayPartition_ok hprague hstep ((heq k).symm.trans hp)
      exact hspan.length

theorem hour_tile_iff (hmonth : monthOffset env.txt target = none)
    (hhour : contract.partition = .hour) :
    PartitionsTile env folds target contract now ↔ HourWhen env folds target now := by
  have hstep := parse_quarter hascii
  have heq : ∀ back, partitionBounds env folds target now back =
      hourPartition env folds target "PT15M" now back := by
    intro back
    rw [partitionBounds_eq hds hascii, hmonth, hhour]
  have hshift : (env.zones target.timezone).toLocal now % hour + clockShift env folds target now =
      now - fullHour env folds target now := by
    unfold clockShift
    unfold Instant Duration
    omega
  constructor
  · intro h
    obtain ⟨p, hp, hle, hlt⟩ := h.contains hmonth
    obtain ⟨rfl, hwall, hfull, hstop⟩ := hourPartition_ok hstep ((heq 0).symm.trans hp)
    rw [Nat.cast_zero, Int.zero_mul] at hle hlt hstop
    dsimp only at hle hlt hstop
    rw [sub_zero] at hle hlt hstop
    refine ⟨hwall, hfull, hstop, ?_⟩
    rw [hshift]
    unfold Instant Duration at *
    omega
  · intro h
    have hsteady := h.steady
    rw [hshift] at hsteady
    constructor
    case contains =>
      intro _
      refine ⟨_, (heq 0).trans (hourPartition_now hstep h.wall h.full h.stop), ?_⟩
      unfold Instant Duration at *
      dsimp only
      omega
    case contiguous =>
      intro k p q hp hq
      obtain ⟨rfl, -⟩ := hourPartition_ok hstep ((heq k).symm.trans hp)
      obtain ⟨rfl, -⟩ := hourPartition_ok hstep ((heq (k + 1)).symm.trans hq)
      dsimp only
      unfold Instant Duration
      push_cast
      ring
    case civilDay =>
      intro _ hday
      cases hhour.symm.trans hday
    case civilMonth =>
      intro offset hoffset
      cases hmonth.symm.trans hoffset
    case expected =>
      intro k p hp resolution step hres hfinest
      obtain rfl := quarter_of_finest hds hascii hres hfinest
      obtain ⟨rfl, -⟩ := hourPartition_ok hstep ((heq k).symm.trans hp)
      dsimp only [quarter]
      unfold hour minute second Instant Duration
      omega

end Kind

/-- The partitions of a registered target tile time in its zone exactly when the source's zone has
the same midnights, or, by the hour, when the clock was not changed since the full hour. -/
theorem partitions_tile_iff (hds : dataset target.manifest.contract.datasetId = some contract)
    (hascii : env.txt.ReadsAscii) (hprague : (env.zones sourceTimezone).Increasing) :
    PartitionsTile env folds target contract now ↔
      TilesWhen env folds target contract now := by
  unfold TilesWhen
  cases hmonth : monthOffset env.txt target with
  | some offset => exact month_tile_iff hds hascii hprague hmonth
  | none =>
    cases hkind : contract.partition with
    | day => exact day_tile_iff hds hascii hprague hmonth hkind
    | hour => exact hour_tile_iff hds hascii hmonth hkind

/-! ### A manifest of another zone -/

/-- Prague in summer, and the other zones at UTC. -/
def summerEnv : Env where
  txt := Ascii.text
  libs := DecodeLibs.refusing
  stack := .thousand
  zones tz := if tz = sourceTimezone then .fixed (2 * hour) else .utc
  sha256 := hexAddress

/-- Clocks without readings that occur twice. -/
def noFolds : String → ZoneFold := fun _ => ⟨fun _ => false, fun wall => wall⟩

/-- The market, with the zone its manifest names. -/
def marketIn (tz : String) : FreshTarget where
  manifest :=
    { oteIntradayMarket with
      mapping := { oteIntradayMarket.mapping with
        time := { oteIntradayMarket.mapping.time with timezone := tz } } }
  templates := ["{delivery_day:%Y-%m-%d}"]

/-- 2026-09-17T22:30Z. -/
def lateEvening : Instant := 20713 * day + 22 * hour + 30 * minute

theorem summer_increasing : (summerEnv.zones sourceTimezone).Increasing := by
  intro d e _ _ hlt
  change d * day - 2 * hour < e * day - 2 * hour
  unfold day hour minute second
  unfold Day at *
  omega

/-- At half past ten in the evening the day of a manifest in UTC is over by Prague's midnight. -/
theorem utc_day_misses_now :
    ¬ PartitionsTile summerEnv noFolds (marketIn "UTC") oteIdmContinuous lateEvening := by
  intro h
  obtain ⟨p, hp, -, hlt⟩ := h.contains (by decide)
  have hval : (partitionBounds summerEnv noFolds (marketIn "UTC") lateEvening 0).toOption =
      some ⟨20713 * day - 2 * hour, 20714 * day - 2 * hour, 96⟩ := by decide +kernel
  rw [hp] at hval
  obtain rfl := Option.some.inj hval
  exact absurd hlt (by decide)

theorem prague_day_tiles :
    PartitionsTile summerEnv noFolds (marketIn sourceTimezone) oteIdmContinuous lateEvening := by
  refine (partitions_tile_iff rfl (fun c _ => rfl) summer_increasing).mpr ⟨20714, ?_⟩
  refine ⟨rfl, by decide, ⟨by decide, by decide, by decide⟩, ?_⟩
  intro k _
  exact ⟨rfl, rfl⟩

end Tile

end EnergyPlatform
