import EnergyPlatform.Contracts.Manifest
import EnergyPlatform.Contracts.Ascii
import EnergyPlatform.Mapping.Targets
import EnergyPlatform.Runtime.Cron

/-!
# Runtime.Schedule

The instant a scheduled capture is for: the tick in the name of its Job, or the newest firing
instant.

`intended_instant`: inside the calendar it is a firing instant that the gap detector expects, if
there is one in two months. `intendedInstant_first_day`: on the first day of the calendar there is no
answer.
-/

namespace EnergyPlatform

/-- An aware datetime: the clock of its zone and the instant that is. -/
structure Aware where
  wall : Int
  zone : Zone
  instant : Instant

/-- The same clock reading a day before, as an instant. -/
def Aware.dayBefore (now : Aware) : Except PyError Instant := do
  let wall ← checkedInstant (now.wall - day)
  .ok (now.zone.ofLocal wall)

section Verbs

variable (txt : TextPrims) (zones : String → Zone)

/-- `-(?P<minutes>\d{6,9})$`: what follows the last hyphen. -/
def jobMinutes (name : List Char) : Option Nat :=
  if '-' ∈ name then
    match digitRun txt (name.reverse.takeWhile (· ≠ '-')).reverse with
    | (n, len, rest) => if 6 ≤ len ∧ len ≤ 9 ∧ atEnd rest then some n else none
  else none

/-- The scheduled instant a CronJob-created Job carries in its name. Nine digits of minutes end in
the year 3871. -/
def instantFromJobName (name : Option String) : Option Instant :=
  match name with
  | none => none
  | some name => (jobMinutes txt (txt.strip name).toList).map fun n => (n : Int) * minute

/-- The loop of `latest_instant`, a day at a time back from `stop`. -/
def latestFrom (zone : Zone) (expression : String) (window : Duration) : Nat → Duration → Instant →
    Except PyError (Option Instant)
  | 0, _, _ => .ok none
  | n + 1, searched, stop =>
    if searched < window then do
      let start ← checkedInstant (stop - day)
      let found ← cronInstants txt zone expression start stop
      match found.getLast? with
      | some t => .ok (some t)
      | none => latestFrom zone expression window n (searched + day) start
    else .ok none

/-- The newest firing instant at or before `now`, searched back through the window. -/
def latestInstant (zone : Zone) (expression : String) (now : Instant) (window : Duration) :
    Except PyError (Option Instant) := do
  let now ← checkedInstant now
  latestFrom txt zone expression window (window / day + 1).toNat 0 (floorMinute now)

def isFiringInstant (zone : Zone) (expression : String) (instant : Instant) : Except PyError Bool :=
  if instant % minute ≠ 0 then .ok false
  else do
    let cron ← CronExpression.parse txt expression
    let wall ← checkedInstant (zone.toLocal instant)
    .ok (cron.matchesLocal wall)

/-- The newest firing instant, else `now` floored to the minute. -/
def newestInstant (zone : Zone) (expression : String) (now : Instant) : Except PyError Instant := do
  let latest ← latestInstant txt zone expression now (62 * day)
  match latest with
  | some t => .ok t
  | none => do
    let now ← checkedInstant now
    .ok (floorMinute now)

/-- The run a capture is for. -/
def intendedInstant (m : Manifest) (now : Aware) (jobName : Option String) :
    Except PyError Instant := do
  let zone := zones m.cadence.timezone
  match instantFromJobName txt jobName with
  | none => newestInstant txt zone m.cadence.cron now.instant
  | some tick => do
    let dayBefore ← now.dayBefore
    if dayBefore ≤ tick ∧ tick ≤ now.instant then do
      let firing ← isFiringInstant txt zone m.cadence.cron tick
      if firing then .ok tick else newestInstant txt zone m.cadence.cron now.instant
    else newestInstant txt zone m.cadence.cron now.instant

example : instantFromJobName Ascii.text (some "energy-platform-capture-ceps-load-29838195") =
    some (29838195 * minute) := by decide

end Verbs

/-! ## Searching back -/

section Search

variable {txt : TextPrims} {zone : Zone} {expression : String} {cron : CronExpression}
  {window : Duration}

/-- What a search back finds: the newest firing instant up to `stop`, or none in the window. -/
def Searched (zone : Zone) (cron : CronExpression) (stop : Instant) (window : Duration) :
    Option Instant → Prop
  | some t => IsGreatest {u | Firing zone cron u ∧ u ≤ stop} t
  | none => ∀ u, Firing zone cron u → u ≤ stop → u ≤ stop - window

/-- The last of the instants of a window is the newest one. -/
theorem newest_found (hparse : CronExpression.parse txt expression = .ok cron)
    {start stop t : Instant} {found : List Instant}
    (h : cronInstants txt zone expression start stop = .ok found) (hlast : found.getLast? = some t) :
    IsGreatest {u | Firing zone cron u ∧ u ≤ stop} t := by
  obtain ⟨ys, rfl⟩ := List.getLast?_eq_some_iff.mp hlast
  have hsorted := cronInstants_sorted hparse h
  obtain ⟨⟨hstart, hstop⟩, hfiring⟩ :=
    (mem_cronInstants hparse h).mp (List.mem_append_right ys (List.mem_singleton.mpr rfl))
  refine ⟨⟨hfiring, hstop⟩, fun u ⟨hu, hle⟩ => ?_⟩
  rcases le_or_gt u start with hold | hnew
  · exact hold.trans hstart.le
  · have hmem := (mem_cronInstants hparse h).mpr ⟨⟨hnew, hle⟩, hu⟩
    rcases List.mem_append.mp hmem with hmem | hmem
    · exact ((List.pairwise_append.mp hsorted).2.2 u hmem t (List.mem_singleton.mpr rfl)).le
    · exact (List.mem_singleton.mp hmem).le

theorem none_found (hparse : CronExpression.parse txt expression = .ok cron)
    {start stop : Instant} {found : List Instant}
    (h : cronInstants txt zone expression start stop = .ok found) (hlast : found.getLast? = none)
    {u : Instant} (hu : Firing zone cron u) (hle : u ≤ stop) : u ≤ start := by
  refine not_lt.mp fun hlt => ?_
  have hmem := (mem_cronInstants hparse h).mpr ⟨⟨hlt, hle⟩, hu⟩
  rw [List.getLast?_eq_none_iff.mp hlast] at hmem
  exact absurd hmem List.not_mem_nil

theorem latestFrom_spec (hparse : CronExpression.parse txt expression = .ok cron) {n : Nat} :
    ∀ {searched : Duration} {stop : Instant} {r : Option Instant},
      window - searched ≤ n * day →
      latestFrom txt zone expression window n searched stop = .ok r →
      Searched zone cron stop (window - searched) r := by
  induction n with
  | zero =>
    intro searched stop r hn h
    obtain rfl := Except.ok.inj h
    refine fun u _ hle => hle.trans (Int.le_sub_left_of_add_le ?_)
    exact Int.add_le_of_le_neg_add (by simpa using hn)
  | succ n ih =>
    intro searched stop r hn h
    unfold latestFrom at h
    split at h
    · obtain ⟨start, hstart, h⟩ := bind_eq_ok.mp h
      obtain rfl := checkedInstant_eq hstart
      obtain ⟨found, hfound, h⟩ := bind_eq_ok.mp h
      cases hlast : found.getLast? with
      | some t =>
        rw [hlast] at h
        obtain rfl := Except.ok.inj h
        exact newest_found hparse hfound hlast
      | none =>
        rw [hlast] at h
        have hn' : window - (searched + day) ≤ n * day := by
          rw [Nat.cast_succ, Int.add_mul, Int.one_mul] at hn
          linarith
        have hrest := ih hn' h
        have hnone : ∀ u, Firing zone cron u → u ≤ stop → u ≤ stop - day :=
          fun u hu hle => none_found hparse hfound hlast hu hle
        cases r with
        | some t =>
          exact ⟨⟨hrest.1.1, hrest.1.2.trans (Int.sub_le_self _ (by decide))⟩,
            fun u hu => hrest.2 ⟨hu.1, hnone u hu.1 hu.2⟩⟩
        | none =>
          refine fun u hu hle => (hrest u hu (hnone u hu hle)).trans (le_of_eq ?_)
          ring
    · rename_i hdone
      obtain rfl := Except.ok.inj h
      refine fun u _ hle => hle.trans (Int.le_sub_left_of_add_le ?_)
      exact Int.add_le_of_le_neg_add (by simpa using not_lt.mp hdone)

theorem latestFrom_total (hparse : CronExpression.parse txt expression = .ok cron)
    (hz : zone.OffsetOk) {n : Nat} :
    ∀ (k : Nat) {stop : Instant}, datetimeMin + day ≤ stop - k * day → stop ≤ datetimeMax - day →
      ∃ r, latestFrom txt zone expression window n (window - k * day) stop = .ok r := by
  induction n with
  | zero => exact fun k stop _ _ => ⟨none, rfl⟩
  | succ n ih =>
    intro k stop hmin hmax
    unfold latestFrom
    split
    · rename_i hmore
      cases k with
      | zero => exact absurd hmore (by simp)
      | succ k =>
        rw [Nat.cast_succ, Int.add_mul, Int.one_mul] at hmin ⊢
        have hk : (0 : Int) ≤ k * day := Int.mul_nonneg (Int.natCast_nonneg k) (by decide)
        have hstop : InCalendar stop := ⟨by linarith [show (0 : Int) ≤ day by decide], hmax⟩
        have hstart : InCalendar (stop - day) :=
          ⟨by linarith, by linarith [show (0 : Int) ≤ day by decide]⟩
        obtain ⟨found, hfound⟩ := cronInstants_total hparse hz hstart hstop
        rw [hstart.checked]
        simp only [bind, Except.bind, hfound]
        cases found.getLast? with
        | some t => exact ⟨some t, rfl⟩
        | none =>
          have hsearched : window - (k * day + day) + day = window - k * day := by ring
          rw [hsearched]
          exact ih k (by linarith) hstart.2
    · exact ⟨none, rfl⟩

/-- Two months and a day from the start of the calendar, and a day before its end. -/
def WellInside (t : Instant) : Prop := datetimeMin + 63 * day ≤ t ∧ t ≤ datetimeMax - day

theorem WellInside.inCalendar {t : Instant} (h : WellInside t) : InCalendar t :=
  ⟨le_trans (by decide) h.1, h.2⟩

theorem newestInstant_spec (hparse : CronExpression.parse txt expression = .ok cron)
    (hz : zone.OffsetOk) {now : Instant} (hnow : WellInside now) :
    ∃ t, newestInstant txt zone expression now = .ok t ∧ t ≤ now ∧
      ((∃ u, Firing zone cron u ∧ now - 62 * day < u ∧ u ≤ now) →
        IsGreatest {u | Firing zone cron u ∧ u ≤ now} t) := by
  have hfloor := floorMinute_le now
  have hmin : datetimeMin + 63 * day ≤ floorMinute now := whole_le_floor (by decide) hnow.1
  obtain ⟨r, hr⟩ := @latestFrom_total _ _ _ _ (62 * day) hparse hz 63 62 _
    (le_trans (by decide) (Int.sub_le_sub_right hmin _)) (hfloor.trans hnow.2)
  have hlatest : latestInstant txt zone expression now (62 * day) = .ok r := by
    simp only [latestInstant, hnow.inCalendar.checked, bind, Except.bind]
    exact hr
  have hspec := @latestFrom_spec _ _ _ _ _ hparse 63 0 _ _ (by decide) hr
  cases r with
  | some t =>
    refine ⟨t, by simp only [newestInstant, hlatest, bind, Except.bind], ?_⟩
    refine ⟨hspec.1.2.trans hfloor, fun _ => ⟨⟨hspec.1.1, hspec.1.2.trans hfloor⟩, ?_⟩⟩
    exact fun u hu => hspec.2 ⟨hu.1, whole_le_floor hu.1.whole hu.2⟩
  | none =>
    refine ⟨floorMinute now, ?_, hfloor, ?_⟩
    · simp only [newestInstant, hlatest, hnow.inCalendar.checked, bind, Except.bind]
    · rintro ⟨u, hu, hafter, hle⟩
      have hold := hspec u hu (whole_le_floor hu.whole hle)
      exact absurd (hold.trans (Int.sub_le_sub_right hfloor _)) (not_le.mpr hafter)

end Search

/-! ## The intended instant -/

/-- The clock of an aware datetime is less than a day from UTC. -/
def Aware.OffsetOk (now : Aware) : Prop :=
  now.zone.OffsetOk ∧ now.instant - day < now.wall ∧ now.wall < now.instant + day

/-- A job name that carries a firing instant of the last day, by the clock of `now`. -/
structure Carried (txt : TextPrims) (zone : Zone) (cron : CronExpression) (now : Aware)
    (jobName : Option String) (tick : Instant) : Prop where
  named : instantFromJobName txt jobName = some tick
  recent : ∃ d, now.dayBefore = .ok d ∧ d ≤ tick
  past : tick ≤ now.instant
  firing : Firing zone cron tick

section Intended

variable {txt : TextPrims} {zone : Zone} {zones : String → Zone} {m : Manifest}
  {cron : CronExpression}

theorem dayBefore_total {now : Aware} (hnow : now.OffsetOk) (h : WellInside now.instant) :
    ∃ d, now.dayBefore = .ok d ∧ datetimeMin + day ≤ d := by
  obtain ⟨hzone, hw₁, hw₂⟩ := hnow
  obtain ⟨h₁, h₂⟩ := h
  have hback := (hzone.2 (now.wall - day)).1
  have hday : datetimeMin + day ≤ datetimeMin + 63 * day - day - day - day := by decide
  have hwall : checkedInstant (now.wall - day) = .ok (now.wall - day) :=
    checkedInstant_ok (by linarith [show (0 : Int) ≤ day by decide]) (by linarith)
  refine ⟨now.zone.ofLocal (now.wall - day), ?_, by linarith⟩
  simp only [Aware.dayBefore, hwall, bind, Except.bind]

theorem isFiringInstant_iff {expression : String} {t : Instant}
    (hparse : CronExpression.parse txt expression = .ok cron) (hz : zone.OffsetOk)
    (h : InCalendar t) : ∃ b, isFiringInstant txt zone expression t = .ok b ∧
      (b = true ↔ Firing zone cron t) := by
  unfold isFiringInstant
  split
  · rename_i hw
    exact ⟨false, rfl, ⟨nofun, fun hf => absurd hf.whole hw⟩⟩
  · rename_i hw
    have hlocal := hz.1 t
    obtain ⟨h₁, h₂⟩ := h
    have hwall : checkedInstant (zone.toLocal t) = .ok (zone.toLocal t) :=
      checkedInstant_ok (by linarith) (by linarith)
    refine ⟨cron.matchesLocal (zone.toLocal t), ?_, ⟨fun hm => ⟨not_not.mp hw, hm⟩, Firing.local_⟩⟩
    simp only [hparse, hwall, bind, Except.bind]

/-- The tick when one is carried, else the newest instant. -/
theorem intendedInstant_spec (hparse : CronExpression.parse txt m.cadence.cron = .ok cron)
    (hz : (zones m.cadence.timezone).OffsetOk) {now : Aware} (hnow : now.OffsetOk)
    (h : WellInside now.instant) (jobName : Option String) :
    (∃ tick, Carried txt (zones m.cadence.timezone) cron now jobName tick ∧
      intendedInstant txt zones m now jobName = .ok tick) ∨
    (∀ tick, ¬ Carried txt (zones m.cadence.timezone) cron now jobName tick) ∧
      intendedInstant txt zones m now jobName =
        newestInstant txt (zones m.cadence.timezone) m.cadence.cron now.instant := by
  unfold intendedInstant
  cases hname : instantFromJobName txt jobName with
  | none =>
    refine .inr ⟨fun tick hc => ?_, rfl⟩
    cases hname.symm.trans hc.named
  | some tick =>
    obtain ⟨d, hd, hmin⟩ := dayBefore_total hnow h
    simp only [hd, bind, Except.bind]
    split
    · rename_i hrecent
      obtain ⟨b, hb, hfiring⟩ := isFiringInstant_iff hparse hz
        ⟨hmin.trans hrecent.1, hrecent.2.trans h.2⟩
      rw [hb]
      cases b with
      | true => exact .inl ⟨tick, ⟨hname, ⟨d, hd, hrecent.1⟩, hrecent.2, hfiring.mp rfl⟩, rfl⟩
      | false =>
        refine .inr ⟨fun tick' hc => ?_, rfl⟩
        obtain rfl := Option.some.inj (hname.symm.trans hc.named)
        exact Bool.noConfusion (hfiring.mpr hc.firing)
    · rename_i hold
      refine .inr ⟨fun tick' hc => hold ?_, rfl⟩
      obtain rfl := Option.some.inj (hname.symm.trans hc.named)
      obtain ⟨d', hd', hle⟩ := hc.recent
      obtain rfl := Except.ok.inj (hd.symm.trans hd')
      exact ⟨hle, hc.past⟩

/-- The scheduler and the gap detector agree. Well inside the calendar, the intended instant is not
after `now`; when an instant fired in the 62 days before, it is a firing instant that the gap
detector's walk lists on every window around it: the tick of the job name if it carries one, else
the newest firing instant. The walk lists the firing instants of a window, in order, and two windows
end to end are one. -/
theorem intended_instant (hparse : CronExpression.parse txt m.cadence.cron = .ok cron)
    (hz : (zones m.cadence.timezone).OffsetOk) {now : Aware} (hnow : now.OffsetOk)
    (h : WellInside now.instant) (jobName : Option String) :
    (∃ t, intendedInstant txt zones m now jobName = .ok t ∧ t ≤ now.instant ∧
      (∀ tick, Carried txt (zones m.cadence.timezone) cron now jobName tick → t = tick) ∧
      ((∃ u, Firing (zones m.cadence.timezone) cron u ∧ now.instant - 62 * day < u ∧
          u ≤ now.instant) →
        Firing (zones m.cadence.timezone) cron t ∧
        (∀ start stop, InCalendar start → InCalendar stop → start < t → t ≤ stop →
          ∃ l, cronInstants txt (zones m.cadence.timezone) m.cadence.cron start stop = .ok l ∧
            t ∈ l) ∧
        ((∀ tick, ¬ Carried txt (zones m.cadence.timezone) cron now jobName tick) →
          IsGreatest {u | Firing (zones m.cadence.timezone) cron u ∧ u ≤ now.instant} t))) ∧
    (∀ start stop, InCalendar start → InCalendar stop →
      ∃ l, cronInstants txt (zones m.cadence.timezone) m.cadence.cron start stop = .ok l) ∧
    (∀ start stop l,
      cronInstants txt (zones m.cadence.timezone) m.cadence.cron start stop = .ok l →
        (∀ u, u ∈ l ↔ (start < u ∧ u ≤ stop) ∧ Firing (zones m.cadence.timezone) cron u) ∧
          l.Pairwise (· < ·)) ∧
    ∀ a b c, a ≤ b → b ≤ c →
      cronInstants txt (zones m.cadence.timezone) m.cadence.cron a c = (do
        let first ← cronInstants txt (zones m.cadence.timezone) m.cadence.cron a b
        let rest ← cronInstants txt (zones m.cadence.timezone) m.cadence.cron b c
        .ok (first ++ rest)) := by
  refine ⟨?_, fun start stop => cronInstants_total hparse hz,
    fun start stop l hl => ⟨fun u => mem_cronInstants hparse hl, cronInstants_sorted hparse hl⟩,
    fun a b c => cronInstants_append⟩
  have hlisted : ∀ t, Firing (zones m.cadence.timezone) cron t → ∀ start stop, InCalendar start →
      InCalendar stop → start < t → t ≤ stop →
      ∃ l, cronInstants txt (zones m.cadence.timezone) m.cadence.cron start stop = .ok l ∧
        t ∈ l := by
    intro t ht start stop hstart hstop hlt hle
    obtain ⟨l, hl⟩ := cronInstants_total hparse hz hstart hstop
    exact ⟨l, hl, (mem_cronInstants hparse hl).mpr ⟨⟨hlt, hle⟩, ht⟩⟩
  rcases intendedInstant_spec hparse hz hnow h jobName with ⟨tick, hc, ht⟩ | ⟨hnone, ht⟩
  · refine ⟨tick, ht, hc.past, fun tick' hc' => ?_, fun _ => ⟨hc.firing, hlisted tick hc.firing, ?_⟩⟩
    · exact Option.some.inj (hc.named.symm.trans hc'.named)
    · exact fun hnone => absurd hc (hnone tick)
  · obtain ⟨t, hnewest, hle, hgreatest⟩ := newestInstant_spec hparse hz h
    refine ⟨t, ht.trans hnewest, hle, fun tick hc => absurd hc (hnone tick), fun hfired => ?_⟩
    have hgreatest := hgreatest hfired
    exact ⟨hgreatest.1.1, hlisted t hgreatest.1.1, fun _ => hgreatest⟩

/-- `*/15 * * * *`. -/
def quarterHourly : CronExpression where
  minutes := CronExpression.steps 0 59 15
  hours := CronExpression.steps 0 23 1
  days := CronExpression.steps 1 31 1
  months := CronExpression.steps 1 12 1
  weekdays := (CronExpression.steps 0 7 1).map fun d => if d = 7 then 0 else d
  dayRestricted := false
  weekdayRestricted := false

theorem parse_quarterHourly :
    CronExpression.parse Ascii.text oteIntradayMarket.cadence.cron = .ok quarterHourly := by
  decide +kernel

theorem utc_offsetOk : Zone.utc.OffsetOk :=
  ⟨fun t => ⟨Int.sub_lt_self t (by decide), Int.lt_add_of_pos_right t (by decide)⟩,
    fun t => ⟨Int.sub_lt_self t (by decide), Int.lt_add_of_pos_right t (by decide)⟩⟩

/-- At noon of 29 September 2026, a Job of 11:45 that starts late. -/
theorem intended_instant_tick :
    intendedInstant Ascii.text (fun _ => .utc) oteIntradayMarket
      ⟨1790683200 * second, .utc, 1790683200 * second⟩ (some "capture-29844705") =
        .ok (29844705 * minute) := by
  have hnow : Aware.OffsetOk ⟨1790683200 * second, .utc, 1790683200 * second⟩ :=
    ⟨utc_offsetOk, by decide, by decide⟩
  obtain ⟨⟨t, ht, -, htick, -⟩, -⟩ := @intended_instant Ascii.text (fun _ => .utc)
    oteIntradayMarket quarterHourly parse_quarterHourly utc_offsetOk _ hnow
    ⟨by decide, by decide⟩ (some "capture-29844705")
  rw [ht, htick (29844705 * minute)]
  exact ⟨by decide, ⟨_, rfl, by decide⟩, by decide, by decide, by decide +kernel⟩

/-- On the first day of the calendar the search back leaves it. -/
theorem intendedInstant_first_day :
    CronExpression.parse Ascii.text oteIntradayMarket.cadence.cron = .ok quarterHourly ∧
    intendedInstant Ascii.text (fun _ => .utc) oteIntradayMarket ⟨datetimeMin, .utc, datetimeMin⟩
      none = .error outOfRange :=
  ⟨parse_quarterHourly, by decide +kernel⟩

end Intended

end EnergyPlatform
