import EnergyPlatform.Runtime.Gaps
import EnergyPlatform.Runtime.Partitions

/-!
# Runtime.Cutoff

The cutoff of `history.max_age` from one time to a later one.

* `monthsBefore_mono`: two dates that are stepped back by months stay in order.
* `cutoff_reading`: the cutoff is a reading of the source's clock, brought back to UTC.
* `cutoff_onward`: when an instant that is outside of `history.max_age` stays outside.
-/

namespace EnergyPlatform

/-! ## The length of a month -/

section Eras

variable {doe g e f y b c : Nat}

/-- The last day of a year lies before the first of the next one. -/
theorem year_end (hg : 1460 * g ≤ doe ∧ doe < 1460 * (g + 1))
    (he : 36524 * e ≤ doe ∧ doe < 36524 * (e + 1))
    (hf : f = 0 ∧ doe < 146096 ∨ f = 1 ∧ doe = 146096)
    (hy : 365 * y + g + f ≤ doe + e ∧ doe + e < 365 * (y + 1) + g + f)
    (hc : 100 * c ≤ y ∧ y < 100 * (c + 1)) (hb : 4 * b ≤ y ∧ y < 4 * (b + 1)) (hlast : y ≠ 399) :
    doe + (y + 1) / 100 < 365 * (y + 1) + (y + 1) / 4 := by
  have hcentury := century_of_era hg he hf hy hc
  obtain ⟨h₁, h₂, h₃⟩ := quad_of_era hg he hf hy hc hb
  by_cases hleap : (y + 1) % 4 = 0
  · by_cases hhundred : (y + 1) % 100 = 0
    · omega
    · omega
  · have hquad : (y + 1) / 4 = b := by omega
    have hround : y ≠ 100 * c + 99 := by omega
    have hcent : (y + 1) / 100 = c := by omega
    rw [hquad, hcent]
    by_contra hge
    have hnext : g = b + 1 := by omega
    have hb99 : b ≤ 99 := by omega
    have hr : y ≤ 4 * b + 2 := by omega
    omega

end Eras

theorem yearOfEra_end {doe : Nat} (h : doe < 146097) (hlast : yearOfEra doe ≠ 399) :
    doe + (yearOfEra doe + 1) / 100 <
      365 * (yearOfEra doe + 1) + (yearOfEra doe + 1) / 4 := by
  have hyear := yearOfEra_bounds h
  exact year_end (b := yearOfEra doe / 4) (c := yearOfEra doe / 100) (by omega) (by omega)
    (by omega) hyear (by omega) (by omega) hlast

theorem leapDays_era {era : Int} {yoe : Nat} (h : yoe < 400) :
    leapDays (yoe + era * 400) = era * 146097 + (yoe * 365 + yoe / 4 - yoe / 100 : Nat) := by
  have hera : ((yoe : Int) + era * 400) / 400 = era := by omega
  have hyoe : ((yoe : Int) + era * 400) % 400 = yoe := by omega
  unfold leapDays
  rw [hera, hyoe]
  omega

/-- A day lies in its year, which starts in March. -/
theorem dated_in_year (d : Day) : ∃ era yoe doy, Dated d era yoe doy ∧
    (d : Int) + 719468 = leapDays (yoe + era * 400) + doy ∧
      (d : Int) + 719468 < leapDays (yoe + era * 400 + 1) := by
  obtain ⟨doe, hdoe⟩ := Int.eq_ofNat_of_zero_le
    (Int.emod_nonneg (d + 719468) (by decide : (146097 : Int) ≠ 0))
  have hlt := Int.emod_lt_of_pos (d + 719468) (by decide : (0 : Int) < 146097)
  have hdated := dated_of_era hdoe
  have heq := hdated.eq
  have hyear := hdated.year
  refine ⟨_, _, _, hdated, ?_, ?_⟩
  · rw [leapDays_era hyear, heq]
    unfold Day at *
    omega
  · rw [hdoe] at hlt
    have hdm := Int.mul_ediv_add_emod (d + 719468) 146097
    by_cases hlast : yearOfEra doe = 399
    · have hnext : ((yearOfEra doe : Nat) : Int) + (d + 719468) / 146097 * 400 + 1 =
          (0 : Nat) + ((d + 719468) / 146097 + 1) * 400 := by omega
      rw [hnext, leapDays_era (by decide)]
      unfold Day at *
      omega
    · have hnext : ((yearOfEra doe : Nat) : Int) + (d + 719468) / 146097 * 400 + 1 =
          (yearOfEra doe + 1 : Nat) + (d + 719468) / 146097 * 400 := by omega
      have hend := yearOfEra_end (by omega) hlast
      rw [hnext, leapDays_era (by omega)]
      unfold Day at *
      omega

/-- The first day of a month, counted from a March. -/
theorem monthStart_march {y m : Nat} (h : m < 12) : monthStart (y * 12 + m + 2) =
    leapDays y + (153 * m + 2) / 5 - 719468 := by
  by_cases hten : m < 10
  · have hsum : (y : Int) * 12 + m + 2 = (y : Int) * 12 + (m + 2 : Nat) := by omega
    rw [hsum, monthStart_eq (by omega), if_neg (by omega)]
    unfold Day
    omega
  · have hsum : (y : Int) * 12 + m + 2 = ((y + 1 : Nat) : Int) * 12 + (m - 10 : Nat) := by omega
    rw [hsum, monthStart_eq (by omega), if_pos (by omega)]
    have hsub : ((y + 1 : Nat) : Int) - 1 = y := by omega
    rw [hsub]
    unfold Day
    omega

/-- A date is its month and the day of it. -/
theorem date_in_month {d : Day} (hd : IsDate d) : 0 ≤ monthNumber d ∧
    d = monthStart (monthNumber d) + (civilOfDay d).day - 1 ∧
      d < monthStart (monthNumber d + 1) := by
  obtain ⟨era, yoe, doy, hdated, heq, hend⟩ := dated_in_year d
  obtain ⟨hm, hle, hlt⟩ := month_of_year hdated.day
  have hyear := hdated.year
  obtain ⟨y, hy⟩ : ∃ y : Nat, (yoe : Int) + era * 400 = y := by
    refine ⟨((yoe : Int) + era * 400).toNat, (Int.toNat_of_nonneg ?_).symm⟩
    have hbase := hdated.eq
    obtain ⟨h₁, -⟩ := hd
    unfold dateMin Day at *
    omega
  rw [hy] at heq hend
  have hnumber : monthNumber d = y * 12 + ((5 * doy + 2) / 153 : Nat) + 2 := by
    unfold monthNumber
    rw [hdated.civil]
    unfold civilOfYear
    dsimp only
    split_ifs <;> omega
  have hday : (civilOfDay d).day = doy - (153 * ((5 * doy + 2) / 153) + 2) / 5 + 1 := by
    rw [hdated.civil]
    rfl
  have hdoy := hdated.day
  rw [hnumber, hday, monthStart_march (by omega)]
  refine ⟨by omega, ?_, ?_⟩
  · unfold Day at *
    omega
  · by_cases hfeb : (5 * doy + 2) / 153 = 11
    · have hnext : (y : Int) * 12 + ((5 * doy + 2) / 153 : Nat) + 2 + 1 =
          ((y + 1 : Nat) : Int) * 12 + (0 : Nat) + 2 := by omega
      rw [hnext, monthStart_march (by decide)]
      push_cast
      unfold Day at *
      omega
    · have hnext : (y : Int) * 12 + ((5 * doy + 2) / 153 : Nat) + 2 + 1 =
          (y : Int) * 12 + ((5 * doy + 2) / 153 + 1 : Nat) + 2 := by omega
      rw [hnext, monthStart_march (by omega)]
      unfold Day at *
      omega

theorem monthStart_le {m n : Int} (hm : 0 ≤ m) (h : m ≤ n) : monthStart m ≤ monthStart n := by
  induction n, h using Int.leInduction with
  | base => exact le_refl _
  | succ n hmn ih => exact ih.trans (monthStart_lt (hm.trans hmn)).le

/-- The days of a month. -/
def monthLength (n : Int) : Int := monthStart (n + 1) - monthStart n

theorem monthLength_pos {n : Int} (h : 0 ≤ n) : 0 < monthLength n := by
  have := monthStart_lt h
  unfold monthLength Day at *
  omega

theorem monthNumber_mono {d e : Day} (hd : IsDate d) (he : IsDate e) (h : d ≤ e) :
    monthNumber d ≤ monthNumber e := by
  by_contra hlt
  obtain ⟨-, hd, -⟩ := date_in_month hd
  obtain ⟨hzero, -, he⟩ := date_in_month he
  have hle := monthStart_le (by omega) (by omega : monthNumber e + 1 ≤ monthNumber d)
  have hday : 1 ≤ (civilOfDay d).day := Nat.le_add_left 1 _
  unfold Day at *
  omega

theorem monthNumber_eq {d : Day} {n : Int} (hd : IsDate d) (hn : 0 ≤ n)
    (h₁ : monthStart n ≤ d) (h₂ : d < monthStart (n + 1)) : monthNumber d = n := by
  obtain ⟨hzero, hstart, hend⟩ := date_in_month hd
  have hday : 1 ≤ (civilOfDay d).day := Nat.le_add_left 1 _
  rcases lt_trichotomy (monthNumber d) n with hlt | heq | hgt
  · have := monthStart_le (by omega) (by omega : monthNumber d + 1 ≤ n)
    unfold Day at *
    omega
  · exact heq
  · have := monthStart_le (by omega) (by omega : n + 1 ≤ monthNumber d)
    unfold Day at *
    omega

theorem daysInMonth_ok {n : Int} {length : Nat}
    (h : daysInMonth (n / 12) ((n % 12).toNat + 1) = .ok length) :
    11 ≤ n ∧ (length : Int) = monthLength n := by
  unfold daysInMonth at h
  obtain ⟨next, hnext, h⟩ := bind_eq_ok.mp h
  obtain ⟨last, hlast, h⟩ := bind_eq_ok.mp h
  obtain ⟨⟨hyear, -⟩, hnext⟩ := civilDatetime_ok.mp hnext
  have hindex : n / 12 + (((n % 12).toNat + 1) / 12 : Nat) = (n + 1) / 12 := by omega
  have hmonth : ((n % 12).toNat + 1) % 12 + 1 = ((n + 1) % 12 + 1).toNat := by omega
  rw [hindex] at hyear
  rw [hindex, hmonth] at hnext
  have hn : 11 ≤ n := by omega
  have hstart : monthStart (n + 1) = next := hnext
  have hdate := checkedDay_isDate hlast
  obtain rfl := checkedDay_eq hlast
  have hlt := monthStart_lt (by omega : 0 ≤ n)
  have hmn : monthNumber (next - 1) = n := by
    refine monthNumber_eq hdate (by omega) ?_ ?_ <;>
    · rw [← hstart] at *
      unfold Day at *
      omega
  have hday := (date_in_month hdate).2.1
  rw [hmn] at hday
  cases h
  refine ⟨hn, ?_⟩
  unfold monthLength
  rw [hstart]
  unfold Day at *
  omega

theorem dayOfCivil_add (year month dayOfMonth : Nat) :
    Ascii.dayOfCivil year month dayOfMonth = Ascii.dayOfCivil year month 1 + dayOfMonth - 1 := by
  unfold Ascii.dayOfCivil Day
  dsimp only
  omega

/-! ## Months back -/

/-- A date so many months before: its day, or the last one of the month. -/
def monthsBefore (d : Day) (months : Nat) : Day :=
  monthStart (monthNumber d - months) +
    min ((civilOfDay d).day : Int) (monthLength (monthNumber d - months)) - 1

theorem monthsBack_ok {wall shifted : Int} {months : Nat}
    (h : monthsBack wall months = .ok shifted) :
    12 ≤ monthNumber (dayOf wall) - months ∧
      shifted = monthsBefore (dayOf wall) months * day + wall % day := by
  unfold monthsBack at h
  change (daysInMonth ((monthNumber (dayOf wall) - months) / 12)
    (((monthNumber (dayOf wall) - months) % 12).toNat + 1) >>= _) = _ at h
  obtain ⟨length, hlength, h⟩ := bind_eq_ok.mp h
  obtain ⟨date, hdate, h⟩ := bind_eq_ok.mp h
  obtain ⟨hn, hlength⟩ := daysInMonth_ok hlength
  change civilDatetime ((monthNumber (dayOf wall) - months) / 12)
    (((monthNumber (dayOf wall) - months) % 12).toNat + 1)
    (min (civilOfDay (dayOf wall)).day length) = _ at hdate
  obtain ⟨⟨hyear, -⟩, hdate⟩ := civilDatetime_ok.mp hdate
  cases h
  refine ⟨by omega, ?_⟩
  unfold monthsBefore
  rw [← hlength, ← hdate, dayOfCivil_add]
  have hmonth : ((monthNumber (dayOf wall) - months) % 12).toNat + 1 =
      ((monthNumber (dayOf wall) - months) % 12 + 1).toNat := by omega
  rw [hmonth]
  unfold monthStart
  push_cast
  rfl

section Before

variable {d e : Day} {months : Nat}

theorem monthsBefore_zero (hd : IsDate d) : monthsBefore d 0 = d := by
  obtain ⟨-, hstart, hend⟩ := date_in_month hd
  have hzero : monthNumber d - (0 : Nat) = monthNumber d := by omega
  unfold monthsBefore
  rw [hzero, min_eq_left]
  · exact hstart.symm
  · unfold monthLength Day at *
    omega

theorem monthsBefore_in_month (hn : 0 ≤ monthNumber d - months) :
    monthStart (monthNumber d - months) ≤ monthsBefore d months ∧
      monthsBefore d months < monthStart (monthNumber d - months + 1) := by
  have hday : 1 ≤ (civilOfDay d).day := Nat.le_add_left 1 _
  have hpos := monthLength_pos hn
  unfold monthsBefore monthLength Day at *
  omega

/-- A month back is a day back at least. -/
theorem monthsBefore_lt (hd : IsDate d) (hn : 0 ≤ monthNumber d - months) (hm : 0 < months) :
    monthsBefore d months < d := by
  obtain ⟨-, hstart, -⟩ := date_in_month hd
  have hday : 1 ≤ (civilOfDay d).day := Nat.le_add_left 1 _
  have hlt := (monthsBefore_in_month hn).2
  have hle := monthStart_le (by omega) (by omega : monthNumber d - months + 1 ≤ monthNumber d)
  unfold Day at *
  omega

theorem monthsBefore_mono (hd : IsDate d) (he : IsDate e) (hn : 0 ≤ monthNumber d - months)
    (h : d ≤ e) : monthsBefore d months ≤ monthsBefore e months := by
  rcases (monthNumber_mono hd he h).lt_or_eq with hlt | heq
  · have hin := (monthsBefore_in_month hn).2
    have hfrom := (@monthsBefore_in_month e months (by omega)).1
    have hle := monthStart_le (by omega)
      (by omega : monthNumber d - months + 1 ≤ monthNumber e - months)
    unfold Day at *
    omega
  · have hdays := (date_in_month hd).2.1
    have hdaye := (date_in_month he).2.1
    unfold monthsBefore
    rw [heq] at *
    unfold Day at *
    omega

end Before

/-! ## The reading -/

/-- What the steps over the calendar and the exact rest of a `max_age` are. -/
structure Age where
  months : Nat
  days : Nat
  exact_ : Duration

/-- The steps that a `max_age` other than `none` asks for. -/
def ageOf (txt : TextPrims) (maxAge : String) : Except PyError Age :=
  match if maxAge = "P" ∨ maxAge = "PT" then none else matchMaxAge txt maxAge.toList with
  | none => .error (.valueError
      ("history.max_age is not an ISO 8601 duration: " ++ txt.repr maxAge))
  | some g => do
    let years ← groupValue g.years
    let months ← groupValue g.months
    let weeks ← groupValue g.weeks
    let days ← groupValue g.days
    let hours ← groupValue g.hours
    let minutes ← groupValue g.minutes
    .ok ⟨years * 12 + months, weeks * 7 + days, hours * hour + minutes * minute⟩

/-- The reading of the source's clock that a reading is stepped back to. -/
def Age.reading (age : Age) (wall : Int) : Int :=
  monthsBefore (dayOf wall) age.months * day + wall % day - age.days * day

theorem checkedDelta_eq {d e : Duration} (h : checkedDelta d = .ok e) : e = d := by
  unfold checkedDelta at h
  split at h
  · exact (Except.ok.inj h).symm
  · cases h

section Reading

variable {txt : TextPrims} {zone : Zone} {now : Instant} {maxAge : String} {age : Age}

theorem ageOf_exact (h : ageOf txt maxAge = .ok age) : 0 ≤ age.exact_ := by
  unfold ageOf at h
  split at h
  · cases h
  · obtain ⟨years, -, h⟩ := bind_eq_ok.mp h
    obtain ⟨months, -, h⟩ := bind_eq_ok.mp h
    obtain ⟨weeks, -, h⟩ := bind_eq_ok.mp h
    obtain ⟨days, -, h⟩ := bind_eq_ok.mp h
    obtain ⟨hours, -, h⟩ := bind_eq_ok.mp h
    obtain ⟨minutes, -, h⟩ := bind_eq_ok.mp h
    cases h
    unfold hour minute second Duration
    dsimp only
    omega

/-- The cutoff is a reading of the source's clock, brought back to UTC. -/
theorem cutoff_reading {cut : Instant} (h : maxAgeCutoff txt zone now maxAge = .ok (some cut)) :
    ∃ age, ageOf txt maxAge = .ok age ∧ IsDate (dayOf (zone.toLocal now)) ∧
      0 ≤ monthNumber (dayOf (zone.toLocal now)) - age.months ∧
      cut = zone.ofLocal (age.reading (zone.toLocal now)) - age.exact_ := by
  unfold maxAgeCutoff at h
  split at h
  · cases h
  · unfold ageOf
    cases hmatch : (if maxAge = "P" ∨ maxAge = "PT" then none
        else matchMaxAge txt maxAge.toList) with
    | none =>
      rw [hmatch] at h
      cases h
    | some g =>
      rw [hmatch] at h
      obtain ⟨years, hyears, h⟩ := bind_eq_ok.mp h
      obtain ⟨months, hmonths, h⟩ := bind_eq_ok.mp h
      obtain ⟨weeks, hweeks, h⟩ := bind_eq_ok.mp h
      obtain ⟨days, hdays, h⟩ := bind_eq_ok.mp h
      obtain ⟨hours, hhours, h⟩ := bind_eq_ok.mp h
      obtain ⟨minutes, hminutes, h⟩ := bind_eq_ok.mp h
      obtain ⟨wall, hwall, h⟩ := bind_eq_ok.mp h
      obtain ⟨shifted, hshifted, h⟩ := bind_eq_ok.mp h
      obtain ⟨delta, hdelta, h⟩ := bind_eq_ok.mp h
      obtain ⟨reading, hreading, h⟩ := bind_eq_ok.mp h
      obtain ⟨exact_, hexact, h⟩ := bind_eq_ok.mp h
      obtain ⟨instant, hinstant, h⟩ := bind_eq_ok.mp h
      obtain ⟨cut', hcut, h⟩ := bind_eq_ok.mp h
      cases h
      obtain rfl := checkedInstant_eq hwall
      obtain ⟨hn, rfl⟩ := monthsBack_ok hshifted
      obtain rfl := checkedDelta_eq hdelta
      obtain rfl := checkedInstant_eq hreading
      obtain rfl := checkedDelta_eq hexact
      obtain rfl := checkedInstant_eq hinstant
      obtain rfl := checkedInstant_eq hcut
      refine ⟨⟨years * 12 + months, weeks * 7 + days, hours * hour + minutes * minute⟩, ?_,
        day_bounds (checkedInstant_range hwall), by dsimp only; omega, rfl⟩
      simp only [hyears, hmonths, hweeks, hdays, hhours, hminutes]
      rfl

end Reading

/-! ## Onward -/

/-- What a zone of the tz database promises of the readings of its clock: a reading is brought back
to the first instant that shows it, a clock is changed by a day at most, readings that the clock has
shown come back in their order, and so do those that one change of the clock skips. What a skipped
reading is brought back to is the first instant to show its own reading. -/
structure Zone.Clock (zone : Zone) : Prop where
  first : ∀ t, zone.ofLocal (zone.toLocal t) ≤ t
  behind : ∀ wall t, wall + day ≤ zone.toLocal t → zone.ofLocal wall ≤ t
  ordered : ∀ wall later, wall ≤ later → zone.toLocal (zone.ofLocal wall) = wall →
    zone.ofLocal wall ≤ zone.ofLocal later
  gap : ∀ wall later, wall ≤ later →
    (∀ r, wall ≤ r → r ≤ later → zone.toLocal (zone.ofLocal r) ≠ r) →
    zone.ofLocal wall ≤ zone.ofLocal later
  settled : ∀ wall, zone.ofLocal (zone.toLocal (zone.ofLocal wall)) = zone.ofLocal wall

/-- From one time to a later one the clock was not set back; two dates that are stepped back to one
are reached in the order of their times of day; and when the first is stepped back into a gap of the
clock and the second is past it, it is as far past as the instant that the first is brought to. -/
structure Age.Onward (age : Age) (zone : Zone) (n₁ n₂ : Instant) : Prop where
  clock : zone.toLocal n₁ ≤ zone.toLocal n₂
  apart : dayOf (zone.toLocal n₁) < dayOf (zone.toLocal n₂) →
    monthsBefore (dayOf (zone.toLocal n₁)) age.months =
      monthsBefore (dayOf (zone.toLocal n₂)) age.months →
    zone.toLocal n₁ % day ≤ zone.toLocal n₂ % day
  past : ∀ r, age.reading (zone.toLocal n₁) ≤ r → r ≤ age.reading (zone.toLocal n₂) →
    zone.toLocal (zone.ofLocal r) = r →
    zone.toLocal (zone.ofLocal (age.reading (zone.toLocal n₁))) ≤ age.reading (zone.toLocal n₂)

section Onward

variable {txt : TextPrims} {zone : Zone} {maxAge : String} {age : Age}

theorem reading_back {wall : Int} (hd : IsDate (dayOf wall))
    (hn : 0 ≤ monthNumber (dayOf wall) - age.months) :
    age.reading wall = wall ∨ age.reading wall + day ≤ wall := by
  have hsplit := Int.mul_ediv_add_emod wall day
  have hday : (0 : Int) < day := by decide
  unfold Age.reading
  by_cases hm : age.months = 0
  · rw [hm, monthsBefore_zero hd]
    by_cases hdays : age.days = 0
    · left
      rw [hdays, dayOf, Int.mul_comm]
      simpa using hsplit
    · right
      have : 1 * day ≤ (age.days : Int) * day :=
        Int.mul_le_mul_of_nonneg_right (by omega) hday.le
      rw [dayOf, Int.mul_comm]
      unfold Duration at *
      omega
  · right
    have hlt := monthsBefore_lt hd hn (Nat.pos_of_ne_zero hm)
    have hback : (monthsBefore (dayOf wall) age.months + 1) * day ≤ dayOf wall * day :=
      Int.mul_le_mul_of_nonneg_right hlt hday.le
    have hzero : 0 ≤ (age.days : Int) * day := Int.mul_nonneg (by omega) hday.le
    rw [Int.add_mul, Int.one_mul] at hback
    have hwall : dayOf wall * day = day * (wall / day) := Int.mul_comm _ _
    unfold Duration Day at *
    omega

theorem reading_mono {wall later : Int} (hd : IsDate (dayOf wall)) (hl : IsDate (dayOf later))
    (hn : 0 ≤ monthNumber (dayOf wall) - age.months) (hle : wall ≤ later)
    (hapart : dayOf wall < dayOf later →
      monthsBefore (dayOf wall) age.months = monthsBefore (dayOf later) age.months →
      wall % day ≤ later % day) : age.reading wall ≤ age.reading later := by
  have hday : (0 : Int) < day := by decide
  have hdays : dayOf wall ≤ dayOf later := Int.ediv_le_ediv hday hle
  unfold Age.reading
  rcases (monthsBefore_mono hd hl hn hdays).lt_or_eq with hlt | heq
  · have hstep : (monthsBefore (dayOf wall) age.months + 1) * day ≤
        monthsBefore (dayOf later) age.months * day :=
      Int.mul_le_mul_of_nonneg_right hlt hday.le
    rw [Int.add_mul, Int.one_mul] at hstep
    have h₁ := Int.emod_lt_of_pos wall hday
    have h₂ := Int.emod_nonneg later hday.ne'
    unfold Duration Day at *
    omega
  · rcases hdays.lt_or_eq with hbefore | hsame
    · have := hapart hbefore heq
      rw [heq]
      unfold Duration at *
      omega
    · have h₁ := Int.mul_ediv_add_emod wall day
      have h₂ := Int.mul_ediv_add_emod later day
      have hq : wall / day = later / day := hsame
      rw [hq] at h₁
      rw [heq]
      unfold Duration at *
      omega

theorem cutoff_none {now : Instant} (h : maxAgeCutoff txt zone now maxAge = .ok none) :
    maxAge = "none" := by
  by_contra hne
  unfold maxAgeCutoff at h
  rw [if_neg hne] at h
  split at h
  · cases h
  · obtain ⟨years, -, h⟩ := bind_eq_ok.mp h
    obtain ⟨months, -, h⟩ := bind_eq_ok.mp h
    obtain ⟨weeks, -, h⟩ := bind_eq_ok.mp h
    obtain ⟨days, -, h⟩ := bind_eq_ok.mp h
    obtain ⟨hours, -, h⟩ := bind_eq_ok.mp h
    obtain ⟨minutes, -, h⟩ := bind_eq_ok.mp h
    obtain ⟨wall, -, h⟩ := bind_eq_ok.mp h
    obtain ⟨shifted, -, h⟩ := bind_eq_ok.mp h
    obtain ⟨delta, -, h⟩ := bind_eq_ok.mp h
    obtain ⟨reading, -, h⟩ := bind_eq_ok.mp h
    obtain ⟨exact_, -, h⟩ := bind_eq_ok.mp h
    obtain ⟨instant, -, h⟩ := bind_eq_ok.mp h
    obtain ⟨cut, -, h⟩ := bind_eq_ok.mp h
    cases h

theorem cutoff_le (hzone : zone.Clock) {now c : Instant}
    (h : maxAgeCutoff txt zone now maxAge = .ok (some c)) : c ≤ now := by
  obtain ⟨age, hage, hd, hn, rfl⟩ := cutoff_reading h
  have hexact := ageOf_exact hage
  have hle : zone.ofLocal (age.reading (zone.toLocal now)) ≤ now := by
    rcases reading_back hd hn with heq | hlt
    · rw [heq]
      exact hzone.first now
    · exact hzone.behind _ _ hlt
  unfold Instant Duration at *
  omega

/-- Two readings come back in their order, unless the later one is past a gap that the first is in,
and less far past it than what the first is brought to. -/
theorem ofLocal_mono (hzone : zone.Clock) {wall later : Int} (hle : wall ≤ later)
    (hpast : ∀ r, wall ≤ r → r ≤ later → zone.toLocal (zone.ofLocal r) = r →
      zone.toLocal (zone.ofLocal wall) ≤ later) : zone.ofLocal wall ≤ zone.ofLocal later := by
  by_cases hshown : ∃ r, wall ≤ r ∧ r ≤ later ∧ zone.toLocal (zone.ofLocal r) = r
  · obtain ⟨r, hwall, hlater, hr⟩ := hshown
    have hsettled := hzone.settled wall
    have hordered := hzone.ordered _ _ (hpast r hwall hlater hr) (congrArg zone.toLocal hsettled)
    rwa [hsettled] at hordered
  · exact hzone.gap _ _ hle fun r hwall hlater hr => hshown ⟨r, hwall, hlater, hr⟩

/-- Past a gap, and less far past it than what the first reading is brought to: the later reading
does come back to an earlier instant. -/
theorem ofLocal_lt (hzone : zone.Clock) {wall later : Int}
    (hshown : zone.toLocal (zone.ofLocal later) = later)
    (hnear : later < zone.toLocal (zone.ofLocal wall)) :
    zone.ofLocal later < zone.ofLocal wall := by
  have hle := hzone.ordered _ _ hnear.le hshown
  rw [hzone.settled wall] at hle
  refine lt_of_le_of_ne hle ?_
  intro heq
  rw [heq] at hshown
  exact hnear.ne hshown.symm

theorem cutoff_mono (hzone : zone.Clock) {n₁ n₂ c₁ c₂ : Instant}
    (h₁ : maxAgeCutoff txt zone n₁ maxAge = .ok (some c₁))
    (h₂ : maxAgeCutoff txt zone n₂ maxAge = .ok (some c₂))
    (honward : ∀ age, ageOf txt maxAge = .ok age → age.Onward zone n₁ n₂) : c₁ ≤ c₂ := by
  obtain ⟨age, hage, hd, hn, rfl⟩ := cutoff_reading h₁
  obtain ⟨age', hage', hl, -, rfl⟩ := cutoff_reading h₂
  cases hage.symm.trans hage'
  obtain ⟨hclock, hapart, hpast⟩ := honward age hage
  have hreading := reading_mono hd hl hn hclock hapart
  exact Int.sub_le_sub_right (ofLocal_mono hzone hreading hpast) _

/-- Where the second time is stepped back past a gap, but not far enough, the cutoff moves back. -/
theorem cutoff_back (hzone : zone.Clock) {n₁ n₂ c₁ c₂ : Instant}
    (h₁ : maxAgeCutoff txt zone n₁ maxAge = .ok (some c₁))
    (h₂ : maxAgeCutoff txt zone n₂ maxAge = .ok (some c₂)) (hage : ageOf txt maxAge = .ok age)
    (hshown : zone.toLocal (zone.ofLocal (age.reading (zone.toLocal n₂))) =
      age.reading (zone.toLocal n₂))
    (hnear : age.reading (zone.toLocal n₂) <
      zone.toLocal (zone.ofLocal (age.reading (zone.toLocal n₁)))) : c₂ < c₁ := by
  obtain ⟨age₁, hage₁, -, -, rfl⟩ := cutoff_reading h₁
  obtain ⟨age₂, hage₂, -, -, rfl⟩ := cutoff_reading h₂
  cases hage.symm.trans hage₁
  cases hage.symm.trans hage₂
  exact Int.sub_lt_sub_right (ofLocal_lt hzone hshown hnear) _

/-- The cutoff lies in the past, and an instant outside of `history.max_age` stays outside. -/
theorem cutoff_onward (hzone : zone.Clock) {n₁ n₂ : Instant} {cut₁ cut₂ : Option Instant}
    (h₁ : maxAgeCutoff txt zone n₁ maxAge = .ok cut₁)
    (h₂ : maxAgeCutoff txt zone n₂ maxAge = .ok cut₂) :
    (∀ c ∈ cut₁, c ≤ n₁) ∧
      ((∀ age, ageOf txt maxAge = .ok age → age.Onward zone n₁ n₂) →
        (∀ c₁ ∈ cut₁, ∀ c₂ ∈ cut₂, c₁ ≤ c₂) ∧
        ∀ t, (cut₁.any fun c => c ≤ t) = false → (cut₂.any fun c => c ≤ t) = false) := by
  cases cut₁ with
  | none =>
    rw [maxAgeCutoff, if_pos (cutoff_none h₁)] at h₂
    cases h₂
    exact ⟨(fun _ h => nomatch h), fun _ => ⟨(fun _ h => nomatch h), fun _ h => h⟩⟩
  | some c₁ =>
    refine ⟨fun c hc => ?_, fun honward => ⟨fun c hc c₂ hc₂ => ?_, fun t hout => ?_⟩⟩
    · cases hc
      exact cutoff_le hzone h₁
    · cases hc
      cases hc₂
      exact cutoff_mono hzone h₁ h₂ honward
    · cases cut₂ with
      | none => rfl
      | some c₂ =>
        have hle := cutoff_mono hzone h₁ h₂ honward
        simp only [Option.any_some, decide_eq_false_iff_not] at hout ⊢
        exact fun h => hout (hle.trans h)

end Onward

/-! ## A zone with summer time -/

/-- 2026-03-29T01:00Z, when summer time starts. -/
def summerStart : Instant := 20541 * day + hour

/-- 2026-10-25T01:00Z, when it ends. -/
def summerEnd : Instant := 20751 * day + hour

/-- An hour ahead of UTC, and two in summer. -/
def summerZone : Zone where
  toLocal t := if summerStart ≤ t ∧ t < summerEnd then t + 2 * hour else t + hour
  ofLocal wall := if summerStart + 2 * hour ≤ wall ∧ wall < summerEnd + 2 * hour
    then wall - 2 * hour else wall - hour

theorem summerZone_clock : summerZone.Clock := by
  constructor
  case gap =>
    intro wall later hle hskipped
    have hlater := hskipped later hle le_rfl
    revert hlater
    unfold summerZone summerStart summerEnd day hour minute second Instant Duration at *
    dsimp only at *
    split_ifs <;> omega
  all_goals
    intros
    unfold summerZone summerStart summerEnd day hour minute second Instant Duration at *
    dsimp only at *
    split_ifs at * <;> omega

/-- A day of history on 30 March: at 02:30 it goes back into the hour that the clock skipped, at
05:00 past it. -/
theorem skipped_onward :
    maxAgeCutoff Ascii.text summerZone (20542 * day + 30 * minute) "P1D" =
        .ok (some (20541 * day + 90 * minute)) ∧
      maxAgeCutoff Ascii.text summerZone (20542 * day + 3 * hour) "P1D" =
        .ok (some (20541 * day + 3 * hour)) ∧
      (20541 * day + 90 * minute : Instant) ≤ 20541 * day + 3 * hour := by
  have h₁ : maxAgeCutoff Ascii.text summerZone (20542 * day + 30 * minute) "P1D" =
      .ok (some (20541 * day + 90 * minute)) := by decide +kernel
  have h₂ : maxAgeCutoff Ascii.text summerZone (20542 * day + 3 * hour) "P1D" =
      .ok (some (20541 * day + 3 * hour)) := by decide +kernel
  have hage : ageOf Ascii.text "P1D" = .ok ⟨0, 1, 0⟩ := rfl
  have honward : ∀ age, ageOf Ascii.text "P1D" = .ok age →
      age.Onward summerZone (20542 * day + 30 * minute) (20542 * day + 3 * hour) := by
    intro age h
    cases hage.symm.trans h
    exact ⟨by decide +kernel, by decide +kernel, fun _ _ _ _ => by decide +kernel⟩
  exact ⟨h₁, h₂, ((cutoff_onward summerZone_clock h₁ h₂).2 honward).1 _ rfl _ rfl⟩

/-- From 30 to 31 March a month of history ends an hour earlier on 28 February; in the hour that
the clock repeats, and after the hour that it skips, a day of history does. -/
theorem cutoff_moves_back :
    (∃ n₁ n₂ c₁ c₂, n₁ ≤ n₂ ∧ c₂ < c₁ ∧
      maxAgeCutoff Ascii.text Zone.utc n₁ "P1M" = .ok (some c₁) ∧
      maxAgeCutoff Ascii.text Zone.utc n₂ "P1M" = .ok (some c₂)) ∧
    (∃ n₁ n₂ c₁ c₂, n₁ ≤ n₂ ∧ c₂ < c₁ ∧
      maxAgeCutoff Ascii.text summerZone n₁ "P1D" = .ok (some c₁) ∧
      maxAgeCutoff Ascii.text summerZone n₂ "P1D" = .ok (some c₂) ∧
      summerZone.toLocal n₂ < summerZone.toLocal n₁) ∧
    ∃ n₁ n₂ c₁ c₂, n₁ ≤ n₂ ∧ c₂ < c₁ ∧
      maxAgeCutoff Ascii.text summerZone n₁ "P1D" = .ok (some c₁) ∧
      maxAgeCutoff Ascii.text summerZone n₂ "P1D" = .ok (some c₂) ∧
      summerZone.toLocal n₁ ≤ summerZone.toLocal n₂ := by
  refine ⟨⟨20542 * day + 10 * hour, 20543 * day + 9 * hour, 20512 * day + 10 * hour,
      20512 * day + 9 * hour, by decide, by decide, by decide +kernel, by decide +kernel⟩,
    ⟨20751 * day + 30 * minute, 20751 * day + 70 * minute, 20750 * day + 30 * minute,
      20750 * day + 10 * minute, by decide, by decide, by decide +kernel, by decide +kernel,
      by decide⟩,
    ⟨20542 * day + 30 * minute, 20542 * day + 70 * minute, 20541 * day + 90 * minute,
      20541 * day + 70 * minute, by decide, by decide, by decide +kernel, by decide +kernel,
      by decide⟩⟩

end EnergyPlatform
