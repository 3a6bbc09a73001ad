import EnergyPlatform.Contracts.Observation

/-!
# Contracts.Intervals

Delivery intervals: durations, the intervals of a civil day, and the interval a period index or a
timestamp names.

`intervalForIndex_within`: an interval named by a period index starts within the civil day it is
asked for.
-/

namespace EnergyPlatform

inductive IntervalLabel where
  | start
  | stop
deriving DecidableEq, Repr

/-- A positive length of time. -/
abbrev Step := {d : Duration // 0 < d}

/-- `timedelta.max` in days. -/
def timedeltaMaxDays : Nat := 999999999

section Duration

variable (txt : TextPrims)

/-- `int` of a run of digits: more than 4300 of them are refused. -/
def intOfRun (n len : Nat) : Except PyError Nat :=
  if len ≤ 4300 then .ok n
  else .error (.valueError "Exceeds the limit (4300 digits) for integer string conversion")

/-- One optional group `(?:(\d+)U)?` of the duration pattern: the digits read and the rest. -/
def unitGroup (unit : Char) (cs : List Char) : Option (Nat × Nat) × List Char :=
  match digitRun txt cs with
  | (n, len, c :: rest) => if len ≠ 0 ∧ c = unit then (some (n, len), rest) else (none, cs)
  | (_, _, []) => (none, cs)

/-- The rest of a match: `$` also stands before a final newline. -/
def atEnd : List Char → Bool
  | [] => true
  | ['\n'] => true
  | _ => false

/-- `_DURATION`: the digits of days, hours and minutes. -/
def matchDuration (text : List Char) :
    Option (Option (Nat × Nat) × Option (Nat × Nat) × Option (Nat × Nat)) :=
  match text with
  | 'P' :: rest =>
    match unitGroup txt 'D' rest with
    | (days, 'T' :: rest) =>
      let (hours, rest) := unitGroup txt 'H' rest
      let (minutes, rest) := unitGroup txt 'M' rest
      if atEnd rest then some (days, hours, minutes) else none
    | (days, rest) => if atEnd rest then some (days, none, none) else none
  | _ => none

def groupValue : Option (Nat × Nat) → Except PyError Nat
  | none => .ok 0
  | some (n, len) => intOfRun n len

/-- The subset of ISO 8601 durations a source can declare: `PnD`, `PTnH`, `PTnM`. -/
def parseDuration (text : String) : Except PyError Step :=
  match if text = "P" ∨ text = "PT" then none else matchDuration txt text.toList with
  | none => .error (.valueError ("unsupported ISO 8601 duration " ++ txt.repr text ++
      " (expected PnD / PTnH / PTnM)"))
  | some (days, hours, minutes) => do
    let days ← groupValue days
    let hours ← groupValue hours
    let minutes ← groupValue minutes
    let td : Duration := days * day + hours * hour + minutes * minute
    if (timedeltaMaxDays : Int) < td / day then
      .error (.overflowError "days must have magnitude <= 999999999")
    else if h : 0 < td then .ok ⟨td, h⟩
    else .error (.valueError ("duration must be positive: " ++ txt.repr text))

end Duration

def localMidnight (zone : Zone) (d : Day) : Except PyError Instant := checkedInstant (zone.midnight d)

/-- `DeliveryInterval(start + i * step, start + (i + 1) * step)`. -/
def nthInterval (start : Instant) (step : Step) (i : Nat) : DeliveryInterval :=
  ⟨start + i * step.val, start + (i + 1) * step.val, by
    have hpos : (0 : Int) < step.val := step.property
    rw [Int.add_mul, Int.one_mul]
    exact Int.add_lt_add_left (Int.lt_add_of_pos_right _ hpos) start⟩

/-- Every interval of one length in a civil day, from local midnight to the next. -/
def localDayIntervals (txt : TextPrims) (zone : Zone) (tz : String) (localDate : Day)
    (resolution : String) : Except PyError (List DeliveryInterval) := do
  let step ← parseDuration txt resolution
  let start ← localMidnight zone localDate
  let tomorrow ← checkedDay (localDate + 1)
  let stop ← localMidnight zone tomorrow
  let span := stop - start
  if span % step.val ≠ 0 then
    .error (.valueError (resolution ++ " does not tile the local day " ++ isoDate localDate ++
      " in " ++ tz))
  else
    .ok ((List.range (span / step.val).toNat).map (nthInterval start step))

/-- The interval of a 1-based period index. -/
def intervalForIndex (txt : TextPrims) (zone : Zone) (tz : String) (localDate : Day)
    (periodIndex : Int) (resolution : String) : Except PyError DeliveryInterval := do
  let intervals ← localDayIntervals txt zone tz localDate resolution
  let outside : PyError := .indexError ("period_index " ++ toString periodIndex ++ " outside 1.." ++
    toString intervals.length ++ " for " ++ isoDate localDate ++ " @ " ++ resolution)
  if 1 ≤ periodIndex ∧ periodIndex ≤ intervals.length then
    match intervals[(periodIndex - 1).toNat]? with
    | some interval => .ok interval
    | none => .error outside
  else .error outside

/-- The interval whose start or end a timestamp labels. -/
def intervalFromTimestamp (txt : TextPrims) (ts : Instant) (resolution : String)
    (label : IntervalLabel) : Except PyError DeliveryInterval := do
  let instant ← checkedInstant ts
  let step ← parseDuration txt resolution
  match label with
  | .start =>
    let stop ← checkedInstant (instant + step.val)
    if h : instant < stop then .ok ⟨instant, stop, h⟩
    else .error (.valueError "delivery interval needs start < end")
  | .stop =>
    let start ← checkedInstant (instant - step.val)
    if h : start < instant then .ok ⟨start, instant, h⟩
    else .error (.valueError "delivery interval needs start < end")

variable {txt : TextPrims} {zone : Zone} {tz : String}

theorem checkedInstant_eq {t u : Instant} (h : checkedInstant t = .ok u) : u = t := by
  unfold checkedInstant at h
  split at h
  · exact (Except.ok.inj h).symm
  · cases h

theorem checkedInstant_ok {t : Instant} (h₁ : datetimeMin ≤ t) (h₂ : t ≤ datetimeMax) :
    checkedInstant t = .ok t := if_pos ⟨h₁, h₂⟩

theorem checkedInstant_range {t u : Instant} (h : checkedInstant t = .ok u) :
    datetimeMin ≤ t ∧ t ≤ datetimeMax :=
  by_contra fun hr => by rw [checkedInstant, if_neg hr] at h; cases h

theorem checkedDay_eq {d e : Day} (h : checkedDay d = .ok e) : e = d := by
  unfold checkedDay at h
  split at h
  · exact (Except.ok.inj h).symm
  · cases h

/-- The tiles of a span that the step divides start in it. -/
theorem tile_within {start stop step : Int} (hpos : 0 < step) (htile : (stop - start) % step = 0)
    {n : Nat} (hn : n < ((stop - start) / step).toNat) :
    start ≤ start + n * step ∧ start + n * step < stop := by
  have hspan := Int.ediv_mul_cancel (Int.dvd_of_emod_eq_zero htile)
  have hle : (n : Int) + 1 ≤ (stop - start) / step := by omega
  have hmul := Int.mul_le_mul_of_nonneg_right hle hpos.le
  rw [hspan, Int.add_mul, Int.one_mul] at hmul
  have hnn : 0 ≤ (n : Int) * step := Int.mul_nonneg (Int.natCast_nonneg n) hpos.le
  omega

/-- An interval of a civil day starts at its midnight or later and before the next midnight. -/
theorem localDayIntervals_within {d : Day} {resolution : String} {intervals : List DeliveryInterval}
    (h : localDayIntervals txt zone tz d resolution = .ok intervals) {i : DeliveryInterval}
    (hi : i ∈ intervals) : zone.midnight d ≤ i.start ∧ i.start < zone.midnight (d + 1) := by
  obtain ⟨step, -, h⟩ := bind_eq_ok.mp h
  obtain ⟨start, hstart, h⟩ := bind_eq_ok.mp h
  obtain ⟨tomorrow, htomorrow, h⟩ := bind_eq_ok.mp h
  obtain ⟨stop, hstop, h⟩ := bind_eq_ok.mp h
  obtain rfl := checkedInstant_eq hstart
  obtain rfl := checkedDay_eq htomorrow
  obtain rfl := checkedInstant_eq hstop
  dsimp only at h
  split at h
  · cases h
  · rename_i htile
    obtain rfl := Except.ok.inj h
    obtain ⟨n, hn, rfl⟩ := List.mem_map.mp hi
    exact tile_within step.property (not_not.mp htile) (List.mem_range.mp hn)

theorem intervalForIndex_within {d : Day} {index : Int} {resolution : String} {i : DeliveryInterval}
    (h : intervalForIndex txt zone tz d index resolution = .ok i) :
    zone.midnight d ≤ i.start ∧ i.start < zone.midnight (d + 1) := by
  obtain ⟨intervals, hintervals, h⟩ := bind_eq_ok.mp h
  dsimp only at h
  split at h
  · split at h
    · rename_i j hj
      obtain rfl := Except.ok.inj h
      exact localDayIntervals_within hintervals (List.mem_of_getElem? hj)
    · cases h
  · cases h

end EnergyPlatform
