import EnergyPlatform.Contracts.Ascii
import EnergyPlatform.Contracts.Intervals
import EnergyPlatform.Lib.Tiling

/-!
# Contracts.DayTiling

The delivery intervals of the civil days tile the time line.

`localDayIntervals_eq`: what the intervals of a day are, when the resolution divides it.
`local_days_tile`: they tile it from one local midnight to the next, a period index names one of
them, and the start of an interval says which day and index it is of.
-/

namespace EnergyPlatform

open Lib (Tiles)

def IsDate (d : Day) : Prop := dateMin ≤ d ∧ d ≤ dateMax

instance (d : Day) : Decidable (IsDate d) := inferInstanceAs (Decidable (_ ∧ _))

/-- The local midnight of the date is a UTC instant. -/
def Zone.HasMidnight (zone : Zone) (d : Day) : Prop :=
  IsDate d ∧ datetimeMin ≤ zone.midnight d ∧ zone.midnight d ≤ datetimeMax

instance (zone : Zone) (d : Day) : Decidable (zone.HasMidnight d) :=
  inferInstanceAs (Decidable (_ ∧ _))

/-- Local midnight is a strictly increasing function of the date. -/
def Zone.Increasing (zone : Zone) : Prop :=
  ∀ d e, IsDate d → IsDate e → d < e → zone.midnight d < zone.midnight e

theorem Zone.Increasing.monotone {zone : Zone} (h : zone.Increasing) {d e : Day} (hd : IsDate d)
    (he : IsDate e) (hle : d ≤ e) : zone.midnight d ≤ zone.midnight e := by
  rcases Int.lt_or_eq_of_le hle with hlt | rfl
  · exact (h d e hd he hlt).le
  · exact le_rfl

def DeliveryInterval.span (i : DeliveryInterval) : Int × Int := (i.start, i.stop)

/-- What it means that intervals of one length tile a civil day. -/
structure TilesDay (zone : Zone) (d : Day) (step : Step) (l : List DeliveryInterval) : Prop where
  first : ∃ i, l.head? = some i ∧ i.start = zone.midnight d
  last : ∃ i, l.getLast? = some i ∧ i.stop = zone.midnight (d + 1)
  contiguous : ∀ (n : Nat) i j, l[n]? = some i → l[n + 1]? = some j → i.stop = j.start
  disjoint : l.Pairwise fun i j => i.stop ≤ j.start
  length : ∀ i ∈ l, i.duration = step.val
  covers : ∀ t, zone.midnight d ≤ t → t < zone.midnight (d + 1) →
    ∃! n : Nat, ∃ i, l[n]? = some i ∧ i.start ≤ t ∧ t < i.stop

variable {txt : TextPrims} {zone : Zone} {tz : String}

/-- A list of fallible steps is done when each of them is. -/
theorem mapM_ok_iff {ε α β : Type} {f : α → Except ε β} {l : List α} {l' : List β} :
    l.mapM f = .ok l' ↔ List.Forall₂ (fun a b => f a = .ok b) l l' := by
  induction l generalizing l' with
  | nil =>
    rw [List.mapM_nil]
    constructor
    · intro h
      obtain rfl := Except.ok.inj h
      exact .nil
    · intro h
      cases h
      rfl
  | cons a l ih =>
    rw [List.mapM_cons]
    constructor
    · intro h
      obtain ⟨b, hb, h⟩ := bind_eq_ok.mp h
      obtain ⟨bs, hbs, h⟩ := bind_eq_ok.mp h
      obtain rfl := Except.ok.inj h
      exact .cons hb (ih.mp hbs)
    · intro h
      cases h with
      | cons hb hbs =>
        rw [hb, ih.mpr hbs]
        rfl

theorem mapM_total {ε α β : Type} {f : α → Except ε β} {l : List α}
    (h : ∀ a ∈ l, ∃ b, f a = .ok b) : ∃ l', l.mapM f = .ok l' := by
  induction l with
  | nil => exact ⟨[], mapM_ok_iff.mpr .nil⟩
  | cons a l ih =>
    obtain ⟨b, hb⟩ := h a (.head _)
    obtain ⟨bs, hbs⟩ := ih fun a' ha' => h a' (.tail _ ha')
    exact ⟨b :: bs, mapM_ok_iff.mpr (.cons hb (mapM_ok_iff.mp hbs))⟩

theorem checkedDay_ok {d : Day} (h : IsDate d) : checkedDay d = .ok d := if_pos h

theorem checkedDay_isDate {d e : Day} (h : checkedDay d = .ok e) : IsDate d := by
  unfold checkedDay at h
  split at h
  · assumption
  · cases h

theorem span_nthInterval (start : Instant) (step : Step) (n : Nat) :
    ((List.range n).map (nthInterval start step)).map DeliveryInterval.span =
      Lib.steps start step.val n := by
  rw [List.map_map]
  rfl

/-- The intervals of a day that the resolution divides. -/
theorem localDayIntervals_eq {d : Day} {resolution : String} {step : Step}
    (hstep : parseDuration txt resolution = .ok step) (hd : zone.HasMidnight d)
    (hnext : zone.HasMidnight (d + 1))
    (hdiv : (zone.midnight (d + 1) - zone.midnight d) % step.val = 0) :
    localDayIntervals txt zone tz d resolution =
      .ok ((List.range ((zone.midnight (d + 1) - zone.midnight d) / step.val).toNat).map
        (nthInterval (zone.midnight d) step)) := by
  unfold localDayIntervals localMidnight
  rw [hstep, checkedInstant_ok hd.2.1 hd.2.2, checkedDay_ok hnext.1]
  simp only [bind, Except.bind]
  rw [checkedInstant_ok hnext.2.1 hnext.2.2]
  simp only [hdiv, ne_eq, not_true_eq_false, if_false]

/-- What is known when the intervals of a day are returned. -/
theorem localDayIntervals_ok {d : Day} {resolution : String} {l : List DeliveryInterval}
    (h : localDayIntervals txt zone tz d resolution = .ok l) :
    ∃ step, parseDuration txt resolution = .ok step ∧ IsDate (d + 1) ∧
      (zone.midnight (d + 1) - zone.midnight d) % step.val = 0 ∧
      l = (List.range ((zone.midnight (d + 1) - zone.midnight d) / step.val).toNat).map
        (nthInterval (zone.midnight d) step) := by
  obtain ⟨step, hstep, h⟩ := bind_eq_ok.mp h
  obtain ⟨start, hstart, h⟩ := bind_eq_ok.mp h
  obtain ⟨tomorrow, htomorrow, h⟩ := bind_eq_ok.mp h
  obtain ⟨stop, hstop, h⟩ := bind_eq_ok.mp h
  obtain rfl := checkedInstant_eq hstart
  obtain rfl := checkedDay_eq htomorrow
  obtain rfl := checkedInstant_eq hstop
  refine ⟨step, hstep, checkedDay_isDate htomorrow, ?_⟩
  dsimp only at h
  split at h
  · cases h
  · rename_i htile
    exact ⟨not_not.mp htile, (Except.ok.inj h).symm⟩

/-- The intervals of a day are a tiling from its midnight to the next. -/
theorem localDayIntervals_tiles {d : Day} {resolution : String} {l : List DeliveryInterval}
    (hlt : zone.midnight d < zone.midnight (d + 1))
    (h : localDayIntervals txt zone tz d resolution = .ok l) :
    Tiles (zone.midnight d) (l.map DeliveryInterval.span) (zone.midnight (d + 1)) := by
  obtain ⟨step, -, -, hdiv, rfl⟩ := localDayIntervals_ok h
  rw [span_nthInterval]
  have hpos : (0 : Int) < step.val := step.property
  have hnn : 0 ≤ (zone.midnight (d + 1) - zone.midnight d) / step.val :=
    Int.ediv_nonneg (Int.sub_nonneg.mpr hlt.le) hpos.le
  have hend : zone.midnight d +
      (((zone.midnight (d + 1) - zone.midnight d) / step.val).toNat : Int) * step.val =
      zone.midnight (d + 1) := by
    rw [Int.toNat_of_nonneg hnn, Int.ediv_mul_cancel (Int.dvd_of_emod_eq_zero hdiv)]
    exact add_sub_cancel _ _
  have htiles := @Lib.tiles_steps (zone.midnight d) _ hpos
    ((zone.midnight (d + 1) - zone.midnight d) / step.val).toNat
  rwa [hend] at htiles

theorem duration_nthInterval (start : Instant) (step : Step) (n : Nat) :
    (nthInterval start step n).duration = step.val := by
  change start + (n + 1) * step.val - (start + n * step.val) = step.val
  rw [Int.add_mul, Int.one_mul]
  ring

theorem localDayIntervals_duration {d : Day} {resolution : String} {l : List DeliveryInterval}
    {step : Step} (hstep : parseDuration txt resolution = .ok step)
    (h : localDayIntervals txt zone tz d resolution = .ok l) {i : DeliveryInterval} (hi : i ∈ l) :
    i.duration = step.val := by
  obtain ⟨step', hstep', -, -, rfl⟩ := localDayIntervals_ok h
  obtain rfl := Except.ok.inj (hstep.symm.trans hstep')
  obtain ⟨n, -, rfl⟩ := List.mem_map.mp hi
  exact duration_nthInterval _ _ _

theorem span_getElem? {l : List DeliveryInterval} {n : Nat} {i : DeliveryInterval}
    (h : l[n]? = some i) : (l.map DeliveryInterval.span)[n]? = some i.span := by
  rw [List.getElem?_map, h]
  rfl

theorem of_span_getElem? {l : List DeliveryInterval} {n : Nat} {s : Int × Int}
    (h : (l.map DeliveryInterval.span)[n]? = some s) : ∃ i, l[n]? = some i ∧ i.span = s := by
  rw [List.getElem?_map] at h
  exact Option.map_eq_some_iff.mp h

theorem ne_nil_of_tiles {lo hi : Int} {l : List (Int × Int)} (hlt : lo < hi)
    (h : Tiles lo l hi) : l ≠ [] := by
  rintro rfl
  exact absurd h hlt.ne

theorem localDayIntervals_tilesDay {d : Day} {resolution : String} {l : List DeliveryInterval}
    {step : Step} (hstep : parseDuration txt resolution = .ok step)
    (hlt : zone.midnight d < zone.midnight (d + 1))
    (h : localDayIntervals txt zone tz d resolution = .ok l) : TilesDay zone d step l := by
  have htiles := localDayIntervals_tiles hlt h
  have hne := ne_nil_of_tiles hlt htiles
  constructor
  case first =>
    obtain ⟨s, hs, hstart⟩ := htiles.first hne
    obtain ⟨i, hi, rfl⟩ := of_span_getElem? hs
    exact ⟨i, by rw [List.head?_eq_getElem?]; exact hi, hstart⟩
  case last =>
    obtain ⟨s, hs, hstop⟩ := htiles.last hne
    rw [List.getLast?_map] at hs
    obtain ⟨i, hi, rfl⟩ := Option.map_eq_some_iff.mp hs
    exact ⟨i, hi, hstop⟩
  case contiguous =>
    intro n i j hi hj
    exact htiles.next (span_getElem? hi) (span_getElem? hj)
  case disjoint => exact List.pairwise_map.mp htiles.disjoint
  case length =>
    intro i hi
    exact localDayIntervals_duration hstep h hi
  case covers =>
    intro t hlo hhi
    obtain ⟨n, ⟨s, hs, hin⟩, huniq⟩ := htiles.exactly_one hlo hhi
    obtain ⟨i, hi, rfl⟩ := of_span_getElem? hs
    refine ⟨n, ⟨i, hi, hin⟩, ?_⟩
    intro m hm
    obtain ⟨j, hj, hin'⟩ := hm
    exact huniq m ⟨j.span, span_getElem? hj, hin'⟩

/-! ## Period indices -/

/-- What a period index of a day names. -/
theorem intervalForIndex_ok {d : Day} {index : Int} {resolution : String} {i : DeliveryInterval}
    (h : intervalForIndex txt zone tz d index resolution = .ok i) :
    ∃ l, localDayIntervals txt zone tz d resolution = .ok l ∧ 1 ≤ index ∧
      l[(index - 1).toNat]? = some i := by
  obtain ⟨l, hl, h⟩ := bind_eq_ok.mp h
  refine ⟨l, hl, ?_⟩
  dsimp only at h
  split at h
  · rename_i hin
    split at h
    · rename_i j hj
      obtain rfl := Except.ok.inj h
      exact ⟨hin.1, hj⟩
    · cases h
  · cases h

theorem intervalForIndex_inside {d : Day} {index : Int} {resolution : String}
    {l : List DeliveryInterval} (hl : localDayIntervals txt zone tz d resolution = .ok l)
    (hin : 1 ≤ index ∧ index ≤ l.length) :
    ∃ i, l[(index - 1).toNat]? = some i ∧
      intervalForIndex txt zone tz d index resolution = .ok i := by
  have hlt : (index - 1).toNat < l.length := by omega
  refine ⟨l[(index - 1).toNat], List.getElem?_eq_getElem hlt, ?_⟩
  unfold intervalForIndex
  rw [hl]
  simp only [bind, Except.bind, hin, and_self, if_true, List.getElem?_eq_getElem hlt]

theorem intervalForIndex_outside {d : Day} {index : Int} {resolution : String}
    {l : List DeliveryInterval} (hl : localDayIntervals txt zone tz d resolution = .ok l)
    (hout : ¬ (1 ≤ index ∧ index ≤ l.length)) :
    ∃ msg, intervalForIndex txt zone tz d index resolution = .error (.indexError msg) := by
  unfold intervalForIndex
  rw [hl]
  simp only [bind, Except.bind]
  rw [if_neg hout]
  exact ⟨_, rfl⟩

/-- Two days that share an instant are one day. -/
theorem day_unique (hinc : zone.Increasing) {d e : Day} (hd : IsDate d) (hd' : IsDate (d + 1))
    (he : IsDate e) (he' : IsDate (e + 1)) {t : Instant}
    (ht : zone.midnight d ≤ t ∧ t < zone.midnight (d + 1))
    (ht' : zone.midnight e ≤ t ∧ t < zone.midnight (e + 1)) : d = e := by
  rcases lt_trichotomy d e with hlt | heq | hgt
  · have hle := hinc.monotone hd' he hlt
    exact absurd (ht.2.trans_le (hle.trans ht'.1)) (lt_irrefl t)
  · exact heq
  · have hle := hinc.monotone he' hd hgt
    exact absurd (ht'.2.trans_le (hle.trans ht.1)) (lt_irrefl t)

/-- The start of an interval says which day and index it is of. -/
theorem index_of_start (hinc : zone.Increasing) {d e : Day} (hd : IsDate d) (he : IsDate e)
    {resolution : String} {index index' : Int} {i j : DeliveryInterval}
    (hi : intervalForIndex txt zone tz d index resolution = .ok i)
    (hj : intervalForIndex txt zone tz e index' resolution = .ok j) (heq : i.start = j.start) :
    d = e ∧ index = index' := by
  obtain ⟨l, hl, hpos, hli⟩ := intervalForIndex_ok hi
  obtain ⟨l', hl', hpos', hlj⟩ := intervalForIndex_ok hj
  obtain ⟨_, -, hnext, -⟩ := localDayIntervals_ok hl
  obtain ⟨_, -, hnext', -⟩ := localDayIntervals_ok hl'
  obtain rfl := day_unique hinc hd hnext he hnext' (intervalForIndex_within hi)
    (heq ▸ intervalForIndex_within hj)
  obtain rfl := Except.ok.inj (hl.symm.trans hl')
  refine ⟨rfl, ?_⟩
  have htiles := localDayIntervals_tiles (hinc d (d + 1) hd hnext (Int.lt_succ d)) hl
  have hsame := htiles.start_inj (span_getElem? hli) (span_getElem? hlj) heq
  omega

/-! ## The claim of the calendar -/

/-- The intervals of a civil day tile it, and a period index names exactly one of them. -/
theorem local_days_tile (hinc : zone.Increasing) {d : Day} (hd : zone.HasMidnight d)
    (hnext : zone.HasMidnight (d + 1)) {resolution : String} {step : Step}
    (hstep : parseDuration txt resolution = .ok step)
    (hdiv : (zone.midnight (d + 1) - zone.midnight d) % step.val = 0) :
    ∃ l, localDayIntervals txt zone tz d resolution = .ok l ∧ TilesDay zone d step l ∧
      (∀ index : Int, 1 ≤ index ∧ index ≤ l.length → ∃ i, l[(index - 1).toNat]? = some i ∧
        intervalForIndex txt zone tz d index resolution = .ok i) ∧
      (∀ index : Int, ¬ (1 ≤ index ∧ index ≤ l.length) → ∃ msg,
        intervalForIndex txt zone tz d index resolution = .error (.indexError msg)) ∧
      (∀ l', localDayIntervals txt zone tz (d + 1) resolution = .ok l' →
        ∃ i j, l.getLast? = some i ∧ l'.head? = some j ∧ i.stop = j.start) ∧
      (∀ e index index' i j, IsDate e →
        intervalForIndex txt zone tz d index resolution = .ok i →
        intervalForIndex txt zone tz e index' resolution = .ok j →
        (i.start = j.start ↔ d = e ∧ index = index')) := by
  have hlt : zone.midnight d < zone.midnight (d + 1) := hinc d (d + 1) hd.1 hnext.1 (Int.lt_succ d)
  have hl := @localDayIntervals_eq _ _ tz _ _ _ hstep hd hnext hdiv
  have htiles := localDayIntervals_tilesDay hstep hlt hl
  refine ⟨_, hl, htiles, ?_, ?_, ?_, ?_⟩
  · intro index hin
    exact intervalForIndex_inside hl hin
  · intro index hout
    exact intervalForIndex_outside hl hout
  · intro l' hn
    obtain ⟨_, -, hafter, -⟩ := localDayIntervals_ok hn
    have hlt' : zone.midnight (d + 1) < zone.midnight (d + 1 + 1) :=
      hinc (d + 1) (d + 1 + 1) hnext.1 hafter (Int.lt_succ _)
    obtain ⟨i, hi, hstop⟩ := htiles.last
    obtain ⟨j, hj, hstart⟩ := (localDayIntervals_tilesDay hstep hlt' hn).first
    exact ⟨i, j, hi, hj, hstop.trans hstart.symm⟩
  · intro e index index' i j he hi hj
    constructor
    · intro heq
      exact index_of_start hinc hd.1 he hi hj heq
    · intro h
      obtain ⟨rfl, rfl⟩ := h
      exact congrArg _ (Except.ok.inj (hi.symm.trans hj))

/-! ## A zone that changes its clocks -/

/-- A zone whose offset changes once; a wall clock reading that occurs twice is the first one, and
one that does not occur keeps the offset before the change. -/
def Zone.changing (before after : Duration) (change : Instant) : Zone where
  toLocal t := if t < change then t + before else t + after
  ofLocal wall := if wall < change + max before after then wall - before else wall - after

/-- Central European time around 2026-03-29, the day that has 23 hours. -/
def springZone : Zone := .changing hour (2 * hour) (20541 * day + hour)

theorem springZone_increasing : springZone.Increasing := by
  intro d e _ _ hlt
  simp only [Zone.midnight, springZone, Zone.changing, day, hour, minute, second]
  unfold Instant Duration Day at *
  split_ifs <;> omega

theorem local_days_tile_spring : ∃ l,
    localDayIntervals Ascii.text springZone "Europe/Prague" 20541 "PT60M" = .ok l ∧
      TilesDay springZone 20541 ⟨hour, by decide⟩ l ∧ l.length = 23 := by
  obtain ⟨l, hl, htiles, -⟩ := @local_days_tile Ascii.text springZone "Europe/Prague"
    springZone_increasing 20541 (by decide) (by decide) "PT60M" ⟨hour, by decide⟩
    (by decide +kernel) (by decide)
  refine ⟨l, hl, htiles, ?_⟩
  obtain ⟨step, hstep, -, -, rfl⟩ := localDayIntervals_ok hl
  obtain rfl : step = ⟨hour, by decide⟩ := Except.ok.inj (hstep.symm.trans (by decide +kernel))
  rw [List.length_map, List.length_range]
  decide

end EnergyPlatform
