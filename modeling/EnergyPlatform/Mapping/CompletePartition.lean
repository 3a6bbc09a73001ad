import EnergyPlatform.Contracts.Calendar
import EnergyPlatform.Contracts.DayTiling
import EnergyPlatform.Mapping.Completeness
import EnergyPlatform.Mapping.Emitted
import EnergyPlatform.Mapping.Targets

/-!
# Mapping.CompletePartition

What `partition_status` says of a day, against the interval starts of that day that carry a value.

The status compares two sizes: the distinct starts with a value that are dated to the day, and the
intervals of the day. `status_exact_iff`: the status is right exactly when starts off the grid of
the day are too few to make up for those that are missing, and enough to make up for those that are
dated to another day. `strays_eq_zero`: there are none of the latter where the local midnights
enclose the instants of each civil date.
-/

namespace EnergyPlatform

/-! ## Reading the report -/

/-- What follows the first `": "`. -/
def afterColon : List Char → Option (List Char)
  | [] => none
  | c :: rest => if c = ':' ∧ rest.head? = some ' ' then some rest.tail else afterColon rest

def statusOf (event : QualityEvent) : Option String :=
  (afterColon event.message.toList).map fun rest => String.ofList (rest.takeWhile fun c => c ≠ ' ')

def statusWord (got expected : Nat) : String :=
  if expected ≤ got then "complete" else if got = 0 then "empty" else "partial"

theorem afterColon_append {a rest : List Char} (h : ':' ∉ a) :
    afterColon (a ++ ':' :: ' ' :: rest) = some rest := by
  induction a with
  | nil => rfl
  | cons c a ih =>
    have hc : ¬ c = ':' := fun hc => h (hc ▸ .head _)
    rw [List.cons_append, afterColon, if_neg fun hand => hc hand.1]
    exact ih fun hmem => h (.tail _ hmem)

theorem colon_not_mem_isoDate (d : Day) : ':' ∉ (isoDate d).toList := by
  have hpad : ∀ width n, ':' ∉ (pad width n).toList := by
    intro width n hmem
    have := isDigit_pad hmem
    revert this
    decide
  have hdash : "-".toList = ['-'] := rfl
  unfold isoDate
  simp only [String.toList_append, hdash, List.mem_append, List.mem_singleton, hpad, false_or,
    or_false]
  decide

theorem takeWhile_word {word rest : List Char} (h : ' ' ∉ word) :
    (word ++ ' ' :: rest).takeWhile (fun c => c ≠ ' ') = word := by
  induction word with
  | nil => rfl
  | cons c word ih =>
    have hc : c ≠ ' ' := fun hc => h (hc ▸ .head _)
    rw [List.cons_append, List.takeWhile_cons_of_pos (by simpa using hc),
      ih fun hmem => h (.tail _ hmem)]

/-- The status word of the event of a day. -/
theorem statusOf_partitionEvent (d : Day) (got expected : Nat) :
    statusOf (partitionEvent d got expected) = some (statusWord got expected) := by
  have hmessage : (partitionEvent d got expected).message = isoDate d ++ ": " ++
      statusWord got expected ++ " " ++ toString got ++ "/" ++ toString expected := rfl
  have hcolon : ": ".toList = [':', ' '] := rfl
  have hspace : " ".toList = [' '] := rfl
  have hword : ' ' ∉ (statusWord got expected).toList := by
    unfold statusWord
    split_ifs <;> decide
  have htext : (partitionEvent d got expected).message.toList = (isoDate d).toList ++ ':' :: ' ' ::
      ((statusWord got expected).toList ++ ' ' :: ((toString got).toList ++ "/".toList ++
        (toString expected).toList)) := by
    rw [hmessage]
    simp only [String.toList_append, hcolon, hspace, List.append_assoc, List.cons_append,
      List.nil_append]
  rw [statusOf, htext, afterColon_append (colon_not_mem_isoDate d), Option.map_some,
    takeWhile_word hword, String.ofList_toList]

/-- The word that the status of a day is given. -/
def Reports (txt : TextPrims) (zone : Zone) (tz : String) (observations : List EnergyObservation)
    (resolution : String) (d : Day) (word : String) : Prop :=
  ∃ events, partitionStatus txt zone tz observations resolution = .ok events ∧
    ∃ (i : Nat) (event : QualityEvent), (daysOf observations)[i]? = some d ∧
      events[i]? = some event ∧ statusOf event = some word

/-- The resolution tiles every day that occurs among the observations. -/
def TilesDays (txt : TextPrims) (zone : Zone) (tz : String) (observations : List EnergyObservation)
    (resolution : String) : Prop :=
  ∀ o ∈ observations, ∃ l, localDayIntervals txt zone tz o.localDate resolution = .ok l

section Report

variable {txt : TextPrims} {zone : Zone} {tz resolution : String}
  {observations : List EnergyObservation} {d : Day}

theorem mem_daysOf : d ∈ daysOf observations ↔ ∃ o ∈ observations, o.localDate = d := by
  rw [daysOf, List.mem_insertionSort, List.mem_eraseDups, List.mem_map]

/-- When every day is tiled, the report has the status of each. -/
theorem partitionStatus_ok (h : TilesDays txt zone tz observations resolution) :
    ∃ events, partitionStatus txt zone tz observations resolution = .ok events := by
  unfold partitionStatus
  have hdays : ∀ d ∈ daysOf observations, ∃ event,
      (do
        let expected ← localDayIntervals txt zone tz d resolution
        .ok (partitionEvent d (periodsOf observations d).length expected.length) :
        Except PyError QualityEvent) = .ok event := by
    intro d hd
    obtain ⟨o, ho, rfl⟩ := mem_daysOf.mp hd
    obtain ⟨l, hl⟩ := h o ho
    exact ⟨_, by rw [hl]; rfl⟩
  exact mapM_total hdays

theorem tilesDays_of_ok {events : List QualityEvent}
    (h : partitionStatus txt zone tz observations resolution = .ok events) :
    TilesDays txt zone tz observations resolution := by
  intro o ho
  obtain ⟨i, hi⟩ := List.getElem?_of_mem (mem_daysOf.mpr ⟨o, ho, rfl⟩)
  have hall := mapM_ok_iff.mp h
  obtain ⟨hlt, hget⟩ := List.getElem?_eq_some_iff.mp hi
  have hone := hall.get hlt (hall.length_eq ▸ hlt)
  simp only [List.get_eq_getElem, hget] at hone
  obtain ⟨l, hl, -⟩ := bind_eq_ok.mp hone
  exact ⟨l, hl⟩

/-- What the report says of a day. -/
theorem reports_iff {l : List DeliveryInterval}
    (hl : localDayIntervals txt zone tz d resolution = .ok l) {word : String} :
    Reports txt zone tz observations resolution d word ↔
      TilesDays txt zone tz observations resolution ∧ d ∈ daysOf observations ∧
        statusWord (periodsOf observations d).length l.length = word := by
  constructor
  · intro h
    obtain ⟨events, hok, i, event, hd, hevent, hword⟩ := h
    refine ⟨tilesDays_of_ok hok, List.mem_of_getElem? hd, ?_⟩
    obtain ⟨hlt, hget⟩ := List.getElem?_eq_some_iff.mp hd
    obtain ⟨hlt', hget'⟩ := List.getElem?_eq_some_iff.mp hevent
    have hone := (mapM_ok_iff.mp hok).get hlt hlt'
    simp only [List.get_eq_getElem, hget, hget'] at hone
    rw [hl] at hone
    obtain rfl := Except.ok.inj hone
    rw [statusOf_partitionEvent] at hword
    exact Option.some.inj hword
  · intro h
    obtain ⟨htiles, hd, rfl⟩ := h
    obtain ⟨events, hok⟩ := partitionStatus_ok htiles
    obtain ⟨i, hi⟩ := List.getElem?_of_mem hd
    obtain ⟨hlt, hget⟩ := List.getElem?_eq_some_iff.mp hi
    have hall := mapM_ok_iff.mp hok
    have hlt' : i < events.length := hall.length_eq ▸ hlt
    have hone := hall.get hlt hlt'
    simp only [List.get_eq_getElem, hget] at hone
    rw [hl] at hone
    refine ⟨events, hok, i, events[i], hi, List.getElem?_eq_getElem hlt', ?_⟩
    rw [← Except.ok.inj hone]
    exact statusOf_partitionEvent _ _ _

end Report

/-! ## What the mapping emits -/

/-- An observation of a resolution, emitted by the mapping of a manifest of the zone. -/
def Emitted (env : Env) (tz resolution : String) (o : EnergyObservation) : Prop :=
  ∃ manifest contract ctx record p, Yields env manifest contract ctx record p o ∧
    manifest.mapping.time.timezone = tz ∧ o.resolution = resolution

/-- The civil date of an instant is the date whose local midnights enclose it. A clock that is set
back across midnight breaks this (America/St_Johns until 2011: at 00:01, to 23:01). -/
def Zone.CivilDates (zone : Zone) : Prop :=
  ∀ t, zone.midnight (dayOf (zone.toLocal t)) ≤ t ∧ t < zone.midnight (dayOf (zone.toLocal t) + 1)

section Emitted

variable {env : Env} {tz resolution : String} {o : EnergyObservation}

theorem timeError_ok {α : Type} {locator : String} {x : Except PyError α} {a : α}
    (h : timeError locator x = .ok a) : x = .ok a := by
  cases x with
  | ok b =>
    obtain rfl := Except.ok.inj h
    rfl
  | error e => cases e <;> cases h

theorem civilDate_eq {zone : Zone} {t : Instant} {d : Day} (h : civilDate zone t = .ok d) :
    d = dayOf (zone.toLocal t) := by
  unfold civilDate at h
  cases hc : checkedInstant (zone.toLocal t) with
  | error e =>
    rw [hc] at h
    cases h
  | ok u =>
    rw [hc] at h
    obtain rfl := Except.ok.inj h
    rw [checkedInstant_eq hc]

/-- The time of a record is within the civil day it names. -/
theorem timeOf_day {m : TimeMapping} {record : SourceRecord} {ctx : MappingContext}
    (hcivil : (env.zones m.timezone).CivilDates) {interval : DeliveryInterval} {d : Day}
    {index : Option Int} (h : timeOf env m record ctx resolution = .ok (interval, d, index)) :
    (env.zones m.timezone).midnight d ≤ interval.start ∧
      interval.start < (env.zones m.timezone).midnight (d + 1) := by
  unfold timeOf at h
  dsimp only at h
  cases hk : m.kind with
  | periodIndex date ref =>
    rw [hk] at h
    obtain ⟨localDate, -, h⟩ := bind_eq_ok.mp h
    obtain ⟨n, -, h⟩ := bind_eq_ok.mp h
    obtain ⟨n', -, h⟩ := bind_eq_ok.mp h
    obtain ⟨i, hi, h⟩ := bind_eq_ok.mp h
    obtain ⟨hsame, hrest⟩ := Prod.mk.inj (Except.ok.inj h)
    obtain ⟨hday, -⟩ := Prod.mk.inj hrest
    rw [← hsame, ← hday]
    exact intervalForIndex_within (timeError_ok hi)
  | timestamp stamp =>
    rw [hk] at h
    obtain ⟨ts, -, h⟩ := bind_eq_ok.mp h
    cases ts with
    | none => cases h
    | some t =>
      obtain ⟨i, -, h⟩ := bind_eq_ok.mp h
      obtain ⟨localDate, hdate, h⟩ := bind_eq_ok.mp h
      obtain ⟨hsame, hrest⟩ := Prod.mk.inj (Except.ok.inj h)
      obtain ⟨hday, -⟩ := Prod.mk.inj hrest
      rw [← hsame, ← hday, civilDate_eq (timeError_ok hdate)]
      exact hcivil i.start

/-- An observation of the mapping starts in the civil day it names. -/
theorem emitted_day (hcivil : (env.zones tz).CivilDates) (h : Emitted env tz resolution o) :
    (env.zones tz).midnight o.localDate ≤ o.deliveryStartUtc ∧
      o.deliveryStartUtc < (env.zones tz).midnight (o.localDate + 1) := by
  obtain ⟨manifest, contract, ctx, record, p, ⟨e, events, henv, hmap⟩, rfl, -⟩ := h
  obtain ⟨-, -, -, hinterval, -, hdate, -⟩ := mapMetric_ok hmap
  obtain ⟨res, -, henv⟩ := bind_eq_ok.mp henv
  obtain ⟨⟨interval, d, index⟩, htime, henv⟩ := bind_eq_ok.mp henv
  obtain ⟨version, -, henv⟩ := bind_eq_ok.mp henv
  obtain ⟨published, -, henv⟩ := bind_eq_ok.mp henv
  obtain rfl := Except.ok.inj henv
  unfold EnergyObservation.deliveryStartUtc
  rw [hinterval, hdate]
  exact timeOf_day hcivil htime

end Emitted

/-! ## Complete and empty -/

section Status

/-- A value is there for a start. -/
def valued (observations : List EnergyObservation) (t : Instant) : Bool :=
  observations.any fun o => o.deliveryStartUtc = t && o.value.isSome

/-- The interval starts of a day that carry a value. -/
def onGrid (observations : List EnergyObservation) (l : List DeliveryInterval) : Nat :=
  (l.filter fun i => valued observations i.start).length

def missing (observations : List EnergyObservation) (l : List DeliveryInterval) : Nat :=
  (l.filter fun i => ! valued observations i.start).length

/-- The interval starts of a day that are counted for it. -/
def counted (observations : List EnergyObservation) (d : Day) (l : List DeliveryInterval) : Nat :=
  (l.filter fun i => decide (i.start ∈ periodsOf observations d)).length

/-- The interval starts of a day whose values are all dated to other days. -/
def strays (observations : List EnergyObservation) (d : Day) (l : List DeliveryInterval) : Nat :=
  (l.filter fun i => valued observations i.start && ! decide (i.start ∈ periodsOf observations d)).length

/-- The starts with a value dated to a day that no interval of it has. -/
def offGrid (observations : List EnergyObservation) (d : Day) (l : List DeliveryInterval) : Nat :=
  ((periodsOf observations d).filter fun t => ! l.any fun i => i.start = t).length

/-- The status of a day is right. -/
structure StatusExact (txt : TextPrims) (zone : Zone) (tz : String)
    (observations : List EnergyObservation) (resolution : String) (d : Day)
    (l : List DeliveryInterval) : Prop where
  complete : Reports txt zone tz observations resolution d "complete" ↔
    ∀ i ∈ l, valued observations i.start
  empty : Reports txt zone tz observations resolution d "empty" ↔
    ∀ i ∈ l, ¬ valued observations i.start

variable {observations : List EnergyObservation} {l : List DeliveryInterval} {d : Day}

theorem missing_eq_zero : missing observations l = 0 ↔ ∀ i ∈ l, valued observations i.start := by
  rw [missing, List.length_eq_zero_iff, List.filter_eq_nil_iff]
  simp

theorem onGrid_eq_zero : onGrid observations l = 0 ↔ ∀ i ∈ l, ¬ valued observations i.start := by
  rw [onGrid, List.length_eq_zero_iff, List.filter_eq_nil_iff]

theorem onGrid_add_missing : onGrid observations l + missing observations l = l.length := by
  unfold onGrid missing
  induction l with
  | nil => rfl
  | cons i l ih =>
    cases h : valued observations i.start <;> simp [h] <;> omega

theorem mem_periodsOf {t : Instant} : t ∈ periodsOf observations d ↔
    ∃ o ∈ observations, o.localDate = d ∧ o.value.isSome ∧ o.deliveryStartUtc = t := by
  simp only [periodsOf, List.mem_eraseDups, List.mem_map, List.mem_filter, decide_eq_true_eq]
  constructor
  · intro h
    obtain ⟨o, ⟨ho, hd, hv⟩, ht⟩ := h
    exact ⟨o, ho, hd, hv, ht⟩
  · intro h
    obtain ⟨o, ho, hd, hv, ht⟩ := h
    exact ⟨o, ⟨ho, hd, hv⟩, ht⟩

theorem nodup_eraseDups {α : Type} [DecidableEq α] (l : List α) : l.eraseDups.Nodup := by
  induction hn : l.length using Nat.strong_induction_on generalizing l with
  | _ n ih =>
    cases l with
    | nil => exact List.nodup_nil
    | cons a l =>
      rw [List.eraseDups_cons, List.nodup_cons]
      refine ⟨?_, ih _ ?_ _ rfl⟩
      · rw [List.mem_eraseDups, List.mem_filter]
        simp
      · rw [← hn]
        exact Nat.lt_succ_of_le (List.length_filter_le _ _)

/-- Two lists without repetition have as many elements in common, counted in either. -/
theorem filter_mem_length {α : Type} [DecidableEq α] {a b : List α} (ha : a.Nodup) (hb : b.Nodup) :
    (a.filter fun x => decide (x ∈ b)).length = (b.filter fun x => decide (x ∈ a)).length := by
  apply List.Perm.length_eq
  rw [List.perm_ext_iff_of_nodup (ha.filter _) (hb.filter _)]
  intro x
  simp [and_comm]

theorem valued_of_mem_periods {t : Instant} (h : t ∈ periodsOf observations d) :
    valued observations t := by
  obtain ⟨o, ho, -, hv, rfl⟩ := mem_periodsOf.mp h
  exact List.any_eq_true.mpr ⟨o, ho, by simp [hv]⟩

theorem counted_add_strays :
    counted observations d l + strays observations d l = onGrid observations l := by
  unfold counted strays onGrid
  induction l with
  | nil => rfl
  | cons i l ih =>
    by_cases hp : i.start ∈ periodsOf observations d
    · simp [hp, valued_of_mem_periods hp] at ih ⊢
      omega
    · cases hv : valued observations i.start <;> simp [hp, hv] at ih ⊢ <;> omega

variable {txt : TextPrims} {zone : Zone} {tz resolution : String}

theorem localDayIntervals_starts (hl : localDayIntervals txt zone tz d resolution = .ok l) :
    (l.map DeliveryInterval.start).Nodup := by
  obtain ⟨step, -, -, -, rfl⟩ := localDayIntervals_ok hl
  rw [List.map_map]
  refine List.nodup_range.map ?_
  intro n n' heq
  have hpos : (0 : Int) < step.val := step.property
  have hmul : zone.midnight d + n * step.val = zone.midnight d + n' * step.val := heq
  exact Int.ofNat.inj (Int.eq_of_mul_eq_mul_right hpos.ne' (add_left_cancel hmul))

/-- The periods that are counted are those on the grid and those off it. -/
theorem periods_length (hl : localDayIntervals txt zone tz d resolution = .ok l) :
    (periodsOf observations d).length = counted observations d l + offGrid observations d l := by
  have hperiods : (periodsOf observations d).Nodup := nodup_eraseDups _
  have hany : ∀ t, (l.any fun i => decide (i.start = t)) =
      decide (t ∈ l.map DeliveryInterval.start) := by
    intro t
    rw [Bool.eq_iff_iff]
    simp
  have hon : counted observations d l =
      ((periodsOf observations d).filter fun t => l.any fun i => i.start = t).length := by
    have hgrid : counted observations d l = ((l.map DeliveryInterval.start).filter fun t =>
        decide (t ∈ periodsOf observations d)).length := by
      rw [List.filter_map, List.length_map, counted]
      rfl
    rw [hgrid, filter_mem_length (localDayIntervals_starts hl) hperiods]
    simp only [hany]
  rw [hon, offGrid]
  exact (List.length_eq_length_filter_add _)

/-- Where the local midnights enclose the civil dates, the mapping dates every start to its day. -/
theorem strays_eq_zero {env : Env} (hmono : StrictMono (env.zones tz).midnight)
    (hcivil : (env.zones tz).CivilDates)
    (hl : localDayIntervals txt (env.zones tz) tz d resolution = .ok l)
    (hobs : ∀ o ∈ observations, Emitted env tz resolution o) : strays observations d l = 0 := by
  rw [strays, List.length_eq_zero_iff, List.filter_eq_nil_iff]
  intro i hi hstray
  rw [Bool.and_eq_true, Bool.not_eq_true', decide_eq_false_iff_not] at hstray
  obtain ⟨hvalued, hnot⟩ := hstray
  obtain ⟨o, ho, hstart⟩ := List.any_eq_true.mp hvalued
  rw [Bool.and_eq_true, decide_eq_true_eq] at hstart
  obtain ⟨hstart, hv⟩ := hstart
  have hown := emitted_day hcivil (hobs o ho)
  have hwithin := localDayIntervals_within hl hi
  rw [← hstart] at hwithin
  have hafter := hmono.lt_iff_lt.mp (hown.1.trans_lt hwithin.2)
  have hbefore := hmono.lt_iff_lt.mp (hwithin.1.trans_lt hown.2)
  refine hnot (mem_periodsOf.mpr ⟨o, ho, ?_, hv, hstart⟩)
  unfold Day at *
  omega

/-- The report has the day: every day is tiled, and an observation is dated to this one. -/
def DayReported (txt : TextPrims) (zone : Zone) (tz : String)
    (observations : List EnergyObservation) (resolution : String) (d : Day) : Prop :=
  TilesDays txt zone tz observations resolution ∧ ∃ o ∈ observations, o.localDate = d

/-- When the status of a day is right, said of the observations alone. -/
def StatusWhen (txt : TextPrims) (zone : Zone) (tz : String)
    (observations : List EnergyObservation) (resolution : String) (d : Day)
    (l : List DeliveryInterval) : Prop :=
  l ≠ [] ∧
  (DayReported txt zone tz observations resolution d →
    (missing observations l = 0 → strays observations d l ≤ offGrid observations d l) ∧
    (missing observations l ≠ 0 →
      offGrid observations d l < missing observations l + strays observations d l) ∧
    (counted observations d l = 0 → (offGrid observations d l = 0 ↔ strays observations d l = 0))) ∧
  (¬ DayReported txt zone tz observations resolution d →
    missing observations l ≠ 0 ∧ onGrid observations l ≠ 0)

theorem statusWord_complete {got expected : Nat} :
    statusWord got expected = "complete" ↔ expected ≤ got := by
  unfold statusWord
  split_ifs <;> simp <;> omega

theorem statusWord_empty {got expected : Nat} :
    statusWord got expected = "empty" ↔ ¬ expected ≤ got ∧ got = 0 := by
  unfold statusWord
  split_ifs <;> simp <;> omega

/-- A day with a period that is counted is not reported empty. -/
theorem not_empty_of_period
    (hl : localDayIntervals txt zone tz d resolution = .ok l) {t : Instant}
    (ht : t ∈ periodsOf observations d) :
    ¬ Reports txt zone tz observations resolution d "empty" := by
  intro h
  obtain ⟨-, -, hword⟩ := (reports_iff hl).mp h
  obtain ⟨-, hnil⟩ := statusWord_empty.mp hword
  rw [List.length_eq_zero_iff.mp hnil] at ht
  cases ht

/-- The status of a day compares sizes: exactly when that gives the right answer. -/
theorem status_exact_iff (hl : localDayIntervals txt zone tz d resolution = .ok l) :
    StatusExact txt zone tz observations resolution d l ↔
      StatusWhen txt zone tz observations resolution d l := by
  have hgot := @periods_length observations l d _ _ _ _ hl
  have hgrid := @counted_add_strays observations l d
  have hexpected := @onGrid_add_missing observations l
  have hnil : l.length = 0 ↔ l = [] := List.length_eq_zero_iff
  have hstatus : StatusExact txt zone tz observations resolution d l ↔
      (DayReported txt zone tz observations resolution d ∧
          l.length ≤ (periodsOf observations d).length ↔ missing observations l = 0) ∧
      (DayReported txt zone tz observations resolution d ∧
          ¬ l.length ≤ (periodsOf observations d).length ∧
          (periodsOf observations d).length = 0 ↔ onGrid observations l = 0) := by
    rw [missing_eq_zero, onGrid_eq_zero, ← statusWord_empty, ← statusWord_complete, DayReported,
      and_assoc, and_assoc, ← mem_daysOf, ← reports_iff hl, ← reports_iff hl]
    exact ⟨fun h => ⟨h.complete, h.empty⟩, fun h => ⟨h.1, h.2⟩⟩
  rw [hstatus, StatusWhen, ne_eq, ← hnil]
  by_cases hr : DayReported txt zone tz observations resolution d
  · simp only [hr, true_and, true_implies, not_true_eq_false, false_implies, and_true]
    omega
  · simp only [hr, false_and, false_iff, false_implies, not_false_eq_true, true_implies, true_and]
    omega

end Status

/-! ### A start off the grid -/

section OffGrid

/-- The market as a table of timestamps. -/
def stampedMarket : Manifest :=
  { oteIntradayMarket with
    mapping := { oteIntradayMarket.mapping with
      time := ⟨.timestamp (.source "Start"), "Europe/Prague", .constant "PT60M", .start⟩ } }

def stampedEnv : Env := (asciiImplementation DecodeLibs.refusing fun _ => 0).env

def stampedContext : MappingContext :=
  ⟨"ote_intraday_market", 1767225600 * second, 20454, 1767225600 * second, "", 0,
    1767225600 * second, 0⟩

/-- A price for the hour that starts at a timestamp. -/
def stampedRecord (stamp : String) : SourceRecord where
  fields := [("Start", .text stamp), ("Price", .text "10.5"), ("Volume", .text "3")]
  locator := "/Result/Item"

def priceMetric : String × MetricMapping := ("price_vwap", ⟨"Price", "EUR/MWh", .asPublished, .dot⟩)

/-- The observation of a record whose price is mapped. -/
theorem stamped_emitted {stamp : String} {start : Instant} {d : Day}
    (he : (envelopeOf stampedEnv stampedMarket.mapping (stampedRecord stamp) stampedContext).map
      (fun e => (e.interval.start, e.localDate, e.resolution)) = .ok (start, d, "PT60M"))
    (ho : (envelopeOf stampedEnv stampedMarket.mapping (stampedRecord stamp) stampedContext >>=
      fun e => mapMetric stampedEnv stampedMarket oteIdmContinuous (stampedRecord stamp)
        stampedContext e priceMetric.1 priceMetric.2).isOk) :
    ∃ o, Emitted stampedEnv "Europe/Prague" "PT60M" o ∧ o.deliveryStartUtc = start ∧
      o.localDate = d ∧ o.value.isSome := by
  cases henv : envelopeOf stampedEnv stampedMarket.mapping (stampedRecord stamp) stampedContext with
  | error err =>
    rw [henv] at he
    cases he
  | ok e =>
    rw [henv] at he ho
    have hfields := Except.ok.inj he
    change (mapMetric stampedEnv stampedMarket oteIdmContinuous (stampedRecord stamp)
      stampedContext e priceMetric.1 priceMetric.2).isOk at ho
    cases hmap : mapMetric stampedEnv stampedMarket oteIdmContinuous (stampedRecord stamp)
        stampedContext e priceMetric.1 priceMetric.2 with
    | error err =>
      rw [hmap] at ho
      cases ho
    | ok r =>
      obtain ⟨o, events⟩ := r
      obtain ⟨hvalue, -, -, hinterval, hres, hdate, -⟩ := mapMetric_ok hmap
      obtain ⟨hstart, hrest⟩ := Prod.mk.inj hfields
      obtain ⟨hday, hresolution⟩ := Prod.mk.inj hrest
      refine ⟨o, ⟨stampedMarket, oteIdmContinuous, stampedContext, stampedRecord stamp, priceMetric,
        ⟨e, events, henv, hmap⟩, rfl, hres.trans hresolution⟩, ?_, hdate.trans hday, ?_⟩
      · unfold EnergyObservation.deliveryStartUtc
        rw [hinterval, hstart]
      · have hread : metricValue stampedEnv priceMetric.2 (stampedRecord stamp) =
            .ok (some (.finite false 105 (-1))) := by
          change (do
            let value ← parseDecimal stampedEnv.txt (.text "10.5") .dot
            applySign value .asPublished) = _
          decide +kernel
        rw [← Except.ok.inj (hread.symm.trans hvalue)]
        rfl

/-- The intervals of the first day of the year, in hours. -/
def newYearHours : List DeliveryInterval :=
  (List.range 24).map (nthInterval (20454 * day - hour) ⟨hour, by decide⟩)

theorem newYear_hours : localDayIntervals stampedEnv.txt (stampedEnv.zones "Europe/Prague")
    "Europe/Prague" 20454 "PT60M" = .ok newYearHours := by
  have hstep : parseDuration stampedEnv.txt "PT60M" = .ok ⟨hour, by decide⟩ := by decide +kernel
  exact localDayIntervals_eq hstep (by decide) (by decide) (by decide)

/-- One price at half past is neither a period of the day nor nothing. -/
theorem half_past_not_empty : ∃ o l, Emitted stampedEnv "Europe/Prague" "PT60M" o ∧
    localDayIntervals stampedEnv.txt (stampedEnv.zones "Europe/Prague") "Europe/Prague" 20454
      "PT60M" = .ok l ∧
    ¬ StatusExact stampedEnv.txt (stampedEnv.zones "Europe/Prague") "Europe/Prague" [o] "PT60M"
      20454 l := by
  obtain ⟨o, hemit, hstart, hdate, hvalue⟩ := @stamped_emitted "2026-01-01T00:30:00+00:00"
    (20454 * day + 30 * minute) 20454 (by decide +kernel) (by decide +kernel)
  refine ⟨o, newYearHours, hemit, newYear_hours, ?_⟩
  intro h
  have hperiod : o.deliveryStartUtc ∈ periodsOf [o] 20454 :=
    mem_periodsOf.mpr ⟨o, List.mem_singleton_self o, hdate, hvalue, rfl⟩
  refine not_empty_of_period newYear_hours hperiod (h.empty.mpr ?_)
  intro i hi hval
  obtain ⟨n, -, rfl⟩ := List.mem_map.mp hi
  rw [valued, List.any_cons, List.any_nil, Bool.or_false, Bool.and_eq_true, decide_eq_true_eq,
    hstart] at hval
  have heq : 20454 * day + 30 * minute = 20454 * day - hour + n * hour := hval.1
  simp only [day, hour, minute, second] at heq
  unfold Instant Duration at *
  omega

/-- A price for one hour of the day: the day is neither complete nor empty, and not reported so. -/
theorem status_exact_hour : ∃ o l, Emitted stampedEnv "Europe/Prague" "PT60M" o ∧
    localDayIntervals stampedEnv.txt (stampedEnv.zones "Europe/Prague") "Europe/Prague" 20454
      "PT60M" = .ok l ∧
    StatusExact stampedEnv.txt (stampedEnv.zones "Europe/Prague") "Europe/Prague" [o] "PT60M"
      20454 l := by
  obtain ⟨o, hemit, hstart, hdate, hvalue⟩ := @stamped_emitted "2026-01-01T00:00:00+00:00"
    (20454 * day) 20454 (by decide +kernel) (by decide +kernel)
  have hperiods : periodsOf [o] 20454 = [20454 * day] := by
    simp [periodsOf, List.eraseDups_cons, hdate, hvalue, hstart]
  have hvalued : valued [o] = fun t => decide (20454 * day = t) := by
    funext t
    simp [valued, hstart, hvalue]
  have hcounts : missing [o] newYearHours = 23 ∧ onGrid [o] newYearHours = 1 ∧
      counted [o] 20454 newYearHours = 1 ∧ offGrid [o] 20454 newYearHours = 0 := by
    unfold missing onGrid counted offGrid
    rw [hvalued, hperiods]
    decide +kernel
  obtain ⟨hmissing, hongrid, hcounted, hoff⟩ := hcounts
  refine ⟨o, newYearHours, hemit, newYear_hours, (status_exact_iff newYear_hours).mpr ?_⟩
  refine ⟨by decide, fun _ => ⟨?_, ?_, ?_⟩, fun _ => ⟨?_, ?_⟩⟩ <;> omega

end OffGrid

end EnergyPlatform
