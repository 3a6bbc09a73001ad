import EnergyPlatform.Contracts.Numerals

/-!
# Runtime.Cron

A five-field cron expression, evaluated minute by minute on a zone's clock.

`mem_cronInstants`: the instants of a window are its whole minutes whose local fields match.
`cronInstants_append`: two windows end to end are one.
-/

namespace EnergyPlatform

/-- The fields as sets of numbers; the two day fields remember whether they are restricted. -/
structure CronExpression where
  minutes : List Int
  hours : List Int
  days : List Int
  months : List Int
  weekdays : List Int
  dayRestricted : Bool
  weekdayRestricted : Bool
deriving DecidableEq, Repr

namespace CronExpression

section Parse

variable (txt : TextPrims)

/-- `range(a, b + 1, step)`, for a positive step. -/
def steps (a b step : Int) : List Int :=
  (List.range ((b - a) / step + 1).toNat).map fun i => a + i * step

/-- The step of a part, and the part without it. -/
def stepOf (text : String) (part : List Char) : Except PyError (List Char × Int) :=
  match cutAt '/' part with
  | none => .ok (part, 1)
  | some (part, stepText) => do
    let step ← intOfText txt (String.ofList stepText)
    if step < 1 then .error (.valueError ("cron step must be >= 1: " ++ txt.repr text))
    else .ok (part, step)

def bounds (lo hi : Int) (part : List Char) (step : Int) : Except PyError (Int × Int) :=
  if part = ['*'] then .ok (lo, hi)
  else
    match cutAt '-' part with
    | some (aText, bText) => do
      let a ← intOfText txt (String.ofList aText)
      let b ← intOfText txt (String.ofList bText)
      .ok (a, b)
    | none => do
      let a ← intOfText txt (String.ofList part)
      .ok (a, if step ≠ 1 then hi else a)

def part (text : String) (lo hi : Int) (part : List Char) : Except PyError (List Int) := do
  let (part, step) ← stepOf txt text part
  let (a, b) ← bounds txt lo hi part step
  if lo ≤ a ∧ a ≤ b ∧ b ≤ hi then .ok (steps a b step)
  else .error (.valueError ("cron field " ++ txt.repr text ++ " outside " ++ toString lo ++ ".." ++
    toString hi))

def field (text : String) (lo hi : Int) : Except PyError (List Int) := do
  let values ← (splitChar ',' text.toList).mapM (part txt text lo hi)
  .ok values.flatten

def parse (text : String) : Except PyError CronExpression :=
  match txt.words text with
  | [minute, hour, day, month, weekday] => do
    let minutes ← field txt minute 0 59
    let hours ← field txt hour 0 23
    let days ← field txt day 1 31
    let months ← field txt month 1 12
    let weekdays ← field txt weekday 0 7
    .ok {
      minutes := minutes
      hours := hours
      days := days
      months := months
      weekdays := weekdays.map fun d => if d = 7 then 0 else d
      dayRestricted := decide (day ≠ "*")
      weekdayRestricted := decide (weekday ≠ "*") }
  | _ => .error (.valueError ("cron needs five fields: " ++ txt.repr text))

end Parse

/-- `matches`, of a wall clock; Sunday is 0. -/
def matchesLocal (c : CronExpression) (wall : Int) : Bool :=
  let date := civilOfDay (dayOf wall)
  if wall / minute % 60 ∉ c.minutes ∨ wall / hour % 24 ∉ c.hours then false
  else if (date.month : Int) ∉ c.months then false
  else
    let dayOk := decide ((date.day : Int) ∈ c.days)
    let weekdayOk := decide ((dayOf wall + 4) % 7 ∈ c.weekdays)
    if c.dayRestricted && c.weekdayRestricted then dayOk || weekdayOk else dayOk && weekdayOk

end CronExpression

/-- `t.replace(second=0, microsecond=0)`, in UTC. -/
def floorMinute (t : Instant) : Instant := t / minute * minute

section Instants

variable (txt : TextPrims) (zone : Zone) (expression : String)

/-- The loop of `cron_instants`: from `t`, minute by minute, while `t <= stop`. -/
def cronWalk (cron : CronExpression) (stop : Instant) : Nat → Instant →
    Except PyError (List Instant)
  | 0, _ => .ok []
  | n + 1, t =>
    if t ≤ stop then do
      let wall ← checkedInstant (zone.toLocal t)
      let next ← checkedInstant (t + minute)
      let rest ← cronWalk cron stop n next
      .ok (if cron.matchesLocal wall then t :: rest else rest)
    else .ok []

/-- The rounds of the loop: the whole minutes from `t` to `stop`. -/
def cronRounds (stop t : Instant) : Nat := ((stop - t) / minute + 1).toNat

def cronFrom (cron : CronExpression) (stop t : Instant) : Except PyError (List Instant) :=
  cronWalk zone cron stop (cronRounds stop t) t

/-- Firing instants with `start < t <= end`, minute resolution. -/
def cronInstants (start stop : Instant) : Except PyError (List Instant) := do
  let cron ← CronExpression.parse txt expression
  let start ← checkedInstant start
  let t ← checkedInstant (floorMinute start + minute)
  let stop ← checkedInstant stop
  cronFrom zone cron stop t

/-- `[b - a for a, b in pairwise(instants)]`. -/
def gapsBetween (instants : List Instant) : List Duration :=
  (instants.zip instants.tail).map fun p => p.2 - p.1

/-- Smallest gap between consecutive instants in the day around `reference`. -/
def cadenceOf (reference : Instant) : Except PyError Duration := do
  let start ← checkedInstant (reference - day)
  let stop ← checkedInstant (reference + day)
  let instants ← cronInstants txt zone expression start stop
  .ok ((gapsBetween instants).min?.getD day)

end Instants

/-! ## The instants of a window -/

/-- A firing instant: a whole minute whose local fields match. -/
structure Firing (zone : Zone) (cron : CronExpression) (t : Instant) : Prop where
  whole : t % minute = 0
  local_ : cron.matchesLocal (zone.toLocal t) = true

/-! Arithmetic of whole minutes. -/

section Minutes

variable (stop t u : Int)

theorem floorMinute_le : floorMinute t ≤ t := Int.ediv_mul_le t (by decide)

theorem lt_floorMinute_add : t < floorMinute t + minute := by
  unfold floorMinute minute second
  omega

theorem floorMinute_whole : floorMinute t % minute = 0 := Int.mul_emod_left ..

variable {stop t u}

theorem cronRounds_of_lt (h : stop < t) : cronRounds stop t = 0 := by
  unfold cronRounds minute second
  omega

theorem cronRounds_of_le (h : t ≤ stop) : cronRounds stop t = cronRounds stop (t + minute) + 1 := by
  unfold cronRounds minute second
  omega

theorem whole_add (ht : t % minute = 0) : (t + minute) % minute = 0 := by
  rw [Int.add_emod_right, ht]

/-- Between a whole minute and the next one there is no other. -/
theorem whole_next (ht : t % minute = 0) (hu : u % minute = 0) (h : t < u) : t + minute ≤ u := by
  unfold minute second at *
  omega

/-- A whole minute up to `t` is up to its floor. -/
theorem whole_le_floor (hu : u % minute = 0) (h : u ≤ t) : u ≤ floorMinute t := by
  unfold floorMinute
  unfold minute second at *
  omega

end Minutes

section Walk

variable {zone : Zone} {cron : CronExpression} {stop t : Instant}

theorem cronFrom_of_lt (h : stop < t) : cronFrom zone cron stop t = .ok [] := by
  rw [cronFrom, cronRounds_of_lt h, cronWalk]

theorem cronFrom_of_le (h : t ≤ stop) :
    cronFrom zone cron stop t = (do
      let wall ← checkedInstant (zone.toLocal t)
      let next ← checkedInstant (t + minute)
      let rest ← cronFrom zone cron stop next
      .ok (if cron.matchesLocal wall then t :: rest else rest)) := by
  rw [cronFrom, cronRounds_of_le h, cronWalk, if_pos h]
  cases checkedInstant (zone.toLocal t) with
  | error e => rfl
  | ok wall =>
    cases hn : checkedInstant (t + minute) with
    | error e => rfl
    | ok next =>
      obtain rfl := checkedInstant_eq hn
      rfl

/-- Induction along the loop. -/
theorem walk_induction (stop : Instant) {motive : Instant → Prop}
    (past : ∀ t, stop < t → motive t) (again : ∀ t, t ≤ stop → motive (t + minute) → motive t)
    (t : Instant) : motive t := by
  induction h : cronRounds stop t generalizing t with
  | zero =>
    refine past t (not_le.mp fun hle => ?_)
    rw [cronRounds_of_le hle] at h
    exact absurd h (Nat.succ_ne_zero _)
  | succ n ih =>
    rcases lt_or_ge stop t with hlt | hle
    · exact past t hlt
    · rw [cronRounds_of_le hle] at h
      exact again t hle (ih _ (Nat.succ_injective h))

/-- What the loop yields: the firing instants from `t` to `stop`, in order. -/
theorem cronFrom_spec (ht : t % minute = 0) {l : List Instant}
    (h : cronFrom zone cron stop t = .ok l) :
    (∀ u, u ∈ l ↔ (t ≤ u ∧ u ≤ stop) ∧ Firing zone cron u) ∧ l.Pairwise (· < ·) := by
  induction t using walk_induction stop generalizing l with
  | past t hlt =>
    rw [cronFrom_of_lt hlt] at h
    obtain rfl := Except.ok.inj h
    refine ⟨fun u => ⟨fun hu => absurd hu List.not_mem_nil, fun ⟨⟨h₁, h₂⟩, _⟩ => ?_⟩, .nil⟩
    exact absurd (hlt.trans_le h₁) (not_lt.mpr h₂)
  | again t hle ih =>
    rw [cronFrom_of_le hle] at h
    obtain ⟨wall, hw, hwall⟩ := bind_eq_ok.mp h
    obtain rfl := checkedInstant_eq hw
    obtain ⟨next, hn, hnext⟩ := bind_eq_ok.mp hwall
    obtain rfl := checkedInstant_eq hn
    obtain ⟨rest, hr, hrest⟩ := bind_eq_ok.mp hnext
    obtain rfl := Except.ok.inj hrest
    obtain ⟨hmem, hsorted⟩ := ih (whole_add ht) hr
    have hlater : ∀ u, (t ≤ u ∧ u ≤ stop) ∧ Firing zone cron u ↔
        (u = t ∧ cron.matchesLocal (zone.toLocal t) = true) ∨ u ∈ rest := by
      intro u
      rw [hmem]
      constructor
      · rintro ⟨⟨h₁, h₂⟩, hf⟩
        rcases h₁.lt_or_eq with hlt | rfl
        · exact .inr ⟨⟨whole_next ht hf.whole hlt, h₂⟩, hf⟩
        · exact .inl ⟨rfl, hf.local_⟩
      · rintro (⟨rfl, hm⟩ | ⟨⟨h₁, h₂⟩, hf⟩)
        · exact ⟨⟨le_rfl, hle⟩, ht, hm⟩
        · refine ⟨⟨le_trans ?_ h₁, h₂⟩, hf⟩
          exact Int.le_add_of_nonneg_right (by decide)
    split
    · rename_i hm
      refine ⟨fun u => ?_, List.pairwise_cons.mpr ⟨fun u hu => ?_, hsorted⟩⟩
      · rw [List.mem_cons, hlater]
        exact or_congr_left ⟨fun h => ⟨h, hm⟩, And.left⟩
      · exact Int.lt_of_lt_of_le (Int.lt_add_of_pos_right t (by decide)) ((hmem u).mp hu).1.1
    · rename_i hm
      refine ⟨fun u => ?_, hsorted⟩
      rw [hlater]
      exact ⟨.inr, fun h => h.resolve_left fun h => hm h.2⟩

/-- The loop over a window is the loop up to a point of it, and then from the next whole minute. -/
theorem cronFrom_append {b c : Instant} (hbc : b ≤ c) (ht : t % minute = 0)
    (hle : t ≤ floorMinute b + minute) (hok : checkedInstant t = .ok t) :
    cronFrom zone cron c t = (do
      let first ← cronFrom zone cron b t
      let next ← checkedInstant (floorMinute b + minute)
      let rest ← cronFrom zone cron c next
      .ok (first ++ rest)) := by
  induction t using walk_induction b with
  | past t hlt =>
    have heq : floorMinute b + minute = t :=
      le_antisymm (whole_next (floorMinute_whole b) ht ((floorMinute_le b).trans_lt hlt)) hle
    simp only [cronFrom_of_lt hlt, heq, hok, bind, Except.bind, List.nil_append]
    cases cronFrom zone cron c t with
    | error e => rfl
    | ok l => rfl
  | again t htb ih =>
    rw [cronFrom_of_le htb, cronFrom_of_le (htb.trans hbc)]
    cases checkedInstant (zone.toLocal t) with
    | error e => rfl
    | ok wall =>
      cases hn : checkedInstant (t + minute) with
      | error e => rfl
      | ok next =>
        obtain rfl := checkedInstant_eq hn
        have hnext := ih (whole_add ht) (Int.add_le_add_right (whole_le_floor ht htb) _) hn
        change (cronFrom zone cron c (t + minute) >>= _) =
          ((cronFrom zone cron b (t + minute) >>= _) >>= _)
        rw [hnext]
        cases cronFrom zone cron b (t + minute) with
        | error e => rfl
        | ok first =>
          cases checkedInstant (floorMinute b + minute) with
          | error e => rfl
          | ok start =>
            simp only [bind, Except.bind]
            cases cronFrom zone cron c start with
            | error e => rfl
            | ok rest => cases cron.matchesLocal wall <;> rfl

/-- The one error of the calendar. -/
def outOfRange : PyError := .overflowError "date value out of range"

theorem checkedInstant_error {t : Instant} {e : PyError} (h : checkedInstant t = .error e) :
    e = outOfRange := by
  unfold checkedInstant at h
  split at h
  · cases h
  · exact (Except.error.inj h).symm

theorem cronFrom_error {e : PyError} (h : cronFrom zone cron stop t = .error e) :
    e = outOfRange := by
  induction t using walk_induction stop with
  | past t hlt => cases (cronFrom_of_lt hlt).symm.trans h
  | again t hle ih =>
    rw [cronFrom_of_le hle] at h
    cases hw : checkedInstant (zone.toLocal t) with
    | error e' =>
      rw [hw] at h
      cases h
      exact checkedInstant_error hw
    | ok wall =>
      cases hn : checkedInstant (t + minute) with
      | error e' =>
        rw [hw, hn] at h
        cases h
        exact checkedInstant_error hn
      | ok next =>
        obtain rfl := checkedInstant_eq hn
        rw [hw, hn] at h
        cases hr : cronFrom zone cron stop (t + minute) with
        | ok rest =>
          change (cronFrom zone cron stop (t + minute) >>= _) = _ at h
          rw [hr] at h
          cases h
        | error e' =>
          change (cronFrom zone cron stop (t + minute) >>= _) = _ at h
          rw [hr] at h
          cases h
          exact ih hr

/-- The offset of a zone is less than a day. -/
def Zone.OffsetOk (zone : Zone) : Prop :=
  (∀ t, t - day < zone.toLocal t ∧ zone.toLocal t < t + day) ∧
    ∀ w, w - day < zone.ofLocal w ∧ zone.ofLocal w < w + day

/-- A day or more inside the calendar. -/
def InCalendar (t : Instant) : Prop := datetimeMin + day ≤ t ∧ t ≤ datetimeMax - day

theorem InCalendar.checked {t : Instant} (h : InCalendar t) : checkedInstant t = .ok t := by
  obtain ⟨h₁, h₂⟩ := h
  refine checkedInstant_ok ?_ ?_
  · exact Int.le_trans (Int.le_add_of_nonneg_right (by decide)) h₁
  · exact Int.le_trans h₂ (Int.sub_le_self _ (by decide))

/-- The minute after the one of an instant inside the calendar. -/
theorem InCalendar.floor_next {t : Instant} (h : InCalendar t) :
    checkedInstant (floorMinute t + minute) = .ok (floorMinute t + minute) ∧
      datetimeMin + day ≤ floorMinute t + minute := by
  have hlt := lt_floorMinute_add t
  have hle := floorMinute_le t
  obtain ⟨h₁, h₂⟩ := h
  have hmin : datetimeMin + day ≤ floorMinute t + minute := Int.le_trans h₁ (Int.le_of_lt hlt)
  refine ⟨checkedInstant_ok ?_ ?_, hmin⟩
  · exact Int.le_trans (Int.le_add_of_nonneg_right (by decide)) hmin
  · refine Int.le_trans (Int.add_le_add_right (Int.le_trans hle h₂) minute) ?_
    decide

theorem cronFrom_total (hz : zone.OffsetOk) (ht : datetimeMin + day ≤ t)
    (hs : stop ≤ datetimeMax - day) : ∃ l, cronFrom zone cron stop t = .ok l := by
  induction t using walk_induction stop with
  | past t hlt => exact ⟨[], cronFrom_of_lt hlt⟩
  | again t hle ih =>
    obtain ⟨rest, hr⟩ := ih (Int.le_trans ht (Int.le_add_of_nonneg_right (by decide)))
    have hlocal := hz.1 t
    have hw : checkedInstant (zone.toLocal t) = .ok (zone.toLocal t) :=
      checkedInstant_ok (by unfold Instant at *; omega) (by unfold Instant at *; omega)
    have hn : checkedInstant (t + minute) = .ok (t + minute) :=
      checkedInstant_ok (by unfold Instant minute second at *; omega)
        (by unfold Instant datetimeMax day hour minute second at *; omega)
    refine ⟨if cron.matchesLocal (zone.toLocal t) then t :: rest else rest, ?_⟩
    rw [cronFrom_of_le hle, hw, hn]
    simp only [bind, Except.bind, hr]

end Walk

section Windows

variable {txt : TextPrims} {zone : Zone} {expression : String} {cron : CronExpression}
  {start stop : Instant} {l : List Instant}

theorem cronInstants_eq (hparse : CronExpression.parse txt expression = .ok cron)
    (hstart : checkedInstant start = .ok start)
    (hnext : checkedInstant (floorMinute start + minute) = .ok (floorMinute start + minute))
    (hstop : checkedInstant stop = .ok stop) :
    cronInstants txt zone expression start stop =
      cronFrom zone cron stop (floorMinute start + minute) := by
  simp only [cronInstants, hparse, hstart, hnext, hstop, bind, Except.bind]

theorem of_cronInstants (hparse : CronExpression.parse txt expression = .ok cron)
    (h : cronInstants txt zone expression start stop = .ok l) :
    cronFrom zone cron stop (floorMinute start + minute) = .ok l := by
  obtain ⟨cron', hcron, h⟩ := bind_eq_ok.mp h
  obtain ⟨start', hstart, h⟩ := bind_eq_ok.mp h
  obtain ⟨t, ht, h⟩ := bind_eq_ok.mp h
  obtain ⟨stop', hstop, h⟩ := bind_eq_ok.mp h
  obtain rfl := Except.ok.inj (hparse.symm.trans hcron)
  rw [checkedInstant_eq hstart] at ht
  rw [checkedInstant_eq ht, checkedInstant_eq hstop] at h
  exact h

theorem firing_window {u : Instant} (hu : Firing zone cron u) :
    floorMinute start + minute ≤ u ↔ start < u := by
  constructor
  · exact (lt_floorMinute_add start).trans_le
  · exact fun h => whole_next (floorMinute_whole start) hu.whole ((floorMinute_le start).trans_lt h)

/-- The instants of a window are its whole minutes whose local fields match. -/
theorem mem_cronInstants (hparse : CronExpression.parse txt expression = .ok cron)
    (h : cronInstants txt zone expression start stop = .ok l) {u : Instant} :
    u ∈ l ↔ (start < u ∧ u ≤ stop) ∧ Firing zone cron u := by
  rw [(cronFrom_spec (whole_add (floorMinute_whole start)) (of_cronInstants hparse h)).1]
  exact and_congr_left fun hu => and_congr_left' (firing_window hu)

theorem cronInstants_sorted (hparse : CronExpression.parse txt expression = .ok cron)
    (h : cronInstants txt zone expression start stop = .ok l) : l.Pairwise (· < ·) :=
  (cronFrom_spec (whole_add (floorMinute_whole start)) (of_cronInstants hparse h)).2

theorem cronInstants_total (hparse : CronExpression.parse txt expression = .ok cron)
    (hz : zone.OffsetOk) (hstart : InCalendar start) (hstop : InCalendar stop) :
    ∃ l, cronInstants txt zone expression start stop = .ok l := by
  obtain ⟨hnext, hinside⟩ := hstart.floor_next
  obtain ⟨l, hl⟩ := @cronFrom_total _ cron _ _ hz hinside hstop.2
  exact ⟨l, (cronInstants_eq hparse hstart.checked hnext hstop.checked).trans hl⟩

theorem checkedInstant_between {a b c : Instant} (hab : a ≤ b) (hbc : b ≤ c)
    (ha : checkedInstant a = .ok a) (hc : checkedInstant c = .ok c) : checkedInstant b = .ok b := by
  exact checkedInstant_ok ((checkedInstant_range ha).1.trans hab)
    (hbc.trans (checkedInstant_range hc).2)

theorem checkedInstant_cases (t : Instant) :
    checkedInstant t = .ok t ∨ checkedInstant t = .error outOfRange := by
  unfold checkedInstant
  split
  · exact .inl rfl
  · exact .inr rfl

/-- A window is two windows end to end: the same instants, and the same error when there is one. -/
theorem cronInstants_append {a b c : Instant} (hab : a ≤ b) (hbc : b ≤ c) :
    cronInstants txt zone expression a c = (do
      let first ← cronInstants txt zone expression a b
      let rest ← cronInstants txt zone expression b c
      .ok (first ++ rest)) := by
  unfold cronInstants
  cases CronExpression.parse txt expression with
  | error e => rfl
  | ok cron =>
    rcases checkedInstant_cases a with ha | ha
    swap
    · simp only [ha, bind, Except.bind]
    rcases checkedInstant_cases (floorMinute a + minute) with hn | hn
    swap
    · simp only [ha, hn, bind, Except.bind]
    rcases checkedInstant_cases c with hc | hc
    · have hb := checkedInstant_between hab hbc ha hc
      have hfloor : floorMinute a + minute ≤ floorMinute b + minute :=
        Int.add_le_add_right (whole_le_floor (floorMinute_whole a) ((floorMinute_le a).trans hab)) _
      simp only [ha, hb, hc, hn, bind, Except.bind]
      rw [cronFrom_append hbc (whole_add (floorMinute_whole a)) hfloor hn]
      cases cronFrom zone cron b (floorMinute a + minute) with
      | error e => rfl
      | ok first => cases checkedInstant (floorMinute b + minute) <;> rfl
    · rcases checkedInstant_cases b with hb | hb
      swap
      · simp only [ha, hb, hc, hn, bind, Except.bind]
      simp only [ha, hb, hc, hn, bind, Except.bind]
      cases hw : cronFrom zone cron b (floorMinute a + minute) with
      | error e => rw [cronFrom_error hw]
      | ok first =>
        rcases checkedInstant_cases (floorMinute b + minute) with hm | hm <;> simp only [hm]

end Windows

/-! ## The cadence -/

section Cadence

variable {l : List Instant}

/-- Between two instants of a list there is a gap that is no longer than they are apart. -/
theorem exists_gap_le (hs : l.Pairwise (· < ·)) {a b : Instant} (ha : a ∈ l) (hb : b ∈ l)
    (hab : a < b) : ∃ g ∈ gapsBetween l, g ≤ b - a := by
  induction l with
  | nil => exact absurd ha List.not_mem_nil
  | cons x rest ih =>
    obtain ⟨hx, hrest⟩ := List.pairwise_cons.mp hs
    cases rest with
    | nil => exact absurd hab (by simp_all)
    | cons y ys =>
      have hgaps : gapsBetween (x :: y :: ys) = (y - x) :: gapsBetween (y :: ys) := rfl
      rw [hgaps]
      rcases List.mem_cons.mp ha with rfl | ha
      · have hb' : b ∈ y :: ys := (List.mem_cons.mp hb).resolve_left hab.ne'
        have hyb : y ≤ b := by
          rcases List.mem_cons.mp hb' with rfl | hb'
          · exact le_rfl
          · exact ((List.pairwise_cons.mp hrest).1 b hb').le
        exact ⟨y - a, List.mem_cons_self, Int.sub_le_sub_right hyb a⟩
      · have hb' : b ∈ y :: ys :=
          (List.mem_cons.mp hb).resolve_left fun h => lt_asymm hab (h ▸ hx a ha)
        obtain ⟨g, hg, hle⟩ := ih hrest ha hb'
        exact ⟨g, List.mem_cons_of_mem _ hg, hle⟩

theorem minute_le_gap (hs : l.Pairwise (· < ·)) (hw : ∀ t ∈ l, t % minute = 0) {g : Duration}
    (hg : g ∈ gapsBetween l) : minute ≤ g := by
  induction l with
  | nil => exact absurd hg List.not_mem_nil
  | cons x rest ih =>
    obtain ⟨hx, hrest⟩ := List.pairwise_cons.mp hs
    cases rest with
    | nil => exact absurd hg List.not_mem_nil
    | cons y ys =>
      have hgaps : gapsBetween (x :: y :: ys) = (y - x) :: gapsBetween (y :: ys) := rfl
      rw [hgaps] at hg
      rcases List.mem_cons.mp hg with rfl | hg
      · have hnext := whole_next (hw x List.mem_cons_self)
          (hw y (List.mem_cons_of_mem x List.mem_cons_self)) (hx y List.mem_cons_self)
        exact Int.le_sub_left_of_add_le hnext
      · exact ih hrest (fun t ht => hw t (List.mem_cons_of_mem x ht)) hg

variable {txt : TextPrims} {zone : Zone} {expression : String} {cron : CronExpression}

/-- A cadence that fires in two consecutive minutes around the reference is a minute. -/
theorem cadenceOf_minute (hparse : CronExpression.parse txt expression = .ok cron)
    (hz : zone.OffsetOk) {reference a : Instant} (hstart : InCalendar (reference - day))
    (hstop : InCalendar (reference + day)) (ha : Firing zone cron a)
    (hb : Firing zone cron (a + minute)) (hafter : reference - day < a)
    (hbefore : a + minute ≤ reference + day) :
    cadenceOf txt zone expression reference = .ok minute := by
  obtain ⟨l, hl⟩ := cronInstants_total hparse hz hstart hstop
  have hsorted := cronInstants_sorted hparse hl
  have hlt : a < a + minute := Int.lt_add_of_pos_right a (by decide)
  have hmem := (mem_cronInstants hparse hl).mpr ⟨⟨hafter, hlt.le.trans hbefore⟩, ha⟩
  have hmem' := (mem_cronInstants hparse hl).mpr ⟨⟨hafter.trans hlt, hbefore⟩, hb⟩
  have hge : ∀ g ∈ gapsBetween l, minute ≤ g := fun g =>
    minute_le_gap hsorted fun t ht => ((mem_cronInstants hparse hl).mp ht).2.whole
  obtain ⟨g, hg, hle⟩ := exists_gap_le hsorted hmem hmem' hlt
  have hgm : g = minute := le_antisymm (hle.trans (add_sub_cancel_left a minute).le) (hge g hg)
  have hmin : (gapsBetween l).min? = some minute :=
    List.min?_eq_some_iff.mpr ⟨hgm ▸ hg, hge⟩
  simp only [cadenceOf, hstart.checked, hstop.checked, bind, Except.bind, hl, hmin,
    Option.getD_some]

end Cadence

end EnergyPlatform
