import EnergyPlatform.Contracts.Ascii

/-!
# Contracts.Calendar

Dates and stamps as texts determine what they are the text of.

`dayOfCivil_civilOfDay`: a day is read back from its civil fields. `minuteText_inj` and
`stampText_inj`: in the years 1 to 9999 two whole minutes, or two seconds, have different texts.
-/

namespace EnergyPlatform

/-! ## Eras

An era has 400 years. The day `doe` of it is in the year `y`, where `g`, `e` and `f` count the
four-year spans, the centuries and the eras that `doe` has completed, nearly. -/

section Eras

variable {doe g e f y b c : Nat}

theorem century_of_era (hg : 1460 * g ≤ doe ∧ doe < 1460 * (g + 1))
    (he : 36524 * e ≤ doe ∧ doe < 36524 * (e + 1))
    (hf : f = 0 ∧ doe < 146096 ∨ f = 1 ∧ doe = 146096)
    (hy : 365 * y + g + f ≤ doe + e ∧ doe + e < 365 * (y + 1) + g + f)
    (hc : 100 * c ≤ y ∧ y < 100 * (c + 1)) : c + f = e := by
  have he4 : e ≤ 4 := by omega
  obtain ⟨rfl, hd⟩ | ⟨rfl, rfl⟩ := hf
  · interval_cases e
    all_goals
      apply Nat.le_antisymm
      · by_contra hlt
        have : 100 * c ≥ 100 * e + 100 := by omega
        omega
      · omega
  · omega

theorem quad_of_era (hg : 1460 * g ≤ doe ∧ doe < 1460 * (g + 1))
    (he : 36524 * e ≤ doe ∧ doe < 36524 * (e + 1))
    (hf : f = 0 ∧ doe < 146096 ∨ f = 1 ∧ doe = 146096)
    (hy : 365 * y + g + f ≤ doe + e ∧ doe + e < 365 * (y + 1) + g + f)
    (hc : 100 * c ≤ y ∧ y < 100 * (c + 1)) (hb : 4 * b ≤ y ∧ y < 4 * (b + 1)) :
    b ≤ g ∧ g ≤ b + 1 ∧ y < 400 := by
  have hcentury := century_of_era hg he hf hy hc
  have he4 : e ≤ 4 := by omega
  have hb : b ≤ g := by
    by_contra hlt
    have : g + 1 ≤ b := by omega
    interval_cases e
    all_goals omega
  refine ⟨hb, ?_, ?_⟩
  · by_contra hlt
    have : b + 2 ≤ g := by omega
    interval_cases e
    all_goals omega
  · omega

theorem year_of_era (hg : 1460 * g ≤ doe ∧ doe < 1460 * (g + 1))
    (he : 36524 * e ≤ doe ∧ doe < 36524 * (e + 1))
    (hf : f = 0 ∧ doe < 146096 ∨ f = 1 ∧ doe = 146096)
    (hy : 365 * y + g + f ≤ doe + e ∧ doe + e < 365 * (y + 1) + g + f)
    (hc : 100 * c ≤ y ∧ y < 100 * (c + 1)) (hb : 4 * b ≤ y ∧ y < 4 * (b + 1)) :
    y < 400 ∧ 365 * y + b ≤ doe + c ∧ doe + c < 365 * y + b + 366 := by
  have hcentury := century_of_era hg he hf hy hc
  obtain ⟨h₁, h₂, h₃⟩ := quad_of_era hg he hf hy hc hb
  refine ⟨h₃, ?_, ?_⟩
  · omega
  · omega

end Eras

/-! ## Days -/

/-- A day of the year that starts in March, as a month and a day of it. -/
theorem month_of_year {doy : Nat} (h : doy < 366) :
    (5 * doy + 2) / 153 ≤ 11 ∧ (153 * ((5 * doy + 2) / 153) + 2) / 5 ≤ doy ∧
      doy - (153 * ((5 * doy + 2) / 153) + 2) / 5 < 31 := by
  omega

/-- The fields of day `doy` of the year `yoe` of an era; the year starts in March. -/
def civilOfYear (era : Int) (yoe doy : Nat) : Civil :=
  let mp := (5 * doy + 2) / 153
  let month := if mp < 10 then mp + 3 else mp - 9
  ⟨yoe + era * 400 + (if month ≤ 2 then 1 else 0), month, doy - (153 * mp + 2) / 5 + 1⟩

/-- The year of an era that the day `doe` of it falls in. -/
def yearOfEra (doe : Nat) : Nat := (doe - doe / 1460 + doe / 36524 - doe / 146096) / 365

theorem yearOfEra_bounds {doe : Nat} (h : doe < 146097) :
    365 * yearOfEra doe + doe / 1460 + doe / 146096 ≤ doe + doe / 36524 ∧
      doe + doe / 36524 < 365 * (yearOfEra doe + 1) + doe / 1460 + doe / 146096 := by
  unfold yearOfEra
  omega

theorem yearOfEra_spec {doe : Nat} (h : doe < 146097) :
    yearOfEra doe < 400 ∧ 365 * yearOfEra doe + yearOfEra doe / 4 ≤ doe + yearOfEra doe / 100 ∧
      doe + yearOfEra doe / 100 < 365 * yearOfEra doe + yearOfEra doe / 4 + 366 := by
  have hyear := yearOfEra_bounds h
  exact year_of_era (by omega) (by omega) (by omega) hyear (by omega) (by omega)

/-- The day with its year and its number in the year. -/
structure Dated (d : Day) (era : Int) (yoe doy : Nat) : Prop where
  year : yoe < 400
  day : doy < 366
  eq : (d : Int) + 719468 = era * 146097 + (yoe * 365 + yoe / 4 - yoe / 100 + doy : Nat)
  civil : civilOfDay d = civilOfYear era yoe doy

theorem dated_of_era {d : Day} {doe : Nat} (hdoe : ((d : Int) + 719468) % 146097 = doe) :
    Dated d ((d + 719468) / 146097) (yearOfEra doe)
      (doe - (365 * yearOfEra doe + yearOfEra doe / 4 - yearOfEra doe / 100)) := by
  have hlt := Int.emod_lt_of_pos (d + 719468) (by decide : (0 : Int) < 146097)
  have hdm := Int.mul_ediv_add_emod (d + 719468) 146097
  rw [hdoe] at hlt hdm
  have hnat : ((d + 719468) % 146097).toNat = doe := by rw [hdoe]; rfl
  obtain ⟨h₁, h₂, h₃⟩ := yearOfEra_spec (by omega : doe < 146097)
  refine ⟨h₁, by omega, ?_, ?_⟩
  · have hsum : yearOfEra doe * 365 + yearOfEra doe / 4 - yearOfEra doe / 100 +
        (doe - (365 * yearOfEra doe + yearOfEra doe / 4 - yearOfEra doe / 100)) = doe := by omega
    rw [hsum, Int.mul_comm]
    exact hdm.symm
  · rw [← hnat]
    rfl

theorem dated (d : Day) : ∃ era yoe doy, Dated d era yoe doy := by
  obtain ⟨doe, hdoe⟩ := Int.eq_ofNat_of_zero_le
    (Int.emod_nonneg (d + 719468) (by decide : (146097 : Int) ≠ 0))
  exact ⟨_, _, _, dated_of_era hdoe⟩

/-- A day is read back from its civil fields. -/
theorem dayOfCivil_civilOfDay {d : Int} (h : 0 ≤ (civilOfDay d).year) :
    Ascii.dayOfCivil (civilOfDay d).year.toNat (civilOfDay d).month (civilOfDay d).day = d := by
  obtain ⟨era, yoe, doy, hyear, hday, heq, hcivil⟩ := dated d
  rw [hcivil] at h ⊢
  obtain ⟨hm, hle, -⟩ := month_of_year hday
  unfold civilOfYear at h ⊢
  unfold Ascii.dayOfCivil
  generalize hmp : (5 * doy + 2) / 153 = mp at *
  dsimp only at h ⊢
  by_cases hten : mp < 10
  · simp only [if_pos hten] at h ⊢
    have hnot : ¬ mp + 3 ≤ 2 := by omega
    have htwo : 2 < mp + 3 := by omega
    simp only [if_neg hnot, if_pos htwo] at h ⊢
    unfold Day at *
    omega
  · simp only [if_neg hten] at h ⊢
    have hle2 : mp - 9 ≤ 2 := by omega
    have hnot : ¬ 2 < mp - 9 := by omega
    simp only [if_pos hle2, if_neg hnot] at h ⊢
    unfold Day at *
    omega

theorem civil_bounds {d : Day} (h : dateMin ≤ d ∧ d ≤ dateMax) :
    0 ≤ (civilOfDay d).year ∧ (civilOfDay d).year ≤ 9999 ∧ (civilOfDay d).month ≤ 12 ∧
      (civilOfDay d).day ≤ 31 := by
  obtain ⟨era, yoe, doy, hyear, hday, heq, hcivil⟩ := dated d
  obtain ⟨hm, hle, hlt⟩ := month_of_year hday
  obtain ⟨h₁, h₂⟩ := h
  rw [hcivil]
  unfold civilOfYear
  unfold dateMin dateMax Day at *
  generalize hmp : (5 * doy + 2) / 153 = mp at *
  dsimp only
  by_cases hten : mp < 10
  · have hnot : ¬ mp + 3 ≤ 2 := by omega
    simp only [if_pos hten, if_neg hnot]
    omega
  · have hle2 : mp - 9 ≤ 2 := by omega
    simp only [if_neg hten, if_pos hle2]
    omega

theorem civilOfDay_inj {d e : Day} (hd : dateMin ≤ d ∧ d ≤ dateMax)
    (h : civilOfDay d = civilOfDay e) : d = e := by
  have hyear := (civil_bounds hd).1
  rw [← dayOfCivil_civilOfDay hyear, h, dayOfCivil_civilOfDay (h ▸ hyear)]

/-! ## Texts -/

theorem pad_toList (width n : Nat) : (pad width n).toList =
    List.replicate (width - (Nat.toDigits 10 n).length) '0' ++ Nat.toDigits 10 n := by
  simp [pad, Nat.repr_eq_ofList_toDigits]

theorem pad_value (width n : Nat) : Nat.ofDigitChars 10 (pad width n).toList 0 = n := by
  rw [pad_toList, Nat.ofDigitChars_append, Nat.ofDigitChars_replicate_zero, Nat.mul_zero,
    Nat.ofDigitChars_ten_toDigits]

theorem pad_inj {width n m : Nat} (h : pad width n = pad width m) : n = m := by
  rw [← pad_value width n, h, pad_value]

theorem pad_length {width n : Nat} (hw : 0 < width) (h : n < 10 ^ width) :
    (pad width n).toList.length = width := by
  have hlen := (Nat.length_toDigits_le_iff (by decide : 1 < 10) hw).mpr h
  rw [pad_toList, List.length_append, List.length_replicate]
  omega

/-- Two texts that start with parts of one length agree part by part. -/
theorem append_parts {a b x y : String} (hlen : a.toList.length = b.toList.length)
    (h : a ++ x = b ++ y) : a = b ∧ x = y := by
  have hlist := congrArg String.toList h
  rw [String.toList_append, String.toList_append] at hlist
  obtain ⟨h₁, h₂⟩ := List.append_inj hlist hlen
  exact ⟨String.toList_inj.mp h₁, String.toList_inj.mp h₂⟩

/-- A padded number in front of a text is read off it. -/
theorem pad_front {width n m : Nat} {x y : String} (hw : 0 < width) (hn : n < 10 ^ width)
    (hm : m < 10 ^ width) (h : pad width n ++ x = pad width m ++ y) : n = m ∧ x = y := by
  obtain ⟨h₁, h₂⟩ := append_parts ((pad_length hw hn).trans (pad_length hw hm).symm) h
  exact ⟨pad_inj h₁, h₂⟩

theorem isoDate_length {d : Day} (h : dateMin ≤ d ∧ d ≤ dateMax) :
    (isoDate d).toList.length = 10 := by
  obtain ⟨h₀, h₁, h₂, h₃⟩ := civil_bounds h
  unfold isoDate
  simp only [String.toList_append, List.length_append]
  rw [pad_length (by decide) (by omega), pad_length (by decide) (by omega),
    pad_length (by decide) (by omega)]
  rfl

theorem isoDate_inj {d e : Day} (hd : dateMin ≤ d ∧ d ≤ dateMax) (he : dateMin ≤ e ∧ e ≤ dateMax)
    (h : isoDate d = isoDate e) : d = e := by
  obtain ⟨hd₀, hd₁, hd₂, hd₃⟩ := civil_bounds hd
  obtain ⟨he₀, he₁, he₂, he₃⟩ := civil_bounds he
  refine civilOfDay_inj hd ?_
  unfold isoDate at h
  simp only [String.append_assoc] at h
  obtain ⟨hy, h⟩ := pad_front (by decide) (by omega) (by omega) h
  obtain ⟨hm, h⟩ := pad_front (by decide) (by omega) (by omega) (append_parts rfl h).2
  have hday := pad_inj (append_parts rfl h).2
  generalize civilOfDay d = c at *
  generalize civilOfDay e = c' at *
  obtain ⟨y, m, a⟩ := c
  obtain ⟨y', m', a'⟩ := c'
  dsimp only at *
  rw [hm, hday]
  congr 1
  omega

/-- A stamp in front of a text is read off it. -/
theorem stamp_parts {d e : Day} {x y : String} (hd : dateMin ≤ d ∧ d ≤ dateMax)
    (he : dateMin ≤ e ∧ e ≤ dateMax) (h : isoDate d ++ x = isoDate e ++ y) : d = e ∧ x = y := by
  obtain ⟨h₁, h₂⟩ := append_parts ((isoDate_length hd).trans (isoDate_length he).symm) h
  exact ⟨isoDate_inj hd he h₁, h₂⟩

/-- The day of an instant of the calendar. -/
theorem day_bounds {t : Int} (h : datetimeMin ≤ t ∧ t ≤ datetimeMax) :
    dateMin ≤ t / day ∧ t / day ≤ dateMax := by
  unfold datetimeMin datetimeMax second at h
  unfold dateMin dateMax day hour minute second
  unfold Instant Duration Day at *
  omega

theorem minuteText_length {t : Int} (h : datetimeMin ≤ t ∧ t ≤ datetimeMax) :
    (minuteText t).toList.length = 17 := by
  unfold minuteText
  simp only [String.toList_append, List.length_append]
  rw [isoDate_length (day_bounds h), pad_length (by decide) (by omega),
    pad_length (by decide) (by omega)]
  rfl

/-- Whole minutes of the calendar have different texts. -/
theorem minuteText_inj {t u : Int} (ht : datetimeMin ≤ t ∧ t ≤ datetimeMax)
    (hu : datetimeMin ≤ u ∧ u ≤ datetimeMax) (htw : t % minute = 0) (huw : u % minute = 0)
    (h : minuteText t = minuteText u) : t = u := by
  unfold minuteText at h
  simp only [String.append_assoc] at h
  obtain ⟨hday, h⟩ := stamp_parts (day_bounds ht) (day_bounds hu) h
  obtain ⟨hh, h⟩ := pad_front (by decide) (by omega) (by omega) (append_parts rfl h).2
  obtain ⟨hm, -⟩ := pad_front (by decide) (by omega) (by omega) (append_parts rfl h).2
  unfold day hour minute second at *
  unfold Duration Day at *
  omega

/-- The seconds of the calendar have different stamps. -/
theorem stampText_inj {s r : Int} (hs : datetimeMin ≤ s * second ∧ s * second ≤ datetimeMax)
    (hr : datetimeMin ≤ r * second ∧ r * second ≤ datetimeMax) (h : stampText s = stampText r) :
    s = r := by
  unfold stampText at h
  simp only [String.append_assoc] at h
  have hbounds : ∀ x : Int, datetimeMin ≤ x * second ∧ x * second ≤ datetimeMax →
      dateMin ≤ x / 86400 ∧ x / 86400 ≤ dateMax := by
    intro x hx
    unfold datetimeMin datetimeMax second at hx
    unfold dateMin dateMax
    unfold Instant Duration Day at *
    omega
  obtain ⟨hday, h⟩ := stamp_parts (hbounds s hs) (hbounds r hr) h
  obtain ⟨hh, h⟩ := pad_front (by decide) (by omega) (by omega) (append_parts rfl h).2
  obtain ⟨hm, h⟩ := pad_front (by decide) (by omega) (by omega) h
  obtain ⟨hsec, -⟩ := pad_front (by decide) (by omega) (by omega) h
  unfold Day at hday
  omega

/-! ## Reading texts back -/

theorem number_foldl {l : List Char} (h : ∀ c ∈ l, c.isDigit = true) (n : Nat) :
    l.foldl (fun n c => n.bind fun n => (Ascii.digit c).map fun d => 10 * n + d) (some n) =
      some (Nat.ofDigitChars 10 l n) := by
  induction l generalizing n with
  | nil => rfl
  | cons c rest ih =>
    have hc : Ascii.digit c = some (c.toNat - 48) := if_pos (h c List.mem_cons_self)
    rw [List.foldl_cons, Nat.ofDigitChars_cons]
    simp only [Option.bind_some, hc, Option.map_some]
    exact ih (fun c hc => h c (List.mem_cons_of_mem _ hc)) _

theorem number_digits {l : List Char} (h : ∀ c ∈ l, c.isDigit = true) (hl : l ≠ []) :
    Ascii.number l = some (Nat.ofDigitChars 10 l 0) := by
  rw [Ascii.number, if_neg hl, number_foldl h]

theorem isDigit_pad {width n : Nat} {c : Char} (h : c ∈ (pad width n).toList) :
    c.isDigit = true := by
  rw [pad_toList, List.mem_append] at h
  rcases h with h | h
  · rw [(List.mem_replicate.mp h).2]
    rfl
  · exact Nat.isDigit_of_mem_toDigits (by decide) (by decide) h

theorem number_pad {width n : Nat} : Ascii.number (pad width n).toList = some n := by
  have hne : (pad width n).toList ≠ [] := by
    rw [pad_toList]
    simp
  rw [number_digits (fun c => isDigit_pad) hne, pad_value]

theorem number_toString (n : Nat) : Ascii.number (toString n).toList = some n := by
  have hlist : (toString n).toList = Nat.toDigits 10 n := by simp [Nat.repr_eq_ofList_toDigits]
  rw [hlist, number_digits (fun c => Nat.isDigit_of_mem_toDigits (by decide) (by decide))
    Nat.toDigits_ne_nil, Nat.ofDigitChars_ten_toDigits]

/-- The digits of a number of two. -/
theorem pad_two {n : Nat} (h : n < 100) : ∃ a b, (pad 2 n).toList = [a, b] :=
  List.length_eq_two.mp (pad_length (by decide) h)

theorem pad_four {n : Nat} (h : n < 10000) : ∃ a b c d, (pad 4 n).toList = [a, b, c, d] := by
  have hlen := pad_length (by decide : 0 < 4) h
  match hl : (pad 4 n).toList with
  | [a, b, c, d] => exact ⟨a, b, c, d, rfl⟩
  | [] | [_] | [_, _] | [_, _, _] | _ :: _ :: _ :: _ :: _ :: _ => rw [hl] at hlen; simp at hlen

/-- A date is read back from its text. -/
theorem dateOfIso_isoDate {d : Day} (h : dateMin ≤ d ∧ d ≤ dateMax) :
    Ascii.dateOfIso (isoDate d) = some d := by
  obtain ⟨h₀, h₁, h₂, h₃⟩ := civil_bounds h
  obtain ⟨a, b, c, e, hy⟩ := pad_four (by omega : (civilOfDay d).year.toNat < 10000)
  obtain ⟨f, g, hm⟩ := pad_two (by omega : (civilOfDay d).month < 100)
  obtain ⟨i, j, hd⟩ := pad_two (by omega : (civilOfDay d).day < 100)
  have hlist : (isoDate d).toList = [a, b, c, e, '-', f, g, '-', i, j] := by
    unfold isoDate
    simp only [String.toList_append, hy, hm, hd]
    rfl
  have hback := dayOfCivil_civilOfDay h₀
  have hciv : civilOfDay d =
      ⟨(civilOfDay d).year.toNat, (civilOfDay d).month, (civilOfDay d).day⟩ := by
    rw [Int.toNat_of_nonneg h₀]
  have hyear := hy ▸ @number_pad 4 (civilOfDay d).year.toNat
  have hmonth := hm ▸ @number_pad 2 (civilOfDay d).month
  have hday := hd ▸ @number_pad 2 (civilOfDay d).day
  unfold Ascii.dateOfIso
  rw [hlist]
  simp only [hyear, hmonth, hday, Option.bind_eq_bind, Option.bind_some, hback]
  exact if_pos hciv

end EnergyPlatform
