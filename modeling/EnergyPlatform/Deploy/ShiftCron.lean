import EnergyPlatform.Contracts.Ascii
import EnergyPlatform.Runtime.Cron

/-!
# Deploy.ShiftCron

The cron of the process job: the cadence of a target with its minutes shifted, as text.

* `field_everyText`, `field_list`: the text that is written for the minute field, read again.
* `firing_shifted`: shifted minutes that do not wrap move every firing instant.
* `shift_keeps_iff`: exactly when the shifted cron fires an offset after the cadence, every time.
-/

namespace EnergyPlatform

namespace ShiftCron

section Shift

variable (txt : TextPrims)

/-- `part.isdigit()`. -/
def isDigits (part : Text) : Bool := !part.isEmpty && part.all txt.isDigit

/-- The step of a minute field `*/N`. -/
def starStep (minute : Text) : Option Text :=
  match minute with
  | '*' :: '/' :: step => if isDigits txt step then some step else none
  | _ => none

/-- `f"{offset}-59/{step}"`. -/
def everyText (offset step : Int) : Text :=
  (toString offset).toList ++ '-' :: ("59".toList ++ '/' :: (toString step).toList)

/-- The minute field shifted, when it is one of the forms that are shifted. -/
def shiftedMinute (minute : Text) (offset : Int) : Except PyError (Option Text) :=
  if minute = ['*'] then .ok (some (everyText offset 1))
  else
    match starStep txt minute with
    | some stepText => do
      let step ← intOfText txt (String.ofList stepText)
      .ok (if step ≤ offset then none else some (everyText offset step))
    | none =>
      if (splitChar ',' minute).all (isDigits txt) then do
        let values ← (splitChar ',' minute).mapM fun part => intOfText txt (String.ofList part)
        let values := values.map fun v => v + offset
        .ok (if values.any fun v => 59 < v then none
          else some (List.intercalate [','] (values.map fun v => (toString v).toList)))
      else .ok none

/-- The expression with the shifted field, or as it was. -/
def rejoin (cron : String) (rest : List String) : Option Text → String
  | some field => " ".intercalate (String.ofList field :: rest)
  | none => cron

def shiftCronMinutes (cron : String) (offset : Int) : Except PyError String :=
  match txt.words cron with
  | [minute, hour, day, month, weekday] =>
    if offset ≤ 0 then .ok cron
    else do
      let shifted ← shiftedMinute txt minute.toList offset
      .ok (rejoin cron [hour, day, month, weekday] shifted)
  | _ => .ok cron

end Shift

example : shiftCronMinutes Ascii.text "*/15 * * * *" 3 = .ok "3-59/15 * * * *" := by decide

example : shiftCronMinutes Ascii.text "0,58 6 * * *" 3 = .ok "0,58 6 * * *" := by decide

/-! ## What is known of the text routines -/

/-- The characters that a shifted minute field is written in. -/
def FieldChar (c : Char) : Prop := c.isDigit = true ∨ c = '-' ∨ c = '/' ∨ c = ','

/-- `str.split` gives words that are not split further; words joined by blanks are split again; a
text of digits and marks is a word; `int` reads an ASCII digit as its value, and none as ten or
more; `strip` leaves ASCII digits alone; the marks of a cron are no digits. -/
structure FieldTexts (txt : TextPrims) : Prop where
  word : ∀ s, ∀ w ∈ txt.words s, txt.words w = [w]
  join : ∀ ws, (∀ w ∈ ws, txt.words w = [w]) → txt.words (" ".intercalate ws) = ws
  field : ∀ l : Text, l ≠ [] → (∀ c ∈ l, FieldChar c) → txt.words (String.ofList l) = [String.ofList l]
  digit : ∀ c : Char, c.isDigit = true → txt.digit c = some (c.toNat - 48)
  digit_lt : ∀ c d, txt.digit c = some d → d < 10
  strip : ∀ l : Text, (∀ c ∈ l, c.isDigit = true) → txt.strip (String.ofList l) = String.ofList l
  marks : txt.isDigit '*' = false ∧ txt.isDigit '/' = false ∧ txt.isDigit '-' = false ∧
    txt.isDigit ',' = false

/-! ## Reading numbers -/

section Numbers

variable {txt : TextPrims}

theorem underscored_digits (htxt : FieldTexts txt) (l : Text) (h : ∀ c ∈ l, c.isDigit = true) (n len : ℕ) :
    underscoredDigits txt true n len l = some (Nat.ofDigitChars 10 l n, len + l.length) := by
  induction l generalizing n len with
  | nil => rfl
  | cons c rest ih =>
    have hc := h c List.mem_cons_self
    have hne : c ≠ '_' := by
      rintro rfl
      revert hc
      decide
    rw [underscoredDigits, if_neg hne, htxt.digit c hc, Nat.ofDigitChars_cons]
    have hrest := ih (fun d hd => h d (List.mem_cons_of_mem _ hd)) (10 * n + (c.toNat - 48)) (len + 1)
    rw [List.length_cons, Nat.add_comm rest.length, ← Nat.add_assoc]
    exact hrest

/-- `int` of ASCII digits. -/
theorem int_digits (htxt : FieldTexts txt) {l : Text} (hne : l ≠ []) (h : ∀ c ∈ l, c.isDigit = true)
    (hlen : l.length ≤ 4300) :
    intOfText txt (String.ofList l) = .ok (Nat.ofDigitChars 10 l 0 : ℕ) := by
  cases l with
  | nil => exact absurd rfl hne
  | cons c rest =>
    have hc := h c List.mem_cons_self
    have hplus : c ≠ '+' := by
      rintro rfl
      revert hc
      decide
    have hminus : c ≠ '-' := by
      rintro rfl
      revert hc
      decide
    have hunder : c ≠ '_' := by
      rintro rfl
      revert hc
      decide
    have hrun : underscoredDigits txt false 0 0 (c :: rest) =
        some (Nat.ofDigitChars 10 (c :: rest) 0, (c :: rest).length) := by
      rw [underscoredDigits, if_neg hunder, htxt.digit c hc, Nat.ofDigitChars_cons]
      have hrest := underscored_digits htxt rest (fun d hd => h d (List.mem_cons_of_mem _ hd))
        (10 * 0 + (c.toNat - 48)) (0 + 1)
      rw [List.length_cons, Nat.add_comm rest.length]
      simpa using hrest
    unfold intOfText
    rw [htxt.strip _ h, String.toList_ofList]
    split
    rename_i neg body heq
    split at heq
    · rename_i heq'
      exact absurd (List.cons.inj heq').1 hplus
    · rename_i heq'
      exact absurd (List.cons.inj heq').1 hminus
    · cases heq
      rw [hrun]
      dsimp only
      rw [intOfRun, if_pos hlen]
      rfl

theorem digits_toString (n : ℕ) : (toString (n : ℤ)).toList = Nat.toDigits 10 n := by
  have hnat : toString (n : ℤ) = toString n := rfl
  rw [hnat]
  simp [Nat.repr_eq_ofList_toDigits]

theorem isDigit_toString {n : ℕ} {c : Char} (h : c ∈ (toString (n : ℤ)).toList) :
    c.isDigit = true := by
  rw [digits_toString] at h
  exact Nat.isDigit_of_mem_toDigits (by decide) (by decide) h

theorem int_toString (htxt : FieldTexts txt) {n : ℕ} (hlen : (Nat.toDigits 10 n).length ≤ 4300) :
    intOfText txt (toString (n : ℤ)) = .ok (n : ℤ) := by
  have hne : Nat.toDigits 10 n ≠ [] := Nat.toDigits_ne_nil
  have hread := int_digits htxt hne (fun c hc => Nat.isDigit_of_mem_toDigits (by decide) (by decide) hc)
    hlen
  rw [Nat.ofDigitChars_ten_toDigits] at hread
  rw [← hread, ← digits_toString, String.ofList_toList]

/-- What `int` reads has no more digits than it was written with. -/
theorem underscored_lt (htxt : FieldTexts txt) {l : Text} : ∀ {b : Bool} {n len v k : ℕ}, n < 10 ^ len →
    underscoredDigits txt b n len l = some (v, k) → v < 10 ^ k := by
  induction l with
  | nil =>
    intro b n len v k hn h
    cases b with
    | true =>
      cases h
      exact hn
    | false => cases h
  | cons c rest ih =>
    intro b n len v k hn h
    rw [underscoredDigits] at h
    split at h
    · split at h
      · exact ih hn h
      · cases h
    · split at h
      · rename_i d hd
        have hlt := htxt.digit_lt c d hd
        refine ih ?_ h
        rw [pow_succ]
        omega
      · cases h

theorem int_length (htxt : FieldTexts txt) {s : String} {v : ℤ} (h : intOfText txt s = .ok v) :
    (Nat.toDigits 10 v.natAbs).length ≤ 4300 := by
  unfold intOfText at h
  split at h
  rename_i neg body _
  split at h
  · rename_i n len hrun
    by_cases hlen : len ≤ 4300
    · rw [intOfRun, if_pos hlen] at h
      have hn : n < 10 ^ len := underscored_lt htxt Nat.one_pos hrun
      have habs : v.natAbs = n := by
        cases neg with
        | true =>
          obtain rfl := Except.ok.inj h
          exact Int.natAbs_neg _
        | false =>
          obtain rfl := Except.ok.inj h
          rfl
      rw [habs]
      rcases Nat.eq_zero_or_pos len with rfl | hpos
      · obtain rfl : n = 0 := by omega
        decide
      · exact ((Nat.length_toDigits_le_iff (by decide) hpos).mpr hn).trans hlen
    · rw [intOfRun, if_neg hlen] at h
      cases h
  · cases h

end Numbers

/-! ## Reading minute fields -/

section Fields

variable {txt : TextPrims}

theorem mem_steps {a b s x : ℤ} (hs : 1 ≤ s) :
    x ∈ CronExpression.steps a b s ↔ a ≤ x ∧ x ≤ b ∧ (x - a) % s = 0 := by
  unfold CronExpression.steps
  simp only [bind_pure_comp, List.map_eq_map, List.mem_map, List.mem_range]
  constructor
  · rintro ⟨_, ⟨i, hi, rfl⟩, rfl⟩
    have hle : (i : ℤ) ≤ (b - a) / s := by omega
    have hmul := (Int.le_ediv_iff_mul_le (by omega)).mp hle
    have hpos : 0 ≤ (i : ℤ) * s := by positivity
    refine ⟨by omega, by omega, ?_⟩
    rw [add_sub_cancel_left, Int.mul_emod_left]
  · rintro ⟨h₁, h₂, h₃⟩
    obtain ⟨k, hk⟩ := Int.dvd_of_emod_eq_zero h₃
    have hk0 : 0 ≤ k := by
      by_contra hneg
      have : s * k ≤ s * (-1) := Int.mul_le_mul_of_nonneg_left (by omega) (by omega)
      omega
    refine ⟨k, ⟨k.toNat, ?_, Int.toNat_of_nonneg hk0⟩, ?_⟩
    · have hle : k ≤ (b - a) / s := (Int.le_ediv_iff_mul_le (by omega)).mpr (by
        rw [mul_comm]
        omega)
      omega
    · rw [mul_comm]
      omega

/-- A field of one part. -/
theorem field_single {text : String} {lo hi : ℤ} (h : ',' ∉ text.toList) :
    CronExpression.field txt text lo hi = CronExpression.part txt text lo hi text.toList := by
  rw [CronExpression.field, splitChar_of_not_mem h, List.mapM_cons, List.mapM_nil]
  cases CronExpression.part txt text lo hi text.toList with
  | error e => rfl
  | ok l =>
    change Except.ok ([l].flatten) = _
    rw [List.flatten_singleton]

theorem part_of_steps {text : String} {l rest : Text} {a b lo hi step : ℤ}
    (hstep : CronExpression.stepOf txt text l = .ok (rest, step))
    (hbounds : CronExpression.bounds txt lo hi rest step = .ok (a, b))
    (hrange : lo ≤ a ∧ a ≤ b ∧ b ≤ hi) :
    CronExpression.part txt text lo hi l = .ok (CronExpression.steps a b step) := by
  rw [CronExpression.part, hstep]
  change (CronExpression.bounds txt lo hi rest step >>= _) = _
  rw [hbounds]
  exact if_pos hrange

theorem of_part {text : String} {l : Text} {lo hi : ℤ} {values : List ℤ}
    (h : CronExpression.part txt text lo hi l = .ok values) : ∃ rest step a b,
    CronExpression.stepOf txt text l = .ok (rest, step) ∧
    CronExpression.bounds txt lo hi rest step = .ok (a, b) ∧
    (lo ≤ a ∧ a ≤ b ∧ b ≤ hi) ∧ values = CronExpression.steps a b step := by
  obtain ⟨⟨rest, step⟩, hstep, h⟩ := bind_eq_ok.mp h
  obtain ⟨⟨a, b⟩, hbounds, h⟩ := bind_eq_ok.mp h
  dsimp only at h
  split at h
  · rename_i hrange
    exact ⟨rest, step, a, b, hstep, hbounds, hrange, (Except.ok.inj h).symm⟩
  · cases h

theorem stepOf_cut {text : String} {l rest stepText : Text} {step : ℤ}
    (hcut : cutAt '/' l = some (rest, stepText))
    (hint : intOfText txt (String.ofList stepText) = .ok step) (hpos : 1 ≤ step) :
    CronExpression.stepOf txt text l = .ok (rest, step) := by
  rw [CronExpression.stepOf, hcut]
  change (intOfText txt (String.ofList stepText) >>= _) = _
  rw [hint]
  exact if_neg (not_lt.mpr hpos)

theorem of_stepOf_cut {text : String} {l rest rest' stepText : Text} {step : ℤ}
    (hcut : cutAt '/' l = some (rest, stepText))
    (h : CronExpression.stepOf txt text l = .ok (rest', step)) :
    intOfText txt (String.ofList stepText) = .ok step ∧ 1 ≤ step ∧ rest' = rest := by
  rw [CronExpression.stepOf, hcut] at h
  obtain ⟨n, hn, h⟩ := bind_eq_ok.mp h
  split at h
  · cases h
  · rename_i hlt
    obtain ⟨rfl, rfl⟩ := Prod.mk.inj (Except.ok.inj h)
    exact ⟨hn, not_lt.mp hlt, rfl⟩

theorem digit_ne {c d : Char} (hc : c.isDigit = true) (hd : d.isDigit = false) : c ≠ d := by
  rintro rfl
  exact Bool.false_ne_true (hd.symm.trans hc)

theorem not_mem_toString {n : ℕ} {d : Char} (hd : d.isDigit = false) :
    d ∉ (toString (n : ℤ)).toList := fun h => digit_ne (isDigit_toString h) hd rfl

theorem short_digits {n : ℕ} (h : n < 60) : (Nat.toDigits 10 n).length ≤ 4300 :=
  ((Nat.length_toDigits_le_iff (by decide) (by decide : 0 < 2)).mpr (by omega)).trans (by decide)

/-- The field `offset-59/step`, read again. -/
theorem field_everyText (htxt : FieldTexts txt) {offset step : ℕ} (hoffset : offset < 60)
    (hstep : 1 ≤ step) (hlen : (Nat.toDigits 10 step).length ≤ 4300) :
    CronExpression.field txt (String.ofList (everyText offset step)) 0 59 =
      .ok (CronExpression.steps offset 59 step) := by
  have hrange : '/' ∉ (toString (offset : ℤ)).toList ++ '-' :: "59".toList := by
    rw [List.mem_append, not_or]
    exact ⟨not_mem_toString (by decide), by decide⟩
  have hcomma : ',' ∉ everyText offset step := by
    unfold everyText
    simp only [List.mem_append, List.mem_cons, not_or]
    exact ⟨not_mem_toString (by decide), by decide, by decide, by decide,
      not_mem_toString (by decide)⟩
  have hcut : cutAt '/' (everyText offset step) =
      some ((toString (offset : ℤ)).toList ++ '-' :: "59".toList, (toString (step : ℤ)).toList) := by
    have := @cutAt_append '/' _ (toString (step : ℤ)).toList hrange
    rw [← this, List.append_assoc]
    rfl
  have hcut' := @cutAt_append '-' (toString (offset : ℤ)).toList "59".toList
    (not_mem_toString (by decide))
  rw [field_single (by rwa [String.toList_ofList]), String.toList_ofList]
  refine part_of_steps (stepOf_cut hcut ?_ (by exact_mod_cast hstep)) ?_ (by omega)
  · rw [String.ofList_toList]
    exact int_toString htxt hlen
  · unfold CronExpression.bounds
    rw [if_neg, hcut']
    · dsimp only
      rw [String.ofList_toList, int_toString htxt (short_digits hoffset), String.ofList_toList,
        show intOfText txt "59" = .ok 59 from int_toString htxt (n := 59) (by decide)]
      rfl
    · intro heq
      have hmem : '-' ∈ ['*'] := heq ▸ List.mem_append_right _ List.mem_cons_self
      revert hmem
      decide

end Fields

/-! ## Lists of minutes -/

section Lists

variable {txt : TextPrims}

theorem not_mem_digits {p : Text} {c : Char} (hp : isDigits txt p = true)
    (hc : txt.isDigit c = false) : c ∉ p := by
  intro hmem
  have hall := List.all_eq_true.mp (Bool.and_eq_true_iff.mp hp).2 c hmem
  exact Bool.false_ne_true (hc.symm.trans hall)

/-- A part without marks is one number. -/
theorem part_plain {text : String} {p : Text} (hslash : '/' ∉ p) (hdash : '-' ∉ p) (hstar : '*' ∉ p) :
    CronExpression.part txt text 0 59 p = (do
      let a ← intOfText txt (String.ofList p)
      if 0 ≤ a ∧ a ≤ a ∧ a ≤ 59 then .ok (CronExpression.steps a a 1)
      else .error (.valueError ("cron field " ++ txt.repr text ++ " outside " ++ toString (0 : ℤ) ++
        ".." ++ toString (59 : ℤ)))) := by
  have hne : p ≠ ['*'] := by
    rintro rfl
    exact hstar List.mem_cons_self
  rw [CronExpression.part, CronExpression.stepOf, cutAt_eq_none_iff.mpr hslash]
  change (CronExpression.bounds txt 0 59 p 1 >>= _) = _
  rw [CronExpression.bounds, if_neg hne, cutAt_eq_none_iff.mpr hdash]
  cases intOfText txt (String.ofList p) with
  | error e => rfl
  | ok a => rfl

theorem mem_single {a x : ℤ} : x ∈ CronExpression.steps a a 1 ↔ x = a := by
  rw [mem_steps le_rfl]
  omega

/-- The numbers of a list are those that its field holds. -/
theorem digits_parts (htxt : FieldTexts txt) {text : String} {parts : List Text}
    {lists : List (List ℤ)} (hparts : ∀ p ∈ parts, isDigits txt p = true)
    (h : parts.mapM (CronExpression.part txt text 0 59) = .ok lists) :
    ∃ values, parts.mapM (fun p => intOfText txt (String.ofList p)) = .ok values ∧
      (∀ x, x ∈ lists.flatten ↔ x ∈ values) ∧ (∀ v ∈ values, 0 ≤ v ∧ v ≤ 59) ∧
      values.length = parts.length := by
  obtain ⟨hstar, hslash, hdash, -⟩ := htxt.marks
  induction parts generalizing lists with
  | nil =>
    obtain rfl := Except.ok.inj h
    exact ⟨[], rfl, by simp, by simp, rfl⟩
  | cons p rest ih =>
    have hp := hparts p List.mem_cons_self
    rw [List.mapM_cons] at h
    obtain ⟨l, hl, h⟩ := bind_eq_ok.mp h
    obtain ⟨ls, hls, h⟩ := bind_eq_ok.mp h
    obtain rfl := Except.ok.inj h
    obtain ⟨values, hvalues, hmem, hrange, hlen⟩ := ih (fun q hq => hparts q (.tail _ hq)) hls
    rw [part_plain (not_mem_digits hp hslash) (not_mem_digits hp hdash)
      (not_mem_digits hp hstar)] at hl
    obtain ⟨v, hv, hl⟩ := bind_eq_ok.mp hl
    split at hl
    · rename_i hin
      obtain rfl := Except.ok.inj hl
      refine ⟨v :: values, ?_, fun x => ?_, ?_, by simp [hlen]⟩
      · rw [List.mapM_cons, hv, hvalues]
        rfl
      · rw [List.flatten_cons, List.mem_append, mem_single, hmem, List.mem_cons]
      · intro w hw
        rcases List.mem_cons.mp hw with rfl | hw
        · exact ⟨hin.1, hin.2.2⟩
        · exact hrange w hw
    · cases hl

theorem part_toString (htxt : FieldTexts txt) {text : String} {n : ℕ} (h : n < 60) :
    CronExpression.part txt text 0 59 (toString (n : ℤ)).toList =
      .ok (CronExpression.steps n n 1) := by
  rw [part_plain (not_mem_toString (by decide)) (not_mem_toString (by decide))
    (not_mem_toString (by decide)), String.ofList_toList, int_toString htxt (short_digits h)]
  exact if_pos (by omega)

/-- A list of minutes, written and read again. -/
theorem field_list (htxt : FieldTexts txt) {n : ℕ} {ns : List ℕ} (h : ∀ k ∈ n :: ns, k < 60) :
    CronExpression.field txt (String.ofList (List.intercalate [',']
        ((n :: ns).map fun k : ℕ => (toString (k : ℤ)).toList))) 0 59 =
      .ok ((n :: ns).map fun k : ℕ => CronExpression.steps k k 1).flatten := by
  have hparts : ∀ p ∈ (n :: ns).map fun k : ℕ => (toString (k : ℤ)).toList, ',' ∉ p := by
    intro p hp
    obtain ⟨k, -, rfl⟩ := List.mem_map.mp hp
    exact not_mem_toString (by decide)
  have hread : ∀ {text : String} {ks : List ℕ}, (∀ k ∈ ks, k < 60) →
      (ks.map fun k : ℕ => (toString (k : ℤ)).toList).mapM (CronExpression.part txt text 0 59) =
        .ok (ks.map fun k : ℕ => CronExpression.steps k k 1) := by
    intro text ks hks
    induction ks with
    | nil => rfl
    | cons k ks ih =>
      rw [List.map_cons, List.mapM_cons, part_toString htxt (hks k List.mem_cons_self),
        ih fun j hj => hks j (.tail _ hj)]
      rfl
  have hsplit : splitChar ',' (List.intercalate [',']
      ((n :: ns).map fun k : ℕ => (toString (k : ℤ)).toList)) =
        (n :: ns).map fun k : ℕ => (toString (k : ℤ)).toList := by
    rw [List.map_cons] at hparts ⊢
    exact splitChar_intercalate hparts
  rw [CronExpression.field, String.toList_ofList, hsplit, hread h]
  rfl

theorem mem_list {ns : List ℕ} {x : ℤ} :
    x ∈ (ns.map fun k : ℕ => CronExpression.steps k k 1).flatten ↔ ∃ k ∈ ns, x = (k : ℤ) := by
  simp only [List.mem_flatten, List.mem_map]
  constructor
  · rintro ⟨_, ⟨k, hk, rfl⟩, hx⟩
    exact ⟨k, hk, mem_single.mp hx⟩
  · rintro ⟨k, hk, rfl⟩
    exact ⟨_, ⟨k, hk, rfl⟩, mem_single.mpr rfl⟩

end Lists

/-! ## The shifted field -/

section ShiftedField

variable (txt : TextPrims)

/-- The minutes of the field do not wrap when they are shifted: a bare star does, and a step that is
larger than the offset does when it leaves a remainder. -/
def Fits (minute : Text) (offset : ℤ) : Prop :=
  minute ≠ ['*'] ∧ ∀ stepText step, starStep txt minute = some stepText →
    intOfText txt (String.ofList stepText) = .ok step →
      step ≤ offset ∨ 59 / step * step + offset ≤ 59

/-- A minute field that is written, with the minutes that are read from it. -/
structure Written (field : Text) (minutes : List ℤ) : Prop where
  chars : field ≠ [] ∧ ∀ c ∈ field, FieldChar c
  read : CronExpression.field txt (String.ofList field) 0 59 = .ok minutes

/-- How the minute field is shifted. -/
inductive ShiftCase (minute : Text) (minutes : List ℤ) (offset : ℤ) : Option Text → Prop
  | kept (hfits : Fits txt minute offset) : ShiftCase minute minutes offset none
  | every {step : ℤ} {field : Text} (hstep : 1 ≤ step)
      (hminutes : minutes = CronExpression.steps 0 59 step)
      (hwritten : Written txt field (CronExpression.steps offset 59 step)) (hfirst : minute.head? = some '*')
      (hfits : Fits txt minute offset ↔ 59 / step * step + offset ≤ 59) :
      ShiftCase minute minutes offset (some field)
  | listed {field : Text} {minutes' : List ℤ} (hwritten : Written txt field minutes')
      (hmem : ∀ m, m ∈ minutes' ↔ m - offset ∈ minutes)
      (hrange : ∀ m ∈ minutes, 0 ≤ m ∧ m + offset ≤ 59) (hfits : Fits txt minute offset) :
      ShiftCase minute minutes offset (some field)

end ShiftedField

section ShiftedSpec

variable {txt : TextPrims}

theorem everyText_chars {offset step : ℕ} :
    everyText offset step ≠ [] ∧ ∀ c ∈ everyText offset step, FieldChar c := by
  unfold everyText
  constructor
  · simp
  · intro c hc
    simp only [List.mem_append, List.mem_cons] at hc
    rcases hc with hc | rfl | hc | rfl | hc
    · exact .inl (isDigit_toString hc)
    · exact .inr (.inl rfl)
    · have hdigits : "59".toList.all Char.isDigit = true := by decide
      exact .inl (List.all_eq_true.mp hdigits c hc)
    · exact .inr (.inr (.inl rfl))
    · exact .inl (isDigit_toString hc)

/-- The bare star, or the star with a step, shifted. -/
theorem written_everyText (htxt : FieldTexts txt) {offset step : ℤ} (h₁ : 1 ≤ offset)
    (h₂ : offset ≤ 59) (hstep : 1 ≤ step)
    (hlen : (Nat.toDigits 10 step.natAbs).length ≤ 4300) :
    Written txt (everyText offset step) (CronExpression.steps offset 59 step) := by
  obtain ⟨k, rfl⟩ := Int.eq_ofNat_of_zero_le (by omega : 0 ≤ offset)
  obtain ⟨s, rfl⟩ := Int.eq_ofNat_of_zero_le (by omega : 0 ≤ step)
  exact ⟨everyText_chars, field_everyText htxt (by omega) (by omega) hlen⟩

theorem not_fieldChar_star : ¬ FieldChar '*' := by
  unfold FieldChar
  decide

theorem starStep_eq {minute stepText : Text} (h : starStep txt minute = some stepText) :
    minute = '*' :: '/' :: stepText ∧ isDigits txt stepText = true := by
  unfold starStep at h
  split at h
  · split at h
    · rename_i hdigits
      cases h
      exact ⟨rfl, hdigits⟩
    · cases h
  · cases h

theorem bounds_star {lo hi step : ℤ} :
    CronExpression.bounds txt lo hi ['*'] step = .ok (lo, hi) := if_pos rfl

theorem intercalate_chars {n : ℕ} {ns : List ℕ} :
    List.intercalate [','] ((n :: ns).map fun k : ℕ => (toString (k : ℤ)).toList) ≠ [] ∧
      ∀ c ∈ List.intercalate [','] ((n :: ns).map fun k : ℕ => (toString (k : ℤ)).toList),
        FieldChar c := by
  induction ns generalizing n with
  | nil =>
    rw [List.map_singleton, List.intercalate_singleton]
    refine ⟨?_, fun c hc => .inl (isDigit_toString hc)⟩
    rw [digits_toString]
    exact Nat.toDigits_ne_nil
  | cons m ns ih =>
    have hrest := @ih m
    rw [List.map_cons] at hrest
    rw [List.map_cons, List.map_cons, List.intercalate_cons_cons]
    refine ⟨by simp, fun c hc => ?_⟩
    rw [List.append_assoc, List.mem_append, List.mem_append, List.mem_singleton] at hc
    rcases hc with hc | rfl | hc
    · exact .inl (isDigit_toString hc)
    · exact .inr (.inr (.inr rfl))
    · exact hrest.2 c hc

/-- The field that fires every minute. -/
theorem shiftCase_star (htxt : FieldTexts txt) {minute : String} {minutes : List ℤ} {offset : ℤ}
    (h₁ : 1 ≤ offset) (h₂ : offset ≤ 59) (hbare : minute.toList = ['*'])
    (hfield : CronExpression.field txt minute 0 59 = .ok minutes) :
    ShiftCase txt minute.toList minutes offset (some (everyText offset 1)) := by
  have hpart : CronExpression.part txt minute 0 59 minute.toList =
      .ok (CronExpression.steps 0 59 1) := by
    rw [hbare]
    exact part_of_steps rfl bounds_star (by decide)
  have hmem : ',' ∉ minute.toList := by
    rw [hbare]
    decide
  rw [field_single hmem, hpart] at hfield
  obtain rfl := Except.ok.inj hfield
  refine .every le_rfl rfl (written_everyText htxt h₁ h₂ le_rfl (by decide)) ?_ ?_
  · rw [hbare]
    rfl
  · constructor
    · exact fun hf => absurd hbare hf.1
    · intro h
      omega

/-- A field that fires every so many minutes. -/
theorem shiftCase_step (htxt : FieldTexts txt) {minute : String} {minutes : List ℤ} {offset : ℤ}
    (h₁ : 1 ≤ offset) (h₂ : offset ≤ 59) (hbare : minute.toList ≠ ['*']) {stepText : Text}
    (hstep : starStep txt minute.toList = some stepText)
    (hfield : CronExpression.field txt minute 0 59 = .ok minutes) :
    ∃ step, intOfText txt (String.ofList stepText) = .ok step ∧
      ShiftCase txt minute.toList minutes offset
        (if step ≤ offset then none else some (everyText offset step)) := by
  obtain ⟨-, -, -, hcomma⟩ := htxt.marks
  obtain ⟨heq, hdigits⟩ := starStep_eq hstep
  have hmem : ',' ∉ minute.toList := by
    rw [heq]
    simp only [List.mem_cons, not_or]
    exact ⟨by decide, by decide, not_mem_digits hdigits hcomma⟩
  have hcut : cutAt '/' minute.toList = some (['*'], stepText) := by
    rw [heq]
    rfl
  rw [field_single hmem] at hfield
  obtain ⟨rest, step, a, b, hstepOf, hbounds, -, rfl⟩ := of_part hfield
  obtain ⟨hint, hpos, rfl⟩ := of_stepOf_cut hcut hstepOf
  rw [bounds_star] at hbounds
  obtain ⟨rfl, rfl⟩ := Prod.mk.inj (Except.ok.inj hbounds)
  have hfits : Fits txt minute.toList offset ↔ step ≤ offset ∨ 59 / step * step + offset ≤ 59 := by
    constructor
    · exact fun hf => hf.2 stepText step hstep hint
    · intro h
      refine ⟨hbare, fun stepText' step' hstep' hint' => ?_⟩
      obtain rfl := Option.some.inj (hstep.symm.trans hstep')
      obtain rfl := Except.ok.inj (hint.symm.trans hint')
      exact h
  refine ⟨step, hint, ?_⟩
  by_cases hle : step ≤ offset
  · rw [if_pos hle]
    exact .kept (hfits.mpr (.inl hle))
  · rw [if_neg hle]
    refine .every hpos rfl (written_everyText htxt h₁ h₂ hpos (int_length htxt hint)) ?_ ?_
    · rw [heq]
      rfl
    · exact hfits.trans (or_iff_right hle)

/-- Values written again, each later by the offset. -/
theorem written_values (htxt : FieldTexts txt) {values : List ℤ} {offset : ℤ} (h₁ : 1 ≤ offset)
    (hne : values ≠ []) (hrange : ∀ v ∈ values, 0 ≤ v) (hle : ∀ v ∈ values, v + offset ≤ 59) :
    ∃ minutes', Written txt (List.intercalate [',']
        ((values.map fun v => v + offset).map fun v => (toString v).toList)) minutes' ∧
      ∀ m, m ∈ minutes' ↔ m - offset ∈ values := by
  -- the values as natural numbers
  obtain ⟨n, ns, hns⟩ : ∃ n ns, values.map (fun v => (v + offset).toNat) = n :: ns := by
    cases values with
    | nil => exact absurd rfl hne
    | cons v vs => exact ⟨_, _, rfl⟩
  have htexts : (values.map fun v => v + offset).map (fun v => (toString v).toList) =
      (n :: ns).map fun k : ℕ => (toString (k : ℤ)).toList := by
    rw [← hns, List.map_map, List.map_map]
    refine List.map_congr_left fun v hv => ?_
    have := hrange v hv
    simp only [Function.comp_apply]
    rw [Int.toNat_of_nonneg (by omega)]
  have hlt : ∀ k ∈ n :: ns, k < 60 := by
    intro k hk
    rw [← hns] at hk
    obtain ⟨v, hv, rfl⟩ := List.mem_map.mp hk
    have := hle v hv
    omega
  rw [htexts]
  refine ⟨_, ⟨intercalate_chars, field_list htxt hlt⟩, fun m => ?_⟩
  rw [mem_list, ← hns]
  constructor
  · rintro ⟨k, hk, rfl⟩
    obtain ⟨v, hv, rfl⟩ := List.mem_map.mp hk
    have := hrange v hv
    rw [Int.toNat_of_nonneg (by omega), add_sub_cancel_right]
    exact hv
  · intro hm
    have := hrange _ hm
    refine ⟨_, List.mem_map.mpr ⟨_, hm, rfl⟩, ?_⟩
    rw [sub_add_cancel, Int.toNat_of_nonneg (by omega)]

/-- A list of numbers. -/
theorem shiftCase_list (htxt : FieldTexts txt) {minute : String} {minutes : List ℤ} {offset : ℤ}
    (h₁ : 1 ≤ offset) (hfits : Fits txt minute.toList offset)
    (hall : ∀ part ∈ splitChar ',' minute.toList, isDigits txt part = true)
    (hfield : CronExpression.field txt minute 0 59 = .ok minutes) :
    ∃ values, (splitChar ',' minute.toList).mapM
        (fun part => intOfText txt (String.ofList part)) = .ok values ∧
      ShiftCase txt minute.toList minutes offset
        (if (values.map fun v => v + offset).any fun v => 59 < v then none
          else some (List.intercalate [',']
            ((values.map fun v => v + offset).map fun v => (toString v).toList))) := by
  obtain ⟨lists, hlists, hflat⟩ := bind_eq_ok.mp hfield
  obtain rfl := Except.ok.inj hflat
  obtain ⟨values, hvalues, hmem, hrange, hlen⟩ := digits_parts htxt hall hlists
  refine ⟨values, hvalues, ?_⟩
  by_cases hany : ((values.map fun v => v + offset).any fun v => 59 < v) = true
  · rw [if_pos hany]
    exact .kept hfits
  · rw [if_neg hany]
    have hle : ∀ v ∈ values, v + offset ≤ 59 := by
      intro v hv
      by_contra hgt
      refine hany (List.any_eq_true.mpr ⟨v + offset, List.mem_map.mpr ⟨v, hv, rfl⟩, ?_⟩)
      exact decide_eq_true (not_le.mp hgt)
    have hne : values ≠ [] := by
      rintro rfl
      exact splitChar_ne_nil ',' minute.toList (List.length_eq_zero_iff.mp hlen.symm)
    obtain ⟨minutes', hwritten, hshifted⟩ :=
      written_values htxt h₁ hne (fun v hv => (hrange v hv).1) hle
    refine .listed hwritten (fun m => ?_) (fun m hm => ?_) hfits
    · rw [hshifted, hmem]
    · rw [hmem] at hm
      exact ⟨(hrange m hm).1, hle m hm⟩

theorem shiftedMinute_case (htxt : FieldTexts txt) {minute : String} {minutes : List ℤ} {offset : ℤ}
    (h₁ : 1 ≤ offset) (h₂ : offset ≤ 59)
    (hfield : CronExpression.field txt minute 0 59 = .ok minutes) :
    ∃ r, shiftedMinute txt minute.toList offset = .ok r ∧
      ShiftCase txt minute.toList minutes offset r := by
  unfold shiftedMinute
  by_cases hbare : minute.toList = ['*']
  · rw [if_pos hbare]
    exact ⟨_, rfl, shiftCase_star htxt h₁ h₂ hbare hfield⟩
  · rw [if_neg hbare]
    cases hstep : starStep txt minute.toList with
    | some stepText =>
      obtain ⟨step, hint, hcase⟩ := shiftCase_step htxt h₁ h₂ hbare hstep hfield
      dsimp only
      rw [hint]
      exact ⟨_, rfl, hcase⟩
    | none =>
      have hfits : Fits txt minute.toList offset := by
        refine ⟨hbare, fun stepText step h _ => ?_⟩
        rw [hstep] at h
        cases h
      dsimp only
      by_cases hall : (splitChar ',' minute.toList).all (isDigits txt) = true
      · rw [if_pos hall]
        obtain ⟨values, hvalues, hcase⟩ :=
          shiftCase_list htxt h₁ hfits (List.all_eq_true.mp hall) hfield
        rw [hvalues]
        exact ⟨_, rfl, hcase⟩
      · rw [if_neg hall]
        exact ⟨none, rfl, .kept hfits⟩

end ShiftedSpec

/-! ## The shifted expression -/

section Expression

variable {txt : TextPrims}

/-- An expression with another minute field. -/
theorem parse_words {text : String} {c : CronExpression}
    (h : CronExpression.parse txt text = .ok c) :
    ∃ minute hour day month weekday, txt.words text = [minute, hour, day, month, weekday] ∧
      CronExpression.field txt minute 0 59 = .ok c.minutes ∧
      ∀ text' minute' minutes', txt.words text' = [minute', hour, day, month, weekday] →
        CronExpression.field txt minute' 0 59 = .ok minutes' →
          CronExpression.parse txt text' = .ok { c with minutes := minutes' } := by
  unfold CronExpression.parse at h
  split at h
  · rename_i minute hour day month weekday hwords
    obtain ⟨minutes, h₁, h⟩ := bind_eq_ok.mp h
    obtain ⟨hours, h₂, h⟩ := bind_eq_ok.mp h
    obtain ⟨days, h₃, h⟩ := bind_eq_ok.mp h
    obtain ⟨months, h₄, h⟩ := bind_eq_ok.mp h
    obtain ⟨weekdays, h₅, h⟩ := bind_eq_ok.mp h
    obtain rfl := Except.ok.inj h
    refine ⟨minute, hour, day, month, weekday, hwords, h₁, fun text' minute' minutes' hw hf => ?_⟩
    unfold CronExpression.parse
    rw [hw]
    simp only [hf, h₂, h₃, h₄, h₅, bind, Except.bind]
  · cases h

/-- Minutes added within the hour leave the hour and the day alone. -/
theorem clock_shift {w k : ℤ} (hk : 0 ≤ k) (h : w / 60000000 % 60 + k ≤ 59) :
    (w + k * 60000000) / 60000000 % 60 = w / 60000000 % 60 + k ∧
      (w + k * 60000000) / 3600000000 = w / 3600000000 ∧
      (w + k * 60000000) / 86400000000 = w / 86400000000 := by
  omega

/-- A wall clock moved within its hour matches the expression whose minutes are moved. -/
theorem matchesLocal_shift {c : CronExpression} {minutes' : List ℤ} {wall k : ℤ} (hk : 0 ≤ k)
    (hwrap : wall / minute % 60 + k ≤ 59)
    (hmem : wall / minute % 60 + k ∈ minutes' ↔ wall / minute % 60 ∈ c.minutes) :
    ({ c with minutes := minutes' } : CronExpression).matchesLocal (wall + k * minute) =
      c.matchesLocal wall := by
  obtain ⟨hm, hh, hd⟩ := clock_shift hk hwrap
  have hminute : (wall + k * minute) / minute % 60 = wall / minute % 60 + k := hm
  have hhour : (wall + k * minute) / hour = wall / hour := hh
  have hday : dayOf (wall + k * minute) = dayOf wall := hd
  unfold CronExpression.matchesLocal
  simp only [hminute, hhour, hday, hmem]

/-- A zone whose offset changes by whole hours only, when its clock is at a whole hour. -/
structure WholeHours (zone : Zone) : Prop where
  congr : ∀ t u, (zone.toLocal u - u - (zone.toLocal t - t)) % hour = 0
  within : ∀ t u, t ≤ u → u - t < hour - zone.toLocal t % hour →
    zone.toLocal u - u = zone.toLocal t - t

theorem WholeHours.utc : WholeHours Zone.utc := by
  constructor
  case congr =>
    intro t u
    change (u - u - (t - t)) % hour = 0
    rw [sub_self, sub_self]
    rfl
  case within =>
    intro t u _ _
    change u - u = t - t
    rw [sub_self, sub_self]

/-- Minutes that are shifted without a wrap move every firing instant. -/
theorem firing_shifted {zone : Zone} (hzone : WholeHours zone) {c : CronExpression}
    {minutes' : List ℤ} {offset : ℤ} (h₀ : 0 ≤ offset)
    (hmem : ∀ m, m ∈ minutes' ↔ m - offset ∈ c.minutes)
    (hrange : ∀ m ∈ c.minutes, 0 ≤ m ∧ m + offset ≤ 59) (u : Instant) :
    Firing zone { c with minutes := minutes' } u ↔ Firing zone c (u - offset * minute) := by
  have hwhole : u % minute = 0 ↔ (u - offset * minute) % minute = 0 := by
    unfold Instant minute second at *
    omega
  have hkey : ∀ {w : ℤ}, w = zone.toLocal (u - offset * minute) →
      w / minute % 60 + offset ≤ 59 → zone.toLocal u = w + offset * minute := by
    intro w hw hle
    have hsame := hzone.within (u - offset * minute) u
      (by unfold Instant minute second at *; omega)
      (by rw [← hw]; unfold Instant hour minute second at *; omega)
    unfold Instant at *
    omega
  have hshift : ∀ {w : ℤ}, w / minute % 60 + offset ≤ 59 →
      ({ c with minutes := minutes' } : CronExpression).matchesLocal (w + offset * minute) =
        c.matchesLocal w := by
    intro w hle
    refine matchesLocal_shift h₀ hle ?_
    rw [hmem, add_sub_cancel_right]
  constructor
  · intro h
    have hin := h.local_
    have hminute : zone.toLocal u / minute % 60 ∈ minutes' := by
      by_contra hno
      unfold CronExpression.matchesLocal at hin
      simp [hno] at hin
    have hm := hrange _ ((hmem _).mp hminute)
    -- the minute of the earlier instant, whose offset may differ by whole hours
    obtain ⟨k, hk⟩ := Int.dvd_of_emod_eq_zero (hzone.congr (u - offset * minute) u)
    have hearlier : zone.toLocal (u - offset * minute) / minute % 60 + offset ≤ 59 := by
      unfold Instant hour minute second at *
      omega
    rw [hkey rfl hearlier, hshift hearlier] at hin
    exact ⟨hwhole.mp h.whole, hin⟩
  · intro h
    have hin := h.local_
    have hminute : zone.toLocal (u - offset * minute) / minute % 60 ∈ c.minutes := by
      by_contra hno
      unfold CronExpression.matchesLocal at hin
      simp [hno] at hin
    have hm := hrange _ hminute
    refine ⟨hwhole.mpr h.whole, ?_⟩
    rw [hkey rfl hm.2, hshift hm.2]
    exact hin

end Expression

/-! ## When the shift keeps the meaning -/

section Keeps

variable {txt : TextPrims}

/-- In an hour that matches, every minute of the expression does. -/
theorem matches_hour {c : CronExpression} {minutes' : List ℤ} {w w' : ℤ}
    (hhour : w / hour = w' / hour) (hm : w / minute % 60 ∈ c.minutes)
    (h : ({ c with minutes := minutes' } : CronExpression).matchesLocal w' = true) :
    c.matchesLocal w = true := by
  have hday : dayOf w = dayOf w' := by
    have hdiv : ∀ v : ℤ, v / 86400000000 = v / 3600000000 / 24 := fun v => by omega
    have hsame : w / 3600000000 = w' / 3600000000 := hhour
    change w / 86400000000 = w' / 86400000000
    rw [hdiv, hdiv, hsame]
  unfold CronExpression.matchesLocal at h ⊢
  dsimp only at h ⊢
  rw [hhour, hday]
  by_cases hno : w' / minute % 60 ∉ minutes' ∨ w' / hour % 24 ∉ c.hours
  · rw [if_pos hno] at h
    cases h
  · rw [if_neg hno] at h
    rw [not_or] at hno
    rw [if_neg (by rw [not_or]; exact ⟨not_not.mpr hm, hno.2⟩)]
    exact h

theorem words_shifted (htxt : FieldTexts txt) {cron minute hour day month weekday : String}
    (hwords : txt.words cron = [minute, hour, day, month, weekday]) {field : Text}
    {minutes' : List ℤ} (hwritten : Written txt field minutes') :
    txt.words (rejoin cron [hour, day, month, weekday] (some field)) =
      [String.ofList field, hour, day, month, weekday] := by
  unfold rejoin
  refine htxt.join _ fun w hw => ?_
  rcases List.mem_cons.mp hw with rfl | hw
  · exact htxt.field field hwritten.chars.1 hwritten.chars.2
  · exact htxt.word cron w (hwords ▸ List.mem_cons_of_mem _ hw)

/-- A multiple of the step within the hour is at most the last one. -/
theorem le_last_multiple {step m : ℤ} (hstep : 1 ≤ step) (hmod : m % step = 0) (hle : m ≤ 59) :
    m ≤ 59 / step * step := by
  obtain ⟨k, rfl⟩ := Int.dvd_of_emod_eq_zero hmod
  have hk : k ≤ 59 / step := (Int.le_ediv_iff_mul_le (by omega)).mpr (by rwa [mul_comm])
  rw [mul_comm]
  exact Int.mul_le_mul_of_nonneg_right hk (by omega)

/-- Minutes of a step that do not wrap are shifted one by one. -/
theorem steps_shifted {step offset : ℤ} (hstep : 1 ≤ step) (h₀ : 0 ≤ offset)
    (hfit : 59 / step * step + offset ≤ 59) :
    (∀ m, m ∈ CronExpression.steps offset 59 step ↔ m - offset ∈ CronExpression.steps 0 59 step) ∧
      ∀ m ∈ CronExpression.steps 0 59 step, 0 ≤ m ∧ m + offset ≤ 59 := by
  refine ⟨fun m => ?_, fun m hm => ?_⟩
  · rw [mem_steps hstep, mem_steps hstep, sub_zero]
    constructor
    · rintro ⟨h, h', h''⟩
      exact ⟨by omega, by omega, h''⟩
    · rintro ⟨h, h', h''⟩
      have hle := le_last_multiple hstep h'' h'
      exact ⟨by omega, by omega, h''⟩
  · rw [mem_steps hstep, sub_zero] at hm
    have hle := le_last_multiple hstep hm.2.2 hm.2.1
    exact ⟨hm.1, by omega⟩

/-- Where a cadence of a step never fires, it is for its hours or days, which are not shifted. -/
theorem not_firing_shifted {step : ℤ} (hstep : 1 ≤ step) {c : CronExpression}
    (hminutes : c.minutes = CronExpression.steps 0 59 step)
    (hnever : ∀ wall, c.matchesLocal wall = false) {minutes' : List ℤ} (zone : Zone) (u : Instant) :
    ¬ Firing zone { c with minutes := minutes' } u := by
  intro h
  obtain ⟨w, hw⟩ : ∃ w : ℤ, w = zone.toLocal u / 3600000000 * 3600000000 := ⟨_, rfl⟩
  have hfacts : w / 3600000000 = zone.toLocal u / 3600000000 ∧ w / 60000000 % 60 = 0 := by
    unfold Instant at *
    omega
  have hzero : w / minute % 60 ∈ c.minutes := by
    rw [hminutes, mem_steps hstep]
    change 0 ≤ w / 60000000 % 60 ∧ w / 60000000 % 60 ≤ 59 ∧ (w / 60000000 % 60 - 0) % step = 0
    rw [hfacts.2]
    exact ⟨le_rfl, by decide, Int.zero_emod step⟩
  have hmatch := matches_hour hfacts.1 hzero h.local_
  exact Bool.false_ne_true ((hnever w).symm.trans hmatch)

/-- The minute that wraps: at the last minute of an hour that matches the cadence fires, and the
shifted cron does not fire `offset` minutes later. -/
theorem last_wraps {step offset : ℤ} (hstep : 1 ≤ step) (h₂ : offset ≤ 59)
    (hwraps : ¬ 59 / step * step + offset ≤ 59) {c : CronExpression}
    (hminutes : c.minutes = CronExpression.steps 0 59 step)
    {wall : ℤ} (hwall : c.matchesLocal wall = true) :
    ∃ u, Firing Zone.utc c (u - offset * minute) ∧
      ¬ Firing Zone.utc { c with minutes := CronExpression.steps offset 59 step } u := by
  have hlast : 59 / step * step ≤ 59 := Int.ediv_mul_le 59 (by omega)
  have hlast0 : 0 ≤ 59 / step * step :=
    mul_nonneg (Int.ediv_nonneg (by decide) (by omega)) (by omega)
  have hmod : (59 / step * step - 0) % step = 0 := by
    rw [sub_zero, Int.mul_emod_left]
  generalize hl : 59 / step * step = last at *
  obtain ⟨t, ht⟩ : ∃ t : ℤ, t = wall / 3600000000 * 3600000000 + last * 60000000 := ⟨_, rfl⟩
  have hfacts : t / 3600000000 = wall / 3600000000 ∧ t / 60000000 % 60 = last ∧
      t % 60000000 = 0 := by omega
  have hlate : (t + offset * 60000000) / 60000000 % 60 < offset := by omega
  refine ⟨t + offset * minute, ⟨?_, ?_⟩, fun hfires => ?_⟩
  · rw [add_sub_cancel_right]
    exact hfacts.2.2
  · rw [add_sub_cancel_right]
    refine @matches_hour c c.minutes _ _ hfacts.1 ?_ hwall
    rw [hminutes, mem_steps hstep]
    change 0 ≤ t / 60000000 % 60 ∧ t / 60000000 % 60 ≤ 59 ∧ (t / 60000000 % 60 - 0) % step = 0
    rw [hfacts.2.1]
    exact ⟨hlast0, hlast, hmod⟩
  · have hin := hfires.local_
    have hminute : (t + offset * minute) / minute % 60 ∈ CronExpression.steps offset 59 step := by
      by_contra hno
      unfold CronExpression.matchesLocal at hin
      rw [if_pos (.inl hno)] at hin
      cases hin
    have hge := ((mem_steps hstep).mp hminute).1
    have hlt : (t + offset * minute) / minute % 60 < offset := hlate
    omega

end Keeps

/-- For an offset from 0 to 59, the shifted cron is the cadence itself or fires exactly `offset`
minutes after it, in every zone that changes by whole hours, exactly when the offset is zero, the
minutes do not wrap, or the cadence never fires. -/
theorem shift_keeps_iff (txt : TextPrims) (htxt : FieldTexts txt) (cron : String)
    (c : CronExpression) (offset : ℤ) (h₀ : 0 ≤ offset) (h₂ : offset ≤ 59)
    (hparse : CronExpression.parse txt cron = .ok c) :
    (∃ shifted, shiftCronMinutes txt cron offset = .ok shifted ∧ (shifted = cron ∨
      ∃ c', CronExpression.parse txt shifted = .ok c' ∧ ∀ zone, WholeHours zone →
        ∀ u, Firing zone c' u ↔ Firing zone c (u - offset * minute))) ↔
    offset = 0 ∨ (∀ field ∈ (txt.words cron).head?, Fits txt field.toList offset) ∨
      ∀ wall, c.matchesLocal wall = false := by
  obtain ⟨minute', hour', day', month', weekday', hwords, hfield, hread⟩ := parse_words hparse
  have hhead : (∀ field ∈ (txt.words cron).head?, Fits txt field.toList offset) ↔
      Fits txt minute'.toList offset := by
    rw [hwords]
    simp
  rw [hhead]
  by_cases hzero : offset = 0
  · refine iff_of_true ⟨cron, ?_, .inl rfl⟩ (.inl hzero)
    unfold shiftCronMinutes
    rw [hwords]
    exact if_pos hzero.le
  · have h₁ : 1 ≤ offset := by omega
    rw [or_iff_right hzero]
    obtain ⟨r, hr, hcase⟩ := shiftedMinute_case htxt h₁ h₂ hfield
    have hshift : shiftCronMinutes txt cron offset =
        .ok (rejoin cron [hour', day', month', weekday'] r) := by
      unfold shiftCronMinutes
      rw [hwords]
      dsimp only
      rw [if_neg (by omega), hr]
      rfl
    rw [hshift]
    cases hcase with
    | kept hfits => exact iff_of_true ⟨cron, rfl, .inl rfl⟩ (.inl hfits)
    | @listed field minutes' hwritten hmem hrange hfits =>
      have hparsed := hread _ _ _ (words_shifted htxt hwords hwritten) hwritten.read
      refine iff_of_true ⟨_, rfl, .inr ⟨_, hparsed, fun zone hzone u => ?_⟩⟩ (.inl hfits)
      exact firing_shifted hzone h₀ hmem hrange u
    | @every step field hstep hminutes hwritten hfirst hfits =>
      have hparsed := hread _ _ _ (words_shifted htxt hwords hwritten) hwritten.read
      by_cases hwraps : 59 / step * step + offset ≤ 59
      · refine iff_of_true ⟨_, rfl, .inr ⟨_, hparsed, fun zone hzone u => ?_⟩⟩
          (.inl (hfits.mpr hwraps))
        obtain ⟨hmem, hrange⟩ := steps_shifted hstep h₀ hwraps
        rw [← hminutes] at hmem hrange
        exact firing_shifted hzone h₀ hmem hrange u
      · rw [or_iff_right fun hf => hwraps (hfits.mp hf)]
        constructor
        · rintro ⟨shifted, hok, hmeans⟩ wall
          obtain rfl := Except.ok.inj hok
          rcases hmeans with hsame | ⟨c', hc', hfires⟩
          · -- the new field starts with a digit, the old one with a star
            have hnew := words_shifted htxt hwords hwritten
            rw [hsame, hwords] at hnew
            have hstar : '*' ∈ field := List.mem_of_head? (by
              rw [← String.toList_ofList (l := field), ← (List.cons.inj hnew).1]
              exact hfirst)
            exact absurd (hwritten.chars.2 '*' hstar) not_fieldChar_star
          · obtain rfl := Except.ok.inj (hc'.symm.trans hparsed)
            by_contra hmatch
            obtain ⟨u, hu, hno⟩ := last_wraps hstep h₂ hwraps hminutes
              (Bool.eq_true_of_not_eq_false hmatch)
            exact hno ((hfires _ WholeHours.utc u).mpr hu)
        · intro hnever
          exact ⟨_, rfl, .inr ⟨_, hparsed, fun zone hzone u => iff_of_false
            (not_firing_shifted hstep hminutes hnever zone u)
            fun h => Bool.false_ne_true ((hnever _).symm.trans h.local_)⟩⟩

/-! ## The routines on ASCII texts -/

section AsciiTexts

/-- A text without white space. -/
def Solid (l : Text) : Prop := ∀ c ∈ l, c.isWhitespace = false

theorem solid_fieldChar {c : Char} (h : FieldChar c) : c.isWhitespace = false := by
  by_contra hno
  have hspace : (decide (c = ' ') || decide (c = '\t') || decide (c = '\r') ||
      decide (c = '\n')) = true := Bool.eq_true_of_not_eq_false hno
  simp only [Bool.or_eq_true, decide_eq_true_eq] at hspace
  unfold FieldChar at h
  rcases hspace with ((rfl | rfl) | rfl) | rfl
  · exact absurd h (by decide)
  · exact absurd h (by decide)
  · exact absurd h (by decide)
  · exact absurd h (by decide)

theorem solid_nil : Solid [] := fun _ h => absurd h List.not_mem_nil

/-- The words of a text are not empty and without white space. -/
theorem wordsFrom_solid {l : Text} : ∀ {word : Text}, Solid word →
    ∀ w ∈ Ascii.wordsFrom word l, w.toList ≠ [] ∧ Solid w.toList := by
  have hword : ∀ {word : Text}, Solid word → word ≠ [] →
      (String.ofList word.reverse).toList ≠ [] ∧ Solid (String.ofList word.reverse).toList := by
    intro word hs hne
    rw [String.toList_ofList]
    exact ⟨by simpa using hne, fun c hc => hs c (List.mem_reverse.mp hc)⟩
  induction l with
  | nil =>
    intro word hs w hw
    cases word with
    | nil => cases hw
    | cons c word =>
      rw [Ascii.wordsFrom, List.mem_singleton] at hw
      · rw [hw]
        exact hword hs (List.cons_ne_nil _ _)
      · exact fun h => nomatch h
  | cons c rest ih =>
    intro word hs w hw
    rw [Ascii.wordsFrom] at hw
    cases hc : c.isWhitespace with
    | true =>
      rw [if_pos hc] at hw
      by_cases hnil : word = []
      · rw [if_pos hnil] at hw
        exact ih solid_nil w hw
      · rw [if_neg hnil] at hw
        rcases List.mem_cons.mp hw with rfl | hw
        · exact hword hs hnil
        · exact ih solid_nil w hw
    | false =>
      rw [if_neg (by rw [hc]; exact Bool.false_ne_true)] at hw
      refine ih (fun d hd => ?_) w hw
      rcases List.mem_cons.mp hd with rfl | hd
      · exact hc
      · exact hs d hd

/-- A text without white space is read to its end. -/
theorem wordsFrom_append {l : Text} (hl : Solid l) : ∀ word rest : Text,
    Ascii.wordsFrom word (l ++ rest) = Ascii.wordsFrom (l.reverse ++ word) rest := by
  induction l with
  | nil => exact fun _ _ => rfl
  | cons c l ih =>
    intro word rest
    have hc := hl c List.mem_cons_self
    rw [List.cons_append, Ascii.wordsFrom, if_neg (by rw [hc]; exact Bool.false_ne_true),
      ih fun d hd => hl d (List.mem_cons_of_mem _ hd)]
    simp

theorem words_solid {l : Text} (hne : l ≠ []) (hl : Solid l) :
    Ascii.words (String.ofList l) = [String.ofList l] := by
  have := wordsFrom_append hl [] []
  rw [List.append_nil, List.append_nil] at this
  rw [Ascii.words, String.toList_ofList, this]
  cases hr : l.reverse with
  | nil => exact absurd (List.reverse_eq_nil_iff.mp hr) hne
  | cons c word =>
    rw [Ascii.wordsFrom, ← hr, List.reverse_reverse]
    exact fun h => nomatch h

theorem words_iff {w : String} :
    Ascii.words w = [w] ↔ w.toList ≠ [] ∧ Solid w.toList := by
  constructor
  · intro h
    refine @wordsFrom_solid w.toList [] solid_nil w ?_
    rw [show Ascii.wordsFrom [] w.toList = [w] from h]
    exact List.mem_singleton_self w
  · rintro ⟨hne, hs⟩
    have := words_solid hne hs
    rwa [String.ofList_toList] at this

theorem words_join {ws : List String} (h : ∀ w ∈ ws, Ascii.words w = [w]) :
    Ascii.words (" ".intercalate ws) = ws := by
  induction ws with
  | nil => rfl
  | cons w rest ih =>
    have hw := h w List.mem_cons_self
    have hrest := ih fun v hv => h v (List.mem_cons_of_mem _ hv)
    cases rest with
    | nil =>
      rw [String.intercalate_singleton]
      exact hw
    | cons v rest =>
      obtain ⟨hne, hs⟩ := words_iff.mp hw
      rw [String.intercalate_cons_cons, Ascii.words, String.toList_append, String.toList_append,
        List.append_assoc, wordsFrom_append hs, List.append_nil]
      have hblank : " ".toList = [' '] := rfl
      rw [hblank, List.singleton_append, Ascii.wordsFrom, if_pos (by decide), if_neg (by simpa using hne),
        List.reverse_reverse, String.ofList_toList]
      exact congrArg (w :: ·) hrest

theorem fieldTexts_ascii : FieldTexts Ascii.text where
  word s w hw := words_iff.mpr (wordsFrom_solid solid_nil w hw)
  join ws h := words_join h
  field l hne h := words_solid hne fun c hc => solid_fieldChar (h c hc)
  digit c h := if_pos h
  digit_lt c d h := by
    change (if c.isDigit then some (c.toNat - 48) else none) = some d at h
    split at h
    · rename_i hc
      have hrange : 48 ≤ c.toNat ∧ c.toNat ≤ 57 := Char.isDigit_iff_toNat.mp hc
      obtain rfl := Option.some.inj h
      omega
    · cases h
  strip l h := by
    have hsolid : Solid l := fun c hc => solid_fieldChar (.inl (h c hc))
    have hdrop : ∀ m : Text, Solid m → m.dropWhile Char.isWhitespace = m := by
      intro m hm
      cases m with
      | nil => rfl
      | cons c m => exact List.dropWhile_cons_of_neg (by
          rw [hm c List.mem_cons_self]
          exact Bool.false_ne_true)
    change Ascii.strip (String.ofList l) = String.ofList l
    unfold Ascii.strip
    rw [String.toList_ofList, hdrop l hsolid,
      hdrop _ fun c hc => hsolid c (List.mem_reverse.mp hc), List.reverse_reverse]
  marks := by decide

end AsciiTexts

/-- An expression that restricts its minutes only. -/
def hourly (minutes : List ℤ) : CronExpression :=
  ⟨minutes, CronExpression.steps 0 23 1, CronExpression.steps 1 31 1, CronExpression.steps 1 12 1,
    (CronExpression.steps 0 7 1).map fun d => if d = 7 then 0 else d, false, false⟩

/-- Every quarter of an hour, shifted by three minutes. -/
theorem quarters_shifted : ∃ shifted,
    shiftCronMinutes Ascii.text "*/15 * * * *" 3 = .ok shifted ∧ (shifted = "*/15 * * * *" ∨
      ∃ c', CronExpression.parse Ascii.text shifted = .ok c' ∧ ∀ zone, WholeHours zone →
        ∀ u, Firing zone c' u ↔
          Firing zone (hourly (CronExpression.steps 0 59 15)) (u - 3 * minute)) := by
  refine (shift_keeps_iff Ascii.text fieldTexts_ascii "*/15 * * * *"
    (hourly (CronExpression.steps 0 59 15)) 3 (by decide) (by decide) (by decide)).mpr
    (.inr (.inl fun field hfield => ⟨?_, fun stepText step hstep hint => .inr ?_⟩))
  · obtain rfl := Option.some.inj hfield
    decide
  · obtain rfl := Option.some.inj hfield
    obtain rfl := Option.some.inj (hstep.symm.trans (by decide :
      starStep Ascii.text "*/15".toList = some "15".toList))
    obtain rfl := Except.ok.inj (hint.symm.trans (by decide :
      intOfText Ascii.text (String.ofList "15".toList) = .ok 15))
    decide

/-- A cadence of every minute loses the first three minutes of each hour. -/
theorem every_minute_drops :
    CronExpression.parse Ascii.text "* * * * *" = .ok (hourly (CronExpression.steps 0 59 1)) ∧
    ¬ ∃ shifted, shiftCronMinutes Ascii.text "* * * * *" 3 = .ok shifted ∧
      (shifted = "* * * * *" ∨ ∃ c', CronExpression.parse Ascii.text shifted = .ok c' ∧
        ∀ zone, WholeHours zone → ∀ u, Firing zone c' u ↔
          Firing zone (hourly (CronExpression.steps 0 59 1)) (u - 3 * minute)) := by
  refine ⟨by decide, ?_⟩
  rintro ⟨shifted, hok, hmeans⟩
  have htext : shiftCronMinutes Ascii.text "* * * * *" 3 = .ok "3-59/1 * * * *" := by decide
  obtain rfl := Except.ok.inj (hok.symm.trans htext)
  rcases hmeans with hsame | ⟨c', hc', hfires⟩
  · revert hsame
    decide
  · have hparse : CronExpression.parse Ascii.text "3-59/1 * * * *" =
        .ok (hourly (CronExpression.steps 3 59 1)) := by decide
    obtain rfl := Except.ok.inj (hc'.symm.trans hparse)
    obtain ⟨u, hu, hno⟩ := @last_wraps 1 3 (by decide) (by decide) (by decide)
      (hourly (CronExpression.steps 0 59 1)) rfl 0 (by decide)
    exact hno ((hfires _ WholeHours.utc u).mpr hu)

end ShiftCron

end EnergyPlatform
