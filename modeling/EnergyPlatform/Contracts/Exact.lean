import EnergyPlatform.Contracts.Ascii
import EnergyPlatform.Contracts.Decimals
import EnergyPlatform.Contracts.Numerals
import EnergyPlatform.Lib.Scientific

/-!
# Contracts.Exact

What a cell denotes, and when parsing it and applying the sign convention keeps that number.

`plainDecimal_sound`, `plainDecimal_complete`: a text is read as the number its digits denote.
`fix_exact_iff`: rounding to the default context keeps a number exactly when 28 digits hold it.
`cell_exact_iff`: a cell is read exactly unless it is a special value, or its number has more digits
and the sign is inverted.
-/

namespace EnergyPlatform

open Lib (Fits)

namespace Decimal

/-- The number a finite decimal stands for. -/
def toRat : Decimal → ℚ
  | finite neg coeff exp => (if neg then -1 else 1) * (coeff * 10 ^ exp)
  | _ => 0

/-- The default context can hold the number: 28 digits, the exponents of `decimal`. -/
abbrev InContext (q : ℚ) : Prop := Fits prec etiny (etop + prec) q

/-! ## Rounding -/

theorem numDigits_le_iff {c k : Nat} (h : 0 < k) : numDigits c ≤ k ↔ c < 10 ^ k :=
  Nat.length_toDigits_le_iff (by decide) h

theorem lt_pow_numDigits (c : Nat) : c < 10 ^ numDigits c :=
  (numDigits_le_iff Nat.length_toDigits_pos).mp le_rfl

theorem pow_numDigits_le {c : Nat} (h : c ≠ 0) : 10 ^ numDigits c ≤ c * 10 := by
  by_contra hlt
  have hpos : 0 < numDigits c := Nat.length_toDigits_pos
  obtain ⟨n, hn⟩ := Nat.exists_eq_succ_of_ne_zero hpos.ne'
  rw [hn, Nat.pow_succ] at hlt
  have hc : c < 10 ^ n := by omega
  cases n with
  | zero => exact h (Nat.lt_one_iff.mp hc)
  | succ n =>
    have := (numDigits_le_iff (Nat.succ_pos n)).mpr hc
    omega

theorem roundHalfEven_exact {c k : Nat} (h : 10 ^ k ∣ c) : roundHalfEven c k = c / 10 ^ k := by
  unfold roundHalfEven
  have hmod : c % 10 ^ k = 0 := Nat.mod_eq_zero_of_dvd h
  have hpos : 0 < 10 ^ k := by positivity
  simp only [hmod, Nat.mul_zero, hpos, if_true]

theorem roundHalfEven_le (c k : Nat) : roundHalfEven c k ≤ c / 10 ^ k + 1 := by
  unfold roundHalfEven
  dsimp only
  split_ifs <;> omega

theorem toRat_coeff_zero (neg : Bool) (exp : Int) : (finite neg 0 exp).toRat = 0 := by
  simp [toRat]

theorem inContext_toRat {neg : Bool} {c : Nat} {e : Int} :
    InContext (finite neg c e).toRat ↔ InContext (c * 10 ^ e) := by
  cases neg
  · simp [toRat]
  · simp only [toRat, if_true, neg_one_mul]
    exact Fits.neg_iff

/-- A result of rounding is finite and holds its number in the context. -/
theorem fix_ok {neg : Bool} {c : Nat} {e : Int} {d : Decimal} (h : fix (finite neg c e) = .ok d)
    (heq : d.toRat = (finite neg c e).toRat) : InContext (finite neg c e).toRat := by
  rw [fix] at h
  dsimp only at h
  split at h
  · rename_i hc
    rw [hc, toRat_coeff_zero]
    exact Fits.zero _ _ _
  · split at h
    · cases h
    · rename_i hc htop
      have hmag : |(c : ℚ) * 10 ^ e| < 10 ^ (etop + prec) := by
        rw [Lib.abs_coeff]
        refine (Lib.coeff_lt (lt_pow_numDigits c)).trans_le (Lib.zpow_ten_le_iff.mpr ?_)
        omega
      -- a number written with at most 28 digits at an exponent that is not too small
      have hfits : ∀ (c' : Nat) (e' : Int), c' < 10 ^ prec → etiny ≤ e' →
          (finite neg c' e').toRat = (finite neg c e).toRat → InContext (finite neg c e).toRat := by
        intro c' e' hc' he' hsame
        rw [inContext_toRat]
        have habs : |(c' : Int)| < 10 ^ prec := by
          rw [abs_of_nonneg (Int.natCast_nonneg c')]
          exact_mod_cast hc'
        refine ⟨hmag, c', e', habs, he', ?_⟩
        have hsign : ((if neg then -1 else 1 : ℚ)) ≠ 0 := by cases neg <;> simp
        have hcancel := mul_left_cancel₀ hsign hsame
        push_cast
        exact hcancel.symm
      split at h
      · split at h
        · rename_i hdigits
          obtain rfl := Except.ok.inj h
          exact hfits _ _ ((numDigits_le_iff (by decide)).mp hdigits) (le_max_right _ _) heq
        · split at h
          · cases h
          · obtain rfl := Except.ok.inj h
            have hlow := le_max_right ((numDigits c : Int) + e - prec) etiny
            refine hfits _ _ ?_ (by omega) heq
            have hdrop : c / 10 ^ (max ((numDigits c : Int) + e - prec) etiny - e).toNat < 10 ^ prec := by
              rw [Nat.div_lt_iff_lt_mul (by positivity), ← pow_add]
              refine (lt_pow_numDigits c).trans_le (Nat.pow_le_pow_right (by decide) ?_)
              omega
            have hle := roundHalfEven_le c (max ((numDigits c : Int) + e - prec) etiny - e).toNat
            have hprec : 10 ^ prec = 10 * 10 ^ 27 := by decide
            omega
      · rename_i hexp
        obtain rfl := Except.ok.inj h
        refine hfits c e ((numDigits_le_iff (by decide)).mp ?_) ?_ rfl
        · omega
        · omega

/-- A number the context holds is not changed. -/
theorem fix_exact {neg : Bool} {c : Nat} {e : Int} (h : InContext (finite neg c e).toRat) :
    ∃ c' e', fix (finite neg c e) = .ok (finite neg c' e') ∧
      (finite neg c' e').toRat = (finite neg c e).toRat ∧ (c' = 0 ↔ c = 0) := by
  by_cases hc : c = 0
  · refine ⟨0, min (max e etiny) 999999, by rw [fix, if_pos hc], ?_, by simp [hc]⟩
    rw [hc, toRat_coeff_zero, toRat_coeff_zero]
  · rw [inContext_toRat] at h
    have htop := h.magnitude (pow_numDigits_le hc)
    have hdvd := h.digits (pow_numDigits_le hc)
    rw [fix, if_neg hc]
    dsimp only
    rw [if_neg (by omega)]
    split
    · rename_i hexp
      have hpos : max ((numDigits c : Int) + e - prec) etiny - e =
          ((max ((numDigits c : Int) + e - prec) etiny - e).toNat : Int) := by omega
      generalize hk : (max ((numDigits c : Int) + e - prec) etiny - e).toNat = k at hdvd hpos ⊢
      obtain ⟨q, rfl⟩ := hdvd
      have hround : roundHalfEven (10 ^ k * q) k = q := by
        rw [roundHalfEven_exact (dvd_mul_right _ _), Nat.mul_div_cancel_left _ (by positivity)]
      have hq : q < 10 ^ prec := by
        have hlt := lt_pow_numDigits (10 ^ k * q)
        have hsum : 10 ^ numDigits (10 ^ k * q) ≤ 10 ^ k * 10 ^ prec := by
          rw [← pow_add]
          exact Nat.pow_le_pow_right (by decide) (by omega)
        exact Nat.lt_of_mul_lt_mul_left (hlt.trans_le hsum)
      rw [hround, if_pos ((numDigits_le_iff (by decide)).mpr hq)]
      refine ⟨q, _, rfl, ?_, by simp⟩
      have hexp' : max ((numDigits (10 ^ k * q) : Int) + e - prec) etiny = e + k := by omega
      rw [hexp']
      simp only [toRat]
      push_cast
      rw [zpow_add₀ (by norm_num), zpow_natCast]
      ring
    · exact ⟨c, e, rfl, rfl, Iff.rfl⟩

/-- Rounding raises nothing but an overflow. -/
theorem fix_error {neg : Bool} {c : Nat} {e : Int} {err : PyError}
    (h : fix (finite neg c e) = .error err) : err = .other "Overflow" := by
  rw [fix] at h
  dsimp only at h
  split_ifs at h
  all_goals exact (Except.error.inj h).symm

/-- A result of rounding keeps the sign. -/
theorem fix_finite {neg : Bool} {c : Nat} {e : Int} {d : Decimal}
    (h : fix (finite neg c e) = .ok d) : ∃ c' e', d = finite neg c' e' := by
  rw [fix] at h
  dsimp only at h
  split_ifs at h
  all_goals exact ⟨_, _, (Except.ok.inj h).symm⟩

theorem toRat_eq_zero {neg : Bool} {c : Nat} {e : Int} :
    (finite neg c e).toRat = 0 ↔ c = 0 := by
  have hpow : (10 : ℚ) ^ e ≠ 0 := zpow_ne_zero e (by norm_num)
  cases neg <;> simp [toRat, hpow]

theorem toRat_not {neg : Bool} {c : Nat} {e : Int} :
    (finite (!neg) c e).toRat = -(finite neg c e).toRat := by
  cases neg <;> simp [toRat]

theorem isFinite_cases {d : Decimal} (h : d.isFinite) : ∃ neg c e, d = finite neg c e := by
  cases d with
  | finite neg c e => exact ⟨neg, c, e, rfl⟩
  | infinity _ => cases h
  | nan _ => cases h

theorem applySign_zero (neg : Bool) (e : Int) : ∃ e',
    applySign (some (finite neg 0 e)) .inverted = .ok (some (finite false 0 e')) :=
  ⟨_, rfl⟩

/-- Inversion is exact on what the context holds. -/
theorem applySign_exact {d : Decimal} (hd : d.isFinite) (h : InContext d.toRat) :
    ∃ w, applySign (some d) .inverted = .ok (some w) ∧ w.isFinite ∧ w.toRat = -d.toRat := by
  obtain ⟨neg, c, e, rfl⟩ := isFinite_cases hd
  by_cases hc : c = 0
  · obtain rfl := hc
    obtain ⟨e', he'⟩ := applySign_zero neg e
    exact ⟨_, he', rfl, by rw [toRat_coeff_zero, toRat_coeff_zero, neg_zero]⟩
  · have hneg : InContext (finite (!neg) c e).toRat := by
      rw [toRat_not]
      exact h.neg
    obtain ⟨c', e', hfix, hsame, hzero⟩ := fix_exact hneg
    have htruthy : (finite (!neg) c' e').truthy = true := by
      simpa [truthy, hzero] using hc
    refine ⟨finite (!neg) c' e', ?_, rfl, by rw [hsame, toRat_not]⟩
    simp only [applySign, Decimal.neg, if_neg hc, hfix, htruthy, if_true]

/-- Where inversion gives the negated number, the context holds it. -/
theorem inContext_of_applySign {d w : Decimal} (hd : d.isFinite)
    (h : applySign (some d) .inverted = .ok (some w)) (heq : w.toRat = -d.toRat) :
    InContext d.toRat := by
  obtain ⟨neg, c, e, rfl⟩ := isFinite_cases hd
  by_cases hc : c = 0
  · rw [hc, toRat_coeff_zero]
    exact Fits.zero _ _ _
  · simp only [applySign, Decimal.neg, if_neg hc] at h
    cases hfix : fix (finite (!neg) c e) with
    | error err =>
      rw [hfix] at h
      cases h
    | ok v =>
      obtain ⟨c', e', rfl⟩ := fix_finite hfix
      rw [hfix] at h
      dsimp only at h
      split at h
      · obtain rfl := Option.some.inj (Except.ok.inj h)
        have hin := fix_ok hfix (by rw [heq, toRat_not])
        rw [toRat_not] at hin
        exact Fits.neg_iff.mp hin
      · -- a number that is not zero was rounded to zero
        rename_i hfalse
        have hc' : c' = 0 := by simpa [truthy] using hfalse
        obtain rfl := hc'
        have habs : Decimal.abs (finite (!neg) 0 e') = .ok (finite false 0 (min (max e' etiny) 999999)) :=
          rfl
        rw [habs] at h
        obtain rfl := Option.some.inj (Except.ok.inj h)
        rw [toRat_coeff_zero] at heq
        exact absurd (toRat_eq_zero.mp (neg_eq_zero.mp heq.symm)) hc

theorem applySign_error {d : Decimal} (hd : d.isFinite) {err : PyError}
    (h : applySign (some d) .inverted = .error err) : err = .other "Overflow" := by
  obtain ⟨neg, c, e, rfl⟩ := isFinite_cases hd
  simp only [applySign, Decimal.neg] at h
  generalize (if c = 0 then false else !neg) = sign at h
  cases hfix : fix (finite sign c e) with
  | error err' =>
    rw [hfix] at h
    obtain rfl := Except.error.inj h
    exact fix_error hfix
  | ok v =>
    obtain ⟨c', e', rfl⟩ := fix_finite hfix
    rw [hfix] at h
    dsimp only at h
    split at h
    · cases h
    · rw [Decimal.abs] at h
      cases habs : fix (finite false c' e') with
      | error err' =>
        rw [habs] at h
        obtain rfl := Except.error.inj h
        exact fix_error habs
      | ok v =>
        rw [habs] at h
        cases h

end Decimal

/-! ## What a cell denotes -/

def Separator.char : Separator → Char
  | .dot => '.'
  | .comma => ','

section Denotes

variable (txt : TextPrims)

/-- Neither a sign nor a separator is a digit. -/
def TextPrims.Plain : Prop := ∀ c ∈ ['+', '-', '.', ','], txt.digit c = none

/-- The positional value of a run of digits. -/
def digitsValue : List Char → Nat
  | [] => 0
  | c :: ds => (txt.digit c).getD 0 * 10 ^ ds.length + digitsValue ds

def Digits (ds : List Char) : Prop := ∀ c ∈ ds, (txt.digit c).isSome

/-- A sign, digits, and perhaps the separator with more digits. -/
inductive TextDenotes (sep : Char) : List Char → ℚ → Prop where
  | whole (neg : Bool) (sign whole : List Char)
      (hsign : sign = ['-'] ∧ neg = true ∨ (sign = [] ∨ sign = ['+']) ∧ neg = false)
      (hne : whole ≠ []) (hwhole : Digits txt whole) :
      TextDenotes sep (sign ++ whole) ((if neg then -1 else 1) * digitsValue txt whole)
  | fraction (neg : Bool) (sign whole frac : List Char)
      (hsign : sign = ['-'] ∧ neg = true ∨ (sign = [] ∨ sign = ['+']) ∧ neg = false)
      (hne : whole ≠ []) (hwhole : Digits txt whole) (hne' : frac ≠ []) (hfrac : Digits txt frac) :
      TextDenotes sep (sign ++ (whole ++ sep :: frac)) ((if neg then -1 else 1) *
        (digitsValue txt whole + digitsValue txt frac / 10 ^ frac.length))

/-- The number of a cell under the declared separator. -/
def CellDenotes (sep : Separator) : Cell → ℚ → Prop
  | .text s, q => TextDenotes txt sep.char (txt.strip s).toList q
  | .decimal d, q => d.isFinite ∧ q = d.toRat
  | .int n, q => q = n
  | .bool _, _ => False
  | .none, _ => False

def CellEmpty : Cell → Prop
  | .text s => (txt.strip s).toList = []
  | .none => True
  | _ => False

end Denotes

section Read

variable {txt : TextPrims} {sep : Char}

/-! ### Runs of digits -/

theorem digitRun_sound (cs : List Char) : ∃ ds rest, cs = ds ++ rest ∧ Digits txt ds ∧
    digitRun txt cs = (digitsValue txt ds, ds.length, rest) := by
  induction cs with
  | nil => exact ⟨[], [], rfl, nofun, rfl⟩
  | cons c cs ih =>
    cases hc : txt.digit c with
    | none => exact ⟨[], c :: cs, rfl, nofun, by rw [digitRun, hc]; rfl⟩
    | some d =>
      obtain ⟨ds, rest, rfl, hds, hrun⟩ := ih
      refine ⟨c :: ds, rest, rfl, ?_, ?_⟩
      · intro x hx
        cases hx with
        | head => rw [hc]; rfl
        | tail _ hx => exact hds x hx
      · rw [digitRun, hc, hrun, digitsValue, hc]
        rfl

theorem digitRun_complete {ds rest : List Char} (hds : Digits txt ds)
    (hrest : ∀ c, rest.head? = some c → txt.digit c = none) :
    digitRun txt (ds ++ rest) = (digitsValue txt ds, ds.length, rest) := by
  induction ds with
  | nil =>
    cases rest with
    | nil => rfl
    | cons c rest => rw [List.nil_append, digitRun, hrest c rfl]; rfl
  | cons c ds ih =>
    obtain ⟨d, hd⟩ := Option.isSome_iff_exists.mp (hds c (.head _))
    rw [List.cons_append, digitRun, hd, ih fun x hx => hds x (.tail _ hx), digitsValue, hd]
    rfl

/-! ### The pattern -/

/-- The sign in front of a text, and what follows it. -/
def signOf : List Char → Bool × List Char
  | [] => (false, [])
  | c :: rest => if c = '+' then (false, rest) else if c = '-' then (true, rest) else (false, c :: rest)

/-- The part of `plainDecimal` behind the sign. -/
def unsignedDecimal (txt : TextPrims) (neg : Bool) (body : List Char) : Option Decimal :=
  let whole := digitRun txt body
  if whole.2.1 = 0 then none
  else if whole.2.2 = [] then some (.finite neg whole.1 0)
  else if whole.2.2.head? = some '.' then
    let frac := digitRun txt whole.2.2.tail
    if frac.2.1 = 0 ∨ frac.2.2 ≠ [] then none
    else some (.finite neg (whole.1 * 10 ^ frac.2.1 + frac.1) (-frac.2.1))
  else none

theorem plainDecimal_eq (text : List Char) :
    plainDecimal txt text = unsignedDecimal txt (signOf text).1 (signOf text).2 := by
  unfold plainDecimal
  split
  rename_i neg body hsign
  have hsigned : signOf text = (neg, body) := by
    rw [← hsign]
    cases text with
    | nil => rfl
    | cons c rest =>
      by_cases hplus : c = '+'
      · rw [hplus]; rfl
      · by_cases hminus : c = '-'
        · rw [hminus]; rfl
        · simp [signOf, hplus, hminus]
  rw [hsigned]
  unfold unsignedDecimal
  dsimp only
  obtain ⟨whole, len, rest⟩ := digitRun txt body
  cases len with
  | zero => rfl
  | succ len =>
    cases rest with
    | nil => rfl
    | cons c rest =>
      by_cases hdot : c = '.'
      · rcases hrun : digitRun txt rest with ⟨frac, len', rest'⟩
        cases len' with
        | zero => simp [hdot, hrun]
        | succ len' => cases rest' <;> simp [hdot, hrun]
      · simp [hdot]

theorem signOf_cases (text : List Char) : ∃ sign, text = sign ++ (signOf text).2 ∧
    (sign = ['-'] ∧ (signOf text).1 = true ∨
      (sign = [] ∨ sign = ['+']) ∧ (signOf text).1 = false) := by
  cases text with
  | nil => exact ⟨[], rfl, .inr ⟨.inl rfl, rfl⟩⟩
  | cons c rest =>
    by_cases hplus : c = '+'
    · exact ⟨['+'], by simp [signOf, hplus], .inr ⟨.inr rfl, by simp [signOf, hplus]⟩⟩
    · by_cases hminus : c = '-'
      · exact ⟨['-'], by simp [signOf, hminus], .inl ⟨rfl, by simp [signOf, hminus]⟩⟩
      · exact ⟨[], by simp [signOf, hplus, hminus], .inr ⟨.inl rfl, by simp [signOf, hplus, hminus]⟩⟩

theorem not_digit (h : txt.Plain) {c : Char} (hc : c ∈ ['+', '-', '.', ',']) {ds : List Char}
    (hds : Digits txt ds) : c ∉ ds := by
  intro hmem
  have := hds c hmem
  rw [h c hc] at this
  cases this

/-- The sign that was written is the sign that is read. -/
theorem signOf_append (h : txt.Plain) {neg : Bool} {sign whole : List Char} (rest : List Char)
    (hsign : sign = ['-'] ∧ neg = true ∨ (sign = [] ∨ sign = ['+']) ∧ neg = false)
    (hne : whole ≠ []) (hwhole : Digits txt whole) :
    signOf (sign ++ (whole ++ rest)) = (neg, whole ++ rest) := by
  rcases hsign with ⟨rfl, rfl⟩ | ⟨rfl | rfl, rfl⟩
  · rfl
  · obtain ⟨c, ds, rfl⟩ := List.exists_cons_of_ne_nil hne
    have hmem : c ∈ c :: ds := List.mem_cons_self
    have hplus : c ≠ '+' := by
      rintro rfl
      exact not_digit h (by simp) hwhole hmem
    have hminus : c ≠ '-' := by
      rintro rfl
      exact not_digit h (by simp) hwhole hmem
    rw [List.nil_append, List.cons_append, signOf, if_neg hplus, if_neg hminus]
  · rfl

theorem toRat_fraction (neg : Bool) (whole frac len : Nat) :
    (Decimal.finite neg (whole * 10 ^ len + frac) (-len)).toRat =
      (if neg then -1 else 1) * ((whole : ℚ) + frac / 10 ^ len) := by
  have hpow : (10 : ℚ) ^ len ≠ 0 := pow_ne_zero len (by norm_num)
  rw [Decimal.toRat, zpow_neg, zpow_natCast]
  push_cast
  field_simp

theorem toRat_whole (neg : Bool) (whole : Nat) :
    (Decimal.finite neg whole 0).toRat = (if neg then -1 else 1) * (whole : ℚ) := by
  rw [Decimal.toRat, zpow_zero, mul_one]

/-- A text that is read denotes the number it is read as. -/
theorem plainDecimal_sound {text : List Char} {d : Decimal} (h : plainDecimal txt text = some d) :
    d.isFinite ∧ TextDenotes txt '.' text d.toRat := by
  rw [plainDecimal_eq] at h
  obtain ⟨sign, htext, hsign⟩ := signOf_cases text
  generalize (signOf text).1 = neg at h hsign
  generalize (signOf text).2 = body at h htext
  subst htext
  obtain ⟨whole, rest, rfl, hwhole, hrun⟩ := @digitRun_sound txt body
  unfold unsignedDecimal at h
  rw [hrun] at h
  dsimp only at h
  split at h
  · cases h
  · rename_i hlen
    have hne : whole ≠ [] := fun hnil => hlen (hnil ▸ rfl)
    split at h
    · rename_i hrest
      obtain rfl := Option.some.inj h
      rw [hrest, List.append_nil, toRat_whole]
      exact ⟨rfl, .whole neg sign whole hsign hne hwhole⟩
    · split at h
      · rename_i hdot
        obtain ⟨rest', rfl⟩ := List.head?_eq_some_iff.mp hdot
        obtain ⟨frac, rest, rfl, hfrac, hrun'⟩ := @digitRun_sound txt rest'
        rw [List.tail_cons, hrun'] at h
        dsimp only at h
        split at h
        · cases h
        · rename_i hend
          obtain ⟨hlen', hnil⟩ := not_or.mp hend
          obtain rfl := not_not.mp hnil
          obtain rfl := Option.some.inj h
          have hne' : frac ≠ [] := fun hf => hlen' (hf ▸ rfl)
          rw [List.append_nil, toRat_fraction]
          exact ⟨rfl, .fraction neg sign whole frac hsign hne hwhole hne' hfrac⟩
      · cases h

/-- A text that denotes a number is read as that number. -/
theorem plainDecimal_complete (hplain : txt.Plain) {text : List Char} {q : ℚ}
    (h : TextDenotes txt '.' text q) :
    ∃ d, plainDecimal txt text = some d ∧ d.isFinite ∧ d.toRat = q := by
  cases h with
  | whole neg sign whole hsign hne hwhole =>
    have hsigned := signOf_append hplain [] hsign hne hwhole
    rw [List.append_nil] at hsigned
    have hrun : digitRun txt (whole ++ []) = (digitsValue txt whole, whole.length, []) :=
      digitRun_complete hwhole nofun
    rw [List.append_nil] at hrun
    rw [plainDecimal_eq, hsigned]
    unfold unsignedDecimal
    rw [hrun]
    simp only [List.length_eq_zero_iff, hne, if_false, if_true]
    exact ⟨_, rfl, rfl, toRat_whole _ _⟩
  | fraction neg sign whole frac hsign hne hwhole hne' hfrac =>
    have hdot : ∀ c, ('.' :: frac).head? = some c → txt.digit c = none := by
      intro c hc
      obtain rfl := Option.some.inj hc
      exact hplain '.' (by simp)
    have hrun' : digitRun txt (frac ++ []) = (digitsValue txt frac, frac.length, []) :=
      digitRun_complete hfrac nofun
    rw [List.append_nil] at hrun'
    rw [plainDecimal_eq, signOf_append hplain _ hsign hne hwhole]
    unfold unsignedDecimal
    rw [digitRun_complete hwhole hdot]
    simp only [List.length_eq_zero_iff, hne, if_false, List.head?_cons, List.tail_cons, hrun', hne',
      reduceCtorEq, ne_eq, not_true_eq_false, or_self, if_true]
    exact ⟨_, rfl, rfl, toRat_fraction _ _ _ _⟩

/-! ### The comma rule -/

theorem commaToDot_append {a b : List Char} (h : ',' ∉ a) :
    commaToDot (a ++ ',' :: b) = a ++ '.' :: b := by
  induction a with
  | nil => rfl
  | cons c a ih =>
    have hc : c ≠ ',' := fun hc => h (hc ▸ .head _)
    rw [List.cons_append, List.cons_append, ← ih fun hmem => h (.tail _ hmem)]
    exact commaToDot.eq_3 c _ hc

theorem commaToDot_none {a : List Char} (h : ',' ∉ a) : commaToDot a = a := by
  induction a with
  | nil => rfl
  | cons c a ih =>
    have hc : c ≠ ',' := fun hc => h (hc ▸ .head _)
    rw [commaToDot.eq_3 c _ hc, ih fun hmem => h (.tail _ hmem)]

theorem commaToDot_cases (text : List Char) : (',' ∉ text ∧ commaToDot text = text) ∨
    ∃ a b, text = a ++ ',' :: b ∧ commaToDot text = a ++ '.' :: b := by
  by_cases h : ',' ∈ text
  · obtain ⟨a, b, rfl, ha⟩ := List.eq_append_cons_of_mem h
    exact .inr ⟨a, b, rfl, commaToDot_append ha⟩
  · exact .inl ⟨h, commaToDot_none h⟩

theorem not_mem_sign {neg : Bool} {sign : List Char} {c : Char} (hc : c ∉ ['+', '-'])
    (hsign : sign = ['-'] ∧ neg = true ∨ (sign = [] ∨ sign = ['+']) ∧ neg = false) : c ∉ sign := by
  rcases hsign with ⟨rfl, -⟩ | ⟨rfl | rfl, -⟩
  · exact fun h => hc (.tail _ h)
  · exact List.not_mem_nil
  · exact fun h => hc (List.mem_singleton.mp h ▸ .head _)

/-- A text without a dot denotes under the comma what its rewriting denotes under the dot. -/
theorem textDenotes_comma (hplain : txt.Plain) {text : List Char} (hdot : '.' ∉ text) {q : ℚ} :
    TextDenotes txt '.' (commaToDot text) q ↔ TextDenotes txt ',' text q := by
  constructor
  · intro h
    rcases commaToDot_cases text with ⟨-, hsame⟩ | ⟨a, b, rfl, hsame⟩
    · rw [hsame] at h
      cases h with
      | whole neg sign whole hsign hne hwhole => exact .whole neg sign whole hsign hne hwhole
      | fraction neg sign whole frac => exact absurd (by simp) hdot
    · rw [hsame] at h
      generalize htext : a ++ '.' :: b = text' at h
      cases h with
      | whole neg sign whole hsign hne hwhole =>
        have hmem : '.' ∈ sign ++ whole := htext ▸ by simp
        rcases List.mem_append.mp hmem with hs | hw
        · exact absurd hs (not_mem_sign (by decide) hsign)
        · exact absurd hw (not_digit hplain (by simp) hwhole)
      | fraction neg sign whole frac hsign hne hwhole hne' hfrac =>
        rw [← List.append_assoc] at htext
        have ha : '.' ∉ a := fun hmem => hdot (List.mem_append_left _ hmem)
        have hw : '.' ∉ sign ++ whole := by
          rw [List.mem_append, not_or]
          exact ⟨not_mem_sign (by decide) hsign, not_digit hplain (by simp) hwhole⟩
        obtain ⟨rfl, rfl⟩ := split_first ha hw htext
        rw [List.append_assoc]
        exact .fraction neg sign whole b hsign hne hwhole hne' hfrac
  · intro h
    cases h with
    | whole neg sign whole hsign hne hwhole =>
      rw [commaToDot_none]
      · exact .whole neg sign whole hsign hne hwhole
      · rw [List.mem_append, not_or]
        exact ⟨not_mem_sign (by decide) hsign, not_digit hplain (by simp) hwhole⟩
    | fraction neg sign whole frac hsign hne hwhole hne' hfrac =>
      rw [← List.append_assoc, commaToDot_append, List.append_assoc]
      · exact .fraction neg sign whole frac hsign hne hwhole hne' hfrac
      · rw [List.mem_append, not_or]
        exact ⟨not_mem_sign (by decide) hsign, not_digit hplain (by simp) hwhole⟩

/-- A text that denotes a number under the comma has no dot. -/
theorem no_dot_of_comma (hplain : txt.Plain) {text : List Char} {q : ℚ}
    (h : TextDenotes txt ',' text q) : '.' ∉ text := by
  cases h with
  | whole neg sign whole hsign hne hwhole =>
    rw [List.mem_append, not_or]
    exact ⟨not_mem_sign (by decide) hsign, not_digit hplain (by simp) hwhole⟩
  | fraction neg sign whole frac hsign hne hwhole hne' hfrac =>
    simp only [List.mem_append, List.mem_cons, not_or]
    exact ⟨not_mem_sign (by decide) hsign, not_digit hplain (by simp) hwhole, by decide,
      not_digit hplain (by simp) hfrac⟩

theorem textDenotes_ne_nil {text : List Char} {q : ℚ} (h : TextDenotes txt sep text q) :
    text ≠ [] := by
  cases h with
  | whole neg sign whole hsign hne hwhole => simp [hne]
  | fraction => simp

/-! ### Cells -/

/-- What `parse_decimal` does with a cell. -/
theorem parseDecimal_cases (hplain : txt.Plain) (cell : Cell) (sep : Separator) :
    (CellEmpty txt cell ∧ parseDecimal txt cell sep = .ok none) ∨
    (∃ d, cell = .decimal d ∧ ¬ d.isFinite ∧ parseDecimal txt cell sep = .ok (some d)) ∨
    (∃ d, d.isFinite ∧ CellDenotes txt sep cell d.toRat ∧
      parseDecimal txt cell sep = .ok (some d)) ∨
    (¬ CellEmpty txt cell ∧ (∀ d, cell ≠ .decimal d) ∧
      ∃ msg, parseDecimal txt cell sep = .error (.valueError msg)) := by
  cases cell with
  | none => exact .inl ⟨trivial, rfl⟩
  | bool b => exact .inr (.inr (.inr ⟨id, nofun, _, rfl⟩))
  | int n =>
    refine .inr (.inr (.inl ⟨.ofInt n, rfl, ?_, rfl⟩))
    have habs : ((n.natAbs : Nat) : ℚ) = |(n : ℚ)| := by
      rw [← Int.cast_abs, Int.abs_eq_natAbs, Int.cast_natCast]
    simp only [CellDenotes, Decimal.ofInt, toRat_whole, habs]
    by_cases hn : n < 0
    · simp [hn, abs_of_neg (Int.cast_lt_zero.mpr hn)]
    · simp [hn, abs_of_nonneg (Int.cast_nonneg (not_lt.mp hn))]
  | decimal d =>
    by_cases hd : d.isFinite
    · exact .inr (.inr (.inl ⟨d, hd, ⟨hd, rfl⟩, rfl⟩))
    · exact .inr (.inl ⟨d, rfl, hd, rfl⟩)
  | text s =>
    by_cases hempty : (txt.strip s).toList = []
    · exact .inl ⟨hempty, by simp only [parseDecimal, hempty, if_true]⟩
    · simp only [parseDecimal, hempty, if_false]
      by_cases hdot : sep = .comma ∧ '.' ∈ (txt.strip s).toList
      · exact .inr (.inr (.inr ⟨hempty, nofun, by rw [if_pos hdot]; exact ⟨_, rfl⟩⟩))
      · rw [if_neg hdot]
        cases hplainText : plainDecimal txt (if sep = .comma then commaToDot (txt.strip s).toList
            else (txt.strip s).toList) with
        | none => exact .inr (.inr (.inr ⟨hempty, nofun, _, rfl⟩))
        | some d =>
          obtain ⟨hd, hden⟩ := plainDecimal_sound hplainText
          refine .inr (.inr (.inl ⟨d, hd, ?_, rfl⟩))
          cases sep with
          | dot => exact hden
          | comma => exact (textDenotes_comma hplain fun hmem => hdot ⟨rfl, hmem⟩).mp hden

/-- A cell that denotes a number is read as that number. -/
theorem parseDecimal_complete (hplain : txt.Plain) {cell : Cell} {sep : Separator} {q : ℚ}
    (h : CellDenotes txt sep cell q) :
    ∃ d, parseDecimal txt cell sep = .ok (some d) ∧ d.isFinite ∧ d.toRat = q := by
  cases cell with
  | none => exact h.elim
  | bool b => exact h.elim
  | int n =>
    rcases parseDecimal_cases hplain (.int n) sep with h' | ⟨d, hd, -⟩ | ⟨d, hd, hden, hp⟩ | ⟨-, -, _, h'⟩
    · exact h'.1.elim
    · cases hd
    · exact ⟨d, hp, hd, hden.trans h.symm⟩
    · cases h'
  | decimal d => exact ⟨d, rfl, h.1, h.2.symm⟩
  | text s =>
    simp only [CellDenotes] at h
    have hne := textDenotes_ne_nil h
    simp only [parseDecimal, hne, if_false]
    cases sep with
    | dot =>
      obtain ⟨d, hp, hd⟩ := plainDecimal_complete hplain h
      exact ⟨d, by simp [hp], hd⟩
    | comma =>
      have hdot := no_dot_of_comma hplain h
      obtain ⟨d, hp, hd⟩ := plainDecimal_complete hplain ((textDenotes_comma hplain hdot).mpr h)
      exact ⟨d, by simp [hp, hdot], hd⟩

end Read

/-! ## Parsing and the sign convention together -/

/-- `apply_sign(parse_decimal(value, separator), sign)`. -/
def readCell (txt : TextPrims) (cell : Cell) (sep : Separator) (sign : Sign) :
    Except PyError (Option Decimal) := do
  let value ← parseDecimal txt cell sep
  applySign value sign

def Sign.apply : Sign → ℚ → ℚ
  | .asPublished, q => q
  | .inverted, q => -q

/-- Numbers are exact and finite. -/
structure ExactCell (txt : TextPrims) (cell : Cell) (sep : Separator) (sign : Sign) : Prop where
  null : readCell txt cell sep sign = .ok none ↔ CellEmpty txt cell
  exact : ∀ d, readCell txt cell sep sign = .ok (some d) →
    d.isFinite ∧ ∃ q, CellDenotes txt sep cell q ∧ d.toRat = sign.apply q
  refused : ∀ e, readCell txt cell sep sign = .error e → ∃ msg, e = .valueError msg
  special : ∀ d, cell = .decimal d → ¬ d.isFinite →
    ∃ msg, readCell txt cell sep sign = .error (.valueError msg)
  twice : sign = .inverted → ∀ d, parseDecimal txt cell sep = .ok (some d) →
    ∃ w v, applySign (some d) .inverted = .ok (some w) ∧
      applySign (some w) .inverted = .ok (some v) ∧ v.toRat = d.toRat

section Cells

variable {txt : TextPrims} {cell : Cell} {sep : Separator} {sign : Sign}

theorem readCell_of_parse {v : Option Decimal} (h : parseDecimal txt cell sep = .ok v) :
    readCell txt cell sep sign = applySign v sign := by
  rw [readCell, h]
  rfl

theorem denotes_not_empty {q : ℚ} (h : CellDenotes txt sep cell q) :
    ¬ CellEmpty txt cell := by
  cases cell with
  | text s => exact textDenotes_ne_nil h
  | none => exact h.elim
  | _ => exact id

theorem denotes_unique (hplain : txt.Plain) {q : ℚ} (h : CellDenotes txt sep cell q)
    {d : Decimal} (hp : parseDecimal txt cell sep = .ok (some d)) : d.toRat = q := by
  obtain ⟨d', hp', -, rfl⟩ := parseDecimal_complete hplain h
  obtain rfl := Option.some.inj (Except.ok.inj (hp.symm.trans hp'))
  rfl

/-- A special value is never refused with `ValueError`. -/
theorem special_not_refused {d : Decimal} (hd : ¬ d.isFinite) (msg : String) :
    readCell txt (.decimal d) sep sign ≠ .error (.valueError msg) := by
  rw [readCell_of_parse rfl]
  intro h
  cases d with
  | finite neg c e => exact hd rfl
  | infinity neg => cases sign <;> cases h
  | nan signaling => cases sign <;> cases signaling <;> cases h

theorem readCell_inContext (hplain : txt.Plain) (h : ExactCell txt cell sep .inverted) {q : ℚ}
    (hq : CellDenotes txt sep cell q) : Decimal.InContext q := by
  obtain ⟨d, hp, hd, rfl⟩ := parseDecimal_complete hplain hq
  have hread : readCell txt cell sep .inverted = applySign (some d) .inverted :=
    readCell_of_parse hp
  cases hs : applySign (some d) .inverted with
  | error e =>
    obtain ⟨msg, hmsg⟩ := h.refused e (hread.trans hs)
    rw [Decimal.applySign_error hd hs] at hmsg
    cases hmsg
  | ok v =>
    cases v with
    | none => exact absurd (h.null.mp (hread.trans hs)) (denotes_not_empty hq)
    | some w =>
      obtain ⟨-, q', hq', hw⟩ := h.exact w (hread.trans hs)
      rw [← denotes_unique hplain hq' hp] at hw
      exact Decimal.inContext_of_applySign hd hs hw

theorem exactCell_finite {d : Decimal} (hd : d.isFinite) (hden : CellDenotes txt sep cell d.toRat)
    (hp : parseDecimal txt cell sep = .ok (some d)) (hspec : ∀ d, cell = .decimal d → d.isFinite)
    (hctx : sign = .inverted → Decimal.InContext d.toRat) : ExactCell txt cell sep sign := by
  have hread : readCell txt cell sep sign = applySign (some d) sign := readCell_of_parse hp
  have hne := denotes_not_empty hden
  -- what the sign convention makes of the number
  have hsigned : ∃ w, applySign (some d) sign = .ok (some w) ∧ w.isFinite ∧
      w.toRat = sign.apply d.toRat := by
    cases sign with
    | asPublished => exact ⟨d, rfl, hd, rfl⟩
    | inverted => exact Decimal.applySign_exact hd (hctx rfl)
  obtain ⟨w, hw, hwfin, hwrat⟩ := hsigned
  rw [hw] at hread
  constructor
  case null =>
    rw [hread]
    exact ⟨nofun, fun h => absurd h hne⟩
  case exact =>
    intro v hv
    obtain rfl := Option.some.inj (Except.ok.inj (hread.symm.trans hv))
    exact ⟨hwfin, d.toRat, hden, hwrat⟩
  case refused =>
    intro e he
    rw [hread] at he
    cases he
  case special =>
    intro d' hcell hd'
    exact absurd (hspec d' hcell) hd'
  case twice =>
    intro hinv v hv
    obtain rfl := Option.some.inj (Except.ok.inj (hp.symm.trans hv))
    subst hinv
    have hctx' : Decimal.InContext w.toRat := by
      rw [hwrat]
      exact (hctx rfl).neg
    obtain ⟨u, hu, -, hurat⟩ := Decimal.applySign_exact hwfin hctx'
    refine ⟨w, u, hw, hu, ?_⟩
    rw [hurat, hwrat, Sign.apply, neg_neg]

/-- Which cells are read exactly, refused or empty, as the rules for numbers say. -/
theorem cell_exact_iff (hplain : txt.Plain) : ExactCell txt cell sep sign ↔
    (∀ d, cell = .decimal d → d.isFinite) ∧
      (sign = .inverted → ∀ q, CellDenotes txt sep cell q → Decimal.InContext q) := by
  constructor
  · intro h
    refine ⟨?_, ?_⟩
    · intro d hcell
      by_contra hd
      obtain ⟨msg, hmsg⟩ := h.special d hcell hd
      rw [hcell] at hmsg
      exact special_not_refused hd msg hmsg
    · intro hsign q hq
      subst hsign
      exact readCell_inContext hplain h hq
  · intro h
    obtain ⟨hspec, hctx⟩ := h
    rcases parseDecimal_cases hplain cell sep with
      ⟨hempty, hp⟩ | ⟨d, hcell, hd, -⟩ | ⟨d, hd, hden, hp⟩ | ⟨hne, hnot, msg, hp⟩
    · have hread : readCell txt cell sep sign = .ok none := readCell_of_parse hp
      constructor
      case null => exact ⟨fun _ => hempty, fun _ => hread⟩
      case exact =>
        intro d hd
        rw [hread] at hd
        cases hd
      case refused =>
        intro e he
        rw [hread] at he
        cases he
      case special =>
        intro d hcell _
        rw [hcell] at hempty
        exact hempty.elim
      case twice =>
        intro _ d hd
        rw [hp] at hd
        cases hd
    · exact absurd (hspec d hcell) hd
    · exact exactCell_finite hd hden hp hspec fun hsign => hctx hsign _ hden
    · have hread : readCell txt cell sep sign = .error (.valueError msg) := by
        rw [readCell, hp]
        rfl
      constructor
      case null =>
        rw [hread]
        exact ⟨nofun, fun h => absurd h hne⟩
      case exact =>
        intro d hd
        rw [hread] at hd
        cases hd
      case refused =>
        intro e he
        exact ⟨msg, (Except.error.inj (hread.symm.trans he)).symm⟩
      case special =>
        intro d hcell _
        exact absurd hcell (hnot d)
      case twice =>
        intro _ d hd
        rw [hp] at hd
        cases hd

end Cells

theorem Ascii.text_plain : Ascii.text.Plain := by
  intro c hc
  fin_cases hc <;> rfl

/-- A number of four digits is read and negated without a loss. -/
theorem inverted_cell_exact : readCell Ascii.text (.text " 12,50 ") .comma .inverted =
      .ok (some (.finite true 1250 (-2))) ∧
    ExactCell Ascii.text (.text " 12,50 ") .comma .inverted := by
  refine ⟨by decide +kernel, (cell_exact_iff Ascii.text_plain).mpr ⟨nofun, fun _ q hq => ?_⟩⟩
  obtain ⟨d, hp, -, rfl⟩ := parseDecimal_complete Ascii.text_plain hq
  have hparse : parseDecimal Ascii.text (.text " 12,50 ") .comma =
      .ok (some (.finite false 1250 (-2))) := by decide +kernel
  obtain rfl := Option.some.inj (Except.ok.inj (hparse.symm.trans hp))
  have hfix : Decimal.fix (.finite false 1250 (-2)) = .ok (.finite false 1250 (-2)) := by
    decide +kernel
  exact Decimal.fix_ok hfix rfl

/-- A NaN is passed on, and a number of 29 digits is rounded when its sign is inverted. -/
theorem cell_not_exact :
    ¬ ExactCell Ascii.text (.decimal (.nan false)) .dot .asPublished ∧
      ¬ ExactCell Ascii.text (.int (10 ^ 28 + 1)) .dot .inverted := by
  refine ⟨?_, ?_⟩
  · intro h
    obtain ⟨msg, hmsg⟩ := h.special (.nan false) rfl nofun
    cases hmsg
  · intro h
    have hread : readCell Ascii.text (.int (10 ^ 28 + 1)) .dot .inverted =
        .ok (some (.finite true (10 ^ 27) 1)) := by decide +kernel
    obtain ⟨-, q, hq, hrat⟩ := h.exact _ hread
    obtain rfl : q = (10 ^ 28 + 1 : Int) := hq
    norm_num [Decimal.toRat, Sign.apply] at hrat

end EnergyPlatform
