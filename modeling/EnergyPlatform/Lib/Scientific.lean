import Mathlib.Data.Rat.Lemmas
import Mathlib.Tactic

/-!
# Lib.Scientific

Numbers of bounded precision: `m * 10 ^ k` with at most `p` digits in `m`, a least exponent `low`,
and a magnitude below `10 ^ top`.

`Fits.digits`: when a coefficient and an exponent denote such a number, the digits beyond the `p`-th
and those below the least exponent are zeros.
-/

namespace Lib

/-- The number has a form with at most `p` digits. -/
def Fits (p : Nat) (low top : Int) (q : ℚ) : Prop :=
  |q| < 10 ^ top ∧ ∃ m k : Int, |m| < 10 ^ p ∧ low ≤ k ∧ q = m * 10 ^ k

namespace Fits

variable {p : Nat} {low top : Int} {q : ℚ}

theorem neg (h : Fits p low top q) : Fits p low top (-q) := by
  obtain ⟨hlt, m, k, hm, hk, rfl⟩ := h
  refine ⟨by rwa [abs_neg], -m, k, by rwa [abs_neg], hk, ?_⟩
  push_cast
  ring

theorem neg_iff : Fits p low top (-q) ↔ Fits p low top q :=
  ⟨fun h => neg_neg q ▸ h.neg, neg⟩

theorem zero (low top : Int) (p : Nat) : Fits p low top 0 :=
  ⟨by rw [abs_zero]; positivity, 0, low, by simp, le_rfl, by simp⟩

end Fits

section Coefficient

variable {p : Nat} {low top e : Int} {c n : Nat}

theorem zpow_ten_le_iff {a b : Int} : (10 : ℚ) ^ a ≤ 10 ^ b ↔ a ≤ b :=
  zpow_le_zpow_iff_right₀ (by norm_num)

theorem zpow_ten_lt_iff {a b : Int} : (10 : ℚ) ^ a < 10 ^ b ↔ a < b :=
  zpow_lt_zpow_iff_right₀ (by norm_num)

theorem abs_coeff (c : Nat) (e : Int) : |(c : ℚ) * 10 ^ e| = c * 10 ^ e :=
  abs_of_nonneg (by positivity)

/-- A number of `n` digits is below `10 ^ n`, scaled. -/
theorem coeff_lt (hc : c < 10 ^ n) : (c : ℚ) * 10 ^ e < 10 ^ ((n : Int) + e) := by
  have hcast : (c : ℚ) < 10 ^ n := by exact_mod_cast hc
  calc (c : ℚ) * 10 ^ e < 10 ^ n * 10 ^ e := by gcongr
    _ = 10 ^ ((n : Int) + e) := by rw [zpow_add₀ (by norm_num), zpow_natCast]

theorem le_coeff (hc : 10 ^ n ≤ c * 10) : (10 : ℚ) ^ ((n : Int) + e - 1) ≤ c * 10 ^ e := by
  have hcast : (10 : ℚ) ^ n ≤ c * 10 := by exact_mod_cast hc
  have hsplit : (10 : ℚ) ^ ((n : Int) + e - 1) = 10 ^ n * 10 ^ e / 10 := by
    rw [zpow_sub₀ (by norm_num), zpow_add₀ (by norm_num), zpow_natCast, zpow_one]
  rw [hsplit, div_le_iff₀ (by norm_num)]
  calc (10 : ℚ) ^ n * 10 ^ e ≤ c * 10 * 10 ^ e := by gcongr
    _ = c * 10 ^ e * 10 := by ring

theorem Fits.magnitude (h : Fits p low top (c * 10 ^ e)) (hc : 10 ^ n ≤ c * 10) :
    (n : Int) + e ≤ top := by
  have hlt := (le_coeff (e := e) hc).trans_lt (abs_coeff c e ▸ h.1)
  have := zpow_ten_lt_iff.mp hlt
  omega

/-- What the rounding of a number that fits drops is zeros. -/
theorem Fits.digits (h : Fits p low top (c * 10 ^ e)) (hc : 10 ^ n ≤ c * 10) :
    10 ^ (max ((n : Int) + e - p) low - e).toNat ∣ c := by
  obtain ⟨-, m, k, hm, hk, heq⟩ := h
  have hmag : (n : Int) + e - p ≤ k := by
    have habs : (c : ℚ) * 10 ^ e = |(m : ℚ)| * 10 ^ k := by
      have hpow : (0 : ℚ) ≤ 10 ^ k := by positivity
      rw [← abs_coeff c e, heq, abs_mul, abs_of_nonneg hpow]
    have hmcast : |(m : ℚ)| < 10 ^ p := by exact_mod_cast hm
    have hlt : (10 : ℚ) ^ ((n : Int) + e - 1) < 10 ^ ((p : Int) + k) := by
      calc (10 : ℚ) ^ ((n : Int) + e - 1) ≤ c * 10 ^ e := le_coeff hc
        _ = |(m : ℚ)| * 10 ^ k := habs
        _ < 10 ^ p * 10 ^ k := by gcongr
        _ = 10 ^ ((p : Int) + k) := by rw [zpow_add₀ (by norm_num), zpow_natCast]
    have := zpow_ten_lt_iff.mp hlt
    omega
  by_cases hle : max ((n : Int) + e - p) low ≤ e
  · rw [Int.toNat_of_nonpos (by omega), pow_zero]
    exact one_dvd c
  · have hke : e ≤ k := by omega
    have hcm : (c : Int) = m * 10 ^ (k - e).toNat := by
      have hpow : (10 : ℚ) ^ k = 10 ^ (k - e).toNat * 10 ^ e := by
        rw [← zpow_natCast, Int.toNat_of_nonneg (Int.sub_nonneg.mpr hke), ← zpow_add₀ (by norm_num)]
        congr 1
        omega
      rw [hpow, ← mul_assoc] at heq
      have hcancel := mul_right_cancel₀ (zpow_ne_zero e (by norm_num)) heq
      exact_mod_cast hcancel
    have hdvd : (10 : Int) ^ (max ((n : Int) + e - p) low - e).toNat ∣ c := by
      rw [hcm]
      exact Dvd.dvd.mul_left (pow_dvd_pow 10 (Int.toNat_le_toNat (by omega))) m
    exact_mod_cast hdvd

end Coefficient

end Lib
