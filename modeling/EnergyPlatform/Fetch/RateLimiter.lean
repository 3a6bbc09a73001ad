import Mathlib.Algebra.Order.Field.Rat
import Mathlib.Tactic.FieldSimp
import Mathlib.Tactic.Linarith
import Mathlib.Tactic.Positivity
import Mathlib.Tactic.Ring

/-!
# Fetch.RateLimiter

The token bucket in front of a rate-limited source, over exact rationals.

* `acquire_spends`: what one call takes out of the bucket.
* `completions_below`: a run completes fewer calls than the bucket holds and gains in the time.
* `window_promise`: hence fewer than twice `requests` in every window of `per_seconds`.
* `burst_breaks_promise`: a full bucket spent at once and one token more, all in one window, so
  `requests` is no bound unless it is 1.
-/

namespace EnergyPlatform

structure RateLimiter where
  capacity : ℚ
  rate : ℚ
  tokens : ℚ
  last : ℚ

/-- What the clock shows when a call starts and, if it sleeps, when it wakes. -/
structure Readings where
  now : ℚ
  woken : ℚ

namespace RateLimiter

def init (requests : ℕ) (perSeconds clock : ℚ) : RateLimiter :=
  ⟨requests, requests / perSeconds, requests, clock⟩

def refilled (s : RateLimiter) (now : ℚ) : ℚ :=
  min s.capacity (s.tokens + (now - s.last) * s.rate)

/-- What a call that starts at `now` asks `sleep` for. -/
def wait (s : RateLimiter) (now : ℚ) : Option ℚ :=
  if s.refilled now < 1 then some ((1 - s.refilled now) / s.rate) else none

def acquire (s : RateLimiter) (r : Readings) : RateLimiter :=
  if s.refilled r.now < 1 then { s with tokens := 0, last := r.woken }
  else { s with tokens := s.refilled r.now - 1, last := r.now }

/-- The clock does not go back, and a sleep lasts at least as long as asked. -/
def Possible (s : RateLimiter) (r : Readings) : Prop :=
  s.last ≤ r.now ∧ ∀ w, s.wait r.now = some w → r.now + w ≤ r.woken

/-- A sequence of calls. -/
def Runs : RateLimiter → List Readings → Prop
  | _, [] => True
  | s, r :: rs => s.Possible r ∧ Runs (s.acquire r) rs

/-- When the calls complete: at the last clock reading of each. -/
def completions : RateLimiter → List Readings → List ℚ
  | _, [] => []
  | s, r :: rs => (s.acquire r).last :: completions (s.acquire r) rs

/-- The completions in `[from, until)`. -/
def countIn (lo hi : ℚ) (times : List ℚ) : ℕ := times.countP fun c => lo ≤ c ∧ c < hi

/-- At most `requests` per `per_seconds`. -/
def KeepsPromise (requests : ℕ) (perSeconds : ℚ) : Prop :=
  ∀ clock rs, Runs (init requests perSeconds clock) rs →
    ∀ lo, countIn lo (lo + perSeconds) (completions (init requests perSeconds clock) rs) ≤ requests

/-- The bucket between calls. -/
structure Level (s : RateLimiter) : Prop where
  rate : 0 < s.rate
  capacity : 1 ≤ s.capacity
  tokens : 0 ≤ s.tokens

theorem init_level {requests : ℕ} {perSeconds : ℚ} (hr : 1 ≤ requests) (hp : 0 < perSeconds)
    (clock : ℚ) : Level (init requests perSeconds clock) where
  rate := div_pos (by exact_mod_cast hr) hp
  capacity := by
    change (1 : ℚ) ≤ (requests : ℚ)
    exact_mod_cast hr
  tokens := by
    change (0 : ℚ) ≤ (requests : ℚ)
    positivity

section Runs

variable {s : RateLimiter} {r : Readings} {rs : List Readings}

@[simp] theorem acquire_rate : (s.acquire r).rate = s.rate := by
  unfold acquire
  split <;> rfl

@[simp] theorem acquire_capacity : (s.acquire r).capacity = s.capacity := by
  unfold acquire
  split <;> rfl

/-- A call takes a token: out of what was there and what the time up to its end brings. -/
theorem acquire_spends (hs : Level s) (hr : s.Possible r) :
    s.last ≤ (s.acquire r).last ∧ 0 ≤ (s.acquire r).tokens ∧
      (s.acquire r).tokens ≤ s.capacity - 1 ∧
      (s.acquire r).tokens + 1 ≤ s.tokens + ((s.acquire r).last - s.last) * s.rate := by
  obtain ⟨hnow, hsleep⟩ := hr
  have hcap : s.refilled r.now ≤ s.capacity := min_le_left _ _
  have hgain : s.refilled r.now ≤ s.tokens + (r.now - s.last) * s.rate := min_le_right _ _
  have hone := hs.capacity
  by_cases h : s.refilled r.now < 1
  · have hw : r.now + (1 - s.refilled r.now) / s.rate ≤ r.woken := hsleep _ (if_pos h)
    have hpos : 0 < (1 - s.refilled r.now) / s.rate := div_pos (by linarith) hs.rate
    have hslept : 1 - s.refilled r.now ≤ (r.woken - r.now) * s.rate := by
      rw [← div_le_iff₀ hs.rate]
      linarith
    rw [acquire, if_pos h]
    refine ⟨by linarith, le_refl _, by linarith, ?_⟩
    have hsplit : (r.woken - s.last) * s.rate =
        (r.woken - r.now) * s.rate + (r.now - s.last) * s.rate := by ring
    linarith
  · rw [acquire, if_neg h]
    refine ⟨hnow, by linarith, by linarith, ?_⟩
    linarith

theorem acquire_level (hs : Level s) (hr : s.Possible r) : Level (s.acquire r) where
  rate := by rw [acquire_rate]; exact hs.rate
  capacity := by rw [acquire_capacity]; exact hs.capacity
  tokens := (acquire_spends hs hr).2.1

theorem last_le_completions (hs : Level s) (h : Runs s rs) : ∀ c ∈ completions s rs, s.last ≤ c := by
  induction rs generalizing s with
  | nil => exact fun _ hc => nomatch hc
  | cons r rs ih =>
    obtain ⟨hr, hrest⟩ := h
    have hfirst := (acquire_spends hs hr).1
    intro c hc
    rcases List.mem_cons.mp hc with rfl | hc
    · exact hfirst
    · exact le_trans hfirst (ih (acquire_level hs hr) hrest c hc)

/-- Completions that all lie at or after `hi` are not counted. -/
theorem countIn_after {lo hi : ℚ} {times : List ℚ} (h : ∀ c ∈ times, hi ≤ c) :
    countIn lo hi times = 0 := by
  refine List.countP_eq_zero.mpr fun c hc hin => ?_
  have hin := of_decide_eq_true hin
  exact absurd hin.2 (not_lt.mpr (h c hc))

theorem countIn_cons_in {lo hi c : ℚ} {times : List ℚ} (hlo : lo ≤ c) (hhi : c < hi) :
    countIn lo hi (c :: times) = countIn lo hi times + 1 :=
  List.countP_cons_of_pos (decide_eq_true ⟨hlo, hhi⟩)

theorem countIn_cons_out {lo hi c : ℚ} {times : List ℚ} (h : ¬ (lo ≤ c ∧ c < hi)) :
    countIn lo hi (c :: times) = countIn lo hi times :=
  List.countP_cons_of_neg (by simpa using h)

/-- What is completed before `hi` is less than what the bucket holds and gains until then. -/
theorem completions_below {lo : ℚ} (hi : ℚ) (hs : Level s) (hlo : lo ≤ s.last) (h : Runs s rs) :
    countIn lo hi (completions s rs) = 0 ∨
      (countIn lo hi (completions s rs) : ℚ) < s.tokens + (hi - s.last) * s.rate := by
  induction rs generalizing s with
  | nil => exact .inl rfl
  | cons r rs ih =>
    have hall := last_le_completions hs h
    obtain ⟨hr, hrest⟩ := h
    obtain ⟨hlast, htokens, -, hspent⟩ := acquire_spends hs hr
    have hs' := acquire_level hs hr
    rw [completions]
    by_cases hhi : (s.acquire r).last < hi
    · right
      have hleft : 0 < (hi - (s.acquire r).last) * s.rate :=
        mul_pos (by linarith) hs.rate
      have hsplit : (hi - s.last) * s.rate =
          (hi - (s.acquire r).last) * s.rate + ((s.acquire r).last - s.last) * s.rate := by ring
      rw [countIn_cons_in (le_trans hlo hlast) hhi]
      push_cast
      rcases ih hs' (le_trans hlo hlast) hrest with hzero | hlt
      · rw [hzero]
        push_cast
        linarith
      · rw [acquire_rate] at hlt
        linarith
    · left
      refine countIn_after fun c hc => ?_
      rcases List.mem_cons.mp hc with rfl | hc
      · exact not_lt.mp hhi
      · exact le_trans (not_lt.mp hhi) (last_le_completions hs' hrest c hc)

/-- Fewer than twice the capacity complete in the time that fills the bucket. -/
theorem window_bound (lo : ℚ) {per : ℚ} (hs : Level s) (hper : per * s.rate = s.capacity)
    (h : Runs s rs) : (countIn lo (lo + per) (completions s rs) : ℚ) < 2 * s.capacity := by
  have hone := hs.capacity
  induction rs generalizing s with
  | nil =>
    change ((0 : ℕ) : ℚ) < 2 * s.capacity
    push_cast
    linarith
  | cons r rs ih =>
    obtain ⟨hr, hrest⟩ := h
    obtain ⟨-, -, hleft, -⟩ := acquire_spends hs hr
    have hs' := acquire_level hs hr
    rw [completions]
    by_cases hin : lo ≤ (s.acquire r).last ∧ (s.acquire r).last < lo + per
    · -- the first completion of the window: the rest of it is bounded by what is left then
      rw [countIn_cons_in hin.1 hin.2]
      push_cast
      have hgain : (lo + per - (s.acquire r).last) * s.rate ≤ s.capacity := by
        rw [← hper]
        exact mul_le_mul_of_nonneg_right (by linarith [hin.1]) (le_of_lt hs.rate)
      rcases completions_below (lo + per) hs' hin.1 hrest with hzero | hlt
      · rw [hzero]
        push_cast
        linarith
      · rw [acquire_rate] at hlt
        linarith
    · rw [countIn_cons_out hin]
      have hbound := ih hs' (by rw [acquire_rate, acquire_capacity]; exact hper) hrest
        (by rw [acquire_capacity]; exact hone)
      rwa [acquire_capacity] at hbound

variable (s rs) in
/-- Calls at one instant, as many as there are tokens: none of them sleeps. -/
theorem burst (k : ℕ) (hk : (k : ℚ) ≤ s.tokens) (hfull : s.tokens ≤ s.capacity) :
    completions s (List.replicate k ⟨s.last, s.last⟩ ++ rs) =
        List.replicate k s.last ++ completions { s with tokens := s.tokens - k } rs ∧
      (Runs { s with tokens := s.tokens - k } rs →
        Runs s (List.replicate k ⟨s.last, s.last⟩ ++ rs)) := by
  induction k generalizing s with
  | zero =>
    have hsame : { s with tokens := s.tokens - (0 : ℕ) } = s := by
      push_cast
      rw [sub_zero]
    rw [hsame]
    exact ⟨rfl, id⟩
  | succ k ih =>
    push_cast at hk
    have hk0 : (0 : ℚ) ≤ k := by positivity
    have hrefilled : s.refilled s.last = s.tokens := by
      rw [refilled, sub_self, zero_mul, add_zero]
      exact min_eq_right hfull
    have hone : ¬ s.refilled s.last < 1 := by
      rw [hrefilled]
      linarith
    have hstep : s.acquire ⟨s.last, s.last⟩ = { s with tokens := s.tokens - 1 } := by
      rw [acquire, if_neg hone, hrefilled]
    have hpossible : s.Possible ⟨s.last, s.last⟩ := by
      refine ⟨le_refl _, fun w hw => ?_⟩
      rw [wait, if_neg hone] at hw
      cases hw
    obtain ⟨htimes, hruns⟩ := ih { s with tokens := s.tokens - 1 }
      (by change (k : ℚ) ≤ s.tokens - 1; linarith)
      (by change s.tokens - 1 ≤ s.capacity; linarith)
    have hrest : ({ s with tokens := s.tokens - 1 - (k : ℚ) } : RateLimiter) =
        { s with tokens := s.tokens - ((k + 1 : ℕ) : ℚ) } := by
      congr 1
      push_cast
      ring
    rw [List.replicate_succ, List.replicate_succ, List.cons_append, List.cons_append, completions,
      hstep, htimes, ← hrest]
    exact ⟨rfl, fun h => ⟨hpossible, by rw [hstep]; exact hruns h⟩⟩

end Runs

section Promise

variable {requests : ℕ} {perSeconds : ℚ}

/-- The bucket spent at once and one more token as soon as there is one. -/
theorem burst_breaks_promise (hr : 2 ≤ requests) (hp : 0 < perSeconds) :
    ¬ KeepsPromise requests perSeconds := by
  intro h
  have hr' : (2 : ℚ) ≤ requests := by exact_mod_cast hr
  have hr0 : (0 : ℚ) < requests := by linarith
  have hnext : 0 < perSeconds / requests := div_pos hp hr0
  have hsoon : perSeconds / requests < perSeconds := by
    rw [div_lt_iff₀ hr0]
    nlinarith
  let empty : RateLimiter := ⟨requests, requests / perSeconds, requests - requests, 0⟩
  let last : Readings := ⟨perSeconds / requests, perSeconds / requests⟩
  have hone : ¬ empty.refilled last.now < 1 := by
    have hgain : perSeconds / requests * (requests / perSeconds) = 1 := by
      field_simp
    have hrefilled : empty.refilled last.now = min (requests : ℚ) 1 := by
      change min (requests : ℚ) ((requests : ℚ) - requests +
        (perSeconds / requests - 0) * (requests / perSeconds)) = _
      rw [sub_self, sub_zero, hgain, zero_add]
    rw [hrefilled, min_eq_right (by linarith)]
    exact lt_irrefl 1
  have hlast : (empty.acquire last).last = perSeconds / requests := by
    rw [acquire, if_neg hone]
  obtain ⟨htimes, hruns⟩ := burst (init requests perSeconds 0) [last] requests
    (le_refl _) (le_refl _)
  have hrun : Runs empty [last] := by
    refine ⟨⟨le_of_lt hnext, fun w hw => ?_⟩, trivial⟩
    rw [wait, if_neg hone] at hw
    cases hw
  have hcount := h 0 _ (hruns hrun) 0
  rw [htimes] at hcount
  have htail : completions empty [last] = [perSeconds / requests] := by
    rw [completions, hlast, completions]
  have hwindow : countIn 0 (0 + perSeconds)
      (List.replicate requests (0 : ℚ) ++ [perSeconds / requests]) = requests + 1 := by
    rw [countIn, List.countP_append, List.countP_replicate]
    rw [if_pos (by simpa using hp)]
    change requests + countIn 0 (0 + perSeconds) [perSeconds / requests] = requests + 1
    rw [countIn_cons_in (le_of_lt hnext) (by rw [zero_add]; exact hsoon)]
    rfl
  change countIn 0 (0 + perSeconds)
    (List.replicate requests (0 : ℚ) ++ completions empty [last]) ≤ requests at hcount
  rw [htail, hwindow] at hcount
  omega

/-- Fewer than twice `requests` complete in every window of `per_seconds`. -/
theorem window_promise (hr : 1 ≤ requests) (hp : 0 < perSeconds) {clock : ℚ} {rs : List Readings}
    (h : Runs (init requests perSeconds clock) rs) (lo : ℚ) :
    countIn lo (lo + perSeconds) (completions (init requests perSeconds clock) rs) <
      2 * requests := by
  have hfills : perSeconds * (init requests perSeconds clock).rate = requests :=
    mul_div_cancel₀ _ hp.ne'
  have hbound := window_bound lo (init_level hr hp clock) hfills h
  change _ < 2 * (requests : ℚ) at hbound
  exact_mod_cast hbound

/-- Two a minute: two calls at once, and a third that sleeps 30 seconds. -/
theorem window_two_a_minute : Runs (init 2 60 0) [⟨0, 0⟩, ⟨0, 0⟩, ⟨0, 30⟩] ∧
    countIn 0 (0 + 60) (completions (init 2 60 0) [⟨0, 0⟩, ⟨0, 0⟩, ⟨0, 30⟩]) < 2 * 2 := by
  have hrun : Runs (init 2 60 0) [⟨0, 0⟩, ⟨0, 0⟩, ⟨0, 30⟩] := by
    norm_num [Runs, Possible, init, wait, refilled, acquire]
    intro w hw
    cases hw
  exact ⟨hrun, window_promise (by norm_num) (by norm_num) hrun 0⟩

/-- The limiter keeps its promise in every run exactly for one request at a time. -/
theorem keeps_promise_iff (hr : 1 ≤ requests) (hp : 0 < perSeconds) :
    KeepsPromise requests perSeconds ↔ requests = 1 := by
  constructor
  · intro h
    by_contra hne
    exact burst_breaks_promise (by omega) hp h
  · rintro rfl clock rs hrun lo
    have hbound := window_bound lo (init_level hr hp clock)
      (mul_div_cancel₀ _ (ne_of_gt hp)) hrun
    have hcap : 2 * (init 1 perSeconds clock).capacity = ((2 : ℕ) : ℚ) := by
      change 2 * ((1 : ℕ) : ℚ) = ((2 : ℕ) : ℚ)
      norm_num
    rw [hcap] at hbound
    have hlt : countIn lo (lo + perSeconds) (completions (init 1 perSeconds clock) rs) < 2 := by
      exact_mod_cast hbound
    omega

theorem one_a_minute : 1 ≤ 1 ∧ (0 : ℚ) < 60 ∧ (KeepsPromise 1 60 ↔ 1 = 1) :=
  ⟨le_refl _, by norm_num, keeps_promise_iff (le_refl _) (by norm_num)⟩

/-- 400 requests a minute: 400 at once and the next after 0.15 seconds. -/
theorem four_hundred_a_minute_broken :
    ¬ ∀ (requests : ℕ) (perSeconds : ℚ), 1 ≤ requests → 0 < perSeconds →
      KeepsPromise requests perSeconds :=
  fun h => burst_breaks_promise (by norm_num) (by norm_num) (h 400 60 (by norm_num) (by norm_num))

end Promise

end RateLimiter

end EnergyPlatform
