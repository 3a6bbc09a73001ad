import Mathlib.Data.Rat.Floor
import Mathlib.Algebra.Order.Field.Rat

/-!
# Fetch.PolicyGate

The egress policy gate in front of a pod's work: rounds of probes, until enough of them in a row
found the policy in force or the time is over.

* `le_streak_iff`: the length of a streak, by the rounds that it is made of.
* `after_running`: the loop's state after any number of rounds that did not end it.
* `Gate.opens_on_proof`: when the loop ends, and how.
-/

namespace EnergyPlatform

namespace PolicyGate

/-! ## Streaks -/

section Streaks

variable (good : ℕ → Bool)

/-- How many rounds in a row, up to the `n`-th, were good. -/
def streak : ℕ → ℕ
  | 0 => 0
  | n + 1 => if good n then streak n + 1 else 0

/-- The last `b` of `n` rounds were all good. -/
def LastGood (b n : ℕ) : Prop := b ≤ n ∧ ∀ i, n - b ≤ i → i < n → good i = true

variable {good} {b n : ℕ}

theorem lastGood_zero : LastGood good 0 n := ⟨Nat.zero_le n, fun i h₁ h₂ => by omega⟩

theorem lastGood_succ : LastGood good (b + 1) (n + 1) ↔ good n = true ∧ LastGood good b n := by
  unfold LastGood
  constructor
  · intro h
    refine ⟨h.2 n (by omega) (by omega), by omega, fun i h₁ h₂ => ?_⟩
    exact h.2 i (by omega) (by omega)
  · intro h
    refine ⟨by omega, fun i h₁ h₂ => ?_⟩
    by_cases hi : i = n
    · rw [hi]
      exact h.1
    · exact h.2.2 i (by omega) (by omega)

/-- A streak is as long as the run of good rounds that it ends. -/
theorem le_streak_iff : b ≤ streak good n ↔ LastGood good b n := by
  induction n generalizing b with
  | zero =>
    unfold streak LastGood
    exact ⟨fun h => ⟨h, fun i _ h₂ => absurd h₂ (Nat.not_lt_zero i)⟩, And.left⟩
  | succ n ih =>
    cases b with
    | zero => exact ⟨fun _ => lastGood_zero, fun _ => Nat.zero_le _⟩
    | succ b =>
      rw [lastGood_succ, ← ih, streak]
      cases hgood : good n with
      | false => simp
      | true => simp

end Streaks

/-! ## The gate -/

abbrev Address := String × ℕ

/-- What `connect` does: it accepts, or it raises an `OSError`. -/
inductive Connect where
  | accepted
  | osError
deriving DecidableEq, Repr

def connects : Connect → Bool
  | .accepted => true
  | .osError => false

/-- The probes of one round; the last two are made when a policy canary is given. -/
structure Round where
  metadata : Connect
  control : Connect
  policy : Connect
deriving DecidableEq, Repr

/-- The arguments of `wait_for_egress_policy` that its result depends on. -/
structure Gate where
  policyCanary : Option Address
  controlPort : ℕ
  timeout : ℚ
  blockedInARow : ℕ

structure GateResult where
  waitedSeconds : ℚ
  attempts : ℕ
  policyCanaryDenied : Option Bool

inductive Outcome where
  | opened (result : GateResult)
  | policyNotEnforced (message : String)

/-- The variables of the loop. -/
structure State where
  attempts : ℕ
  blocked : ℕ
  lastReason : String

/-- `round(x)`, halves to even. -/
def roundHalfEven (x : ℚ) : ℤ :=
  let low := ⌊x⌋
  if x - low < 1 / 2 then low
  else if 1 / 2 < x - low then low + 1
  else if low % 2 = 0 then low else low + 1

/-- `f"{x:.0f}"`. -/
def wholeText (x : ℚ) : String :=
  if x < 0 ∧ roundHalfEven x = 0 then "-0" else toString (roundHalfEven x)

def metadataReason : String := "the metadata canary still answers"

namespace Gate

variable (g : Gate)

def controlOk (r : Round) : Bool := g.policyCanary.isNone || connects r.control

def policyDenied (r : Round) : Bool := g.policyCanary.isNone || !connects r.policy

/-- The metadata canary is refused and, when a policy canary is given, its control port answers and
the canary itself is denied. -/
def good (r : Round) : Bool := !connects r.metadata && g.controlOk r && g.policyDenied r

/-- What a round that is not good says. -/
def reason (r : Round) : String :=
  if connects r.metadata then metadataReason
  else if !g.controlOk r then
    "the control port " ++ toString g.controlPort ++ " of the policy canary does not answer: " ++
      "the DNS service is unreachable, nothing can be told about the policy"
  else "the policy canary accepts connections: this pod's egress policy is not in force"

def message (attempts : ℕ) (lastReason : String) : String :=
  "after " ++ wholeText g.timeout ++ " s (" ++ toString attempts ++ " attempts) " ++ lastReason ++
    ": the egress NetworkPolicy is not enforced for this pod"

def init : State := ⟨0, 0, metadataReason⟩

/-- The probes of a round, on the variables of the loop. -/
def probed (r : Round) (s : State) : State :=
  if g.good r then ⟨s.attempts + 1, s.blocked + 1, s.lastReason⟩
  else ⟨s.attempts + 1, 0, g.reason r⟩

/-- One round: the probes, and the clock read once after them. -/
def round (start : ℚ) (r : Round) (now : ℚ) (s : State) : State ⊕ Outcome :=
  let s := g.probed r s
  if g.good r = true ∧ g.blockedInARow ≤ s.blocked then
    .inr (.opened ⟨now - start, s.attempts, g.policyCanary.map fun _ => true⟩)
  else if g.timeout ≤ now - start then .inr (.policyNotEnforced (g.message s.attempts s.lastReason))
  else .inl s

/-- `wait_for_egress_policy`, `n` rounds long: the clock is read before the first round and once in
each. -/
def after (rounds : ℕ → Round) (clock : ℕ → ℚ) : ℕ → State ⊕ Outcome
  | 0 => .inl init
  | n + 1 =>
    match after rounds clock n with
    | .inl s => g.round (clock 0) (rounds n) (clock (n + 1)) s
    | .inr o => .inr o

end Gate

/-! ## When the loop ends -/

namespace Gate

section Run

variable (g : Gate) (rounds : ℕ → Round) (clock : ℕ → ℚ)

/-- The last `blocked_in_a_row` of `n` rounds were all good. -/
def Proved (n : ℕ) : Prop := LastGood (fun i => g.good (rounds i)) g.blockedInARow n

/-- The `n`-th round ends at or after the timeout. -/
def Late (n : ℕ) : Prop := g.timeout ≤ clock n - clock 0

def Ends (n : ℕ) : Prop := 0 < n ∧ (g.Proved rounds n ∨ g.Late clock n)

/-- The first round that ends the loop. -/
def EndsFirst (n : ℕ) : Prop := g.Ends rounds clock n ∧ ∀ m < n, ¬ g.Ends rounds clock m

/-- What the last bad round said. -/
def lastReason : ℕ → String
  | 0 => metadataReason
  | n + 1 => if g.good (rounds n) then lastReason n else g.reason (rounds n)

/-- How the loop ends with the `n`-th round. -/
inductive EndsWith (n : ℕ) : Outcome → Prop
  | opens (h : g.Proved rounds n) :
    EndsWith n (.opened ⟨clock n - clock 0, n, g.policyCanary.map fun _ => true⟩)
  | refuses (h : ¬ g.Proved rounds n) (hlate : g.Late clock n) :
    EndsWith n (.policyNotEnforced (g.message n (g.lastReason rounds n)))

/-- The loop's variables after `n` rounds that did not end it. -/
def running (n : ℕ) : State :=
  ⟨n, streak (fun i => g.good (rounds i)) n, g.lastReason rounds n⟩

variable {g rounds clock} {n : ℕ} {o : Outcome}

theorem proved_iff :
    g.Proved rounds n ↔ g.blockedInARow ≤ streak (fun i => g.good (rounds i)) n :=
  le_streak_iff.symm

theorem probed_running :
    g.probed (rounds n) (g.running rounds n) = g.running rounds (n + 1) := by
  unfold probed
  cases hgood : g.good (rounds n) with
  | true => simp [running, streak, lastReason, hgood]
  | false => simp [running, streak, lastReason, hgood]

/-- A round of the loop, from the variables that it starts with. -/
theorem round_running (hb : 1 ≤ g.blockedInARow) :
    (g.Proved rounds (n + 1) → g.round (clock 0) (rounds n) (clock (n + 1)) (g.running rounds n) =
      .inr (.opened ⟨clock (n + 1) - clock 0, n + 1, g.policyCanary.map fun _ => true⟩)) ∧
    (¬ g.Proved rounds (n + 1) → g.Late clock (n + 1) →
      g.round (clock 0) (rounds n) (clock (n + 1)) (g.running rounds n) =
        .inr (.policyNotEnforced (g.message (n + 1) (g.lastReason rounds (n + 1))))) ∧
    (¬ g.Proved rounds (n + 1) → ¬ g.Late clock (n + 1) →
      g.round (clock 0) (rounds n) (clock (n + 1)) (g.running rounds n) =
        .inl (g.running rounds (n + 1))) := by
  have hproved : g.Proved rounds (n + 1) ↔
      g.good (rounds n) = true ∧ g.blockedInARow ≤ (g.running rounds (n + 1)).blocked := by
    rw [proved_iff]
    constructor
    · intro h
      refine ⟨?_, h⟩
      cases hgood : g.good (rounds n) with
      | true => rfl
      | false =>
        rw [streak, hgood] at h
        exact absurd (hb.trans h) (Nat.not_succ_le_zero 0)
    · exact And.right
  unfold round
  rw [probed_running]
  refine ⟨fun h => if_pos (hproved.mp h), fun h hl => ?_, fun h hl => ?_⟩
  · exact (if_neg fun hp => h (hproved.mpr hp)).trans (if_pos hl)
  · exact (if_neg fun hp => h (hproved.mpr hp)).trans (if_neg hl)

/-- After rounds that did not end it the loop goes on, with its variables. -/
theorem after_running (hb : 1 ≤ g.blockedInARow) (h : ∀ m ≤ n, ¬ g.Ends rounds clock m) :
    g.after rounds clock n = .inl (g.running rounds n) := by
  induction n with
  | zero => rfl
  | succ n ih =>
    have hlast := h (n + 1) le_rfl
    unfold Ends at hlast
    rw [after, ih fun m hm => h m (hm.trans (Nat.le_succ n))]
    refine (round_running hb).2.2 (fun hp => ?_) fun hl => ?_
    · exact hlast ⟨Nat.succ_pos n, .inl hp⟩
    · exact hlast ⟨Nat.succ_pos n, .inr hl⟩

/-- The first round that ends the loop gives its outcome. -/
theorem after_first (hb : 1 ≤ g.blockedInARow) (h : g.EndsFirst rounds clock n) :
    ∃ o, g.after rounds clock n = .inr o ∧ g.EndsWith rounds clock n o := by
  cases n with
  | zero => exact absurd h.1.1 (lt_irrefl 0)
  | succ n =>
    have hbefore := after_running hb fun m hm => h.2 m (Nat.lt_succ_of_le hm)
    rw [after, hbefore]
    by_cases hp : g.Proved rounds (n + 1)
    · exact ⟨_, (round_running hb).1 hp, .opens hp⟩
    · have hl := h.1.2.resolve_left hp
      exact ⟨_, (round_running hb).2.1 hp hl, .refuses hp hl⟩

theorem endsWith_unique {o' : Outcome} (h : g.EndsWith rounds clock n o)
    (h' : g.EndsWith rounds clock n o') : o = o' := by
  cases h with
  | opens hp =>
    cases h' with
    | opens => rfl
    | refuses hn => exact absurd hp hn
  | refuses hn =>
    cases h' with
    | opens hp => exact absurd hp hn
    | refuses => rfl

theorem after_stays {m : ℕ} (h : g.after rounds clock m = .inr o) (hmn : m ≤ n) :
    g.after rounds clock n = .inr o := by
  induction n, hmn using Nat.le_induction with
  | base => exact h
  | succ n _ ih => rw [after, ih]

theorem exists_first {m : ℕ} (h : g.Ends rounds clock m) :
    ∃ k ≤ m, g.EndsFirst rounds clock k := by
  induction m using Nat.strong_induction_on with
  | _ m ih =>
    by_cases hfirst : ∀ k < m, ¬ g.Ends rounds clock k
    · exact ⟨m, le_rfl, h, hfirst⟩
    · obtain ⟨k, hk, hends⟩ : ∃ k, k < m ∧ g.Ends rounds clock k := by
        by_contra hno
        exact hfirst fun k hk he => hno ⟨k, hk, he⟩
      obtain ⟨j, hj, hf⟩ := ih k hk hends
      exact ⟨j, hj.trans hk.le, hf⟩

theorem after_ended (hb : 1 ≤ g.blockedInARow) : g.after rounds clock n = .inr o ↔
    ∃ m ≤ n, g.EndsFirst rounds clock m ∧ g.EndsWith rounds clock m o := by
  constructor
  · intro h
    by_cases hno : ∀ m ≤ n, ¬ g.Ends rounds clock m
    · rw [after_running hb hno] at h
      cases h
    · obtain ⟨m, hm, hends⟩ : ∃ m, m ≤ n ∧ g.Ends rounds clock m := by
        by_contra hall
        exact hno fun m hm he => hall ⟨m, hm, he⟩
      obtain ⟨k, hk, hfirst⟩ := exists_first hends
      obtain ⟨o', ho', hwith⟩ := after_first hb hfirst
      have hsame := after_stays ho' (hk.trans hm)
      obtain rfl := Sum.inr.inj (hsame.symm.trans h)
      exact ⟨k, hk.trans hm, hfirst, hwith⟩
  · rintro ⟨m, hm, hfirst, hwith⟩
    obtain ⟨o', ho', hwith'⟩ := after_first hb hfirst
    obtain rfl := endsWith_unique hwith hwith'
    exact after_stays ho' hm

end Run

/-- The loop runs until the first round that completes a streak of good rounds, when it returns, or
that ends at or after the timeout without one, when it raises; so what it returns after is such a
streak, and it stops when the clock passes the timeout. -/
theorem opens_on_proof (g : Gate) (rounds : ℕ → Round) (clock : ℕ → ℚ) (hmono : Monotone clock)
    (hb : 1 ≤ g.blockedInARow) :
    (∀ n o, g.after rounds clock n = .inr o ↔
      ∃ m ≤ n, g.EndsFirst rounds clock m ∧ g.EndsWith rounds clock m o) ∧
    (∀ n result, g.after rounds clock n = .inr (.opened result) →
      LastGood (fun i => g.good (rounds i)) g.blockedInARow result.attempts) ∧
    ((∃ n, g.timeout ≤ clock n - clock 0) → ∃ n o, g.after rounds clock n = .inr o) := by
  refine ⟨fun n o => after_ended hb, fun n result h => ?_, fun ⟨n, hn⟩ => ?_⟩
  · obtain ⟨m, -, -, hwith⟩ := (after_ended hb).mp h
    cases hwith with
    | opens hp => exact hp
  · have hlate : g.Late clock (n + 1) := by
      unfold Late
      exact hn.trans (sub_le_sub_right (hmono (Nat.le_succ n)) _)
    obtain ⟨k, -, hfirst⟩ := @exists_first g rounds clock (n + 1) ⟨Nat.succ_pos n, .inr hlate⟩
    obtain ⟨o, ho, -⟩ := after_first hb hfirst
    exact ⟨k, o, ho⟩

/-- A gate with a policy canary: the metadata service answers in the first round, the next two find
the policy in force. -/
theorem opens_after_three :
    let g : Gate := ⟨some ("10.96.0.10", 443), 53, 60, 2⟩
    let rounds : ℕ → Round := fun n => ⟨if n = 0 then .accepted else .osError, .accepted, .osError⟩
    g.after rounds (fun n => (n : ℚ)) 3 = .inr (.opened ⟨3, 3, some true⟩) ∧
      LastGood (fun i => g.good (rounds i)) 2 3 ∧ g.good (rounds 0) = false := by
  intro g rounds
  have hrun : g.after rounds (fun n => (n : ℚ)) 3 = .inr (.opened ⟨3, 3, some true⟩) := by
    have hearly : ¬ (60 : ℚ) ≤ 2 := by norm_num
    simp [g, rounds, after, round, probed, good, reason, controlOk, policyDenied, connects, init,
      hearly]
  have hmono : Monotone fun n : ℕ => (n : ℚ) := fun _ _ h => Nat.cast_le.mpr h
  exact ⟨hrun, (opens_on_proof g rounds _ hmono (by decide)).2.1 3 _ hrun, rfl⟩

end Gate

end PolicyGate

end EnergyPlatform
