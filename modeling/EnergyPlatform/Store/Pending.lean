import EnergyPlatform.Store.Replays

/-!
# Store.Pending

What is still to be processed, and what a claim followed by its commit makes of it.

A run has at most one pending replay, in every reachable store. `SettledRun` is what one claim and its
commit do when every earlier lease has run out: the run is in the committed state, free, with no
unfinished replay left, and nothing else is touched.
-/

namespace EnergyPlatform

open Lib (Dict)

namespace MemoryStore

variable {s s' : MemoryStore}

/-! ## One pending replay a run -/

def OnePending (s : MemoryStore) : Prop :=
  ∀ j k a b, s.attemptTable.get? j = some a → s.attemptTable.get? k = some b →
    pendingReplay a = true → pendingReplay b = true → a.runId = b.runId → j = k

/-- No attempt becomes a pending replay. -/
theorem OnePending.of_back (h : OnePending s) (s' : MemoryStore)
    (hback : ∀ {j a}, s'.attemptTable.get? j = some a → pendingReplay a = true →
      ∃ b, s.attemptTable.get? j = some b ∧ pendingReplay b = true ∧ b.runId = a.runId) :
    OnePending s' := by
  intro j k a b ha hb hpa hpb hrun
  obtain ⟨a', ha', hpa', hra⟩ := hback ha hpa
  obtain ⟨b', hb', hpb', hrb⟩ := hback hb hpb
  exact h j k a' b' ha' hb' hpa' hpb' (hra.trans (hrun.trans hrb.symm))

theorem OnePending.of_eq (h : OnePending s) (he : s'.attemptTable = s.attemptTable) :
    OnePending s' :=
  h.of_back s' fun ha hp => ⟨_, he ▸ ha, hp, rfl⟩

/-- One attempt is written, and it is no pending replay. -/
theorem OnePending.of_set (h : OnePending s) {n : Nat} {x : RunAttempt}
    (he : s'.attemptTable = s.attemptTable.set n x) (hx : pendingReplay x = false) :
    OnePending s' := by
  refine h.of_back s' fun {j a} ha hp => ?_
  rw [he, Dict.get?_set] at ha
  split at ha
  · obtain rfl := Option.some.inj ha
    rw [hx] at hp
    cases hp
  · exact ⟨a, ha, hp, rfl⟩

theorem OnePending.init : OnePending init := by
  intro j k a b ha
  cases ha

theorem OnePending.ensureRun (h : OnePending s) (targetId : String) (at_ : Instant)
    (state : RunState) (origin : RunOrigin) (captureId : Option CaptureId) (now : Instant) :
    OnePending (s.ensureRun targetId at_ state origin captureId now).2 := by
  rcases ensureRun_cases s targetId at_ state origin captureId now with
    ⟨-, r, -, -, -, -, -, -, -, -, he⟩ | ⟨old, -, ⟨-, -, -, he⟩ | ⟨-, he⟩⟩
  · rw [he]; exact h.of_eq rfl
  · rw [he]; exact h.of_eq rfl
  · rw [he]; exact h

theorem OnePending.claim (hs : WellFormed s) (h : OnePending s) {j : Nat} {owner : String}
    {ttl : Duration} {now : Instant} {out : Option Claim}
    (hc : s.claim j owner ttl now = some (out, s')) : OnePending s' := by
  obtain ⟨old, hj, ⟨-, -, rfl⟩ | ⟨-, att, -, he⟩⟩ := claim_cases hc
  · exact h
  · have ho := hs.opened owner ttl now hj
    rw [he] at ho
    exact h.of_back s' fun {i a} ha hp => ⟨a, ho.pending_back ha hp, hp, rfl⟩

theorem OnePending.commit (hs : WellFormed s) (h : OnePending s) {c : Claim} {args : Commit}
    {now : Instant} {out : CommitResult} (hc : s.commit c args now = some (out, s')) :
    OnePending s' := by
  obtain ⟨old, att, -, -, ⟨-, -, rfl⟩ | ⟨-, -, rfl⟩⟩ := commit_cases hs.attempts hc
  · split
    · exact h.of_set (x := closed now att) rfl (not_pendingReplay_of_outcome (o := .lostLease) rfl)
    · exact h
  · exact h.of_set (committed_attemptTable ..) (not_pendingReplay_of_outcome rfl)

/-- A replay is queued for a run that has none pending. -/
theorem OnePending.queued (h : OnePending s) {i : Nat} {captureId : Option CaptureId} {now : Instant}
    (hnone : (s.attempts i).any pendingReplay = false) :
    OnePending (s.newAttempt (replayAttempt i captureId now)).2 := by
  have hno : ∀ {k b}, s.attemptTable.get? k = some b → pendingReplay b = true → b.runId ≠ i := by
    intro k b hb hp hr
    exact List.any_eq_false.mp hnone b (mem_attempts.mpr ⟨⟨k, hb⟩, hr⟩) hp
  have hget : ∀ {j a}, (s.newAttempt (replayAttempt i captureId now)).2.attemptTable.get? j =
      some a → (j = s.seq.attempts + 1 ∧ a.runId = i) ∨ s.attemptTable.get? j = some a := by
    intro j a ha
    change (s.attemptTable.set (s.seq.attempts + 1) _).get? j = some a at ha
    rw [Dict.get?_set] at ha
    split at ha
    · rename_i hj
      obtain rfl := Option.some.inj ha
      exact .inl ⟨hj, rfl⟩
    · exact .inr ha
  intro j k a b ha hb hpa hpb hrun
  rcases hget ha with ⟨rfl, hra⟩ | ha
  · rcases hget hb with ⟨rfl, -⟩ | hb
    · rfl
    · exact absurd (hrun.symm.trans hra) (hno hb hpb)
  · rcases hget hb with ⟨rfl, hrb⟩ | hb
    · exact absurd (hrun.trans hrb) (hno ha hpa)
    · exact h j k a b ha hb hpa hpb hrun

theorem exec_onePending (h : WellFormed s) (hone : OnePending s) {c : StoreCall} {out : c.Ret}
    (hc : s.exec c = some (out, s')) : OnePending s' := by
  cases c with
  | getRun | runs | attempts | pendingRuns | isInvalidated | attemptCaptures | invalidations =>
    obtain rfl := store_of_some hc
    exact hone
  | runsWithDerivation | currentRows =>
    obtain ⟨rs, -, hrs⟩ := Option.map_eq_some_iff.mp hc
    obtain rfl : s = s' := congrArg Prod.snd hrs
    exact hone
  | ensureRun targetId at_ state origin captureId now =>
    obtain rfl := store_of_some hc
    exact hone.ensureRun targetId at_ state origin captureId now
  | setState j state now =>
    obtain ⟨old, -, -, rfl⟩ := setState_cases hc
    exact hone.of_eq rfl
  | markRecaptured j captureId now =>
    obtain ⟨old, -, -, rfl⟩ := markRecaptured_cases hc
    exact hone.of_eq rfl
  | claim j owner ttl now => exact hone.claim h hc
  | renew c ttl now =>
    obtain ⟨old, -, ⟨-, -, rfl⟩ | ⟨-, -, rfl⟩⟩ := renew_cases hc
    · exact hone
    · exact hone.of_eq rfl
  | commit c args now => exact hone.commit h hc
  | recordAttempt i kind outcome captureId error now =>
    obtain rfl := store_of_some hc
    exact hone.of_set rfl (not_pendingReplay_of_outcome rfl)
  | enqueueReplay i now =>
    obtain ⟨-, -, rfl⟩ | ⟨hnone, run, -, rfl⟩ := enqueueReplay_cases hc
    · exact hone
    · exact hone.queued hnone
  | addInvalidation inv =>
    obtain rfl := store_of_some hc
    simp only [MemoryStore.addInvalidation]
    split
    · exact hone
    · exact hone.of_eq rfl
  | registerDerivation d now =>
    obtain rfl := store_of_some hc
    change OnePending (s.registerAny (some d) now)
    rw [registerAny_frame]
    exact hone.of_eq rfl
  | addEvents targetId events a now =>
    obtain rfl := store_of_some hc
    rw [addEvents_frame]
    exact hone.of_eq rfl

/-- In no reachable store has a run two pending replays. -/
theorem Reachable.onePending (h : Reachable s) : OnePending s := by
  induction h with
  | init => exact OnePending.init
  | call hs hc ih => exact exec_onePending hs.wellFormed ih hc

/-- A run never has two replays nobody took up, however many times it is queued, claimed, recaptured
and committed. -/
theorem pending_le_one (h : Reachable s) (i : Nat) :
    ((s.attempts i).filter pendingReplay).length ≤ 1 := by
  have hone := h.onePending
  have hids : s.attemptTable.values.map RunAttempt.id = s.attemptTable.keys := by
    simp only [Dict.values, Dict.keys, List.map_map]
    exact List.map_congr_left fun e he =>
      h.wellFormed.attempts.id (Dict.get?_eq_some_iff.mpr he)
  have hnodup : s.attemptTable.values.Nodup :=
    List.Nodup.of_map RunAttempt.id (hids ▸ s.attemptTable.nodup)
  have hattempts : (s.attempts i).Nodup := hnodup.filter _
  have hsame : ∀ a ∈ (s.attempts i).filter pendingReplay,
      ∀ b ∈ (s.attempts i).filter pendingReplay, a = b := by
    intro a ha b hb
    obtain ⟨ha, hpa⟩ := List.mem_filter.mp ha
    obtain ⟨hb, hpb⟩ := List.mem_filter.mp hb
    obtain ⟨⟨j, hj⟩, hra⟩ := mem_attempts.mp ha
    obtain ⟨⟨k, hk⟩, hrb⟩ := mem_attempts.mp hb
    obtain rfl := hone j k a b hj hk hpa hpb (hra.trans hrb.symm)
    exact Option.some.inj (hj.symm.trans hk)
  rcases hl : (s.attempts i).filter pendingReplay with _ | ⟨a, _ | ⟨b, rest⟩⟩
  · exact Nat.zero_le 1
  · exact le_rfl
  · rw [hl] at hsame
    have hab := hsame a List.mem_cons_self b (List.mem_cons_of_mem _ List.mem_cons_self)
    have hnd := hl ▸ hattempts.filter pendingReplay
    rw [hab] at hnd
    exact absurd List.mem_cons_self (List.nodup_cons.mp hnd).1

/-- A run that is queued twice has one. -/
theorem pending_le_one_twice : ∃ s, after init [.ensureRun "ote_prices" 0 .captured .scheduled none 0,
      .enqueueReplay 1 0, .enqueueReplay 1 0] = some s ∧ (s.attempts 1).any pendingReplay = true ∧
    ((s.attempts 1).filter pendingReplay).length ≤ 1 := by
  have hqueued : (after init [.ensureRun "ote_prices" 0 .captured .scheduled none 0,
      .enqueueReplay 1 0, .enqueueReplay 1 0]).map (fun s => (s.attempts 1).any pendingReplay) =
        some true := by decide +kernel
  obtain ⟨s, hs, hp⟩ := Option.map_eq_some_iff.mp hqueued
  exact ⟨s, hs, hp, pending_le_one (Reachable.init.after hs) 1⟩

/-! ## Leases that ran out -/

/-- The lease of every unfinished attempt ended before `limit`. -/
def AttemptsLapsed (s : MemoryStore) (limit : Instant) : Prop :=
  ∀ j a, s.attemptTable.get? j = some a → a.outcome = none → a.leaseOwner.isSome →
    ∃ u, a.leaseUntil = some u ∧ u < limit

/-- Every lease, of a run or of an unfinished attempt, ended before `limit`. -/
structure Lapsed (s : MemoryStore) (limit : Instant) : Prop where
  runs : ∀ i run u, s.runTable.get? i = some run → run.leaseUntil = some u → u < limit
  attempts : AttemptsLapsed s limit

theorem lapsed_of_settled (hruns : ∀ run ∈ s.runTable.values, run.leaseUntil = none)
    (hattempts : ∀ a ∈ s.attemptTable.values, a.outcome.isSome = true) (limit : Instant) :
    Lapsed s limit := by
  refine ⟨fun i run u hr hu => ?_, fun j a ha ho _ => ?_⟩
  · rw [hruns run (Dict.mem_values.mpr ⟨i, hr⟩)] at hu
    cases hu
  · have := hattempts a (Dict.mem_values.mpr ⟨j, ha⟩)
    rw [ho] at this
    cases this

/-- No replay of the run is unfinished. -/
def Idle (s : MemoryStore) (i : Nat) : Prop :=
  ∀ j a, s.attemptTable.get? j = some a → a.runId = i → a.kind = .replay → a.outcome ≠ none

/-- An unfinished replay is pending, or its lease ran out. -/
theorem AttemptsLapsed.due {limit : Instant} (h : AttemptsLapsed s limit) {now : Instant}
    (hnow : limit ≤ now) {j : Nat} {a : RunAttempt} (ha : s.attemptTable.get? j = some a) (hk : a.kind = .replay)
    (ho : a.outcome = none) : pendingReplay a = true ∨ expiredReplay now a = true := by
  cases hl : a.leaseOwner with
  | none => exact .inl (pendingReplay_iff.mpr ⟨hk, ho, hl⟩)
  | some owner =>
    obtain ⟨u, hu, hlt⟩ := h j a ha ho (by rw [hl]; rfl)
    exact .inr ((expiredReplay_iff hu).mpr ⟨hk, ho, by rw [hl]; rfl, lt_of_lt_of_le hlt hnow⟩)

theorem mem_pendingRuns {targetId : String} {now : Instant} {run : Run} :
    run ∈ s.pendingRuns targetId now ↔ (∃ i, s.runTable.get? i = some run) ∧
      run.targetId = targetId ∧ (run.state = .captured ∨ ∃ j a, s.attemptTable.get? j = some a ∧
        a.runId = run.id ∧ (pendingReplay a = true ∨ expiredReplay now a = true)) := by
  simp only [pendingRuns, runs, List.mem_filter, List.mem_insertionSort, decide_eq_true_eq,
    List.any_eq_true, Dict.mem_values, mem_attempts, Option.mem_def]
  constructor
  · rintro ⟨⟨hi, ht, -, -⟩, hd⟩
    refine ⟨hi, ht, hd.imp_right ?_⟩
    rintro ⟨a, ⟨⟨j, ha⟩, hr⟩, hk, hp⟩
    refine ⟨j, a, ha, hr, ?_⟩
    simp only [pendingReplay, expiredReplay, hk, true_and, Bool.decide_eq_true]
    exact hp
  · rintro ⟨hi, ht, hd⟩
    refine ⟨⟨hi, ht, ?_, ?_⟩, hd.imp_right ?_⟩
    · intro t hx
      cases hx
    · intro t hx
      cases hx
    · rintro ⟨j, a, ha, hr, hp⟩
      refine ⟨a, ⟨⟨j, ha⟩, hr⟩, ?_⟩
      simp only [pendingReplay, expiredReplay, Bool.decide_and, Bool.decide_eq_true,
        Bool.and_eq_true, decide_eq_true_eq] at hp
      rcases hp with ⟨hk, hp⟩ | ⟨hk, hp⟩
      · exact ⟨hk, .inl hp⟩
      · exact ⟨hk, .inr hp⟩

/-- A pass has something to do for the run `i`: it is captured, or a replay of it is unfinished. -/
def Waiting (s : MemoryStore) (targetId : String) (i : Nat) : Prop :=
  ∃ run, s.runTable.get? i = some run ∧ run.targetId = targetId ∧
    (run.state = .captured ∨ ∃ j a, s.attemptTable.get? j = some a ∧ a.runId = i ∧
      a.kind = .replay ∧ a.outcome = none)

theorem unfinished_of_due {now : Instant} {a : RunAttempt}
    (h : pendingReplay a = true ∨ expiredReplay now a = true) :
    a.kind = .replay ∧ a.outcome = none := by
  simp only [pendingReplay, expiredReplay, RunAttempt.pending, RunAttempt.expired, Bool.and_eq_true,
    decide_eq_true_eq, Option.isNone_iff_eq_none] at h
  rcases h with ⟨hk, ho, -⟩ | ⟨hk, ⟨ho, -⟩, -⟩
  · exact ⟨hk, ho⟩
  · exact ⟨hk, ho⟩

theorem waiting_of_pending (h : WellFormed s) {targetId : String} {now : Instant} {run : Run}
    (hr : run ∈ s.pendingRuns targetId now) : Waiting s targetId run.id := by
  obtain ⟨⟨i, hi⟩, ht, hd⟩ := mem_pendingRuns.mp hr
  obtain rfl := h.runs.id hi
  refine ⟨run, hi, ht, hd.imp_right ?_⟩
  rintro ⟨j, a, ha, hrun, hdue⟩
  exact ⟨j, a, ha, hrun, unfinished_of_due hdue⟩

/-- Once the leases ran out, what waits is what a pass is given. -/
theorem AttemptsLapsed.pending_of_waiting {limit : Instant} (hl : AttemptsLapsed s limit)
    (h : WellFormed s) {now : Instant} (hnow : limit ≤ now) {targetId : String} {i : Nat}
    (hw : Waiting s targetId i) : ∃ run ∈ s.pendingRuns targetId now, run.id = i := by
  obtain ⟨run, hi, ht, hd⟩ := hw
  have hid := h.runs.id hi
  refine ⟨run, mem_pendingRuns.mpr ⟨⟨i, hi⟩, ht, hd.imp_right ?_⟩, hid⟩
  rintro ⟨j, a, ha, hrun, hk, ho⟩
  exact ⟨j, a, ha, hrun.trans hid.symm, hl.due hnow ha hk ho⟩

theorem pendingRuns_ids_nodup (h : WellFormed s) (targetId : String) (now : Instant) :
    ((s.pendingRuns targetId now).map Run.id).Nodup := by
  have hkeys : s.runTable.values.map Run.id = s.runTable.keys := by
    simp only [Dict.values, Dict.keys, List.map_map]
    exact List.map_congr_left fun e he => h.runs.id (Dict.get?_eq_some_iff.mpr he)
  have hnodup : (s.runTable.values.map Run.id).Nodup := hkeys ▸ s.runTable.nodup
  have hruns : ((s.runs targetId none none).map Run.id).Nodup := by
    rw [runs, ((List.perm_insertionSort _ _).map _).nodup_iff]
    exact hnodup.sublist (List.filter_sublist.map _)
  exact hruns.sublist (List.filter_sublist.map _)

/-! ## A claim and its commit -/

/-- What a worker that claims a run and commits leaves, once every earlier lease ran out. -/
structure SettledRun (limit : Instant) (s : MemoryStore) (i : Nat) (old : Run) (c : Claim)
    (args : Commit) (s' : MemoryStore) : Prop where
  run : ∃ run, s'.runTable.get? i = some run ∧ run.state = args.state ∧ run.leaseUntil = none ∧
    run.targetId = old.targetId ∧ run.scheduledFor = old.scheduledFor ∧
    run.captureId = old.captureId
  attempt : ∃ a, s'.attemptTable.get? c.attempt.id = some a ∧ a.runId = i ∧
    a.outcome = some args.outcome ∧ a.derivationId = args.derivation.map Derivation.derivationId ∧
    a.captureId = old.captureId
  idle : Idle s' i
  otherRuns : ∀ {k}, k ≠ i → s'.runTable.get? k = s.runTable.get? k
  otherAttempts : ∀ {j a}, a.runId ≠ i →
    (s'.attemptTable.get? j = some a ↔ s.attemptTable.get? j = some a)
  lapsed : Lapsed s' limit

/-- The attempts after a claim: those of other runs are as they were, and of the run's replays only
the one that is worked under is unfinished. -/
theorem Opened.attempts {run : Run} {owner : String} {now limit : Instant} {att : RunAttempt}
    (h : Opened s run owner now att s') (hone : OnePending s)
    (hl : AttemptsLapsed s limit) (hnow : limit ≤ now) :
    (∀ {j a}, a.runId ≠ run.id →
      (s'.attemptTable.get? j = some a ↔ s.attemptTable.get? j = some a)) ∧
    (∀ {j a}, s'.attemptTable.get? j = some a → j ≠ att.id → a.runId = run.id →
      a.kind = .replay → a.outcome ≠ none) ∧
    ∀ {j a}, s'.attemptTable.get? j = some a → j ≠ att.id → a.outcome = none → a.leaseOwner.isSome →
      ∃ u, a.leaseUntil = some u ∧ u < limit := by
  refine ⟨fun {j a} hrun => ?_, fun {j a} ha hj hrun hk ho => ?_, fun {j a} ha hj ho hown => ?_⟩
  · by_cases hj : j = att.id
    · constructor
      · intro ha
        rw [hj, h.filed, Option.some.injEq] at ha
        exact absurd (ha ▸ h.runId) hrun
      · intro ha
        rcases h.origin with hnone | ⟨p, hp, -, hpr⟩
        · rw [← hj, ha] at hnone
          cases hnone
        · rw [← hj, ha, Option.some.injEq] at hp
          exact absurd (hp ▸ hpr) hrun
    · rcases h.others hj with hs | ⟨dead, hdead, hdr, -, hs⟩
      · rw [hs]
      · rw [hs, hdead, Option.some.injEq, Option.some.injEq]
        constructor
        · rintro rfl
          exact absurd hdr hrun
        · rintro rfl
          exact absurd hdr hrun
  · rcases h.others hj with hs | ⟨dead, -, -, -, hs⟩
    · rw [hs] at ha
      rcases hl.due hnow ha hk ho with hp | hexp
      · obtain ⟨q, hq, hqr, hqp⟩ := h.adopts ha hrun hp
        exact hj (hone _ _ _ _ ha hq hp hqp (hrun.trans hqr.symm))
      · have hclosed := h.closes ha hrun hexp
        rw [hs, ha, Option.some.injEq] at hclosed
        rw [hclosed] at ho
        cases ho
    · rw [hs, Option.some.injEq] at ha
      subst ha
      cases ho
  · rcases h.others hj with hs | ⟨dead, -, -, -, hs⟩
    · rw [hs] at ha
      exact hl j a ha ho hown
    · rw [hs, Option.some.injEq] at ha
      subst ha
      cases ho

section Settling

variable {i : Nat} {old : Run} {owner : String} {ttl : Duration} {limit now now' : Instant}
variable {att : RunAttempt} {args : Commit} {s₁ : MemoryStore}

/-- A commit under the claim that was just granted goes through. -/
theorem Opened.commits (hwf : WellFormed s₁)
    (ho : Opened (s.putRun (granted old owner ttl now)) (granted old owner ttl now) owner now att s₁)
    {out : CommitResult} {s₂ : MemoryStore}
    (hc : s₁.commit ⟨granted old owner ttl now, old.fence + 1, att⟩ args now' = some (out, s₂)) :
    out.lostLease = false ∧ s₂ = s₁.committed (granted old owner ttl now) att args now' := by
  obtain ⟨run, att', hrun, hatt, hcases⟩ := commit_cases hwf.attempts hc
  rw [ho.same.runTable, putRun_runTable, Dict.get?_set_self, Option.some.injEq] at hrun
  subst hrun
  rw [ho.filed, Option.some.injEq] at hatt
  subst hatt
  rcases hcases with ⟨hstale, -⟩ | ⟨-, hlost, hs⟩
  · exact absurd rfl hstale
  · exact ⟨hlost, hs⟩

/-- The store that the claim and its commit leave. -/
theorem Opened.settled (hid : old.id = i) (hone : OnePending s) (hl : Lapsed s limit)
    (hnow : limit ≤ now)
    (ho : Opened (s.putRun (granted old owner ttl now)) (granted old owner ttl now) owner now att s₁) :
    SettledRun limit s i old ⟨granted old owner ttl now, old.fence + 1, att⟩ args
      (s₁.committed (granted old owner ttl now) att args now') := by
  obtain ⟨hothers, hidle, hleases⟩ := Opened.attempts ho
    (show OnePending (s.putRun (granted old owner ttl now)) from hone)
    (show AttemptsLapsed (s.putRun (granted old owner ttl now)) limit from hl.attempts) hnow
  have hattId : att.runId = i := ho.runId.trans hid
  have hruns : s₁.runTable = s.runTable.set i (granted old owner ttl now) := by
    rw [ho.same.runTable, putRun_runTable, ← hid]
    rfl
  have hruns₂ : (s₁.committed (granted old owner ttl now) att args now').runTable =
      s₁.runTable.set i (released (granted old owner ttl now) args.state now') := by
    rw [committed_runTable, ← hid]
    rfl
  have hatts₂ : (s₁.committed (granted old owner ttl now) att args now').attemptTable =
      s₁.attemptTable.set att.id (closeAttempt att args now') := committed_attemptTable ..
  -- an attempt of the store that is left is the closed one or one of before
  have hget : ∀ {j a}, (s₁.attemptTable.set att.id (closeAttempt att args now')).get? j = some a →
      a = closeAttempt att args now' ∨ j ≠ att.id ∧ s₁.attemptTable.get? j = some a := by
    intro j a ha
    rw [Dict.get?_set] at ha
    split at ha
    · exact .inl (Option.some.inj ha).symm
    · rename_i hj
      exact .inr ⟨hj, ha⟩
  constructor
  case run =>
    refine ⟨released (granted old owner ttl now) args.state now', ?_, rfl, rfl, rfl, rfl, rfl⟩
    rw [hruns₂, Dict.get?_set_self]
  case attempt =>
    refine ⟨closeAttempt att args now', ?_, hattId, rfl, rfl, ho.captureId⟩
    rw [hatts₂]
    exact Dict.get?_set_self ..
  case idle =>
    intro j a ha hr hk hout
    rw [hatts₂] at ha
    rcases hget ha with rfl | ⟨hj, ha⟩
    · cases hout
    · exact hidle ha hj (hr.trans hid.symm) hk hout
  case otherRuns =>
    intro k hk
    rw [hruns₂, Dict.get?_set_ne _ _ hk, hruns, Dict.get?_set_ne _ _ hk]
  case otherAttempts =>
    intro j a hr
    have hr' : a.runId ≠ (granted old owner ttl now).id := fun he => hr (he.trans hid)
    rw [hatts₂]
    refine Iff.trans ?_ (hothers hr')
    constructor
    · intro ha
      rcases hget ha with rfl | ⟨-, ha⟩
      · exact absurd hattId hr
      · exact ha
    · intro ha
      have hj : j ≠ att.id := by
        rintro rfl
        rw [ho.filed, Option.some.injEq] at ha
        exact hr (ha ▸ hattId)
      rw [Dict.get?_set_ne _ _ hj]
      exact ha
  case lapsed =>
    refine ⟨fun k q u hq hu => ?_, fun j a ha hout hown => ?_⟩
    · rw [hruns₂, Dict.get?_set] at hq
      split at hq
      · rw [← Option.some.inj hq] at hu
        cases hu
      · rename_i hk
        rw [hruns, Dict.get?_set_ne _ _ hk] at hq
        exact hl.runs k q u hq hu
    · rw [hatts₂] at ha
      rcases hget ha with rfl | ⟨hj, ha⟩
      · cases hout
      · exact hleases ha hj hout hown

end Settling

/-- A claim and the commit under it, with nobody between. -/
theorem claim_commit (h : WellFormed s) (hone : OnePending s) {limit now : Instant}
    (hl : Lapsed s limit) (hnow : limit ≤ now) {i : Nat} {old : Run}
    (hold : s.runTable.get? i = some old) {owner : String} {ttl : Duration} {r : Option Claim}
    {s₁ : MemoryStore} (hc : s.claim i owner ttl now = some (r, s₁)) :
    ∃ c, r = some c ∧ c.run = granted old owner ttl now ∧ ∀ {now' args out s₂},
      s₁.commit c args now' = some (out, s₂) → out.lostLease = false ∧ SettledRun limit s i old c args s₂ := by
  have hfree : Free old now := fun t ht => lt_of_lt_of_le (hl.runs i old t hold ht) hnow
  obtain ⟨run, hrun, hcases⟩ := claim_cases hc
  rw [hold, Option.some.injEq] at hrun
  subst hrun
  rcases hcases with ⟨hbusy, -⟩ | ⟨-, att, hr, he⟩
  · exact absurd hfree hbusy
  have ho := h.opened owner ttl now hold
  rw [he] at ho
  refine ⟨_, hr, rfl, fun {now' args out s₂} hcommit => ?_⟩
  obtain ⟨hlost, rfl⟩ := ho.commits (h.exec (c := .claim i owner ttl now) hc) hcommit
  exact ⟨hlost, ho.settled (h.runs.id hold) hone hl hnow⟩

end MemoryStore

end EnergyPlatform
