import EnergyPlatform.Store.Fencing

/-!
# Store.Inheritance

Where the captures of runs, attempts and rows come from: what each call of the store hands on.

`exec_inherits`: a run names a capture it named before or one the call gave it; an attempt under a
lease keeps its run and its capture for good, and one that is leased anew has the capture of its
run; and Silver grows by what the call commits, under the attempt it commits.
-/

namespace EnergyPlatform

open Lib (Dict)

namespace MemoryStore

variable {s s' : MemoryStore}

/-- The call names the capture for the run. -/
def Gives : StoreCall → Run → CaptureId → Prop
  | .ensureRun targetId at_ _ _ c _, run, x =>
    c = some x ∧ run.targetId = targetId ∧ run.scheduledFor = at_
  | .markRecaptured i c _, run, x => run.id = i ∧ c = x
  | _, _, _ => False

/-- The rows a call commits, and the attempt it commits them under. -/
def rowsOf : StoreCall → List EnergyObservation
  | .commit _ args _ => args.observations
  | _ => []

def attemptOf : StoreCall → Nat
  | .commit c _ _ => c.attempt.id
  | _ => 0

/-- Under a lease, of the same run and the same capture. -/
def SameLease (a b : RunAttempt) : Prop :=
  b.leaseOwner.isSome ∧ b.runId = a.runId ∧ b.captureId = a.captureId

/-- Silver grows by rows that the call commits. -/
def GrownBy (s : MemoryStore) (c : StoreCall) (s' : MemoryStore) : Prop :=
  ∃ obs, (∀ o ∈ obs, o ∈ rowsOf c) ∧ Grown s (attemptOf c) obs s'

structure Inherits (s : MemoryStore) (c : StoreCall) (s' : MemoryStore) : Prop where
  captures : ∀ {i run x}, s'.runTable.get? i = some run → run.captureId = some x →
    (∃ old, s.runTable.get? i = some old ∧ old.captureId = some x) ∨ Gives c run x
  kept : ∀ {i a}, s.attemptTable.get? i = some a → a.leaseOwner.isSome →
    ∃ b, s'.attemptTable.get? i = some b ∧ SameLease a b
  leased : ∀ {i b}, s'.attemptTable.get? i = some b → b.leaseOwner.isSome →
    (∃ a, s.attemptTable.get? i = some a ∧ a.leaseOwner.isSome ∧ SameLease a b) ∨
      ∃ run, s'.runTable.get? b.runId = some run ∧ run.captureId = b.captureId
  silver : GrownBy s c s'

variable {c : StoreCall}

/-- Attempts that are as they were, but for one. -/
structure OneAttempt (s s' : MemoryStore) (b : RunAttempt) : Prop where
  table : s'.attemptTable = s.attemptTable.set b.id b
  /-- It is new and nobody's, or it keeps its lease. -/
  origin : s.attemptTable.get? b.id = none ∧ b.leaseOwner = none ∨
    ∃ a, s.attemptTable.get? b.id = some a ∧ b.leaseOwner = a.leaseOwner ∧ b.runId = a.runId ∧
      b.captureId = a.captureId

theorem OneAttempt.kept {b : RunAttempt} (h : OneAttempt s s' b) {i : Nat} {a : RunAttempt}
    (ha : s.attemptTable.get? i = some a) (hl : a.leaseOwner.isSome) :
    ∃ b, s'.attemptTable.get? i = some b ∧ SameLease a b := by
  rw [h.table, Dict.get?_set]
  split
  · rename_i hi
    rcases h.origin with ⟨hnone, -⟩ | ⟨old, hold, howner, hrun, hcap⟩
    · rw [← hi, ha] at hnone
      cases hnone
    · rw [← hi, ha, Option.some.injEq] at hold
      subst hold
      exact ⟨b, rfl, howner ▸ hl, hrun, hcap⟩
  · exact ⟨a, ha, hl, rfl, rfl⟩

theorem OneAttempt.leased {b : RunAttempt} (h : OneAttempt s s' b) {i : Nat} {a : RunAttempt}
    (ha : s'.attemptTable.get? i = some a) (hl : a.leaseOwner.isSome) :
    ∃ old, s.attemptTable.get? i = some old ∧ old.leaseOwner.isSome ∧ SameLease old a := by
  rw [h.table, Dict.get?_set] at ha
  split at ha
  · rename_i hi
    rw [Option.some.injEq] at ha
    subst ha
    rcases h.origin with ⟨-, hnone⟩ | ⟨old, hold, howner, hrun, hcap⟩
    · rw [hnone] at hl
      cases hl
    · exact ⟨old, hi ▸ hold, howner ▸ hl, hl, hrun, hcap⟩
  · exact ⟨a, ha, hl, hl, rfl, rfl⟩

theorem SameSilver.grownBy (h : SameSilver s s') : GrownBy s c s' :=
  ⟨[], fun _ ho => absurd ho List.not_mem_nil, (Grown.nil s _).of_same ⟨rfl, rfl, rfl⟩ h⟩

/-- A run whose captures the call does not touch. -/
def SameCaptures (s s' : MemoryStore) : Prop :=
  ∀ {i run x}, s'.runTable.get? i = some run → run.captureId = some x →
    ∃ old, s.runTable.get? i = some old ∧ old.captureId = some x

theorem sameCaptures_of_eq (hr : s'.runTable = s.runTable) : SameCaptures s s' :=
  fun h hx => ⟨_, hr ▸ h, hx⟩

theorem sameCaptures_putRun (h : WellFormed s) {j : Nat} {old r : Run}
    (hr : s'.runTable = (s.putRun r).runTable) (hold : s.runTable.get? j = some old)
    (hid : r.id = old.id) (hc : r.captureId = old.captureId) : SameCaptures s s' := by
  intro i run x hi hx
  rw [hr, putRun_runTable, hid, h.runs.id hold, Dict.get?_set] at hi
  split at hi
  · rename_i hij
    rw [Option.some.injEq] at hi
    exact ⟨old, hij ▸ hold, by rw [← hc, hi, hx]⟩
  · exact ⟨run, hi, hx⟩

namespace Inherits

theorem of_attempt (hr : SameCaptures s s') {b : RunAttempt} (ha : OneAttempt s s' b)
    (hs : GrownBy s c s') : Inherits s c s' where
  captures hi hx := .inl (hr hi hx)
  kept := ha.kept
  leased hi hl := .inl (ha.leased hi hl)
  silver := hs

theorem of_same (hr : SameCaptures s s') (ha : s'.attemptTable = s.attemptTable)
    (hs : GrownBy s c s') : Inherits s c s' where
  captures hi hx := .inl (hr hi hx)
  kept hi hl := ⟨_, ha ▸ hi, hl, rfl, rfl⟩
  leased hi hl := .inl ⟨_, ha ▸ hi, hl, hl, rfl, rfl⟩
  silver := hs

/-- The call names a capture for one run. -/
theorem of_gives {r : Run} (hr : s'.runTable = s.runTable.set r.id r)
    (ha : s'.attemptTable = s.attemptTable) (hx : ∀ x, r.captureId = some x → Gives c r x)
    (hs : GrownBy s c s') : Inherits s c s' where
  captures {i run x} hi hcap := by
    rw [hr, Dict.get?_set] at hi
    split at hi
    · rw [Option.some.injEq] at hi
      subst hi
      exact .inr (hx x hcap)
    · exact .inl ⟨run, hi, hcap⟩
  kept hi hl := ⟨_, ha ▸ hi, hl, rfl, rfl⟩
  leased hi hl := .inl ⟨_, ha ▸ hi, hl, hl, rfl, rfl⟩
  silver := hs

end Inherits

/-- An attempt that is opened gets the capture of its run. -/
theorem inherits_opened (h : WellFormed s) {i : Nat} {old run : Run} {owner : String}
    {now : Instant} {att : RunAttempt} (hold : s.runTable.get? i = some old) (hid : run.id = old.id)
    (hcap : run.captureId = old.captureId) (ho : Opened (s.putRun run) run owner now att s')
    (hs : GrownBy s c s') : Inherits s c s' where
  captures hj hx := .inl (sameCaptures_putRun h ho.same.runTable hold hid hcap hj hx)
  kept {j a} ha hl := by
    by_cases hj : j = att.id
    · rcases ho.origin with hnone | ⟨p, hp, hpending, -⟩
      · rw [← hj, putRun_attemptTable, ha] at hnone
        cases hnone
      · rw [← hj, putRun_attemptTable, ha, Option.some.injEq] at hp
        subst hp
        simp only [pendingReplay, RunAttempt.pending, Bool.and_eq_true, decide_eq_true_eq,
          Option.isNone_iff_eq_none] at hpending
        rw [hpending.2.2] at hl
        cases hl
    · rcases ho.others hj with heq | ⟨dead, hdead, -, -, heq⟩
      · exact ⟨a, heq.trans ha, hl, rfl, rfl⟩
      · rw [putRun_attemptTable, ha, Option.some.injEq] at hdead
        subst hdead
        exact ⟨_, heq, hl, rfl, rfl⟩
  leased {j b} hb hl := by
    by_cases hj : j = att.id
    · rw [hj, ho.filed, Option.some.injEq] at hb
      subst hb
      refine .inr ⟨run, ?_, ho.captureId.symm⟩
      rw [ho.same.runTable, ho.runId, putRun_runTable, Dict.get?_set_self]
    · rcases ho.others hj with heq | ⟨dead, hdead, -, -, heq⟩
      · rw [heq, putRun_attemptTable] at hb
        exact .inl ⟨b, hb, hl, hl, rfl, rfl⟩
      · rw [heq, Option.some.injEq] at hb
        subst hb
        exact .inl ⟨dead, hdead, hl, hl, rfl, rfl⟩
  silver := hs

theorem inherits_ensureRun (s : MemoryStore) (targetId : String) (at_ : Instant) (state : RunState)
    (origin : RunOrigin) (captureId : Option CaptureId) (now : Instant) :
    Inherits s (.ensureRun targetId at_ state origin captureId now)
      (s.ensureRun targetId at_ state origin captureId now).2 := by
  rcases ensureRun_cases s targetId at_ state origin captureId now with
    ⟨-, r, -, ht, ha, -, hcap, -, -, -, he⟩ | ⟨old, hf, ⟨-, -, -, he⟩ | ⟨-, he⟩⟩
  · rw [he]
    exact .of_gives (r := r) rfl rfl (fun x hx => ⟨hcap.symm.trans hx, ht, ha⟩)
      (SameSilver.grownBy ⟨rfl, rfl, rfl⟩)
  · obtain ⟨-, ht, ha⟩ := find_eq_some hf
    rw [he]
    exact .of_gives (r := { old with state := .captured, captureId, updatedAt := now }) rfl rfl
      (fun x hx => ⟨hx, ht, ha⟩) (SameSilver.grownBy ⟨rfl, rfl, rfl⟩)
  · rw [he]
    exact .of_same (sameCaptures_of_eq rfl) rfl (SameSilver.grownBy ⟨rfl, rfl, rfl⟩)

theorem inherits_claim (h : WellFormed s) {j : Nat} {owner : String} {ttl : Duration} {now : Instant}
    {out : Option Claim} (hc : s.claim j owner ttl now = some (out, s')) :
    Inherits s (.claim j owner ttl now) s' := by
  obtain ⟨old, hj, ⟨-, rfl, rfl⟩ | ⟨-, att, rfl, he⟩⟩ := claim_cases hc
  · exact .of_same (sameCaptures_of_eq rfl) rfl (SameSilver.grownBy ⟨rfl, rfl, rfl⟩)
  · have ho := h.opened owner ttl now hj
    rw [he] at ho
    have hsilver : SameSilver s s' :=
      ⟨ho.same.rowTable, ho.same.occurrenceTable, ho.same.seqRows⟩
    refine inherits_opened h hj ?_ ?_ ho hsilver.grownBy
    · rfl
    · rfl

theorem inherits_commit (h : WellFormed s) {cl : Claim} {args : Commit} {now : Instant}
    {out : CommitResult} (hc : s.commit cl args now = some (out, s')) :
    Inherits s (.commit cl args now) s' := by
  obtain ⟨old, att, hj, hatt, ⟨-, -, rfl⟩ | ⟨-, -, rfl⟩⟩ := commit_cases h.attempts hc
  · have hid : att.id = cl.attempt.id := h.attempts.id hatt
    split
    · exact .of_attempt (sameCaptures_of_eq rfl) (b := closed now att)
        ⟨rfl, .inr ⟨att, by rw [← hatt, ← hid]; rfl, rfl, rfl, rfl⟩⟩ (SameSilver.grownBy ⟨rfl, rfl, rfl⟩)
    · exact .of_same (sameCaptures_of_eq rfl) rfl (SameSilver.grownBy ⟨rfl, rfl, rfl⟩)
  · have hid : att.id = cl.attempt.id := h.attempts.id hatt
    refine .of_attempt (sameCaptures_putRun h (r := released old args.state now)
      (committed_runTable ..) hj rfl rfl) (b := closeAttempt att args now)
      ⟨committed_attemptTable .., .inr ⟨att, by rw [← hatt, ← hid]; rfl, rfl, rfl, rfl⟩⟩ ?_
    have hg := (committed_silver s old att args now h.silver).2
    rw [hid] at hg
    exact ⟨args.observations, fun _ ho => ho, hg⟩

theorem exec_inherits (h : WellFormed s) {out : c.Ret} (hc : s.exec c = some (out, s')) :
    Inherits s c s' := by
  have hself : ∀ {c : StoreCall}, GrownBy s c s := SameSilver.grownBy ⟨rfl, rfl, rfl⟩
  have hfresh : ∀ mk : Nat → RunAttempt, (∀ n, (mk n).id = n) → (∀ n, (mk n).leaseOwner = none) →
      OneAttempt s (s.newAttempt mk).2 (s.newAttempt mk).1 := by
    intro mk hid howner
    refine ⟨rfl, .inl ⟨?_, howner _⟩⟩
    show s.attemptTable.get? (mk (s.seq.attempts + 1)).id = none
    rw [hid]
    exact h.attempts.fresh
  cases c with
  | getRun | runs | attempts | pendingRuns | isInvalidated | attemptCaptures | invalidations =>
    obtain rfl := store_of_some hc
    exact .of_same (sameCaptures_of_eq rfl) rfl hself
  | runsWithDerivation | currentRows =>
    obtain ⟨rs, -, hrs⟩ := Option.map_eq_some_iff.mp hc
    obtain rfl : s = s' := congrArg Prod.snd hrs
    exact .of_same (sameCaptures_of_eq rfl) rfl hself
  | ensureRun targetId at_ state origin captureId now =>
    obtain rfl := store_of_some hc
    exact inherits_ensureRun s targetId at_ state origin captureId now
  | setState j state now =>
    obtain ⟨old, hj, rfl, rfl⟩ := setState_cases hc
    exact .of_same (sameCaptures_putRun (r := { old with state, updatedAt := now }) h rfl hj rfl rfl)
      rfl (SameSilver.grownBy ⟨rfl, rfl, rfl⟩)
  | markRecaptured j captureId now =>
    obtain ⟨old, hj, rfl, rfl⟩ := markRecaptured_cases hc
    exact .of_gives (r := recaptured old captureId now) rfl rfl
      (fun x hx => ⟨h.runs.id (r := old) hj, Option.some.inj hx⟩) (SameSilver.grownBy ⟨rfl, rfl, rfl⟩)
  | claim j owner ttl now => exact inherits_claim h hc
  | renew c ttl now =>
    obtain ⟨old, hj, ⟨-, -, rfl⟩ | ⟨-, -, rfl⟩⟩ := renew_cases hc
    · exact .of_same (sameCaptures_of_eq rfl) rfl hself
    · exact .of_same (sameCaptures_putRun (r := renewed old ttl now) h rfl hj rfl rfl) rfl
        (SameSilver.grownBy ⟨rfl, rfl, rfl⟩)
  | commit c args now => exact inherits_commit h hc
  | recordAttempt =>
    obtain rfl := store_of_some hc
    exact .of_attempt (sameCaptures_of_eq rfl) (hfresh _ (fun _ => rfl) fun _ => rfl)
      (SameSilver.grownBy ⟨rfl, rfl, rfl⟩)
  | enqueueReplay j now =>
    obtain ⟨-, -, rfl⟩ | ⟨-, _, -, rfl⟩ := enqueueReplay_cases hc
    · exact .of_same (sameCaptures_of_eq rfl) rfl hself
    · exact .of_attempt (sameCaptures_of_eq rfl) (hfresh _ (fun _ => rfl) fun _ => rfl)
        (SameSilver.grownBy ⟨rfl, rfl, rfl⟩)
  | addInvalidation inv =>
    obtain rfl := store_of_some hc
    simp only [MemoryStore.addInvalidation]
    split
    · exact .of_same (sameCaptures_of_eq rfl) rfl hself
    · exact .of_same (sameCaptures_of_eq rfl) rfl (SameSilver.grownBy ⟨rfl, rfl, rfl⟩)
  | registerDerivation d now =>
    obtain rfl := store_of_some hc
    change Inherits s _ (s.registerAny (some d) now)
    rw [registerAny_frame]
    exact .of_same (sameCaptures_of_eq rfl) rfl (SameSilver.grownBy ⟨rfl, rfl, rfl⟩)
  | addEvents targetId events a now =>
    obtain rfl := store_of_some hc
    rw [addEvents_frame]
    exact .of_same (sameCaptures_of_eq rfl) rfl (SameSilver.grownBy ⟨rfl, rfl, rfl⟩)

end MemoryStore

end EnergyPlatform
