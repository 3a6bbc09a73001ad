import EnergyPlatform.Lib.Select
import EnergyPlatform.Store.Fencing
import EnergyPlatform.Store.LedgerCommit

/-!
# Store.LedgerRuns

Whole runs of the ledger, on the memory store and on the tables.

`Simulates.step`: an admissible call returns the same on both sides, under a renaming that extends
the old one. `ledger_simulates` carries this through a run, and one renaming relates all results.
-/

namespace EnergyPlatform

open Lib

/-- A call with its result. -/
abbrev LedgerEntry := Σ c : LedgerCall, c.Ret

def Renaming.entry (ρ : Renaming) (e : LedgerEntry) : LedgerEntry := ⟨ρ.call e.1, ρ.result e.1 e.2⟩

namespace MemoryStore

/-- A run of the memory ledger: the calls with their results, and the store in the end. -/
def transcript (s : MemoryStore) : List LedgerCall → Option (List LedgerEntry × MemoryStore)
  | [] => some ([], s)
  | c :: rest => do
    let (out, s) ← s.ledger c
    let (entries, s) ← transcript s rest
    some (⟨c, out⟩ :: entries, s)

/-- The call names runs that exist, a worker renews and commits under a claim that was granted, and
a commit that is not stale carries observations the schema admits. -/
def Admissible (s : MemoryStore) (held : List Claim) : LedgerCall → Prop
  | .setState k .. | .markRecaptured k .. | .claim k .. | .recordAttempt k .. | .enqueueReplay k _ =>
    ∃ r, s.runTable.get? k = some r
  | .renew c .. => c ∈ held
  | .commit c args now => c ∈ held ∧
    ∀ r, s.runTable.get? c.run.id = some r → r.fence = c.fence →
      ∀ o ∈ args.observations, Insertable (s.registerAny args.derivation now) o
  | .ensureRun .. | .pendingRuns .. => True

/-- The claim a call grants. -/
def grants : (c : LedgerCall) → c.Ret → List Claim
  | .claim .., some c => [c]
  | _, _ => []

/-- Every call of the run is admissible when it is made. -/
def Admits (s : MemoryStore) (held : List Claim) : List LedgerCall → Prop
  | [] => True
  | c :: rest => s.Admissible held c ∧
    match s.ledger c with
    | some (out, s) => Admits s (held ++ grants c out) rest
    | none => True

instance Insertable.decidable (s : MemoryStore) (o : EnergyObservation) : Decidable (s.Insertable o) :=
  decidable_of_iff (Postgres.Tables.fits o = true ∧
    s.derivationTable.contains o.derivationId = true) (by rw [Insertable, Dict.contains_iff])

instance Admissible.decidable (s : MemoryStore) (held : List Claim) :
    ∀ c, Decidable (s.Admissible held c)
  | .setState k .. | .markRecaptured k .. | .claim k .. | .recordAttempt k .. | .enqueueReplay k _ =>
    decidable_of_iff (s.runTable.contains k = true) Dict.contains_iff
  | .renew c .. => inferInstanceAs (Decidable (c ∈ held))
  | .commit c args now => inferInstanceAs (Decidable (c ∈ held ∧
      ∀ r ∈ s.runTable.get? c.run.id, r.fence = c.fence →
        ∀ o ∈ args.observations, Insertable (s.registerAny args.derivation now) o))
  | .ensureRun .. | .pendingRuns .. => .isTrue trivial

instance Admits.decidable : ∀ (calls : List LedgerCall) (s : MemoryStore) (held : List Claim),
    Decidable (s.Admits held calls)
  | [], _, _ => .isTrue trivial
  | c :: rest, s, held =>
    have : Decidable (match s.ledger c with
        | some (out, s) => Admits s (held ++ grants c out) rest
        | none => True) :=
      match s.ledger c with
      | some (out, s) => Admits.decidable rest s (held ++ grants c out)
      | none => .isTrue trivial
    inferInstanceAs (Decidable (s.Admissible held c ∧ _))

end MemoryStore

/-- A run of the transactions, one after the other. -/
def Postgres.Tables.transcript (reg : Registry) (t : Postgres.Tables) :
    List LedgerCall → Option (List LedgerEntry × Postgres.Tables)
  | [] => some ([], t)
  | c :: rest => do
    let (out, t) ← t.exec reg c
    let (entries, t) ← transcript reg t rest
    some (⟨c, out⟩ :: entries, t)

/-- The call as one of the calls of the store. -/
def LedgerCall.toStore : LedgerCall → StoreCall
  | .ensureRun targetId at_ state origin captureId now =>
    .ensureRun targetId at_ state origin captureId now
  | .setState runId state now => .setState runId state now
  | .markRecaptured runId captureId now => .markRecaptured runId captureId now
  | .claim runId owner ttl now => .claim runId owner ttl now
  | .renew c ttl now => .renew c ttl now
  | .commit c args now => .commit c args now
  | .recordAttempt runId kind outcome captureId error now =>
    .recordAttempt runId kind outcome captureId error now
  | .enqueueReplay runId now => .enqueueReplay runId now
  | .pendingRuns targetId now => .pendingRuns targetId now

theorem ledger_exec {s s' : MemoryStore} {c : LedgerCall} {out : c.Ret}
    (h : s.ledger c = some (out, s')) : ∃ out', s.exec c.toStore = some (out', s') := by
  cases c <;> exact ⟨out, h⟩

theorem Extends.of_le {q q' : Seq} {ρ ρ' : Renaming} (h : Extends q' ρ ρ') (hq : q.Le q') :
    Extends q ρ ρ' where
  runs k hk := h.runs k (hk.trans hq.runs)
  attempts k hk := h.attempts k (hk.trans hq.attempts)
  rows k hk := h.rows k (hk.trans hq.rows)
  events k hk := h.events k (hk.trans hq.events)

namespace Simulates

open MemoryStore

variable {reg : Registry} {ρ ρ' : Renaming} {s s' : MemoryStore} {t : Postgres.Tables}

/-! ## Ids in use are renamed the same -/

theorem runs_agree (hw : WellFormed s) (he : Extends s.seq ρ ρ') {k : Nat} {r : Run}
    (hr : s.runTable.get? k = some r) : ρ'.runs k = ρ.runs k := he.runs k (hw.runs.bound hr)

theorem run_agrees (hw : WellFormed s) (he : Extends s.seq ρ ρ') {k : Nat} {r : Run}
    (hr : s.runTable.get? k = some r) : ρ'.run r = ρ.run r := by
  have hid := hw.runs.id hr
  rw [Renaming.run, Renaming.run, he.runs r.id (hid ▸ hw.runs.bound hr)]

theorem attempt_agrees (hw : WellFormed s) (hsc : Scoped s) (he : Extends s.seq ρ ρ') {k : Nat}
    {a : RunAttempt} (ha : s.attemptTable.get? k = some a) : ρ'.attempt a = ρ.attempt a := by
  obtain ⟨r, hr⟩ := hsc.attemptRun ha
  have hid := hw.attempts.id ha
  rw [Renaming.attempt, Renaming.attempt, he.attempts a.id (hid ▸ hw.attempts.bound ha),
    he.runs a.runId (hw.runs.bound hr)]

theorem claim_agrees (hw : WellFormed s) (he : Extends s.seq ρ ρ') {c : Claim} (hg : Genuine s c) :
    ρ'.claim c = ρ.claim c := by
  obtain ⟨r, hr, -⟩ := hg.run
  obtain ⟨a, ha⟩ := hg.attempt
  have hrun := he.runs c.run.id (hw.runs.bound hr)
  have hattempt := he.attempts c.attempt.id (hw.attempts.bound ha)
  simp only [Renaming.claim, Renaming.run, Renaming.attempt, hg.own, hrun, hattempt]

/-! ## Pending runs -/

/-- An attempt `pending_runs` counts. -/
theorem waiting_attempt (k : Nat) (now : Instant) (a : RunAttempt) :
    (decide ((ρ.attempt a).runId = ρ.runs k) && Postgres.Tables.openReplay (ρ.attempt a) &&
      ((ρ.attempt a).leaseOwner.isNone || (ρ.attempt a).leaseUntil.any (· < now))) =
      (decide (a.runId = k) && decide (a.kind = .replay ∧ (a.pending ∨ a.expired now))) := by
  have hopen : Postgres.Tables.openReplay (ρ.attempt a) = Postgres.Tables.openReplay a := rfl
  rw [hopen, expired_eq, RunAttempt.pending, Bool.eq_iff_iff]
  simp only [Renaming.attempt, Renaming.runs_inj, Postgres.Tables.openReplay]
  cases a.leaseOwner <;> simp [and_assoc]

theorem pendingRuns (h : Simulates reg ρ s t) (targetId : String) (now : Instant) :
    t.pendingRuns targetId now = (s.pendingRuns targetId now).map ρ.run := by
  have hany : ∀ r : Run, (t.attempts.any fun a =>
      decide (a.runId = (ρ.run r).id) && Postgres.Tables.openReplay a &&
        (a.leaseOwner.isNone || a.leaseUntil.any (· < now))) =
      (s.attempts r.id).any fun a => a.kind = .replay ∧ (a.pending ∨ a.expired now) := by
    intro r
    rw [h.any_attempts, MemoryStore.attempts, List.any_filter]
    exact List.any_congr rfl fun a => waiting_attempt r.id now a
  have hfilter : ∀ r : Run, (decide ((ρ.run r).targetId = targetId) &&
      (decide ((ρ.run r).state = .captured) || t.attempts.any fun a =>
        decide (a.runId = (ρ.run r).id) && Postgres.Tables.openReplay a &&
          (a.leaseOwner.isNone || a.leaseUntil.any (· < now)))) =
      (decide (r.targetId = targetId) && decide (r.state = .captured ∨
        (s.attempts r.id).any fun a => a.kind = .replay ∧ (a.pending ∨ a.expired now))) := by
    intro r
    rw [hany, Bool.decide_or, Bool.decide_eq_true]
    rfl
  have hlist : (t.runs.filter fun r => r.targetId = targetId && (r.state = .captured ||
      t.attempts.any fun a => a.runId = r.id && Postgres.Tables.openReplay a &&
        (a.leaseOwner.isNone || a.leaseUntil.any (· < now)))) =
      (s.runTable.values.filter fun r => decide (r.targetId = targetId) && decide (r.state = .captured ∨
        (s.attempts r.id).any fun a => a.kind = .replay ∧ (a.pending ∨ a.expired now))).map ρ.run := by
    conv_lhs => rw [h.runs, List.filter_map]
    exact congrArg _ (List.filter_congr fun r _ => hfilter r)
  rw [Postgres.Tables.pendingRuns, hlist, MemoryStore.pendingRuns, MemoryStore.runs,
    filter_insertionSort, List.filter_filter]
  rw [← List.map_insertionSort (fun a b : Run => a.scheduledFor ≤ b.scheduledFor) _ ρ.run _
    fun _ _ _ _ => Iff.rfl]
  simp only [Option.not_mem_none, false_implies, implies_true, and_true, Bool.and_comm]

/-! ## One call -/

/-- What a call makes of both sides. -/
structure Step (reg : Registry) (ρ : Renaming) (s : MemoryStore) (t : Postgres.Tables)
    (c : LedgerCall) (out : c.Ret) (s' : MemoryStore) (ρ' : Renaming) (t' : Postgres.Tables) : Prop where
  returns : t.exec reg (ρ'.call c) = some (ρ'.result c out, t')
  simulates : Simulates reg ρ' s' t'
  extends_ : Extends s.seq ρ ρ'
  seq : s.seq.Le s'.seq
  store : WellFormed s'
  order : Scoped s'
  /-- The entry reads the same under any later renaming. -/
  lasting : ∀ ρ'', Extends s'.seq ρ' ρ'' → ρ''.entry ⟨c, out⟩ = ρ'.entry ⟨c, out⟩

theorem ensureRun_step (h : Simulates reg ρ s t) (hw : WellFormed s) (hsc : Scoped s)
    (targetId : String) (at_ : Instant) (state : RunState) (origin : RunOrigin)
    (captureId : Option CaptureId) (now : Instant) : ∃ out s' ρ' t',
      s.ledger (.ensureRun targetId at_ state origin captureId now) = some (out, s') ∧
      Step reg ρ s t (.ensureRun targetId at_ state origin captureId now) out s' ρ' t' := by
  obtain ⟨ρ', he, hout, hsim⟩ := h.ensureRun hw hsc targetId at_ state origin captureId now
  have hcases := ensureRun_cases s targetId at_ state origin captureId now
  obtain ⟨out, s', hs⟩ : ∃ out s',
      s.ensureRun targetId at_ state origin captureId now = (out, s') := ⟨_, _, rfl⟩
  have hw' := hw.exec (c := .ensureRun targetId at_ state origin captureId now) (congrArg some hs)
  rw [hs] at hout hsim hcases
  have hafter : s.seq.Le s'.seq ∧ Scoped s' ∧ ∃ k, s'.runTable.get? k = some out := by
    rcases hcases with ⟨-, r, -, -, -, -, -, -, -, -, heq⟩ | ⟨old, hf, ⟨-, -, -, heq⟩ | ⟨-, heq⟩⟩
    · obtain ⟨rfl, rfl⟩ := Prod.mk.inj heq
      exact ⟨⟨Nat.le_succ _, le_rfl, le_rfl, le_rfl⟩,
        (hsc.putRun out).of_same rfl rfl rfl rfl, out.id, Dict.get?_set_self ..⟩
    · obtain ⟨rfl, rfl⟩ := Prod.mk.inj heq
      exact ⟨.refl _, hsc.putRun _, old.id, Dict.get?_set_self ..⟩
    · obtain ⟨⟨k, hk⟩, -⟩ := find_eq_some hf
      obtain ⟨rfl, rfl⟩ := Prod.mk.inj heq
      exact ⟨.refl _, hsc, k, hk⟩
  obtain ⟨hseq, hsc', k, hk⟩ := hafter
  refine ⟨out, s', ρ', _, congrArg some hs, congrArg some (Prod.ext hout rfl), hsim, he, hseq, hw',
    hsc', fun ρ'' he' => ?_⟩
  show (⟨.ensureRun targetId at_ state origin captureId now, ρ''.run out⟩ : LedgerEntry) = _
  rw [run_agrees hw' he' hk]
  rfl

/-- A call that updates one run and returns it. -/
theorem lasting_run (hw : WellFormed s) (hw' : WellFormed s') (hseq : s.seq.Le s'.seq) {k : Nat}
    {r out : Run} (hr : s.runTable.get? k = some r) (hout : s'.runTable.get? k = some out)
    (he : Extends s'.seq ρ ρ') : ρ'.runs k = ρ.runs k ∧ ρ'.run out = ρ.run out :=
  ⟨runs_agree hw (he.of_le hseq) hr, run_agrees hw' he hout⟩

theorem setState_step (h : Simulates reg ρ s t) (hw : WellFormed s) (hsc : Scoped s) {k : Nat}
    {r : Run} (hr : s.runTable.get? k = some r) (state : RunState) (now : Instant) :
    ∃ out s' ρ' t', s.ledger (.setState k state now) = some (out, s') ∧
      Step reg ρ s t (.setState k state now) out s' ρ' t' := by
  have hs : s.setState k state now = some ({ r with state, updatedAt := now },
      s.putRun { r with state, updatedAt := now }) := by
    rw [MemoryStore.setState, hr]
    rfl
  have hw' := hw.exec (c := .setState k state now) hs
  have hid := hw.runs.id hr
  obtain ⟨t', hexec, hsim⟩ := h.setState hw hs
  refine ⟨_, _, ρ, t', hs, hexec, hsim, .refl _ _, .refl _, hw', hsc.putRun _, fun ρ'' he => ?_⟩
  have hfiled : (s.putRun { r with state, updatedAt := now }).runTable.get? k =
      some { r with state, updatedAt := now } := by
    rw [putRun_runTable, hid, Dict.get?_set_self]
  obtain ⟨hk, hrun⟩ := lasting_run hw hw' (.refl _) hr hfiled he
  show (⟨.setState (ρ''.runs k) state now, ρ''.run _⟩ : LedgerEntry) = _
  rw [hk, hrun]
  rfl

theorem markRecaptured_step (h : Simulates reg ρ s t) (hw : WellFormed s) (hsc : Scoped s) {k : Nat}
    {r : Run} (hr : s.runTable.get? k = some r) (captureId : CaptureId) (now : Instant) :
    ∃ out s' ρ' t', s.ledger (.markRecaptured k captureId now) = some (out, s') ∧
      Step reg ρ s t (.markRecaptured k captureId now) out s' ρ' t' := by
  have hs : s.markRecaptured k captureId now = some (recaptured r captureId now,
      s.putRun (recaptured r captureId now)) := by
    rw [MemoryStore.markRecaptured, hr]
    rfl
  have hw' := hw.exec (c := .markRecaptured k captureId now) hs
  have hid : r.id = k := hw.runs.id hr
  obtain ⟨t', hexec, hsim⟩ := h.markRecaptured hw hs
  refine ⟨_, _, ρ, t', hs, hexec, hsim, .refl _ _, .refl _, hw', hsc.putRun _, fun ρ'' he => ?_⟩
  have hfiled : (s.putRun (recaptured r captureId now)).runTable.get? k =
      some (recaptured r captureId now) := by
    rw [putRun_runTable, show (recaptured r captureId now).id = k from hid, Dict.get?_set_self]
  obtain ⟨hk, hrun⟩ := lasting_run hw hw' (.refl _) hr hfiled he
  show (⟨.markRecaptured (ρ''.runs k) captureId now, ρ''.run _⟩ : LedgerEntry) = _
  rw [hk, hrun]
  rfl

theorem claim_step (h : Simulates reg ρ s t) (hw : WellFormed s) (hsc : Scoped s) {k : Nat}
    {r : Run} (hr : s.runTable.get? k = some r) (owner : String) (ttl : Duration) (now : Instant) :
    ∃ out s' ρ' t', s.ledger (.claim k owner ttl now) = some (out, s') ∧
      Step reg ρ s t (.claim k owner ttl now) out s' ρ' t' := by
  have hex : ∃ out s', s.claim k owner ttl now = some (out, s') := by
    rw [MemoryStore.claim, hr, Option.bind_eq_bind, Option.bind_some]
    split
    · exact ⟨_, _, rfl⟩
    · exact ⟨_, _, rfl⟩
  obtain ⟨out, s', hs⟩ := hex
  have hw' := hw.exec (c := .claim k owner ttl now) hs
  obtain ⟨ρ', t', he, hexec, hsim⟩ := h.claim hw hsc hs
  have hk := runs_agree hw he hr
  obtain ⟨old, hold, ⟨-, rfl, rfl⟩ | ⟨-, att, rfl, ho⟩⟩ := claim_cases hs
  · refine ⟨_, _, ρ', t', hs, ?_, hsim, he, .refl _, hw', hsc, fun ρ'' he' => ?_⟩
    · show some (t.claim (ρ'.runs k) owner ttl now) = _
      rw [hk, hexec]
      rfl
    · show (⟨.claim (ρ''.runs k) owner ttl now, none⟩ : LedgerEntry) = _
      rw [runs_agree hw he' hr]
      rfl
  · have hop := hw.opened owner ttl now hold
    rw [ho] at hop
    have hid : old.id = k := hw.runs.id hold
    have hrun : s'.runTable.get? k = some (granted old owner ttl now) := by
      rw [hop.same.runTable, putRun_runTable, show (granted old owner ttl now).id = k from hid,
        Dict.get?_set_self]
    have hseq : s.seq.Le s'.seq :=
      ⟨hop.same.seqRuns.ge, hop.seq, hop.same.seqRows.ge, hop.same.seqEvents.ge⟩
    have hsc' : Scoped s' := by
      have := (hsc.putRun (granted old owner ttl now)).openAttempt
        (hw.putRun (r := granted old owner ttl now) hold rfl rfl rfl) (Dict.get?_set_self ..) owner now
      rw [ho] at this
      exact this
    refine ⟨_, _, ρ', t', hs, ?_, hsim, he, hseq, hw', hsc', fun ρ'' he' => ?_⟩
    · show some (t.claim (ρ'.runs k) owner ttl now) = _
      rw [hk, hexec]
      rfl
    · show (⟨.claim (ρ''.runs k) owner ttl now, some (ρ''.claim _)⟩ : LedgerEntry) = _
      rw [runs_agree hw (he'.of_le hseq) hr, Renaming.claim, run_agrees hw' he' hrun,
        attempt_agrees hw' hsc' he' hop.filed]
      rfl

theorem renew_step (h : Simulates reg ρ s t) (hw : WellFormed s) (hsc : Scoped s) {c : Claim}
    (hg : Genuine s c) (ttl : Duration) (now : Instant) : ∃ out s' ρ' t',
      s.ledger (.renew c ttl now) = some (out, s') ∧ Step reg ρ s t (.renew c ttl now) out s' ρ' t' := by
  obtain ⟨r, hr, -⟩ := hg.run
  have hex : ∃ out s', s.renew c ttl now = some (out, s') := by
    rw [MemoryStore.renew, hr, Option.bind_eq_bind, Option.bind_some]
    split
    · exact ⟨_, _, rfl⟩
    · exact ⟨_, _, rfl⟩
  obtain ⟨out, s', hs⟩ := hex
  have hw' := hw.exec (c := .renew c ttl now) hs
  obtain ⟨t', hexec, hsim⟩ := h.renew hw hs
  have hafter : s.seq.Le s'.seq ∧ Scoped s' := by
    obtain ⟨old, -, ⟨-, -, rfl⟩ | ⟨-, -, rfl⟩⟩ := renew_cases hs
    · exact ⟨.refl _, hsc⟩
    · exact ⟨.refl _, hsc.putRun _⟩
  refine ⟨out, s', ρ, t', hs, congrArg some hexec, hsim, .refl _ _, hafter.1, hw', hafter.2,
    fun ρ'' he => ?_⟩
  show (⟨.renew (ρ''.claim c) ttl now, out⟩ : LedgerEntry) = _
  rw [claim_agrees hw (he.of_le hafter.1) hg]
  rfl

theorem commit_step (h : Simulates reg ρ s t) (hw : WellFormed s) (hsc : Scoped s) {c : Claim}
    {args : Commit} {now : Instant} (hg : Genuine s c)
    (hok : ∀ r, s.runTable.get? c.run.id = some r → r.fence = c.fence →
      ∀ o ∈ args.observations, Insertable (s.registerAny args.derivation now) o) : ∃ out s' ρ' t',
      s.ledger (.commit c args now) = some (out, s') ∧
      Step reg ρ s t (.commit c args now) out s' ρ' t' := by
  have hex : ∃ out s', s.commit c args now = some (out, s') := by
    obtain ⟨r, hr, -⟩ := hg.run
    obtain ⟨a, ha⟩ := hg.attempt
    rw [MemoryStore.commit, hr, Option.bind_eq_bind, Option.bind_some]
    split
    · rw [ha]
      exact ⟨_, _, rfl⟩
    · have ha' : (((s.registerAny args.derivation now).insertAll c.attempt.id
          args.observations).store.addEvents r.targetId args.events (some c.attempt.id)
            now).2.attemptTable.get? c.attempt.id = some a := by
        rw [addEvents_frame, insertAll_frame, registerAny_frame]
        exact ha
      dsimp only
      rw [ha']
      exact ⟨_, _, rfl⟩
  obtain ⟨out, s', hs⟩ := hex
  have hw' := hw.exec (c := .commit c args now) hs
  obtain ⟨ρ', t', he, hexec, hsim, hsc', hseq⟩ := h.commit hw hsc hg hok hs
  refine ⟨out, s', ρ', t', hs, ?_, hsim, he, hseq, hw', hsc', fun ρ'' he' => ?_⟩
  · show t.commit reg (ρ'.claim c) args now = _
    rw [claim_agrees hw he hg]
    exact hexec
  · show (⟨.commit (ρ''.claim c) args now, out⟩ : LedgerEntry) = _
    rw [claim_agrees hw (he'.of_le hseq) hg]
    rfl

theorem newAttempt_after (hw : WellFormed s) (hsc : Scoped s) {mk : Nat → RunAttempt}
    {out : RunAttempt} (hs : s.newAttempt mk = (out, s')) (hid : ∀ n, (mk n).id = n) {k : Nat} {r : Run}
    (hr : s.runTable.get? k = some r) (hrun : ∀ n, (mk n).runId = k) :
    s.seq.Le s'.seq ∧ Scoped s' ∧ ∃ i, s'.attemptTable.get? i = some out := by
  obtain ⟨rfl, rfl⟩ := Prod.mk.inj hs
  exact ⟨⟨le_rfl, Nat.le_succ _, le_rfl, le_rfl⟩, hsc.newAttempt hw hid hr hrun, _,
    Dict.get?_set_self ..⟩

theorem recordAttempt_step (h : Simulates reg ρ s t) (hw : WellFormed s) (hsc : Scoped s) {k : Nat}
    {r : Run} (hr : s.runTable.get? k = some r) (kind : AttemptKind) (outcome : AttemptOutcome)
    (captureId : Option CaptureId) (error : Option String) (now : Instant) : ∃ out s' ρ' t',
      s.ledger (.recordAttempt k kind outcome captureId error now) = some (out, s') ∧
      Step reg ρ s t (.recordAttempt k kind outcome captureId error now) out s' ρ' t' := by
  obtain ⟨ρ', t', he, hexec, hsim⟩ := h.recordAttempt hw hsc hr kind outcome captureId error now
  obtain ⟨out, s', hs⟩ : ∃ out s',
      s.recordAttempt k kind outcome captureId error now = (out, s') := ⟨_, _, rfl⟩
  have hw' := hw.exec (c := .recordAttempt k kind outcome captureId error now) (congrArg some hs)
  obtain ⟨hseq, hsc', i, hi⟩ := newAttempt_after hw hsc hs (fun _ => rfl) hr fun _ => rfl
  rw [hs] at hexec hsim
  refine ⟨out, s', ρ', t', congrArg some hs, ?_, hsim, he, hseq, hw', hsc', fun ρ'' he' => ?_⟩
  · show t.recordAttempt (ρ'.runs k) kind outcome captureId error now = _
    rw [runs_agree hw he hr]
    exact hexec
  · show (⟨.recordAttempt (ρ''.runs k) kind outcome captureId error now, ρ''.attempt out⟩ :
      LedgerEntry) = _
    rw [runs_agree hw (he'.of_le hseq) hr, attempt_agrees hw' hsc' he' hi]
    rfl

theorem enqueueReplay_step (h : Simulates reg ρ s t) (hw : WellFormed s) (hsc : Scoped s) {k : Nat}
    {r : Run} (hr : s.runTable.get? k = some r) (now : Instant) : ∃ out s' ρ' t',
      s.ledger (.enqueueReplay k now) = some (out, s') ∧
      Step reg ρ s t (.enqueueReplay k now) out s' ρ' t' := by
  have hcases : s.enqueueReplay k now = some (none, s) ∨
      ∃ a s', s.newAttempt (replayAttempt k r.captureId now) = (a, s') ∧
        s.enqueueReplay k now = some (some a, s') := by
    rw [MemoryStore.enqueueReplay]
    split
    · exact .inl rfl
    · rw [hr]
      exact .inr ⟨_, _, rfl, rfl⟩
  have hafter : ∃ out s', s.enqueueReplay k now = some (out, s') ∧ s.seq.Le s'.seq ∧ Scoped s' ∧
      ∀ a ∈ out, ∃ i, s'.attemptTable.get? i = some a := by
    rcases hcases with hs | ⟨a, s', hnew, hs⟩
    · exact ⟨none, s, hs, .refl _, hsc, fun a ha => absurd ha (Option.not_mem_none a)⟩
    · obtain ⟨hseq, hsc', hi⟩ := newAttempt_after hw hsc hnew (fun _ => rfl) hr fun _ => rfl
      refine ⟨some a, s', hs, hseq, hsc', fun b hb => ?_⟩
      obtain rfl := Option.some.inj hb
      exact hi
  obtain ⟨out, s', hs, hseq, hsc', hfiled⟩ := hafter
  have hw' := hw.exec (c := .enqueueReplay k now) hs
  obtain ⟨ρ', t', he, hexec, hsim⟩ := h.enqueueReplay hw hsc hr hs
  refine ⟨out, s', ρ', t', hs, ?_, hsim, he, hseq, hw', hsc', fun ρ'' he' => ?_⟩
  · show some (t.enqueueReplay (ρ'.runs k) now) = _
    rw [runs_agree hw he hr, hexec]
    rfl
  · have hout : Option.map ρ''.attempt out = Option.map ρ'.attempt out := by
      cases out with
      | none => rfl
      | some a =>
        obtain ⟨i, hi⟩ := hfiled a rfl
        rw [Option.map_some, Option.map_some, attempt_agrees hw' hsc' he' hi]
    show (⟨.enqueueReplay (ρ''.runs k) now, Option.map ρ''.attempt out⟩ : LedgerEntry) = _
    rw [runs_agree hw (he'.of_le hseq) hr, hout]
    rfl

theorem pendingRuns_step (h : Simulates reg ρ s t) (hw : WellFormed s) (hsc : Scoped s)
    (targetId : String) (now : Instant) : ∃ out s' ρ' t',
      s.ledger (.pendingRuns targetId now) = some (out, s') ∧
      Step reg ρ s t (.pendingRuns targetId now) out s' ρ' t' := by
  refine ⟨s.pendingRuns targetId now, s, ρ, t, rfl, ?_, h, .refl _ _, .refl _, hw, hsc,
    fun ρ'' he => ?_⟩
  · show some (t.pendingRuns targetId now, t) = _
    rw [h.pendingRuns]
    rfl
  · have hout : (s.pendingRuns targetId now).map ρ''.run = (s.pendingRuns targetId now).map ρ.run := by
      refine List.map_congr_left fun r hr => ?_
      obtain ⟨⟨i, hi⟩, -⟩ := mem_runs.mp (List.mem_of_mem_filter hr)
      exact run_agrees hw he hi
    show (⟨.pendingRuns targetId now, List.map ρ''.run _⟩ : LedgerEntry) = _
    rw [hout]
    rfl

/-- An admissible call returns the same on both sides. -/
theorem step (h : Simulates reg ρ s t) (hw : WellFormed s) (hsc : Scoped s) {held : List Claim}
    (hheld : ∀ c ∈ held, Genuine s c) {c : LedgerCall} (hc : s.Admissible held c) :
    ∃ out s' ρ' t', s.ledger c = some (out, s') ∧ Step reg ρ s t c out s' ρ' t' := by
  cases c with
  | ensureRun => exact h.ensureRun_step hw hsc ..
  | setState => exact hc.elim fun r hr => h.setState_step hw hsc hr ..
  | markRecaptured => exact hc.elim fun r hr => h.markRecaptured_step hw hsc hr ..
  | claim => exact hc.elim fun r hr => h.claim_step hw hsc hr ..
  | renew c => exact h.renew_step hw hsc (hheld c hc) ..
  | commit c => exact h.commit_step hw hsc (hheld c hc.1) hc.2
  | recordAttempt => exact hc.elim fun r hr => h.recordAttempt_step hw hsc hr ..
  | enqueueReplay => exact hc.elim fun r hr => h.enqueueReplay_step hw hsc hr ..
  | pendingRuns => exact h.pendingRuns_step hw hsc ..

/-! ## Claims stay genuine -/

theorem genuine_kept {cl : Claim} (hg : Genuine s cl) (hw : WellFormed s) {c : LedgerCall}
    {out : c.Ret} (hs : s.ledger c = some (out, s')) : Genuine s' cl := by
  obtain ⟨out', hexec⟩ := ledger_exec hs
  obtain ⟨r, hr, ht⟩ := hg.run
  obtain ⟨a, ha⟩ := hg.attempt
  obtain ⟨r', hr', ht', -⟩ := exec_runsKept hw hexec _ _ hr
  exact ⟨⟨r', hr', ht'.trans ht⟩, (exec_onward hw hexec).attempts _ _ ha, hg.own⟩

theorem grants_genuine (hw : WellFormed s) {c : LedgerCall} {out : c.Ret}
    (hs : s.ledger c = some (out, s')) : ∀ cl ∈ grants c out, Genuine s' cl := by
  intro cl hcl
  cases c
  case claim k owner ttl now =>
    cases out with
    | none => cases hcl
    | some cl' =>
      obtain rfl := List.mem_singleton.mp hcl
      obtain ⟨old, hold, ⟨-, hn, -⟩ | ⟨-, att, he, ho⟩⟩ := claim_cases hs
      · cases hn
      · cases he
        have hop := hw.opened owner ttl now hold
        rw [ho] at hop
        refine ⟨⟨granted old owner ttl now, ?_, rfl⟩, ⟨att, hop.filed⟩, hop.runId⟩
        rw [hop.same.runTable]
        exact Dict.get?_set_self ..
  all_goals cases hcl

/-! ## Runs -/

theorem transcript_cons {t₁ t' : Postgres.Tables} {rest : List LedgerCall} {entries : List LedgerEntry}
    {e : LedgerEntry} (he : t.exec reg e.1 = some (e.2, t₁))
    (hrest : t₁.transcript reg rest = some (entries, t')) :
    t.transcript reg (e.1 :: rest) = some (e :: entries, t') := by
  rw [Postgres.Tables.transcript, he]
  simp only [Option.bind_eq_bind, Option.bind_some, hrest]

theorem run (calls : List LedgerCall) : ∀ {ρ : Renaming} {s : MemoryStore} {t : Postgres.Tables}
    {held : List Claim}, Simulates reg ρ s t → WellFormed s → Scoped s → (∀ c ∈ held, Genuine s c) →
      s.Admits held calls → ∃ entries s' ρ' t', s.transcript calls = some (entries, s') ∧
        Extends s.seq ρ ρ' ∧
        t.transcript reg (calls.map ρ'.call) = some (entries.map ρ'.entry, t') ∧
        Simulates reg ρ' s' t' ∧ WellFormed s' ∧ Scoped s' := by
  induction calls with
  | nil => exact fun {ρ s t held} h hw hsc _ _ => ⟨[], s, ρ, t, rfl, .refl _ _, rfl, h, hw, hsc⟩
  | cons c rest ih =>
    intro ρ s t held h hw hsc hheld hadm
    obtain ⟨hc, hrest⟩ := hadm
    obtain ⟨out, s₁, ρ₁, t₁, hs, hstep⟩ := h.step hw hsc hheld hc
    simp only [hs] at hrest
    have hheld₁ : ∀ cl ∈ held ++ grants c out, Genuine s₁ cl := by
      intro cl hcl
      rcases List.mem_append.mp hcl with hcl | hcl
      · exact genuine_kept (hheld cl hcl) hw hs
      · exact grants_genuine hw hs cl hcl
    obtain ⟨entries, s', ρ', t', hrun, he, htables, hsim⟩ :=
      ih hstep.simulates hstep.store hstep.order hheld₁ hrest
    refine ⟨⟨c, out⟩ :: entries, s', ρ', t', ?_, hstep.extends_.trans he hstep.seq, ?_, hsim⟩
    · rw [transcript, hs]
      simp only [Option.bind_eq_bind, Option.bind_some, hrun]
    · have hreturns : t.exec reg (ρ₁.entry ⟨c, out⟩).1 = some ((ρ₁.entry ⟨c, out⟩).2, t₁) := hstep.returns
      rw [← hstep.lasting ρ' he] at hreturns
      exact transcript_cons hreturns htables

end Simulates

/-! ## The ledgers agree -/

/-- The tables and the memory store hold the same runs, attempts, rows, occurrences and events, up to
the renaming of the ids. -/
structure Corresponding (reg : Registry) (ρ : Renaming) (s : MemoryStore) (t : Postgres.Tables) :
    Prop extends Simulates reg ρ s t where
  store : s.WellFormed
  order : s.Scoped

def Renaming.id : Renaming := ⟨fun n => n, fun n => n, fun n => n, fun n => n, strictMono_id,
  strictMono_id, strictMono_id, strictMono_id⟩

theorem Corresponding.empty (reg : Registry) :
    Corresponding reg .id MemoryStore.init Postgres.Tables.empty where
  runs := rfl
  attempts := rfl
  derivations := rfl
  observations := rfl
  occurrences i f x a := by
    constructor
    · intro h; cases h
    · rintro ⟨oc, hoc, -⟩; cases hoc
  occurrenceIds _ h := by cases h
  occurrenceKeys := List.Pairwise.nil
  events := rfl
  seqRuns := le_rfl
  seqAttempts := le_rfl
  seqRows := le_rfl
  seqEvents := le_rfl
  store := MemoryStore.WellFormed.init
  order := MemoryStore.Scoped.init

/-- The tables of PostgreSQL return what the memory ledger returns, over any run of admissible
calls, and stay in correspondence with it. -/
theorem ledger_simulates {reg : Registry} {ρ : Renaming} {s : MemoryStore} {t : Postgres.Tables}
    (h : Corresponding reg ρ s t) {held : List Claim} (hheld : ∀ c ∈ held, s.Genuine c)
    {calls : List LedgerCall} (hadm : s.Admits held calls) :
    ∃ entries s' ρ' t', s.transcript calls = some (entries, s') ∧ Extends s.seq ρ ρ' ∧
      t.transcript reg (calls.map ρ'.call) = some (entries.map ρ'.entry, t') ∧
      Corresponding reg ρ' s' t' := by
  obtain ⟨entries, s', ρ', t', hmem, he, htables, hsim, hw, hsc⟩ :=
    h.toSimulates.run calls h.store h.order hheld hadm
  exact ⟨entries, s', ρ', t', hmem, he, htables, ⟨hsim, hw, hsc⟩⟩

/-! ## A price -/

section Price

open MemoryStore

/-- A run captured and claimed. -/
def claimedRun : List LedgerCall :=
  [.ensureRun "ote" 0 .captured .scheduled (some (captureId "ote" 0 1)) 0,
   .claim 1 "worker" minute 0]

/-- A commit of one price. -/
def priceCommit (d : Option Derivation) : Commit :=
  ⟨.processed, .ok, none, d, [dayAheadPrice 1 .soap 0 none], []⟩

/-- The memory store accepts a price whose derivation nobody registered; the foreign key does
not. -/
theorem unregistered_commit_refused : ∃ entries s t cl,
    init.transcript claimedRun = some (entries, s) ∧
    Postgres.Tables.empty.transcript dataset claimedRun = some (entries, t) ∧
    entries.flatMap (fun e => grants e.1 e.2) = [cl] ∧
    (∃ s', s.ledger (.commit cl (priceCommit none) 0) = some ((⟨1, false, 0⟩ : CommitResult), s')) ∧
    t.exec dataset (.commit cl (priceCommit none) 0) = none :=
  ⟨_, _, _, _, rfl, rfl, rfl, ⟨_, rfl⟩, rfl⟩

/-- A run captured twice, so that the tables skip a run id, and a later one that is committed. -/
def laterRun : List LedgerCall :=
  let run : Run :=
    { id := 2, targetId := "ote", scheduledFor := hour, state := .captured, fence := 0
      origin := .scheduled, leaseOwner := none, leaseUntil := none
      captureId := some (captureId "ote" hour 1), createdAt := hour, updatedAt := hour }
  let held := granted run "worker" minute hour
  [.ensureRun "ote" 0 .captured .scheduled (some (captureId "ote" 0 1)) 0,
   .ensureRun "ote" 0 .captured .scheduled (some (captureId "ote" 0 1)) 0,
   .ensureRun "ote" hour .captured .scheduled (some (captureId "ote" hour 1)) hour,
   .claim 2 "worker" minute hour,
   .commit ⟨held, held.fence, processAttempt held "worker" hour 1⟩
    (priceCommit (some dayAheadDerivation)) hour]

theorem ledger_simulates_laterRun : ∃ entries s' ρ' t',
    init.transcript laterRun = some (entries, s') ∧ Extends init.seq .id ρ' ∧
    Postgres.Tables.empty.transcript dataset (laterRun.map ρ'.call) =
      some (entries.map ρ'.entry, t') ∧
    Corresponding dataset ρ' s' t' :=
  ledger_simulates (Corresponding.empty dataset) (List.forall_mem_nil _) (by decide +kernel)

end Price

end EnergyPlatform
