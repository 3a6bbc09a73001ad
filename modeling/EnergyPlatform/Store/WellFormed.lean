import EnergyPlatform.Store.Silver

/-!
# Store.WellFormed

The invariant of every reachable store, and what each call does, as case lemmas: `claim_cases`,
`renew_cases`, `commit_cases` and so on say all that a successful call can have done.

`WellFormed.exec`: no call breaks the invariant; `Reachable.wellFormed` follows by induction.
-/

namespace EnergyPlatform

open Lib (Dict)

namespace MemoryStore

variable {s s' : MemoryStore}

/-! ## What the calls do -/

theorem ensureRun_cases (s : MemoryStore) (targetId : String) (at_ : Instant) (state : RunState)
    (origin : RunOrigin) (captureId : Option CaptureId) (now : Instant) :
    (s.find targetId at_ = none ∧ ∃ run : Run, run.id = s.seq.runs + 1 ∧ run.targetId = targetId ∧
      run.scheduledFor = at_ ∧ run.state = state ∧ run.captureId = captureId ∧ run.fence = 0 ∧
      run.leaseUntil = none ∧ run.leaseOwner = none ∧ s.ensureRun targetId at_ state origin captureId now =
        (run, { s.putRun run with seq := { s.seq with runs := s.seq.runs + 1 } })) ∨
    ∃ old, s.find targetId at_ = some old ∧
      ((state = .captured ∧ old.state ≠ .processed ∧ old.captureId = none ∧
        s.ensureRun targetId at_ state origin captureId now =
          ({ old with state := .captured, captureId, updatedAt := now },
            s.putRun { old with state := .captured, captureId, updatedAt := now })) ∨
       (¬ (state = .captured ∧ old.state ≠ .processed ∧ old.captureId = none) ∧
        s.ensureRun targetId at_ state origin captureId now = (old, s))) := by
  simp only [ensureRun]
  split
  · rename_i h
    exact .inl ⟨h, _, rfl, rfl, rfl, rfl, rfl, rfl, rfl, rfl, rfl⟩
  · rename_i old h
    refine .inr ⟨old, h, ?_⟩
    simp only [final, decide_eq_true_eq]
    split
    · rename_i hc
      exact .inl ⟨hc.1, hc.2.1, hc.2.2, rfl⟩
    · rename_i hc
      exact .inr ⟨hc, rfl⟩

theorem setState_cases {i : Nat} {state : RunState} {now : Instant} {out : Run}
    (h : s.setState i state now = some (out, s')) :
    ∃ run, s.runTable.get? i = some run ∧ out = { run with state, updatedAt := now } ∧
      s' = s.putRun out := by
  simp only [setState, Option.bind_eq_bind, Option.bind_eq_some_iff, Option.some.injEq,
    Prod.mk.injEq] at h
  obtain ⟨run, hr, rfl, rfl⟩ := h
  exact ⟨run, hr, rfl, rfl⟩

theorem markRecaptured_cases {i : Nat} {c : CaptureId} {now : Instant} {out : Run}
    (h : s.markRecaptured i c now = some (out, s')) :
    ∃ run, s.runTable.get? i = some run ∧ out = recaptured run c now ∧ s' = s.putRun out := by
  simp only [markRecaptured, Option.bind_eq_bind, Option.bind_eq_some_iff, Option.some.injEq,
    Prod.mk.injEq] at h
  obtain ⟨run, hr, rfl, rfl⟩ := h
  exact ⟨run, hr, rfl, rfl⟩

theorem claim_cases {i : Nat} {owner : String} {ttl : Duration} {now : Instant}
    {out : Option Claim} (h : s.claim i owner ttl now = some (out, s')) :
    ∃ run, s.runTable.get? i = some run ∧
      ((¬ Free run now ∧ out = none ∧ s' = s) ∨
       (Free run now ∧ ∃ att, out = some ⟨granted run owner ttl now, run.fence + 1, att⟩ ∧
        (s.putRun (granted run owner ttl now)).openAttempt (granted run owner ttl now) owner now =
          (att, s'))) := by
  simp only [claim, Option.bind_eq_bind, Option.bind_eq_some_iff] at h
  obtain ⟨run, hr, h⟩ := h
  refine ⟨run, hr, ?_⟩
  split at h
  · rename_i hfree
    rw [Option.some.injEq, Prod.mk.injEq] at h
    obtain ⟨rfl, rfl⟩ := h
    exact .inr ⟨hfree, _, rfl, rfl⟩
  · rename_i hfree
    rw [Option.some.injEq, Prod.mk.injEq] at h
    exact .inl ⟨hfree, h.1.symm, h.2.symm⟩

theorem enqueueReplay_cases {i : Nat} {now : Instant} {out : Option RunAttempt}
    (h : s.enqueueReplay i now = some (out, s')) :
    ((s.attempts i).any pendingReplay = true ∧ out = none ∧ s' = s) ∨
      ((s.attempts i).any pendingReplay = false ∧ ∃ run, s.runTable.get? i = some run ∧
        s' = (s.newAttempt (replayAttempt i run.captureId now)).2) := by
  simp only [enqueueReplay] at h
  split at h
  · rename_i hany
    rw [Option.some.injEq, Prod.mk.injEq] at h
    exact .inl ⟨hany, h.1.symm, h.2.symm⟩
  · rename_i hany
    simp only [Option.bind_eq_bind, Option.bind_eq_some_iff, Option.some.injEq,
      Prod.mk.injEq] at h
    obtain ⟨run, hr, -, rfl⟩ := h
    exact .inr ⟨Bool.eq_false_iff.mpr hany, run, hr, rfl⟩

theorem renew_cases {c : Claim} {ttl : Duration} {now : Instant} {out : Bool}
    (h : s.renew c ttl now = some (out, s')) :
    ∃ run, s.runTable.get? c.run.id = some run ∧
      ((run.fence ≠ c.fence ∧ out = false ∧ s' = s) ∨
       (run.fence = c.fence ∧ out = true ∧ s' = s.putRun (renewed run ttl now))) := by
  simp only [renew, Option.bind_eq_bind, Option.bind_eq_some_iff] at h
  obtain ⟨run, hr, h⟩ := h
  refine ⟨run, hr, ?_⟩
  split at h <;> rw [Option.some.injEq, Prod.mk.injEq] at h
  · rename_i hf
    exact .inl ⟨hf, h.1.symm, h.2.symm⟩
  · rename_i hf
    exact .inr ⟨not_not.mp hf, h.1.symm, h.2.symm⟩

/-- The store a commit that is not stale leaves behind. -/
def committed (s : MemoryStore) (run : Run) (att : RunAttempt) (c : Commit) (now : Instant) :
    MemoryStore :=
  ((((s.registerAny c.derivation now).insertAll att.id c.observations).store.addEvents run.targetId
    c.events (some att.id) now).2.putAttempt (closeAttempt att c now)).putRun
      (released run c.state now)

theorem addEvents_frame (targetId : String) (events : List QualityEvent) (a : Option Nat)
    (now : Instant) : ∀ s : MemoryStore, (s.addEvents targetId events a now).2 = { s with
      eventTable := (s.addEvents targetId events a now).2.eventTable
      seq := { s.seq with events := (s.addEvents targetId events a now).2.seq.events } } := by
  induction events with
  | nil => exact fun s => rfl
  | cons e rest ih =>
    intro s
    simp only [addEvents, List.foldl_cons]
    rw [show List.foldl (addEvent targetId a now) (addEvent targetId a now s e) rest =
      ((addEvent targetId a now s e).addEvents targetId rest a now).2 from rfl, ih]
    rfl

theorem registerAny_frame (s : MemoryStore) (d : Option Derivation) (now : Instant) :
    s.registerAny d now = { s with derivationTable := (s.registerAny d now).derivationTable } := by
  cases d with
  | none => rfl
  | some d =>
    simp only [registerAny, registerDerivation]
    split <;> rfl

theorem commit_cases (hids : AttemptsOk s) {c : Claim} {args : Commit} {now : Instant}
    {out : CommitResult} (h : s.commit c args now = some (out, s')) :
    ∃ run att, s.runTable.get? c.run.id = some run ∧
      s.attemptTable.get? c.attempt.id = some att ∧
      ((run.fence ≠ c.fence ∧ out = ⟨0, true, 0⟩ ∧
        s' = if att.outcome = none then s.putAttempt (closed now att) else s) ∨
       (run.fence = c.fence ∧ out.lostLease = false ∧ s' = s.committed run att args now)) := by
  simp only [commit, Option.bind_eq_bind, Option.bind_eq_some_iff] at h
  obtain ⟨run, hr, h⟩ := h
  split at h
  · rename_i hf
    simp only [Option.bind_eq_some_iff, Option.some.injEq, Prod.mk.injEq] at h
    obtain ⟨att, ha, rfl, rfl⟩ := h
    exact ⟨run, att, hr, ha, .inl ⟨hf, rfl, rfl⟩⟩
  · rename_i hf
    simp only [Option.bind_eq_some_iff, Option.some.injEq, Prod.mk.injEq] at h
    obtain ⟨att, ha, rfl, rfl⟩ := h
    have ha' : s.attemptTable.get? c.attempt.id = some att := by
      rw [addEvents_frame, insertAll_frame, registerAny_frame] at ha
      exact ha
    have hid := hids.id ha'
    refine ⟨run, att, hr, ha', .inr ⟨not_not.mp hf, rfl, ?_⟩⟩
    rw [committed, hid]

section Committed

variable (s) (run : Run) (att : RunAttempt) (c : Commit) (now : Instant)

@[simp] theorem committed_runTable :
    (s.committed run att c now).runTable = s.runTable.set run.id (released run c.state now) := by
  simp only [committed, putRun_runTable, putAttempt_runTable]
  rw [addEvents_frame, insertAll_frame, registerAny_frame]
  rfl

@[simp] theorem committed_attemptTable : (s.committed run att c now).attemptTable =
    s.attemptTable.set att.id (closeAttempt att c now) := by
  simp only [committed, putRun_attemptTable, putAttempt_attemptTable]
  rw [addEvents_frame, insertAll_frame, registerAny_frame]
  rfl

@[simp] theorem committed_derivationTable : (s.committed run att c now).derivationTable =
    (s.registerAny c.derivation now).derivationTable := by
  simp only [committed, putRun_derivationTable, putAttempt_derivationTable]
  rw [addEvents_frame, insertAll_frame]

@[simp] theorem committed_invalidationTable :
    (s.committed run att c now).invalidationTable = s.invalidationTable := by
  simp only [committed, putRun_invalidationTable, putAttempt_invalidationTable]
  rw [addEvents_frame, insertAll_frame, registerAny_frame]

@[simp] theorem committed_seqRuns : (s.committed run att c now).seq.runs = s.seq.runs := by
  simp only [committed, putRun_seq, putAttempt_seq]
  rw [addEvents_frame, insertAll_frame, registerAny_frame]

@[simp] theorem committed_seqAttempts :
    (s.committed run att c now).seq.attempts = s.seq.attempts := by
  simp only [committed, putRun_seq, putAttempt_seq]
  rw [addEvents_frame, insertAll_frame, registerAny_frame]

theorem committed_silver (h : SilverOk s) : SilverOk (s.committed run att c now) ∧
    Grown s att.id c.observations (s.committed run att c now) := by
  have hreg : SameSilver s (s.registerAny c.derivation now) := by
    rw [registerAny_frame]; exact ⟨rfl, rfl, rfl⟩
  have hrest : SameSilver ((s.registerAny c.derivation now).insertAll att.id c.observations).store
      (s.committed run att c now) := by
    rw [committed, addEvents_frame]; exact ⟨rfl, rfl, rfl⟩
  obtain ⟨hok, hgrown⟩ := insertAll_spec (h.of_same hreg) att.id c.observations
  exact ⟨hok.of_same hrest, hgrown.of_same hreg hrest⟩

end Committed

/-! ## The invariant -/

/-- Every run is filed under its own id, and there is one for each target and scheduled instant. -/
structure RunsOk (s : MemoryStore) : Prop where
  id : ∀ {i r}, s.runTable.get? i = some r → r.id = i
  bound : ∀ {i r}, s.runTable.get? i = some r → i ≤ s.seq.runs
  unique : ∀ {i j r q}, s.runTable.get? i = some r → s.runTable.get? j = some q →
    r.targetId = q.targetId → r.scheduledFor = q.scheduledFor → i = j

structure WellFormed (s : MemoryStore) : Prop where
  runs : RunsOk s
  attempts : AttemptsOk s
  silver : SilverOk s
  derivations : ∀ {d x}, s.derivationTable.get? d = some x →
    x.derivationId = d ∧ ∃ t, x.registeredAt = some t
  rowAttempt : ∀ {i r}, s.rowTable.get? i = some r → ∃ a, s.attemptTable.get? r.runAttemptId = some a
  seenAttempt : ∀ {v f t a}, HasOccurrence s v f t a → ∃ x, s.attemptTable.get? a = some x
  invalidations : ∀ {k i}, s.invalidationTable.get? k = some i →
    k = (i.targetId, i.captureId, i.derivationId)

theorem WellFormed.init : WellFormed init := by
  constructor
  case runs => exact ⟨nofun, nofun, nofun⟩
  case attempts => exact ⟨nofun, nofun⟩
  case silver => exact ⟨⟨nofun, nofun, nofun, .nil, nofun⟩, nofun⟩
  case derivations => exact nofun
  case rowAttempt => exact nofun
  case seenAttempt => rintro v f t a ⟨i, r, hr, -⟩; cases hr
  case invalidations => intro k i hi; cases hi

theorem RunsOk.putRun (h : RunsOk s) {old r : Run} (hold : s.runTable.get? r.id = some old)
    (ht : r.targetId = old.targetId) (ha : r.scheduledFor = old.scheduledFor) :
    RunsOk (s.putRun r) where
  id {i q} hq := by
    rw [putRun_runTable, Dict.get?_set] at hq
    split at hq
    · rename_i hi
      rw [← Option.some.inj hq, hi]
    · exact h.id hq
  bound {i q} hq := by
    rw [putRun_runTable, Dict.get?_set] at hq
    split at hq
    · rename_i hi
      exact hi ▸ h.bound hold
    · exact h.bound hq
  unique {i j p q} hp hq hpt hpa := by
    rw [putRun_runTable, Dict.get?_set] at hp hq
    split at hp <;> split at hq
    · rename_i hi hj
      rw [hi, hj]
    · rename_i hi _
      rw [← Option.some.inj hp] at hpt hpa
      rw [hi]
      exact h.unique hold hq (ht.symm.trans hpt) (ha.symm.trans hpa)
    · rename_i _ hj
      rw [← Option.some.inj hq] at hpt hpa
      rw [hj]
      exact h.unique hp hold (hpt.trans ht) (hpa.trans ha)
    · exact h.unique hp hq hpt hpa

theorem RunsOk.fresh (h : RunsOk s) : s.runTable.get? (s.seq.runs + 1) = none := by
  cases hg : s.runTable.get? (s.seq.runs + 1) with
  | none => rfl
  | some r => have := h.bound hg; omega

theorem RunsOk.addRun (h : RunsOk s) {r : Run} (hid : r.id = s.seq.runs + 1)
    (hnone : s.find r.targetId r.scheduledFor = none) :
    RunsOk { s.putRun r with seq := { s.seq with runs := s.seq.runs + 1 } } where
  id {i q} hq := by
    simp only [putRun_runTable, Dict.get?_set] at hq
    split at hq
    · rename_i hi
      rw [← Option.some.inj hq, hi]
    · exact h.id hq
  bound {i q} hq := by
    simp only [putRun_runTable, Dict.get?_set] at hq
    split at hq
    · show i ≤ s.seq.runs + 1
      omega
    · have := h.bound hq
      show i ≤ s.seq.runs + 1
      omega
  unique {i j p q} hp hq hpt hpa := by
    simp only [putRun_runTable, Dict.get?_set] at hp hq
    split at hp <;> split at hq
    · rename_i hi hj
      rw [hi, hj]
    · rw [← Option.some.inj hp] at hpt hpa
      exact absurd ⟨hpt.symm, hpa.symm⟩ (find_eq_none hnone hq)
    · rw [← Option.some.inj hq] at hpt hpa
      exact absurd ⟨hpt, hpa⟩ (find_eq_none hnone hp)
    · exact h.unique hp hq hpt hpa

theorem RunsOk.of_eq (h : RunsOk s) (hr : s'.runTable = s.runTable)
    (hq : s'.seq.runs = s.seq.runs) : RunsOk s' := by
  refine ⟨?_, ?_, ?_⟩
  · intro i r; rw [hr]; exact h.id
  · intro i r; rw [hr, hq]; exact h.bound
  · intro i j r q; rw [hr]; exact h.unique

theorem AttemptsOk.of_eq (h : AttemptsOk s) (ha : s'.attemptTable = s.attemptTable)
    (hq : s'.seq.attempts = s.seq.attempts) : AttemptsOk s' := by
  refine ⟨?_, ?_⟩
  · intro i a; rw [ha]; exact h.id
  · intro i a; rw [ha, hq]; exact h.bound

/-- No attempt is forgotten. -/
def AttemptsKept (s s' : MemoryStore) : Prop :=
  ∀ i a, s.attemptTable.get? i = some a → ∃ b, s'.attemptTable.get? i = some b

theorem attemptsKept_set {n : Nat} {a : RunAttempt} (h : s'.attemptTable = s.attemptTable.set n a) :
    AttemptsKept s s' := by
  intro i b hb
  rw [h, Dict.get?_set]
  split
  · exact ⟨a, rfl⟩
  · exact ⟨b, hb⟩

theorem Opened.kept {run : Run} {owner : String} {now : Instant} {att : RunAttempt}
    (h : Opened s run owner now att s') : AttemptsKept s s' := by
  intro i a ha
  by_cases hi : i = att.id
  · exact ⟨att, hi ▸ h.filed⟩
  · rcases h.others hi with hs | ⟨dead, -, -, -, hs⟩
    · exact ⟨a, hs.trans ha⟩
    · exact ⟨_, hs⟩

/-- Changing runs and attempts only. -/
theorem WellFormed.of_same (h : WellFormed s) (hruns : RunsOk s') (hattempts : AttemptsOk s')
    (hkept : AttemptsKept s s') (hsilver : SameSilver s s')
    (hd : s'.derivationTable = s.derivationTable)
    (hi : s'.invalidationTable = s.invalidationTable) : WellFormed s' where
  runs := hruns
  attempts := hattempts
  silver := h.silver.of_same hsilver
  derivations hx := h.derivations (hd ▸ hx)
  rowAttempt hr := by
    rw [hsilver.rowTable] at hr
    obtain ⟨a, ha⟩ := h.rowAttempt hr
    exact hkept _ _ ha
  seenAttempt ho := by
    obtain ⟨x, hx⟩ := h.seenAttempt (hsilver.hasOccurrence.mp ho)
    exact hkept _ _ hx
  invalidations hk := h.invalidations (hi ▸ hk)

theorem WellFormed.putRun (h : WellFormed s) {i : Nat} {old r : Run}
    (hold : s.runTable.get? i = some old) (hid : r.id = old.id) (ht : r.targetId = old.targetId)
    (ha : r.scheduledFor = old.scheduledFor) : WellFormed (s.putRun r) := by
  have hold' : s.runTable.get? r.id = some old := by rw [hid, h.runs.id hold]; exact hold
  exact h.of_same (h.runs.putRun hold' ht ha) (h.attempts.of_eq rfl rfl) (fun _ _ ha => ⟨_, ha⟩)
    ⟨rfl, rfl, rfl⟩ rfl rfl

theorem WellFormed.putAttempt (h : WellFormed s) {a b : RunAttempt}
    (hb : s.attemptTable.get? a.id = some b) : WellFormed (s.putAttempt a) :=
  h.of_same (h.runs.of_eq rfl rfl) (h.attempts.putAttempt hb) (attemptsKept_set rfl)
    ⟨rfl, rfl, rfl⟩ rfl rfl

theorem WellFormed.newAttempt (h : WellFormed s) {mk : Nat → RunAttempt} (hmk : ∀ n, (mk n).id = n) :
    WellFormed (s.newAttempt mk).2 :=
  h.of_same (h.runs.of_eq rfl rfl) (h.attempts.newAttempt hmk) (attemptsKept_set rfl)
    ⟨rfl, rfl, rfl⟩ rfl rfl

theorem WellFormed.registerDerivation (h : WellFormed s) (d : Derivation) (now : Instant) :
    WellFormed (s.registerDerivation d now).2 := by
  simp only [MemoryStore.registerDerivation]
  split
  · exact h
  · refine ⟨h.runs.of_eq rfl rfl, h.attempts.of_eq rfl rfl, h.silver.of_same ⟨rfl, rfl, rfl⟩, ?_,
      h.rowAttempt, h.seenAttempt, h.invalidations⟩
    intro e x hx
    rw [Dict.get?_set] at hx
    split at hx
    · rename_i he
      rw [← Option.some.inj hx]
      exact ⟨he.symm, now, rfl⟩
    · exact h.derivations hx

theorem WellFormed.registerAny (h : WellFormed s) (d : Option Derivation) (now : Instant) :
    WellFormed (s.registerAny d now) := by
  cases d with
  | none => exact h
  | some d => exact h.registerDerivation d now

theorem WellFormed.committed (h : WellFormed s) {i j : Nat} {run : Run} {att : RunAttempt}
    (hr : s.runTable.get? i = some run) (ha : s.attemptTable.get? j = some att) (c : Commit)
    (now : Instant) : WellFormed (s.committed run att c now) := by
  obtain ⟨hok, hgrown⟩ := committed_silver s run att c now h.silver
  have hkept : AttemptsKept s (s.committed run att c now) :=
    attemptsKept_set (committed_attemptTable s run att c now)
  have hatt : s.attemptTable.get? att.id = some att := by rw [h.attempts.id ha]; exact ha
  have hself : ∃ x, (s.committed run att c now).attemptTable.get? att.id = some x := hkept _ _ hatt
  constructor
  case runs =>
    have := (h.putRun (r := released run c.state now) hr rfl rfl rfl).runs
    exact this.of_eq (by simp [released]) (by simp)
  case attempts =>
    exact (h.putAttempt (a := closeAttempt att c now) hatt).attempts.of_eq
      (by simp [closeAttempt]) (by simp)
  case silver => exact hok
  case derivations =>
    intro d x hx
    rw [committed_derivationTable] at hx
    exact (h.registerAny c.derivation now).derivations hx
  case rowAttempt =>
    intro i r hr
    rcases hgrown.rowNew hr with hr | ⟨hra, -⟩
    · obtain ⟨a, ha⟩ := h.rowAttempt hr
      exact hkept _ _ ha
    · rw [hra]; exact hself
  case seenAttempt =>
    intro v f t a ho
    rcases hgrown.occurrenceNew ho with ho | ⟨rfl, -⟩
    · obtain ⟨x, hx⟩ := h.seenAttempt ho
      exact hkept _ _ hx
    · exact hself
  case invalidations =>
    intro k i hi
    rw [committed_invalidationTable] at hi
    exact h.invalidations hi

theorem WellFormed.opened (h : WellFormed s) {i : Nat} {run : Run} (owner : String) (ttl : Duration)
    (now : Instant) (hr : s.runTable.get? i = some run) :
    Opened (s.putRun (granted run owner ttl now)) (granted run owner ttl now) owner now
      ((s.putRun (granted run owner ttl now)).openAttempt (granted run owner ttl now) owner now).1
      ((s.putRun (granted run owner ttl now)).openAttempt (granted run owner ttl now) owner now).2 :=
  openAttempt_spec (h.putRun (r := granted run owner ttl now) hr rfl rfl rfl).attempts _ _ _

theorem store_of_some {α : Type} {p : α × MemoryStore} {out : α} (h : some p = some (out, s')) :
    s' = p.2 := (congrArg Prod.snd (Option.some.inj h)).symm

/-- No call breaks the invariant. -/
theorem WellFormed.exec (h : WellFormed s) {c : StoreCall} {out : c.Ret}
    (hc : s.exec c = some (out, s')) : WellFormed s' := by
  cases c with
  | getRun | runs | attempts | pendingRuns | isInvalidated | attemptCaptures | invalidations =>
    obtain rfl := store_of_some hc
    exact h
  | runsWithDerivation | currentRows =>
    obtain ⟨rs, -, hrs⟩ := Option.map_eq_some_iff.mp hc
    obtain rfl : s = s' := congrArg Prod.snd hrs
    exact h
  | ensureRun targetId at_ state origin captureId now =>
    obtain rfl := store_of_some hc
    rcases ensureRun_cases s targetId at_ state origin captureId now with
      ⟨hnone, run, hid, ht, ha, -, -, -, -, -, he⟩ | ⟨old, hf, ⟨-, -, -, he⟩ | ⟨-, he⟩⟩
    · rw [he]
      exact h.of_same (h.runs.addRun hid (ht ▸ ha ▸ hnone)) (h.attempts.of_eq rfl rfl)
        (fun _ _ ha => ⟨_, ha⟩) ⟨rfl, rfl, rfl⟩ rfl rfl
    · obtain ⟨⟨i, hi⟩, -⟩ := find_eq_some hf
      rw [he]
      exact h.putRun hi rfl rfl rfl
    · rw [he]
      exact h
  | setState i state now =>
    obtain ⟨run, hr, rfl, rfl⟩ := setState_cases hc
    exact h.putRun hr rfl rfl rfl
  | markRecaptured i captureId now =>
    obtain ⟨run, hr, rfl, rfl⟩ := markRecaptured_cases hc
    exact h.putRun hr rfl rfl rfl
  | claim i owner ttl now =>
    obtain ⟨run, hr, ⟨-, -, rfl⟩ | ⟨-, att, -, he⟩⟩ := claim_cases hc
    · exact h
    · have hput := h.putRun (r := granted run owner ttl now) hr rfl rfl rfl
      have ho := h.opened owner ttl now hr
      rw [he] at ho
      exact hput.of_same (hput.runs.of_eq ho.same.runTable ho.same.seqRuns) ho.ok ho.kept
        ho.same.silver ho.same.derivationTable ho.same.invalidationTable
  | renew c ttl now =>
    obtain ⟨run, hr, ⟨-, -, rfl⟩ | ⟨-, -, rfl⟩⟩ := renew_cases hc
    · exact h
    · exact h.putRun hr rfl rfl rfl
  | commit c args now =>
    obtain ⟨run, att, hr, ha, ⟨-, -, rfl⟩ | ⟨-, -, rfl⟩⟩ := commit_cases h.attempts hc
    · split
      · exact h.putAttempt (a := closed now att) (by rw [closed_id, h.attempts.id ha]; exact ha)
      · exact h
    · exact h.committed hr ha args now
  | recordAttempt i kind outcome captureId error now =>
    obtain rfl := store_of_some hc
    exact h.newAttempt fun _ => rfl
  | enqueueReplay i now =>
    obtain ⟨-, -, rfl⟩ | ⟨-, run, -, rfl⟩ := enqueueReplay_cases hc
    · exact h
    · exact h.newAttempt fun _ => rfl
  | addInvalidation inv =>
    obtain rfl := store_of_some hc
    simp only [MemoryStore.addInvalidation]
    split
    · exact h
    · refine ⟨h.runs.of_eq rfl rfl, h.attempts.of_eq rfl rfl, h.silver.of_same ⟨rfl, rfl, rfl⟩,
        h.derivations, h.rowAttempt, h.seenAttempt, ?_⟩
      intro k i hi
      rw [Dict.get?_set] at hi
      split at hi
      · rename_i hk
        rw [← Option.some.inj hi, hk]
      · exact h.invalidations hi
  | registerDerivation d now =>
    obtain rfl := store_of_some hc
    exact h.registerDerivation d now
  | addEvents targetId events a now =>
    obtain rfl := store_of_some hc
    rw [addEvents_frame]
    exact h.of_same (h.runs.of_eq rfl rfl) (h.attempts.of_eq rfl rfl) (fun _ _ ha => ⟨_, ha⟩)
      ⟨rfl, rfl, rfl⟩ rfl rfl

theorem Reachable.wellFormed (h : Reachable s) : WellFormed s := by
  induction h with
  | init => exact .init
  | call _ hc ih => exact ih.exec hc

end MemoryStore

end EnergyPlatform
