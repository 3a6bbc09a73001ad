import EnergyPlatform.Store.Calls

/-!
# Store.Tables

What each operation of the store does to each table: which tables it leaves alone, how it changes
the others. Later modules use these facts and unfold no operation.

* `openAttempt_spec`: the attempt a claim works under, and what became of the older ones.
* `find_eq_some`, `mem_attempts`, `mem_runs`: the reads, as facts about the tables.
-/

namespace EnergyPlatform

open Lib (Dict)

namespace MemoryStore

variable {s s' : MemoryStore}

/-! ## Frames -/

section Frames

variable (s) (r : Run) (a : RunAttempt)

@[simp] theorem putRun_runTable : (s.putRun r).runTable = s.runTable.set r.id r := rfl
@[simp] theorem putRun_attemptTable : (s.putRun r).attemptTable = s.attemptTable := rfl
@[simp] theorem putRun_derivationTable : (s.putRun r).derivationTable = s.derivationTable := rfl
@[simp] theorem putRun_rowTable : (s.putRun r).rowTable = s.rowTable := rfl
@[simp] theorem putRun_occurrenceTable : (s.putRun r).occurrenceTable = s.occurrenceTable := rfl
@[simp] theorem putRun_invalidationTable :
    (s.putRun r).invalidationTable = s.invalidationTable := rfl
@[simp] theorem putRun_eventTable : (s.putRun r).eventTable = s.eventTable := rfl
@[simp] theorem putRun_seq : (s.putRun r).seq = s.seq := rfl

@[simp] theorem putAttempt_runTable : (s.putAttempt a).runTable = s.runTable := rfl
@[simp] theorem putAttempt_attemptTable :
    (s.putAttempt a).attemptTable = s.attemptTable.set a.id a := rfl
@[simp] theorem putAttempt_derivationTable :
    (s.putAttempt a).derivationTable = s.derivationTable := rfl
@[simp] theorem putAttempt_rowTable : (s.putAttempt a).rowTable = s.rowTable := rfl
@[simp] theorem putAttempt_occurrenceTable :
    (s.putAttempt a).occurrenceTable = s.occurrenceTable := rfl
@[simp] theorem putAttempt_invalidationTable :
    (s.putAttempt a).invalidationTable = s.invalidationTable := rfl
@[simp] theorem putAttempt_eventTable : (s.putAttempt a).eventTable = s.eventTable := rfl
@[simp] theorem putAttempt_seq : (s.putAttempt a).seq = s.seq := rfl

end Frames

/-- Everything but the attempts: what opening or closing an attempt leaves alone. -/
structure SameButAttempts (s s' : MemoryStore) : Prop where
  runTable : s'.runTable = s.runTable
  derivationTable : s'.derivationTable = s.derivationTable
  rowTable : s'.rowTable = s.rowTable
  occurrenceTable : s'.occurrenceTable = s.occurrenceTable
  invalidationTable : s'.invalidationTable = s.invalidationTable
  eventTable : s'.eventTable = s.eventTable
  seqRuns : s'.seq.runs = s.seq.runs
  seqRows : s'.seq.rows = s.seq.rows
  seqEvents : s'.seq.events = s.seq.events

namespace SameButAttempts

theorem refl (s : MemoryStore) : SameButAttempts s s := ⟨rfl, rfl, rfl, rfl, rfl, rfl, rfl, rfl, rfl⟩

theorem trans {s s' s'' : MemoryStore} (h : SameButAttempts s s') (h' : SameButAttempts s' s'') :
    SameButAttempts s s'' where
  runTable := h'.runTable.trans h.runTable
  derivationTable := h'.derivationTable.trans h.derivationTable
  rowTable := h'.rowTable.trans h.rowTable
  occurrenceTable := h'.occurrenceTable.trans h.occurrenceTable
  invalidationTable := h'.invalidationTable.trans h.invalidationTable
  eventTable := h'.eventTable.trans h.eventTable
  seqRuns := h'.seqRuns.trans h.seqRuns
  seqRows := h'.seqRows.trans h.seqRows
  seqEvents := h'.seqEvents.trans h.seqEvents

theorem putAttempt (s : MemoryStore) (a : RunAttempt) : SameButAttempts s (s.putAttempt a) :=
  ⟨rfl, rfl, rfl, rfl, rfl, rfl, rfl, rfl, rfl⟩

theorem newAttempt (s : MemoryStore) (mk : Nat → RunAttempt) :
    SameButAttempts s (s.newAttempt mk).2 := ⟨rfl, rfl, rfl, rfl, rfl, rfl, rfl, rfl, rfl⟩

theorem closeExpired (now : Instant) (l : List RunAttempt) :
    ∀ s : MemoryStore, SameButAttempts s (closeExpired now s l) := by
  induction l with
  | nil => exact refl
  | cons dead rest ih =>
    intro s
    simp only [MemoryStore.closeExpired]
    split
    · exact (putAttempt s _).trans (ih _)
    · exact ih s

end SameButAttempts

/-- The same version rows and occurrences. -/
structure SameSilver (s s' : MemoryStore) : Prop where
  rowTable : s'.rowTable = s.rowTable
  occurrenceTable : s'.occurrenceTable = s.occurrenceTable
  seqRows : s'.seq.rows = s.seq.rows

theorem SameButAttempts.silver (h : SameButAttempts s s') : SameSilver s s' :=
  ⟨h.rowTable, h.occurrenceTable, h.seqRows⟩

/-! ## Reads -/

theorem find_eq_some {targetId : String} {at_ : Instant} {r : Run}
    (h : s.find targetId at_ = some r) :
    (∃ i, s.runTable.get? i = some r) ∧ r.targetId = targetId ∧ r.scheduledFor = at_ := by
  have hmem := Dict.mem_values.mp (List.mem_of_find?_eq_some h)
  have hp := List.find?_some h
  simp only [decide_eq_true_eq] at hp
  exact ⟨hmem, hp⟩

theorem find_eq_none {targetId : String} {at_ : Instant} (h : s.find targetId at_ = none) {i : Nat}
    {r : Run} (hr : s.runTable.get? i = some r) :
    ¬ (r.targetId = targetId ∧ r.scheduledFor = at_) := by
  have := List.find?_eq_none.mp h r (Dict.mem_values.mpr ⟨i, hr⟩)
  simpa using this

theorem mem_runs {targetId : String} {since until_ : Option Instant} {r : Run} :
    r ∈ s.runs targetId since until_ ↔ (∃ i, s.runTable.get? i = some r) ∧ r.targetId = targetId ∧
      (∀ t ∈ since, t ≤ r.scheduledFor) ∧ ∀ t ∈ until_, r.scheduledFor < t := by
  simp [runs, List.mem_insertionSort, Dict.mem_values]

theorem mem_attempts {runId : Nat} {a : RunAttempt} :
    a ∈ s.attempts runId ↔ (∃ i, s.attemptTable.get? i = some a) ∧ a.runId = runId := by
  simp [attempts, Dict.mem_values]

/-! ## Opening an attempt -/

/-- Every attempt is filed under its own id, and ids beyond the counter are free. -/
structure AttemptsOk (s : MemoryStore) : Prop where
  id : ∀ {i a}, s.attemptTable.get? i = some a → a.id = i
  bound : ∀ {i a}, s.attemptTable.get? i = some a → i ≤ s.seq.attempts

theorem AttemptsOk.fresh (h : AttemptsOk s) : s.attemptTable.get? (s.seq.attempts + 1) = none := by
  cases hg : s.attemptTable.get? (s.seq.attempts + 1) with
  | none => rfl
  | some a => have := h.bound hg; omega

theorem AttemptsOk.newAttempt (h : AttemptsOk s) {mk : Nat → RunAttempt} (hmk : ∀ n, (mk n).id = n) :
    AttemptsOk (s.newAttempt mk).2 where
  id {i a} ha := by
    simp only [MemoryStore.newAttempt, putAttempt_attemptTable, hmk, Dict.get?_set] at ha
    split at ha
    · rename_i hi
      rw [← Option.some.inj ha, hmk, hi]
    · exact h.id ha
  bound {i a} ha := by
    simp only [MemoryStore.newAttempt, putAttempt_attemptTable, hmk, Dict.get?_set] at ha ⊢
    split at ha
    · omega
    · have := h.bound ha; omega

theorem AttemptsOk.putAttempt (h : AttemptsOk s) {a b : RunAttempt}
    (hb : s.attemptTable.get? a.id = some b) : AttemptsOk (s.putAttempt a) where
  id {i c} hc := by
    rw [putAttempt_attemptTable, Dict.get?_set] at hc
    split at hc
    · rename_i hi
      rw [← Option.some.inj hc, hi]
    · exact h.id hc
  bound {i c} hc := by
    rw [putAttempt_attemptTable, Dict.get?_set] at hc
    split at hc
    · rename_i hi
      rw [hi]; exact h.bound hb
    · exact h.bound hc

@[simp] theorem closed_id (now : Instant) (a : RunAttempt) : (closed now a).id = a.id := rfl
@[simp] theorem leased_id (run : Run) (owner : String) (now : Instant) (a : RunAttempt) :
    (leased run owner now a).id = a.id := rfl

theorem closeExpired_get? (now : Instant) (i : Nat) (l : List RunAttempt) :
    ∀ s : MemoryStore, (closeExpired now s l).attemptTable.get? i = s.attemptTable.get? i ∨
      ∃ dead ∈ l, dead.id = i ∧ expiredReplay now dead = true ∧
        (closeExpired now s l).attemptTable.get? i = some (closed now dead) := by
  induction l with
  | nil => exact fun s => .inl rfl
  | cons head rest ih =>
    intro s
    simp only [closeExpired]
    split
    · rename_i hexp
      rcases ih (s.putAttempt (closed now head)) with h | ⟨dead, hm, h⟩
      · rw [putAttempt_attemptTable, Dict.get?_set, closed_id] at h
        by_cases hi : i = head.id
        · rw [if_pos hi] at h
          exact .inr ⟨head, by simp, hi.symm, hexp, h⟩
        · rw [if_neg hi] at h
          exact .inl h
      · exact .inr ⟨dead, List.mem_cons_of_mem _ hm, h⟩
    · rcases ih s with h | ⟨dead, hm, h⟩
      · exact .inl h
      · exact .inr ⟨dead, List.mem_cons_of_mem _ hm, h⟩

theorem closeExpired_closes (now : Instant) {l : List RunAttempt} {dead : RunAttempt}
    (hinj : ∀ a ∈ l, a.id = dead.id → a = dead) (hexp : expiredReplay now dead = true) :
    ∀ s : MemoryStore, dead ∈ l →
      (closeExpired now s l).attemptTable.get? dead.id = some (closed now dead) := by
  induction l with
  | nil => intro s h; cases h
  | cons head rest ih =>
    intro s hmem
    have hinj' : ∀ a ∈ rest, a.id = dead.id → a = dead :=
      fun a ha => hinj a (List.mem_cons_of_mem _ ha)
    simp only [closeExpired]
    rcases List.mem_cons.mp hmem with rfl | hr
    · rw [if_pos hexp]
      rcases closeExpired_get? now dead.id rest (s.putAttempt (closed now dead)) with
        h | ⟨d, hd, hid, _, h⟩
      · exact h.trans (Dict.get?_set_self ..)
      · rw [hinj' d hd hid] at h
        exact h
    · split
      · exact ih hinj' _ hr
      · exact ih hinj' _ hr

theorem closeExpired_ok (now : Instant) (l : List RunAttempt) :
    ∀ s : MemoryStore, AttemptsOk s → (∀ a ∈ l, ∃ b, s.attemptTable.get? a.id = some b) →
      AttemptsOk (closeExpired now s l) ∧ (closeExpired now s l).seq = s.seq := by
  induction l with
  | nil => exact fun s h _ => ⟨h, rfl⟩
  | cons head rest ih =>
    intro s h hl
    simp only [closeExpired]
    split
    · obtain ⟨b, hb⟩ := hl head (by simp)
      refine ih _ (h.putAttempt (a := closed now head) hb) fun a ha => ?_
      obtain ⟨c, hc⟩ := hl a (List.mem_cons_of_mem _ ha)
      rw [putAttempt_attemptTable, Dict.get?_set]
      split
      · exact ⟨_, rfl⟩
      · exact ⟨c, hc⟩
    · exact ih s h fun a ha => hl a (List.mem_cons_of_mem _ ha)

/-- The attempt a granted claim works under, and what the claim did to the attempts. -/
structure Opened (s : MemoryStore) (run : Run) (owner : String) (now : Instant) (att : RunAttempt)
    (s' : MemoryStore) : Prop where
  same : SameButAttempts s s'
  ok : AttemptsOk s'
  seq : s.seq.attempts ≤ s'.seq.attempts
  filed : s'.attemptTable.get? att.id = some att
  runId : att.runId = run.id
  captureId : att.captureId = run.captureId
  fence : att.fence = some run.fence
  leaseOwner : att.leaseOwner = some owner
  leaseUntil : att.leaseUntil = run.leaseUntil
  outcome : att.outcome = none
  /-- It is a fresh attempt, or a pending replay attempt of the run. -/
  origin : s.attemptTable.get? att.id = none ∨
    ∃ p, s.attemptTable.get? att.id = some p ∧ pendingReplay p = true ∧ p.runId = run.id
  /-- Any other attempt stays as it was or, if it is an abandoned replay of the run, is closed. -/
  others : ∀ {i}, i ≠ att.id → s'.attemptTable.get? i = s.attemptTable.get? i ∨
    ∃ dead, s.attemptTable.get? i = some dead ∧ dead.runId = run.id ∧
      expiredReplay now dead = true ∧ s'.attemptTable.get? i = some (closed now dead)
  /-- Every abandoned replay of the run is closed. -/
  closes : ∀ {i dead}, s.attemptTable.get? i = some dead → dead.runId = run.id →
    expiredReplay now dead = true → s'.attemptTable.get? i = some (closed now dead)
  /-- A pending replay of the run is adopted, the first one where there are several. -/
  adopts : ∀ {i p}, s.attemptTable.get? i = some p → p.runId = run.id → pendingReplay p = true →
    ∃ q, s.attemptTable.get? att.id = some q ∧ q.runId = run.id ∧ pendingReplay q = true

theorem not_pending_of_expired {now : Instant} {a : RunAttempt} (h : expiredReplay now a = true) :
    a.pending = false := by
  simp only [expiredReplay, RunAttempt.expired, Bool.decide_and, Bool.and_eq_true,
    decide_eq_true_eq] at h
  obtain ⟨-, ⟨-, h⟩, -⟩ := h
  cases ha : a.leaseOwner with
  | none => simp [ha] at h
  | some o => simp [RunAttempt.pending, ha]

section Open

variable (h : AttemptsOk s) (run : Run) (owner : String) (now : Instant)

/-- The store once the abandoned replays of the run are closed. -/
abbrev swept (s : MemoryStore) (run : Run) (now : Instant) : MemoryStore :=
  closeExpired now s (s.attempts run.id)

include h

theorem attempts_filed {a : RunAttempt} (ha : a ∈ s.attempts run.id) :
    s.attemptTable.get? a.id = some a ∧ a.runId = run.id := by
  obtain ⟨⟨i, hi⟩, hr⟩ := mem_attempts.mp ha
  rw [h.id hi]
  exact ⟨hi, hr⟩

theorem swept_ok : AttemptsOk (s.swept run now) ∧ (s.swept run now).seq = s.seq :=
  closeExpired_ok now _ s h fun _ ha => ⟨_, (attempts_filed h run ha).1⟩

theorem swept_others (i : Nat) : (s.swept run now).attemptTable.get? i = s.attemptTable.get? i ∨
    ∃ dead, s.attemptTable.get? i = some dead ∧ dead.runId = run.id ∧
      expiredReplay now dead = true ∧
      (s.swept run now).attemptTable.get? i = some (closed now dead) := by
  rcases closeExpired_get? now i (s.attempts run.id) s with hs | ⟨dead, hm, rfl, hexp, hs⟩
  · exact .inl hs
  · obtain ⟨hd, hr⟩ := attempts_filed h run hm
    exact .inr ⟨dead, hd, hr, hexp, hs⟩

theorem swept_closes {i : Nat} {dead : RunAttempt} (hd : s.attemptTable.get? i = some dead)
    (hr : dead.runId = run.id) (hexp : expiredReplay now dead = true) :
    (s.swept run now).attemptTable.get? i = some (closed now dead) := by
  have hi := h.id hd
  subst hi
  refine closeExpired_closes now (fun a ha hid => ?_) hexp s (mem_attempts.mpr ⟨⟨_, hd⟩, hr⟩)
  have := (attempts_filed h run ha).1
  rw [hid, hd] at this
  exact (Option.some.inj this).symm

/-- A pending replay of the swept store was pending before. -/
theorem swept_pending {p : RunAttempt} (hp : p ∈ (s.swept run now).attempts run.id)
    (hpend : pendingReplay p = true) :
    (s.swept run now).attemptTable.get? p.id = some p ∧ s.attemptTable.get? p.id = some p ∧
      p.runId = run.id := by
  obtain ⟨hg, hr⟩ := attempts_filed (swept_ok h run now).1 run hp
  refine ⟨hg, ?_, hr⟩
  rcases swept_others h run now p.id with hs | ⟨dead, -, -, -, hs⟩
  · rw [← hs]; exact hg
  · rw [hg, Option.some.injEq] at hs
    rw [hs] at hpend
    simp [pendingReplay, RunAttempt.pending, closed] at hpend

theorem Opened.adopt {p : RunAttempt}
    (hf : ((s.swept run now).attempts run.id).find? pendingReplay = some p) :
    Opened s run owner now (leased run owner now p)
      ((s.swept run now).putAttempt (leased run owner now p)) := by
  have hpend : pendingReplay p = true := List.find?_some hf
  obtain ⟨hg, hs, hr⟩ := swept_pending h run now (List.mem_of_find?_eq_some hf) hpend
  obtain ⟨hok, hseq⟩ := swept_ok h run now
  have hout : p.outcome = none := by
    simp only [pendingReplay, RunAttempt.pending, Bool.and_eq_true, decide_eq_true_eq,
      Option.isNone_iff_eq_none] at hpend
    exact hpend.2.1
  have hne : ∀ {i}, i ≠ p.id → ((s.swept run now).putAttempt
      (leased run owner now p)).attemptTable.get? i = (s.swept run now).attemptTable.get? i :=
    fun hi => Dict.get?_set_ne _ _ hi
  constructor
  case same => exact (SameButAttempts.closeExpired now _ s).trans (.putAttempt _ _)
  case ok => exact hok.putAttempt hg
  case seq => simp [hseq]
  case filed => simp
  case runId => exact hr
  case outcome => exact hout
  case origin => exact .inr ⟨p, hs, hpend, hr⟩
  case others =>
    intro i hi
    rw [hne hi]
    exact swept_others h run now i
  case closes =>
    intro i dead hd hdr hexp
    rw [hne, swept_closes h run now hd hdr hexp]
    rintro rfl
    rw [hs, Option.some.injEq] at hd
    subst hd
    have := not_pending_of_expired hexp
    simp [pendingReplay, this] at hpend
  case adopts => exact fun _ _ _ => ⟨p, hs, hr, hpend⟩
  all_goals rfl

theorem Opened.fresh {mk : Nat → RunAttempt}
    (hf : ((s.swept run now).attempts run.id).find? pendingReplay = none)
    (hid : ∀ n, (mk n).id = n) (hrun : ∀ n, (mk n).runId = run.id)
    (hcap : ∀ n, (mk n).captureId = run.captureId) (hfence : ∀ n, (mk n).fence = some run.fence)
    (howner : ∀ n, (mk n).leaseOwner = some owner)
    (huntil : ∀ n, (mk n).leaseUntil = run.leaseUntil) (hout : ∀ n, (mk n).outcome = none) :
    Opened s run owner now ((s.swept run now).newAttempt mk).1
      ((s.swept run now).newAttempt mk).2 := by
  obtain ⟨hok, hseq⟩ := swept_ok h run now
  have hnew : (mk (s.seq.attempts + 1)).id = s.seq.attempts + 1 := hid _
  have hget : ∀ i, ((s.swept run now).newAttempt mk).2.attemptTable.get? i =
      if i = s.seq.attempts + 1 then some (mk (s.seq.attempts + 1))
      else (s.swept run now).attemptTable.get? i := by
    intro i
    simp only [newAttempt, putAttempt_attemptTable, hid, hseq, Dict.get?_set]
  have hatt : ((s.swept run now).newAttempt mk).1 = mk (s.seq.attempts + 1) := by
    simp only [newAttempt, hseq]
  have hnone := h.fresh
  constructor
  case same => exact (SameButAttempts.closeExpired now _ s).trans (.newAttempt _ _)
  case ok => exact hok.newAttempt hid
  case seq => simp [newAttempt, hseq]
  case filed => rw [hatt, hget, hnew, if_pos rfl]
  case runId => rw [hatt, hrun]
  case captureId => rw [hatt, hcap]
  case fence => rw [hatt, hfence]
  case leaseOwner => rw [hatt, howner]
  case leaseUntil => rw [hatt, huntil]
  case outcome => rw [hatt, hout]
  case origin => rw [hatt, hnew]; exact .inl hnone
  case others =>
    intro i hi
    rw [hatt, hnew] at hi
    rw [hget, if_neg hi]
    exact swept_others h run now i
  case closes =>
    intro i dead hd hdr hexp
    have hi : i ≠ s.seq.attempts + 1 := by
      rintro rfl
      rw [hnone] at hd; cases hd
    rw [hget, if_neg hi]
    exact swept_closes h run now hd hdr hexp
  case adopts =>
    intro i p hp hr hpend
    exfalso
    have hs : (s.swept run now).attemptTable.get? i = some p := by
      rcases swept_others h run now i with hs | ⟨dead, hd, -, hexp, -⟩
      · rw [hs]; exact hp
      · rw [hp, Option.some.injEq] at hd
        subst hd
        simp [pendingReplay, not_pending_of_expired hexp] at hpend
    have := List.find?_eq_none.mp hf p (mem_attempts.mpr ⟨⟨i, hs⟩, hr⟩)
    exact this hpend

theorem openAttempt_spec :
    Opened s run owner now (s.openAttempt run owner now).1 (s.openAttempt run owner now).2 := by
  simp only [openAttempt]
  split
  · rename_i p hf
    exact Opened.adopt h run owner now hf
  · rename_i hf
    split
    · exact Opened.fresh h run owner now hf (fun _ => rfl) (fun _ => rfl) (fun _ => rfl)
        (fun _ => rfl) (fun _ => rfl) (fun _ => rfl) (fun _ => rfl)
    · exact Opened.fresh h run owner now hf (fun _ => rfl) (fun _ => rfl) (fun _ => rfl)
        (fun _ => rfl) (fun _ => rfl) (fun _ => rfl) (fun _ => rfl)

end Open

end MemoryStore

end EnergyPlatform
