import EnergyPlatform.Store.Fencing

/-!
# Store.Replays

Replays over whole histories: an enqueued replay lives as an attempt that a claim consumes, that a
dead worker leaves open and that a later claim closes and reopens.

* `Due`: why a run with an owed replay is found again. It is captured, or has a pending replay, or
  the replay is leased by the holder of the run until no later than the run itself.
* `ReplaysOk.step`: every call keeps this; `replay_never_abandoned` reads the guarantee off it.
-/

namespace EnergyPlatform

open Lib (Dict)
open MemoryStore

/-- One call and what it returned. -/
structure Event where
  call : StoreCall
  out : call.Ret

namespace History

/-- A history continued by a list of calls, with what each of them returned. -/
def trace (h : History) : List StoreCall → Option (List Event × History)
  | [] => some ([], h)
  | c :: rest => (h.step c).bind fun p => (trace p.2 rest).map fun q => (⟨c, p.1⟩ :: q.1, q.2)

theorem trace_cons {h h' : History} {c : StoreCall} {rest : List StoreCall} {events : List Event}
    (ht : h.trace (c :: rest) = some (events, h')) : ∃ out h₁ later,
      h.step c = some (out, h₁) ∧ h₁.trace rest = some (later, h') ∧ events = ⟨c, out⟩ :: later := by
  simp only [trace, Option.bind_eq_some_iff, Option.map_eq_some_iff, Prod.mk.injEq] at ht
  obtain ⟨⟨out, h₁⟩, hs, ⟨later, h₂⟩, hrest, rfl, rfl⟩ := ht
  exact ⟨out, h₁, later, hs, hrest, rfl⟩

end History

/-- The clock value of a call that works on the replays of a ledger; `none` for every other call. -/
def replayClock : StoreCall → Option Instant
  | .enqueueReplay _ now | .claim _ _ _ now | .renew _ _ now | .commit _ _ now
  | .markRecaptured _ _ now | .ensureRun _ _ _ _ _ now | .recordAttempt _ _ _ _ _ now => some now
  | _ => none

/-- The lease duration a call asks for. -/
def leaseAsked : StoreCall → Option Duration
  | .claim _ _ ttl _ | .renew _ ttl _ => some ttl
  | _ => none

/-- Whether a replay of run `i` is owed after an event: one was enqueued since the last commit that
did not lose its lease. -/
def owedAfter (i : Nat) (owed : Bool) : Event → Bool
  | ⟨.enqueueReplay j _, _⟩ => owed || j = i
  | ⟨.commit c _ _, out⟩ => owed && ! (c.run.id = i && ! out.lostLease)
  | _ => owed

def owed (i : Nat) (events : List Event) : Bool := events.foldl (owedAfter i) false

/-! ## The invariant -/

/-- Why `pending_runs` or the lease of the run finds run `i` again. -/
inductive Due (s : MemoryStore) (i : Nat) (run : Run) : Prop where
  | captured (hstate : run.state = .captured)
  | pending {j : Nat} {a : RunAttempt} (ha : s.attemptTable.get? j = some a) (hr : a.runId = i)
      (hp : pendingReplay a = true)
  | leased {j : Nat} {a : RunAttempt} {t u : Instant} (ha : s.attemptTable.get? j = some a)
      (hr : a.runId = i) (hk : a.kind = .replay) (ho : a.outcome = none)
      (hl : a.leaseOwner.isSome = true) (hf : a.fence = some run.fence)
      (ht : a.leaseUntil = some t) (hu : run.leaseUntil = some u) (hle : t ≤ u)

/-- The attempt of a granted claim is leased under its fence. -/
structure HeldUnder (s : MemoryStore) (c : Claim) (a : RunAttempt) : Prop where
  filed : s.attemptTable.get? c.attempt.id = some a
  runId : a.runId = c.run.id
  fence : a.fence = some c.fence
  leaseOwner : a.leaseOwner.isSome = true

/-- `clock` is the last clock value, `owes` the runs a replay is owed to. -/
structure ReplaysOk (ttl : Duration) (clock : Instant) (owes : Nat → Bool) (h : History) : Prop where
  store : WellFormed h.store
  held : ∀ c ∈ h.granted, ∃ a, HeldUnder h.store c a
  ahead : ∀ {j a t}, h.store.attemptTable.get? j = some a → a.leaseUntil = some t → t ≤ clock + ttl
  one : ∀ {j k a b}, h.store.attemptTable.get? j = some a → h.store.attemptTable.get? k = some b →
    a.runId = b.runId → pendingReplay a = true → pendingReplay b = true → j = k
  runs : ∀ {j a}, h.store.attemptTable.get? j = some a → pendingReplay a = true →
    ∃ run, h.store.runTable.get? a.runId = some run
  due : ∀ i, owes i = true → ∃ run, h.store.runTable.get? i = some run ∧ Due h.store i run

theorem ReplaysOk.init (ttl : Duration) (clock : Instant) :
    ReplaysOk ttl clock (fun _ => false) .init where
  store := WellFormed.init
  held _ h := by cases h
  ahead h := by cases h
  one h := by cases h
  runs h := by cases h
  due _ h := by cases h

/-! ## Attempts -/

section Attempts

variable {s s' : MemoryStore}

theorem pendingReplay_iff {a : RunAttempt} :
    pendingReplay a = true ↔ a.kind = .replay ∧ a.outcome = none ∧ a.leaseOwner = none := by
  simp only [pendingReplay, RunAttempt.pending, Bool.decide_and, Bool.and_eq_true, decide_eq_true_eq,
    Option.isNone_iff_eq_none]

theorem not_pendingReplay_of_leased {a : RunAttempt} (h : a.leaseOwner.isSome = true) :
    pendingReplay a = false := by
  rw [Bool.eq_false_iff]
  intro hp
  rw [(pendingReplay_iff.mp hp).2.2] at h
  cases h

theorem not_pendingReplay_of_outcome {a : RunAttempt} {o : AttemptOutcome} (h : a.outcome = some o) :
    pendingReplay a = false := by
  rw [Bool.eq_false_iff]
  intro hp
  rw [(pendingReplay_iff.mp hp).2.1] at h
  cases h

theorem expiredReplay_iff {a : RunAttempt} {now t : Instant} (ht : a.leaseUntil = some t) :
    expiredReplay now a = true ↔
      a.kind = .replay ∧ a.outcome = none ∧ a.leaseOwner.isSome = true ∧ t < now := by
  simp only [expiredReplay, RunAttempt.expired, ht, Bool.decide_and, Bool.and_eq_true,
    decide_eq_true_eq, Option.isNone_iff_eq_none, and_assoc]

/-- A run with a pending or an abandoned replay is claimed for a replay. -/
theorem openAttempt_replay (h : AttemptsOk s) (run : Run) (owner : String) (now : Instant) {j : Nat}
    {a : RunAttempt} (ha : s.attemptTable.get? j = some a) (hr : a.runId = run.id)
    (hdue : pendingReplay a = true ∨ expiredReplay now a = true) :
    (s.openAttempt run owner now).1.kind = .replay := by
  have hmem : a ∈ s.attempts run.id := mem_attempts.mpr ⟨⟨j, ha⟩, hr⟩
  simp only [openAttempt]
  cases hf : ((s.swept run now).attempts run.id).find? pendingReplay with
  | some p => exact (pendingReplay_iff.mp (List.find?_some hf)).1
  | none =>
    have hexp : expiredReplay now a = true := by
      rcases hdue with hp | hexp
      · rcases swept_others h run now j with hs | ⟨dead, hd, -, hexp, -⟩
        · have hno := List.find?_eq_none.mp hf a (mem_attempts.mpr ⟨⟨j, hs.trans ha⟩, hr⟩)
          exact absurd hp hno
        · rw [ha, Option.some.injEq] at hd
          exact hd ▸ hexp
      · exact hexp
    rw [if_pos (List.any_eq_true.mpr ⟨a, hmem, hexp⟩)]
    rfl

/-! ### What a claim makes of the attempts -/

section Opened

variable {run : Run} {owner : String} {now : Instant} {att : RunAttempt} {j : Nat} {a : RunAttempt}

/-- An attempt after a claim is the claimed one, an attempt that stayed, or one that was closed. -/
theorem MemoryStore.Opened.back (ho : Opened s run owner now att s')
    (ha : s'.attemptTable.get? j = some a) : j = att.id ∧ a = att ∨
      j ≠ att.id ∧ (s.attemptTable.get? j = some a ∨
        ∃ dead, s.attemptTable.get? j = some dead ∧ a = closed now dead) := by
  by_cases hj : j = att.id
  · rw [hj, ho.filed, Option.some.injEq] at ha
    exact .inl ⟨hj, ha.symm⟩
  · rcases ho.others hj with h | ⟨dead, hd, -, -, h⟩
    · exact .inr ⟨hj, .inl (h ▸ ha)⟩
    · rw [h, Option.some.injEq] at ha
      exact .inr ⟨hj, .inr ⟨dead, hd, ha.symm⟩⟩

theorem MemoryStore.Opened.leased (ho : Opened s run owner now att s') :
    att.leaseOwner.isSome = true := by
  rw [ho.leaseOwner]
  rfl

/-- No claim makes a pending replay. -/
theorem MemoryStore.Opened.pending_back (ho : Opened s run owner now att s')
    (ha : s'.attemptTable.get? j = some a) (hp : pendingReplay a = true) :
    s.attemptTable.get? j = some a := by
  rcases ho.back ha with ⟨-, rfl⟩ | ⟨-, ha | ⟨dead, -, rfl⟩⟩
  · rw [not_pendingReplay_of_leased ho.leased] at hp
    cases hp
  · exact ha
  · rw [not_pendingReplay_of_outcome rfl] at hp
    cases hp

/-- An attempt that had a holder is not the claimed one. -/
theorem MemoryStore.Opened.ne_of_leased (ho : Opened s run owner now att s')
    (ha : s.attemptTable.get? j = some a) (hl : a.leaseOwner.isSome = true) : j ≠ att.id := by
  rintro rfl
  rcases ho.origin with hnone | ⟨p, hp, hpend, -⟩
  · rw [ha] at hnone
    cases hnone
  · rw [ha, Option.some.injEq] at hp
    rw [← hp, not_pendingReplay_of_leased hl] at hpend
    cases hpend

/-- The attempts of the other runs stay. -/
theorem MemoryStore.Opened.other_run (ho : Opened s run owner now att s')
    (ha : s.attemptTable.get? j = some a) (hrun : a.runId ≠ run.id) :
    s'.attemptTable.get? j = some a := by
  have hj : j ≠ att.id := by
    rintro rfl
    rcases ho.origin with hnone | ⟨p, hp, -, hpr⟩
    · rw [ha] at hnone
      cases hnone
    · rw [ha, Option.some.injEq] at hp
      exact hrun (hp ▸ hpr)
  rcases ho.others hj with h | ⟨dead, hd, hdr, -, -⟩
  · exact h.trans ha
  · rw [ha, Option.some.injEq] at hd
    exact absurd (hd ▸ hdr) hrun

end Opened

/-- An open attempt that stays keeps a run due. -/
theorem Due.of_kept {i : Nat} {run run' : Run} (hd : Due s i run)
    (hkept : ∀ {j a}, s.attemptTable.get? j = some a → a.runId = i → a.outcome = none →
      s'.attemptTable.get? j = some a)
    (hstate : run'.state = run.state) (hfence : run'.fence = run.fence)
    (hlease : run'.leaseUntil = run.leaseUntil) : Due s' i run' := by
  cases hd with
  | captured hs => exact .captured (hstate.trans hs)
  | pending ha hr hp => exact .pending (hkept ha hr (pendingReplay_iff.mp hp).2.1) hr hp
  | leased ha hr hk ho hl hf ht hu hle =>
    exact .leased (hkept ha hr ho) hr hk ho hl (hf.trans (by rw [hfence])) ht (hlease.trans hu) hle

end Attempts

/-! ## The calls -/

/-- No attempt gets another run, fence, holder or lease, and none becomes a pending replay. -/
structure Settles (s s' : MemoryStore) : Prop where
  back : ∀ {j a'}, s'.attemptTable.get? j = some a' →
    (∃ a, s.attemptTable.get? j = some a ∧ a'.runId = a.runId ∧ a'.leaseUntil = a.leaseUntil ∧
      (pendingReplay a' = true → pendingReplay a = true)) ∨
    a'.leaseUntil = none ∧ pendingReplay a' = false
  forth : ∀ {j a}, s.attemptTable.get? j = some a → ∃ a', s'.attemptTable.get? j = some a' ∧
    a'.runId = a.runId ∧ a'.fence = a.fence ∧ a'.leaseOwner = a.leaseOwner

section Calls

variable {s s' : MemoryStore} {ttl : Duration} {clock now : Instant} {owes owes' : Nat → Bool}
  {h h' : History}

theorem Settles.of_eq (he : s'.attemptTable = s.attemptTable) : Settles s s' where
  back ha := .inl ⟨_, he ▸ ha, rfl, rfl, id⟩
  forth ha := ⟨_, he ▸ ha, rfl, rfl, rfl⟩

/-- An attempt that is closed. -/
theorem Settles.of_set {att b : RunAttempt} {n : Nat} (hatt : s.attemptTable.get? n = some att)
    (he : s'.attemptTable = s.attemptTable.set n b) (hr : b.runId = att.runId)
    (hf : b.fence = att.fence) (ho : b.leaseOwner = att.leaseOwner)
    (ht : b.leaseUntil = att.leaseUntil) (hp : pendingReplay b = false) : Settles s s' where
  back {j a'} ha := by
    rw [he, Dict.get?_set] at ha
    split at ha
    · rename_i hj
      obtain rfl := Option.some.inj ha
      exact .inl ⟨att, hj ▸ hatt, hr, ht, fun h => by rw [hp] at h; cases h⟩
    · exact .inl ⟨a', ha, rfl, rfl, id⟩
  forth {j a} ha := by
    rw [he, Dict.get?_set]
    split
    · rename_i hj
      rw [hj, hatt, Option.some.injEq] at ha
      exact ⟨b, rfl, ha ▸ hr, ha ▸ hf, ha ▸ ho⟩
    · exact ⟨a, ha, rfl, rfl, rfl⟩

/-- A fresh attempt that is no pending replay and has no lease. -/
theorem Settles.of_fresh {b : RunAttempt} {n : Nat} (hnone : s.attemptTable.get? n = none)
    (he : s'.attemptTable = s.attemptTable.set n b) (ht : b.leaseUntil = none)
    (hp : pendingReplay b = false) : Settles s s' where
  back {j a'} ha := by
    rw [he, Dict.get?_set] at ha
    split at ha
    · obtain rfl := Option.some.inj ha
      exact .inr ⟨ht, hp⟩
    · exact .inl ⟨a', ha, rfl, rfl, id⟩
  forth {j a} ha := by
    have hne : j ≠ n := by
      rintro rfl
      rw [hnone] at ha
      cases ha
    rw [he, Dict.get?_set_ne _ _ hne]
    exact ⟨a, ha, rfl, rfl, rfl⟩

theorem HeldUnder.settles {c : Claim} {a : RunAttempt} (ha : HeldUnder s c a) (hs : Settles s s') :
    ∃ a', HeldUnder s' c a' := by
  obtain ⟨a', hf, hr, hfence, howner⟩ := hs.forth ha.filed
  exact ⟨a', hf, hr.trans ha.runId, hfence.trans ha.fence, howner ▸ ha.leaseOwner⟩

theorem ReplaysOk.of_settles (hok : ReplaysOk ttl clock owes h) (hle : clock ≤ now)
    (hstore : WellFormed h'.store) (hg : h'.granted = h.granted)
    (hkept : RunsKept h.store h'.store) (hs : Settles h.store h'.store)
    (hdue : ∀ i, owes' i = true → ∃ run, h'.store.runTable.get? i = some run ∧ Due h'.store i run) :
    ReplaysOk ttl now owes' h' where
  store := hstore
  held c hc := by
    obtain ⟨a, ha⟩ := hok.held c (hg ▸ hc)
    exact ha.settles hs
  ahead {j a' t} ha ht := by
    rcases hs.back ha with ⟨a, ha, -, hl, -⟩ | ⟨hl, -⟩
    · have := hok.ahead ha (hl ▸ ht)
      exact le_trans this (Int.add_le_add_right hle ttl)
    · rw [hl] at ht
      cases ht
  one {j k a' b'} ha hb hr hpa hpb := by
    rcases hs.back ha with ⟨a, ha, har, -, hap⟩ | ⟨-, hno⟩
    · rcases hs.back hb with ⟨b, hb, hbr, -, hbp⟩ | ⟨-, hno⟩
      · exact hok.one ha hb (har.symm.trans (hr.trans hbr)) (hap hpa) (hbp hpb)
      · rw [hno] at hpb
        cases hpb
    · rw [hno] at hpa
      cases hpa
  runs {j a'} ha hp := by
    rcases hs.back ha with ⟨a, ha, hr, -, hap⟩ | ⟨-, hno⟩
    · obtain ⟨run, hrun⟩ := hok.runs ha (hap hp)
      obtain ⟨run', hrun', -⟩ := hkept _ _ hrun
      exact ⟨run', hr ▸ hrun'⟩
    · rw [hno] at hp
      cases hp
  due := hdue

/-- A call that leaves the runs and the open attempts alone keeps every run due. -/
theorem ReplaysOk.still_due (hok : ReplaysOk ttl clock owes h) {i : Nat} (ho : owes i = true)
    (hruns : s'.runTable = h.store.runTable)
    (hkept : ∀ {j a}, h.store.attemptTable.get? j = some a → a.runId = i → a.outcome = none →
      s'.attemptTable.get? j = some a) :
    ∃ run, s'.runTable.get? i = some run ∧ Due s' i run := by
  obtain ⟨run, hr, hd⟩ := hok.due i ho
  exact ⟨run, hruns ▸ hr, hd.of_kept hkept rfl rfl rfl⟩

/-- A run that is rewritten in place, and the others, where the attempts are left alone. -/
theorem ReplaysOk.due_putRun (hok : ReplaysOk ttl clock owes h) {k : Nat} {old r : Run}
    (hold : h.store.runTable.get? k = some old) (hid : r.id = old.id)
    (ha : s'.attemptTable = h.store.attemptTable) (hr : s'.runTable = (h.store.putRun r).runTable)
    (hdue : Due h.store k old → Due s' k r) {i : Nat} (ho : owes i = true) :
    ∃ run, s'.runTable.get? i = some run ∧ Due s' i run := by
  obtain ⟨run, hi, hd⟩ := hok.due i ho
  rw [hr, putRun_runTable, hid, hok.store.runs.id hold, Dict.get?_set]
  by_cases hik : i = k
  · rw [if_pos hik]
    rw [hik, hold, Option.some.injEq] at hi
    rw [hik, ← hi] at hd
    exact ⟨r, rfl, hik ▸ hdue hd⟩
  · rw [if_neg hik]
    exact ⟨run, hi, hd.of_kept (fun haj _ _ => ha ▸ haj) rfl rfl rfl⟩

theorem ReplaysOk.ensureRun (hok : ReplaysOk ttl clock owes h) (hle : clock ≤ now)
    (targetId : String) (at_ : Instant) (state : RunState) (origin : RunOrigin)
    (c : Option CaptureId)
    (hs : h'.store = (h.store.ensureRun targetId at_ state origin c now).2)
    (hg : h'.granted = h.granted) : ReplaysOk ttl now owes h' := by
  have hexec : h.store.exec (.ensureRun targetId at_ state origin c now) =
      some ((h.store.ensureRun targetId at_ state origin c now).1, h'.store) := by
    rw [hs]
    rfl
  have hwf : WellFormed h'.store := hok.store.exec hexec
  have hkept := exec_runsKept hok.store hexec
  rcases ensureRun_cases h.store targetId at_ state origin c now with
    ⟨-, r, hid, -, -, -, -, -, -, -, he⟩ | ⟨old, hf, ⟨-, -, -, he⟩ | ⟨-, he⟩⟩
  · rw [he] at hs
    refine hok.of_settles hle hwf hg hkept (.of_eq (by rw [hs]; rfl)) fun i ho => ?_
    obtain ⟨run, hi, hd⟩ := hok.due i ho
    have hne : i ≠ r.id := by
      have := hok.store.runs.bound hi
      omega
    rw [hs]
    exact ⟨run, (Dict.get?_set_ne _ _ hne).trans hi, hd.of_kept (fun ha _ _ => ha) rfl rfl rfl⟩
  · obtain ⟨⟨k, hk⟩, -⟩ := find_eq_some hf
    rw [he] at hs
    refine hok.of_settles hle hwf hg hkept (.of_eq (by rw [hs]; rfl)) fun i ho => ?_
    exact hok.due_putRun hk (r := { old with state := .captured, captureId := c, updatedAt := now })
      rfl (by rw [hs]; rfl) (by rw [hs]) (fun _ => .captured rfl) ho
  · rw [he] at hs
    refine hok.of_settles hle hwf hg hkept (.of_eq (by rw [hs])) fun i ho => ?_
    rw [hs]
    exact hok.due i ho

theorem ReplaysOk.markRecaptured (hok : ReplaysOk ttl clock owes h) (hle : clock ≤ now) {k : Nat}
    {c : CaptureId} {out : Run} (hc : h.store.markRecaptured k c now = some (out, h'.store))
    (hg : h'.granted = h.granted) : ReplaysOk ttl now owes h' := by
  have hwf : WellFormed h'.store := hok.store.exec (c := .markRecaptured k c now) hc
  have hkept := exec_runsKept hok.store (c := .markRecaptured k c now) hc
  obtain ⟨old, hk, rfl, hs⟩ := markRecaptured_cases hc
  refine hok.of_settles hle hwf hg hkept (.of_eq (by rw [hs]; rfl)) fun i ho => ?_
  exact hok.due_putRun hk (r := recaptured old c now) rfl (by rw [hs]; rfl) (by rw [hs])
    (fun _ => .captured rfl) ho

/-- A renewal moves the lease of the run only, and never behind that of its attempt. -/
theorem ReplaysOk.renew (hok : ReplaysOk ttl clock owes h) (hle : clock ≤ now) {c : Claim}
    {out : Bool} (hc : h.store.renew c ttl now = some (out, h'.store))
    (hg : h'.granted = h.granted) : ReplaysOk ttl now owes h' := by
  have hwf : WellFormed h'.store := hok.store.exec (c := .renew c ttl now) hc
  have hkept := exec_runsKept hok.store (c := .renew c ttl now) hc
  obtain ⟨old, hk, ⟨-, -, hs⟩ | ⟨-, -, hs⟩⟩ := renew_cases hc
  · refine hok.of_settles hle hwf hg hkept (.of_eq (by rw [hs])) fun i ho => ?_
    rw [hs]
    exact hok.due i ho
  · refine hok.of_settles hle hwf hg hkept (.of_eq (by rw [hs]; rfl)) fun i ho => ?_
    refine hok.due_putRun hk (r := renewed old ttl now) rfl (by rw [hs]; rfl) (by rw [hs])
      (fun hd => ?_) ho
    rw [hs]
    cases hd with
    | captured hstate => exact .captured hstate
    | pending ha hr hp => exact .pending ha hr hp
    | leased ha hr hk ho hl hf ht hu _ =>
      have := hok.ahead ha ht
      exact .leased ha hr hk ho hl hf ht rfl (this.trans (Int.add_le_add_right hle ttl))

theorem ReplaysOk.recordAttempt (hok : ReplaysOk ttl clock owes h) (hle : clock ≤ now) (k : Nat)
    (kind : AttemptKind) (outcome : AttemptOutcome) (c : Option CaptureId) (error : Option String)
    (hs : h'.store = (h.store.recordAttempt k kind outcome c error now).2)
    (hg : h'.granted = h.granted) : ReplaysOk ttl now owes h' := by
  have hexec : h.store.exec (.recordAttempt k kind outcome c error now) =
      some ((h.store.recordAttempt k kind outcome c error now).1, h'.store) := by
    rw [hs]
    rfl
  have hwf : WellFormed h'.store := hok.store.exec hexec
  have hkept := exec_runsKept hok.store hexec
  obtain ⟨b, hset, ht, hout⟩ : ∃ b : RunAttempt, h'.store.attemptTable =
      h.store.attemptTable.set (h.store.seq.attempts + 1) b ∧ b.leaseUntil = none ∧
      b.outcome = some outcome := by
    rw [hs]
    exact ⟨_, rfl, rfl, rfl⟩
  refine hok.of_settles hle hwf hg hkept (.of_fresh hok.store.attempts.fresh hset ht
    (not_pendingReplay_of_outcome hout)) fun i ho => ?_
  refine hok.still_due ho (by rw [hs]; rfl) fun {j a} ha _ _ => ?_
  have hne : j ≠ h.store.seq.attempts + 1 := by
    have := hok.store.attempts.bound ha
    omega
  rw [hset, Dict.get?_set_ne _ _ hne]
  exact ha

/-- A commit that lost its lease closes its own attempt, which is not the one of the holder. -/
theorem ReplaysOk.commit_lost (hok : ReplaysOk ttl clock owes h) (hle : clock ≤ now) {c : Claim}
    (hmem : c ∈ h.granted) {run : Run} {att : RunAttempt}
    (hr : h.store.runTable.get? c.run.id = some run)
    (ha : h.store.attemptTable.get? c.attempt.id = some att) (hf : run.fence ≠ c.fence)
    (hs : h'.store = if att.outcome = none then h.store.putAttempt (closed now att) else h.store)
    (hwf : WellFormed h'.store) (hkept : RunsKept h.store h'.store) (hg : h'.granted = h.granted) :
    ReplaysOk ttl now owes h' := by
  by_cases hout : att.outcome = none
  · rw [if_pos hout] at hs
    have hid : att.id = c.attempt.id := hok.store.attempts.id ha
    have hset : h'.store.attemptTable = h.store.attemptTable.set c.attempt.id (closed now att) := by
      rw [hs, putAttempt_attemptTable, closed_id, hid]
    obtain ⟨x, hx⟩ := hok.held c hmem
    obtain rfl : att = x := Option.some.inj (ha.symm.trans hx.filed)
    refine hok.of_settles hle hwf hg hkept (.of_set ha hset rfl rfl rfl rfl
      (not_pendingReplay_of_outcome rfl)) fun i ho => ?_
    obtain ⟨r, hi, hd⟩ := hok.due i ho
    have hother : ∀ {j a}, h.store.attemptTable.get? j = some a → j ≠ c.attempt.id →
        h'.store.attemptTable.get? j = some a := fun haj hne => by
      rw [hset, Dict.get?_set_ne _ _ hne]
      exact haj
    refine ⟨r, by rw [hs]; exact hi, ?_⟩
    cases hd with
    | captured hstate => exact .captured hstate
    | @pending j a haj hrun hp =>
      refine .pending (hother haj fun hj => ?_) hrun hp
      rw [hj, ha, Option.some.injEq] at haj
      rw [← haj, not_pendingReplay_of_leased hx.leaseOwner] at hp
      cases hp
    | @leased j a t u haj hrun hk ho hl hfence ht hu hle =>
      refine .leased (hother haj fun hj => ?_) hrun hk ho hl hfence ht hu hle
      rw [hj, ha, Option.some.injEq] at haj
      have hic : c.run.id = i := hx.runId.symm.trans (haj ▸ hrun)
      rw [← hic, hr, Option.some.injEq] at hi
      rw [← haj, hx.fence, Option.some.injEq, ← hi] at hfence
      exact hf hfence.symm
  · rw [if_neg hout] at hs
    refine hok.of_settles hle hwf hg hkept (.of_eq (by rw [hs])) fun i ho => ?_
    rw [hs]
    exact hok.due i ho

theorem ReplaysOk.commit (hok : ReplaysOk ttl clock owes h) (hle : clock ≤ now) {c : Claim}
    (hmem : c ∈ h.granted) {args : Commit} {out : CommitResult}
    (hc : h.store.commit c args now = some (out, h'.store)) (hg : h'.granted = h.granted) :
    ReplaysOk ttl now (fun i => owedAfter i (owes i) ⟨.commit c args now, out⟩) h' := by
  have hwf : WellFormed h'.store := hok.store.exec (c := .commit c args now) hc
  have hkept := exec_runsKept hok.store (c := .commit c args now) hc
  obtain ⟨run, att, hr, ha, ⟨hf, rfl, hs⟩ | ⟨-, hlost, hs⟩⟩ := commit_cases hok.store.attempts hc
  · have hlost := hok.commit_lost hle hmem hr ha hf hs hwf hkept hg
    refine ⟨hlost.store, hlost.held, hlost.ahead, hlost.one, hlost.runs,
      fun i ho => hlost.due i ?_⟩
    simpa [owedAfter] using ho
  · obtain ⟨x, hx⟩ := hok.held c hmem
    obtain rfl : att = x := Option.some.inj (ha.symm.trans hx.filed)
    have hid : att.id = c.attempt.id := hok.store.attempts.id ha
    have hset : h'.store.attemptTable =
        h.store.attemptTable.set c.attempt.id (closeAttempt att args now) := by
      rw [hs, committed_attemptTable, hid]
    refine hok.of_settles hle hwf hg hkept (.of_set ha hset rfl rfl rfl rfl
      (not_pendingReplay_of_outcome rfl)) fun i ho => ?_
    simp only [owedAfter, hlost, Bool.not_false, Bool.and_true, Bool.and_eq_true, Bool.not_eq_true',
      decide_eq_false_iff_not] at ho
    obtain ⟨r, hi, hd⟩ := hok.due i ho.1
    have hne : i ≠ run.id := by
      rw [hok.store.runs.id hr]
      exact Ne.symm ho.2
    refine ⟨r, ?_, hd.of_kept (fun {j a} haj hrun _ => ?_) rfl rfl rfl⟩
    · rw [hs, committed_runTable, Dict.get?_set_ne _ _ hne]
      exact hi
    · rw [hset, Dict.get?_set_ne]
      · exact haj
      · rintro rfl
        rw [ha, Option.some.injEq] at haj
        exact ho.2 (hx.runId.symm.trans (haj ▸ hrun))

/-- A replay is enqueued unless one is pending. -/
theorem ReplaysOk.enqueueReplay (hok : ReplaysOk ttl clock owes h) (hle : clock ≤ now) {k : Nat}
    {out : Option RunAttempt} (hc : h.store.enqueueReplay k now = some (out, h'.store))
    (hg : h'.granted = h.granted) :
    ReplaysOk ttl now (fun i => owedAfter i (owes i) ⟨.enqueueReplay k now, out⟩) h' := by
  have hwf : WellFormed h'.store := hok.store.exec (c := .enqueueReplay k now) hc
  have hkept := exec_runsKept hok.store (c := .enqueueReplay k now) hc
  have howed : ∀ i, owedAfter i (owes i) ⟨.enqueueReplay k now, out⟩ = true →
      owes i = true ∨ k = i := fun i ho => by
    simpa only [owedAfter, Bool.or_eq_true, decide_eq_true_eq] using ho
  obtain ⟨hany, -, hs⟩ | ⟨hany, run, hr, hs⟩ := enqueueReplay_cases hc
  · refine hok.of_settles hle hwf hg hkept (.of_eq (by rw [hs])) fun i ho => ?_
    rw [hs]
    rcases howed i ho with ho | rfl
    · exact hok.due i ho
    · obtain ⟨a, ha, hp⟩ := List.any_eq_true.mp hany
      obtain ⟨⟨j, haj⟩, hrun⟩ := mem_attempts.mp ha
      obtain ⟨run, hrk⟩ := hok.runs haj hp
      exact ⟨run, hrun ▸ hrk, .pending haj hrun hp⟩
  · have hnone := hok.store.attempts.fresh
    have hset : h'.store.attemptTable = h.store.attemptTable.set (h.store.seq.attempts + 1)
        (replayAttempt k run.captureId now (h.store.seq.attempts + 1)) := by
      rw [hs]
      rfl
    have hold : ∀ {j a}, h.store.attemptTable.get? j = some a →
        h'.store.attemptTable.get? j = some a := fun {j a} ha => by
      have hne : j ≠ h.store.seq.attempts + 1 := by
        have := hok.store.attempts.bound ha
        omega
      rw [hset, Dict.get?_set_ne _ _ hne]
      exact ha
    -- an attempt is an old one or the one that was enqueued, and no old one of the run is pending
    have hback : ∀ {j a}, h'.store.attemptTable.get? j = some a →
        h.store.attemptTable.get? j = some a ∨ j = h.store.seq.attempts + 1 ∧
          a = replayAttempt k run.captureId now (h.store.seq.attempts + 1) := fun {j a} ha => by
      rw [hset, Dict.get?_set] at ha
      split at ha
      · rename_i hj
        exact .inr ⟨hj, (Option.some.inj ha).symm⟩
      · exact .inl ha
    have hfree : ∀ {j a}, h.store.attemptTable.get? j = some a → a.runId = k →
        pendingReplay a = false := fun {j a} ha hrun => by
      rw [Bool.eq_false_iff]
      intro hp
      rw [List.any_eq_true.mpr ⟨a, mem_attempts.mpr ⟨⟨j, ha⟩, hrun⟩, hp⟩] at hany
      cases hany
    constructor
    case store => exact hwf
    case held =>
      intro c hc
      obtain ⟨a, ha⟩ := hok.held c (hg ▸ hc)
      exact ⟨a, hold ha.filed, ha.runId, ha.fence, ha.leaseOwner⟩
    case ahead =>
      intro j a t ha ht
      rcases hback ha with ha | ⟨-, rfl⟩
      · exact (hok.ahead ha ht).trans (Int.add_le_add_right hle ttl)
      · cases ht
    case one =>
      intro i j a b ha hb hrun hpa hpb
      rcases hback ha with ha | ⟨hi, rfl⟩ <;> rcases hback hb with hb | ⟨hj, rfl⟩
      · exact hok.one ha hb hrun hpa hpb
      · rw [hfree ha hrun] at hpa
        cases hpa
      · rw [hfree hb hrun.symm] at hpb
        cases hpb
      · rw [hi, hj]
    case runs =>
      intro j a ha hp
      rcases hback ha with ha | ⟨-, rfl⟩
      · obtain ⟨r, hr⟩ := hok.runs ha hp
        obtain ⟨r', hr', -⟩ := hkept _ _ hr
        exact ⟨r', hr'⟩
      · obtain ⟨r', hr', -⟩ := hkept _ _ hr
        exact ⟨r', hr'⟩
    case due =>
      intro i ho
      rcases howed i ho with ho | rfl
      · exact hok.still_due ho (by rw [hs]; rfl) fun ha _ _ => hold ha
      · have hnew : h'.store.attemptTable.get? (h.store.seq.attempts + 1) =
            some (replayAttempt k run.captureId now (h.store.seq.attempts + 1)) := by
          rw [hset]
          exact Dict.get?_set_self ..
        exact ⟨run, by rw [hs]; exact hr, .pending hnew rfl rfl⟩

/-- A granted claim that adopts the replay of the run keeps the run due. -/
theorem Due.granted {s' : MemoryStore} {k : Nat} {run : Run} {owner : String} {att : RunAttempt}
    (hd : Due s k run) (hid : run.id = k) (hfree : Free run now)
    (ho : Opened (s.putRun (granted run owner ttl now)) (granted run owner ttl now) owner now att s')
    (hkind : ∀ {j a}, s.attemptTable.get? j = some a → a.runId = run.id →
      pendingReplay a = true ∨ expiredReplay now a = true → att.kind = .replay) :
    Due s' k (granted run owner ttl now) := by
  have hreplay : att.kind = .replay → Due s' k (MemoryStore.granted run owner ttl now) := fun hk =>
    .leased ho.filed (ho.runId.trans hid) hk ho.outcome ho.leased ho.fence ho.leaseUntil rfl le_rfl
  cases hd with
  | captured hstate => exact .captured hstate
  | pending ha hrun hp => exact hreplay (hkind ha (hrun.trans hid.symm) (.inl hp))
  | leased ha hrun hk hout hl hf ht hu hle =>
    refine hreplay (hkind ha (hrun.trans hid.symm) (.inr ?_))
    exact (expiredReplay_iff ht).mpr ⟨hk, hout, hl, hle.trans_lt (hfree _ hu)⟩

/-- A granted claim adopts the pending replay of the run, or reopens the one that was abandoned. -/
theorem ReplaysOk.claim_granted (hok : ReplaysOk ttl clock owes h) (hle : clock ≤ now) {k : Nat}
    {owner : String} {run : Run} {att : RunAttempt} (hr : h.store.runTable.get? k = some run)
    (hfree : Free run now)
    (ho : Opened (h.store.putRun (granted run owner ttl now)) (granted run owner ttl now) owner now
      att h'.store)
    (hkind : ∀ {j a}, h.store.attemptTable.get? j = some a → a.runId = run.id →
      pendingReplay a = true ∨ expiredReplay now a = true → att.kind = .replay)
    (hwf : WellFormed h'.store) (hkept : RunsKept h.store h'.store)
    (hg : h'.granted = h.granted ++ [⟨granted run owner ttl now, run.fence + 1, att⟩]) :
    ReplaysOk ttl now owes h' := by
  have hid : run.id = k := hok.store.runs.id hr
  constructor
  case store => exact hwf
  case held =>
    intro c hc
    rw [hg, List.mem_append, List.mem_singleton] at hc
    rcases hc with hc | rfl
    · obtain ⟨a, ha⟩ := hok.held c hc
      rcases ho.others (ho.ne_of_leased ha.filed ha.leaseOwner) with h | ⟨dead, hd, -, -, h⟩
      · exact ⟨a, h.trans ha.filed, ha.runId, ha.fence, ha.leaseOwner⟩
      · rw [putRun_attemptTable, ha.filed, Option.some.injEq] at hd
        exact ⟨closed now dead, h, hd ▸ ha.runId, hd ▸ ha.fence, hd ▸ ha.leaseOwner⟩
    · exact ⟨att, ho.filed, ho.runId, ho.fence, ho.leased⟩
  case ahead =>
    intro j a t ha ht
    rcases ho.back ha with ⟨-, rfl⟩ | ⟨-, ha | ⟨dead, hd, rfl⟩⟩
    · rw [ho.leaseUntil] at ht
      exact (Option.some.inj ht).ge
    · exact (hok.ahead ha ht).trans (Int.add_le_add_right hle ttl)
    · exact (hok.ahead hd ht).trans (Int.add_le_add_right hle ttl)
  case one =>
    intro i j a b ha hb hrun hpa hpb
    exact hok.one (ho.pending_back ha hpa) (ho.pending_back hb hpb) hrun hpa hpb
  case runs =>
    intro j a ha hp
    obtain ⟨r, hr⟩ := hok.runs (ho.pending_back ha hp) hp
    obtain ⟨r', hr', -⟩ := hkept _ _ hr
    exact ⟨r', hr'⟩
  case due =>
    intro i howes
    obtain ⟨r, hi, hd⟩ := hok.due i howes
    by_cases hik : i = k
    · have hrun : h'.store.runTable.get? i = some (granted run owner ttl now) := by
        rw [ho.same.runTable, putRun_runTable, hik, ← hid]
        exact Dict.get?_set_self ..
      obtain rfl : run = r := Option.some.inj (hr.symm.trans (hik ▸ hi))
      exact ⟨_, hrun, hd.granted (hid.trans hik.symm) hfree ho hkind⟩
    · have hne : i ≠ run.id := hid ▸ hik
      refine ⟨r, ?_, hd.of_kept (fun {j a} ha hrun _ => ?_) rfl rfl rfl⟩
      · rw [ho.same.runTable, putRun_runTable]
        exact (Dict.get?_set_ne _ _ hne).trans hi
      · exact ho.other_run ha fun h => hne (hrun.symm.trans h)

theorem ReplaysOk.claim (hok : ReplaysOk ttl clock owes h) (hle : clock ≤ now) {k : Nat}
    {owner : String} {out : Option Claim}
    (hc : h.store.claim k owner ttl now = some (out, h'.store))
    (hg : h'.granted = h.granted ++ History.newClaims (.claim k owner ttl now) out) :
    ReplaysOk ttl now owes h' := by
  have hwf : WellFormed h'.store := hok.store.exec (c := .claim k owner ttl now) hc
  have hkept := exec_runsKept hok.store (c := .claim k owner ttl now) hc
  obtain ⟨run, hr, ⟨-, rfl, hs⟩ | ⟨hfree, att, rfl, he⟩⟩ := claim_cases hc
  · refine hok.of_settles hle hwf (hg.trans (List.append_nil _)) hkept (.of_eq (by rw [hs]))
      fun i ho => ?_
    rw [hs]
    exact hok.due i ho
  · have hput := hok.store.putRun (r := granted run owner ttl now) hr rfl rfl rfl
    have ho := hok.store.opened owner ttl now hr
    have hkind : ∀ {j a}, h.store.attemptTable.get? j = some a → a.runId = run.id →
        pendingReplay a = true ∨ expiredReplay now a = true → att.kind = .replay :=
      fun ha hrun hdue => by
        have := openAttempt_replay hput.attempts (granted run owner ttl now) owner now ha hrun hdue
        rwa [he] at this
    rw [he] at ho
    exact hok.claim_granted hle hr hfree ho hkind hwf hkept hg

end Calls

/-! ## Histories -/

section Histories

variable {ttl : Duration} {clock now : Instant} {owes : Nat → Bool} {h h' : History}

theorem ReplaysOk.step (hok : ReplaysOk ttl clock owes h) {c : StoreCall} {out : c.Ret}
    (hs : h.step c = some (out, h')) (hclock : replayClock c = some now) (hle : clock ≤ now)
    (hlease : ∀ d ∈ leaseAsked c, d = ttl) :
    ReplaysOk ttl now (fun i => owedAfter i (owes i) ⟨c, out⟩) h' := by
  obtain ⟨hholds, he, hg⟩ := History.step_cases hs
  cases c
  case enqueueReplay k t =>
    obtain rfl := Option.some.inj hclock
    exact hok.enqueueReplay hle he (hg.trans (List.append_nil _))
  case claim k owner d t =>
    obtain rfl := Option.some.inj hclock
    obtain rfl := hlease d rfl
    exact hok.claim hle he hg
  case renew c d t =>
    obtain rfl := Option.some.inj hclock
    obtain rfl := hlease d rfl
    exact hok.renew hle he (hg.trans (List.append_nil _))
  case commit c args t =>
    obtain rfl := Option.some.inj hclock
    exact hok.commit hle hholds he (hg.trans (List.append_nil _))
  case markRecaptured k c t =>
    obtain rfl := Option.some.inj hclock
    exact hok.markRecaptured hle he (hg.trans (List.append_nil _))
  case ensureRun targetId at_ state origin c t =>
    obtain rfl := Option.some.inj hclock
    exact hok.ensureRun hle targetId at_ state origin c (store_of_some he)
      (hg.trans (List.append_nil _))
  case recordAttempt k kind outcome c error t =>
    obtain rfl := Option.some.inj hclock
    exact hok.recordAttempt hle k kind outcome c error (store_of_some he)
      (hg.trans (List.append_nil _))
  all_goals cases hclock

theorem ReplaysOk.run {calls : List StoreCall} : ∀ {times : List Instant} {clock : Instant}
    {owes : Nat → Bool} {h h' : History} {events : List Event}, ReplaysOk ttl clock owes h →
    h.trace calls = some (events, h') → calls.map replayClock = times.map some →
    times.Pairwise (· ≤ ·) → (∀ t ∈ times, clock ≤ t) →
    (∀ c ∈ calls, ∀ d ∈ leaseAsked c, d = ttl) →
    ∃ clock', ReplaysOk ttl clock' (fun i => events.foldl (owedAfter i) (owes i)) h' := by
  induction calls with
  | nil =>
    intro times clock owes h h' events hok ht _ _ _ _
    cases ht
    exact ⟨clock, hok⟩
  | cons c rest ih =>
    intro times clock owes h h' events hok ht hclock hmono hle hlease
    obtain ⟨out, h₁, later, hs, hrest, rfl⟩ := History.trace_cons ht
    cases times with
    | nil => cases hclock
    | cons t times =>
      rw [List.map_cons, List.map_cons, List.cons.injEq] at hclock
      rw [List.pairwise_cons] at hmono
      have hstep := hok.step hs hclock.1 (hle t List.mem_cons_self) (hlease c List.mem_cons_self)
      obtain ⟨clock', hok'⟩ := ih hstep hrest hclock.2 hmono.2 hmono.1
        fun c hc => hlease c (List.mem_cons_of_mem _ hc)
      exact ⟨clock', hok'⟩

/-- A run that is due is listed, or its lease has not expired. -/
theorem Due.found {s : MemoryStore} (hs : WellFormed s) {i : Nat} {run : Run}
    (hr : s.runTable.get? i = some run) (hd : Due s i run) (now : Instant) :
    run ∈ s.pendingRuns run.targetId now ∨ ∃ t, run.leaseUntil = some t ∧ now ≤ t := by
  have hmem : run ∈ s.runs run.targetId none none :=
    mem_runs.mpr ⟨⟨i, hr⟩, rfl, fun t ht => absurd ht (Option.not_mem_none t),
      fun t ht => absurd ht (Option.not_mem_none t)⟩
  have hid : run.id = i := hs.runs.id hr
  have hlisted : (∃ a ∈ s.attempts run.id, a.kind = .replay ∧ (a.pending ∨ a.expired now)) →
      run ∈ s.pendingRuns run.targetId now := by
    rintro ⟨a, ha, hk, hp⟩
    refine List.mem_filter.mpr ⟨hmem, decide_eq_true (.inr (List.any_eq_true.mpr ⟨a, ha, ?_⟩))⟩
    exact decide_eq_true ⟨hk, hp⟩
  cases hd with
  | captured hstate =>
    exact .inl (List.mem_filter.mpr ⟨hmem, decide_eq_true (.inl hstate)⟩)
  | pending ha hrun hp =>
    obtain ⟨hk, hout, howner⟩ := pendingReplay_iff.mp hp
    refine .inl (hlisted ⟨_, mem_attempts.mpr ⟨⟨_, ha⟩, hrun.trans hid.symm⟩, hk, .inl ?_⟩)
    rw [RunAttempt.pending, hout, howner]
    rfl
  | @leased j a t u ha hrun hk hout hl hf ht hu hle =>
    by_cases hlt : t < now
    · refine .inl (hlisted ⟨a, mem_attempts.mpr ⟨⟨j, ha⟩, hrun.trans hid.symm⟩, hk, .inr ?_⟩)
      have := (expiredReplay_iff ht).mpr ⟨hk, hout, hl, hlt⟩
      simp only [expiredReplay, Bool.decide_and, Bool.and_eq_true, decide_eq_true_eq] at this
      exact this.2
    · exact .inr ⟨u, hu, (not_lt.mp hlt).trans hle⟩

/-- A replay is never abandoned. Any sequence of the calls that work on replays, by workers that
renew and commit under claims they were granted and otherwise may stop at any point, with one lease
duration and a clock that does not go back: a run with a replay enqueued since its last commit that
did not lose its lease is, at every later clock value, listed by `pending_runs` or held by a lease
that has not expired; and no run has two pending replays. -/
theorem replay_never_abandoned {calls : List StoreCall} {times : List Instant}
    {events : List Event} (hrun : History.init.trace calls = some (events, h))
    (hclock : calls.map replayClock = times.map some) (hmono : times.Pairwise (· ≤ ·))
    (hlease : ∀ c ∈ calls, ∀ d ∈ leaseAsked c, d = ttl) :
    (∀ i, owed i events = true → ∀ now, (∀ t ∈ times, t ≤ now) →
      ∃ run, h.store.runTable.get? i = some run ∧
        (run ∈ h.store.pendingRuns run.targetId now ∨ ∃ t, run.leaseUntil = some t ∧ now ≤ t)) ∧
    ∀ i, ∀ a ∈ h.store.attempts i, ∀ b ∈ h.store.attempts i, pendingReplay a = true →
      pendingReplay b = true → a = b := by
  obtain ⟨start, hstart⟩ : ∃ start, ∀ t ∈ times, start ≤ t := by
    cases times with
    | nil => exact ⟨0, fun t ht => absurd ht List.not_mem_nil⟩
    | cons t rest =>
      refine ⟨t, fun u hu => ?_⟩
      rcases List.mem_cons.mp hu with rfl | hu
      · exact le_rfl
      · exact (List.pairwise_cons.mp hmono).1 u hu
  obtain ⟨clock', hok⟩ := (ReplaysOk.init ttl start).run hrun hclock hmono hstart hlease
  refine ⟨fun i howes now _ => ?_, fun i a ha b hb hpa hpb => ?_⟩
  · obtain ⟨run, hr, hd⟩ := hok.due i howes
    exact ⟨run, hr, hd.found hok.store hr now⟩
  · obtain ⟨⟨j, hj⟩, hra⟩ := mem_attempts.mp ha
    obtain ⟨⟨k, hk⟩, hrb⟩ := mem_attempts.mp hb
    obtain rfl := hok.one hj hk (hra.trans hrb.symm) hpa hpb
    exact Option.some.inj (hj.symm.trans hk)

/-- A worker dies on a replay, and another one takes it up once the lease has run out. -/
def replayHistory : List StoreCall :=
  [.ensureRun "ote_dam" 0 .captured .scheduled (some (captureId "ote_dam" 0 1)) 0,
    .enqueueReplay 1 0, .claim 1 "w1" minute 0, .claim 1 "w2" minute (2 * minute)]

theorem replay_never_abandoned_reopened : ∃ events h,
    History.init.trace replayHistory = some (events, h) ∧ owed 1 events = true ∧
    ∃ run, h.store.runTable.get? 1 = some run ∧
      (run ∈ h.store.pendingRuns run.targetId (4 * minute) ∨
        ∃ t, run.leaseUntil = some t ∧ 4 * minute ≤ t) := by
  have hsome : (History.init.trace replayHistory).isSome = true := by decide
  obtain ⟨⟨events, h⟩, hrun⟩ := Option.isSome_iff_exists.mp hsome
  have howed : (History.init.trace replayHistory).map (fun p => owed 1 p.1) = some true := by decide
  rw [hrun] at howed
  have howes : owed 1 events = true := Option.some.inj howed
  have hclock : replayHistory.map replayClock = ([0, 0, 0, 2 * minute] : List Instant).map some := rfl
  have hlease : ∀ c ∈ replayHistory, ∀ d ∈ leaseAsked c, d = minute := by decide
  have hfound := (replay_never_abandoned hrun hclock (by decide) hlease).1 1 howes (4 * minute)
    (by decide)
  exact ⟨events, h, hrun, howes, hfound⟩

end Histories

end EnergyPlatform
