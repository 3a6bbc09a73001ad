import EnergyPlatform.Runtime.Host
import EnergyPlatform.Store.WellFormed

/-!
# Runtime.Acknowledge

The acknowledgement of a capture on a connection that may fail. `ack_tolerated`: it returns when
the outage hits `ensure_run` and the rollback after it works. `ack_escapes`: any other outage is
raised, since the other calls do not translate the driver's errors.
-/

namespace EnergyPlatform

open Lib (Prog)

section Acknowledgement

variable {out : Outside} {h : Host} {rt : Runtime DriverCall.Ret}

/-- What `ensure_run` returns is in the table afterwards. -/
theorem ensureRun_stored {s : MemoryStore} (hs : MemoryStore.WellFormed s) (targetId : String)
    (at_ : Instant) (state : RunState) (origin : RunOrigin) (c : Option CaptureId) (now : Instant) :
    let r := s.ensureRun targetId at_ state origin c now
    r.2.runTable.get? r.1.id = some r.1 := by
  obtain ⟨-, run, hid, -, -, -, -, -, -, -, he⟩ | ⟨old, hf, ⟨-, -, -, he⟩ | ⟨-, he⟩⟩ :=
    s.ensureRun_cases targetId at_ state origin c now
  · simp only [he, MemoryStore.putRun_runTable, Lib.Dict.get?_set, if_pos]
  · simp only [he, MemoryStore.putRun_runTable, Lib.Dict.get?_set, if_pos]
  · obtain ⟨⟨i, hi⟩, -⟩ := MemoryStore.find_eq_some hf
    simp only [he]
    rwa [hs.runs.id hi]

/-- A forced attempt changed the payload of a run the ledger already has under another capture. -/
def marks (s : MemoryStore) (targetId : String) (at_ : Instant) (a : Ack) : Bool :=
  match a.captureId, s.find targetId at_ with
  | some c, some run =>
    a.recaptured && run.captureId ≠ some c && (MemoryStore.final run.state || run.captureId.isSome)
  | _, _ => false

/-- The driver calls of an acknowledgement that meets no outage. -/
def ackCalls (s : MemoryStore) (targetId : String) (at_ : Instant) (a : Ack) : Nat :=
  2 + ((if marks s targetId at_ a then 2 else 0) + if a.outcome = .noop then 0 else 2)

/-- If `ensure_run` gets through, no later call of the acknowledgement fails; if it does not, the
rollback after it does. -/
def Tolerated (faults : Nat → Option Fault) (n k : Nat) : Prop :=
  if faults n = none ∧ faults (n + 1) = none then ∀ i, n + 2 ≤ i → i < n + k → faults i = none
  else faults (afterFault faults n) = none

theorem marks_iff {s : MemoryStore} {targetId : String} {at_ : Instant} {a : Ack} {c : CaptureId}
    (ha : a.captureId = some c) (origin : RunOrigin) (now : Instant) :
    marks s targetId at_ a = true ↔ a.recaptured = true ∧
      (s.ensureRun targetId at_ .captured origin (some c) now).1.captureId ≠ some c := by
  obtain ⟨hn, run, -, -, -, -, hc, -, -, -, he⟩ | ⟨old, hf, ⟨-, hp, hc, he⟩ | ⟨hk, he⟩⟩ :=
    s.ensureRun_cases targetId at_ .captured origin (some c) now
  · simp [marks, ha, hn, he, hc]
  · simp [marks, ha, hf, he, hc, hp, MemoryStore.final]
  · have hold : old.state = .processed ∨ old.captureId ≠ none := by
      by_cases hp : old.state = .processed
      · exact .inl hp
      · exact .inr fun hc => hk ⟨rfl, hp, hc⟩
    simp only [marks, ha, hf, he, MemoryStore.final, Bool.and_eq_true, Bool.or_eq_true,
      decide_eq_true_eq, Option.isSome_iff_ne_none]
    exact ⟨fun h => h.1, fun h => ⟨h, hold⟩⟩

theorem completes_newGeneration (hst : rt.store = Postgres.store) (a : Ack) (now : Instant)
    {run : Run} (hw : h.connection.working = none)
    (hrun : h.connection.committed.runTable.get? run.id = some run) :
    Completes out h (newGeneration rt a run now)
      (if ∃ c ∈ a.captureId, a.recaptured = true ∧ run.captureId ≠ some c then 2 else 0)
      fun _ _ => True := by
  unfold newGeneration
  cases ha : a.captureId with
  | none =>
    rw [if_neg (by simp)]
    exact .ret hw trivial
  | some c =>
    simp only [Option.mem_def, Option.some.injEq, exists_eq_left']
    by_cases hm : a.recaptured = true ∧ run.captureId ≠ some c
    · rw [if_pos hm, if_pos hm]
      have hx : h.connection.tables.exec (.markRecaptured run.id c now) =
          some (MemoryStore.recaptured run c now,
            h.connection.committed.putRun (MemoryStore.recaptured run c now)) := by
        simp only [MemoryStore.exec, Connection.tables, hw, Option.getD_none,
          MemoryStore.markRecaptured, hrun]
        rfl
      have ht := completes_transaction out (e := .keyError "run does not exist") hx
      rw [Runtime.markRecaptured, hst]
      exact ⟨fun hq => by
          obtain ⟨r, s, hr, -⟩ := ht.quiet hq
          exact ⟨r, s, hr, trivial⟩, ht.fault⟩
    · rw [if_neg hm, if_neg hm]
      exact .ret hw trivial

variable (out) in
/-- `_ack` after `ensure_run`. -/
theorem completes_afterEnsure (hst : rt.store = Postgres.store) (req : CaptureRequest) (a : Ack)
    (now : Instant) {run : Run} (hw : h.connection.working = none)
    (hrun : h.connection.committed.runTable.get? run.id = some run) :
    Completes out h
      ((newGeneration rt a run now).bind fun run =>
        if a.outcome = .noop then .ret true
        else (rt.recordAttempt run.id req.kind.attemptKind a.outcome a.captureId a.error now).bind
          fun _ => .ret true)
      ((if ∃ c ∈ a.captureId, a.recaptured = true ∧ run.captureId ≠ some c then 2 else 0) +
        if a.outcome = .noop then 0 else 2)
      fun updated _ => updated = true := by
  refine (completes_newGeneration hst a now hw hrun).bind fun run' s _ => ?_
  by_cases hn : a.outcome = .noop
  · rw [if_pos hn, if_pos hn]
    exact .ret rfl rfl
  · rw [if_neg hn, if_neg hn, Runtime.recordAttempt, hst]
    exact (completes_transaction out rfl).bind fun _ _ _ => .ret rfl rfl

/-- `ensure_run` when its transaction fails: reported if the rollback works, raised if not. -/
theorem ensureRun_fault {c : StoreCall}
    (hf : ¬ (out.faults h.connection.calls = none ∧ out.faults (h.connection.calls + 1) = none)) :
    ∃ cn, (Postgres.ensureRun c).run (Host.answer out) h =
      (.error (if out.faults (afterFault out.faults h.connection.calls) = none
        then .storeUnavailable outageMsg else .operationalError outageMsg),
        { h with connection := cn }) := by
  obtain ⟨cn, hcn, hr⟩ := transaction_fault (c := c) hf
  rw [Postgres.ensureRun, Prog.bind_eq, ← hcn]
  by_cases hb : out.faults cn.calls = none
  · have hback := run_driver_ok (h := { h with connection := cn }) .rollback hb
    refine ⟨{ (cn.effect out.serverVersion .rollback).2 with calls := cn.calls + 1 }, ?_⟩
    refine Prog.run_bind_error _ ?_
    rw [if_pos hb, Prog.run_tryCatch, hr]
    exact Prog.run_bind_ok _ hback
  · obtain ⟨cn', -, hr'⟩ := run_driver_fault (h := { h with connection := cn }) .rollback hb
    refine ⟨cn', ?_⟩
    refine Prog.run_bind_error _ ?_
    rw [if_neg hb, Prog.run_tryCatch, hr]
    exact Prog.run_bind_error _ hr'

theorem completes_ensureRun {c : StoreCall} {r : c.Ret} {s : MemoryStore}
    (hx : h.connection.tables.exec c = some (r, s))
    (h01 : out.faults h.connection.calls = none ∧ out.faults (h.connection.calls + 1) = none) :
    Completes out h (Postgres.ensureRun c) 2 fun r' s' => r' = r ∧ s' = s where
  quiet _ := by
    refine ⟨r, s, ?_, rfl, rfl⟩
    rw [Postgres.ensureRun, Prog.bind_eq, Prog.run_bind, Prog.run_tryCatch, transaction_ok hx h01.1 h01.2]
    rfl
  fault hf := absurd (two_calls.mpr h01) hf

/-- The ledger part of `_ack` once `ensure_run` gets through: every driver call answers, or the
first that fails is raised. -/
theorem completes_ackLedger (hst : rt.store = Postgres.store)
    (hs : MemoryStore.WellFormed h.connection.committed) (hw : h.connection.working = none)
    (h01 : out.faults h.connection.calls = none ∧ out.faults (h.connection.calls + 1) = none)
    (req : CaptureRequest) (a : Ack) (now : Instant) :
    Completes out h (ackLedger rt req a now)
      (ackCalls h.connection.committed rt.targetId req.scheduledFor a)
      fun updated _ => updated = true := by
  let state : RunState := if a.captureId.isSome then .captured else .scheduled
  let r := h.connection.committed.ensureRun rt.targetId req.scheduledFor state req.kind.origin
    a.captureId now
  have hm : (∃ c ∈ a.captureId, a.recaptured = true ∧ r.1.captureId ≠ some c) ↔
      marks h.connection.committed rt.targetId req.scheduledFor a = true := by
    cases ha : a.captureId with
    | none => simp [marks, ha]
    | some c =>
      rw [marks_iff ha req.kind.origin now]
      simp [r, state, ha]
  have hx : h.connection.tables.exec (.ensureRun rt.targetId req.scheduledFor state req.kind.origin
      a.captureId now) = some (r.1, r.2) := by
    simp only [Connection.tables, hw, Option.getD_none]
    rfl
  have hens := completes_ensureRun hx h01
  rw [ackLedger, Prog.bind_eq, Runtime.ensureRun, hst]
  refine hens.bind fun r' s' hr' => ?_
  have hrest := completes_afterEnsure out (h := { h with connection := ⟨r.2, none, h.connection.calls + 2⟩ }) hst req a now rfl
    (ensureRun_stored hs rt.targetId req.scheduledFor state req.kind.origin a.captureId now)
  rw [hr'.1, hr'.2]
  simp only [r, state, hm] at hrest
  exact hrest

theorem ack_eq (req : CaptureRequest) (a : Ack) :
    (ack rt req a).run (Host.answer out) h =
      ((ackLedger rt req a (out.clock h.reads)).tryCatch fun
        | .storeUnavailable _ => .ret false
        | e => .raise e).run (Host.answer out) { h with reads := h.reads + 1 } := rfl

/-- An acknowledgement under a tolerated outage returns, and it reports an update only when all its
driver calls answered. -/
theorem ack_tolerated (hst : rt.store = Postgres.store)
    (hs : MemoryStore.WellFormed h.connection.committed) (hw : h.connection.working = none)
    {req : CaptureRequest} {a : Ack}
    (ht : Tolerated out.faults h.connection.calls
      (ackCalls h.connection.committed rt.targetId req.scheduledFor a)) :
    ∃ updated cn, (ack rt req a).run (Host.answer out) h =
        (.ok updated, { h with connection := cn, reads := h.reads + 1 }) ∧
      (updated = true → h.connection.calls < cn.calls ∧
        ∀ i, h.connection.calls ≤ i → i < cn.calls → out.faults i = none) := by
  rw [ack_eq, Prog.run_tryCatch]
  by_cases h01 : out.faults h.connection.calls = none ∧ out.faults (h.connection.calls + 1) = none
  · rw [Tolerated, if_pos h01] at ht
    have hquiet : ∀ i, h.connection.calls ≤ i → i < h.connection.calls +
        ackCalls h.connection.committed rt.targetId req.scheduledFor a → out.faults i = none := by
      intro i hi hi'
      by_cases hi2 : i < h.connection.calls + 2
      · exact two_calls.mpr h01 i hi hi2
      · exact ht i (by omega) hi'
    obtain ⟨u, s, hr, hu⟩ := (completes_ackLedger
      (h := { h with reads := h.reads + 1 }) hst hs hw h01 req a (out.clock h.reads)).quiet hquiet
    rw [hr]
    refine ⟨u, _, rfl, fun _ => ⟨?_, hquiet⟩⟩
    simp only [ackCalls]
    omega
  · rw [Tolerated, if_neg h01] at ht
    obtain ⟨cn, hens⟩ := ensureRun_fault
      (h := { h with reads := h.reads + 1 }) (c := .ensureRun rt.targetId req.scheduledFor
        (if a.captureId.isSome then .captured else .scheduled) req.kind.origin a.captureId
        (out.clock h.reads)) h01
    rw [if_pos ht] at hens
    have hled : (ackLedger rt req a (out.clock h.reads)).run (Host.answer out)
        { h with reads := h.reads + 1 } = (.error (.storeUnavailable outageMsg),
          { h with connection := cn, reads := h.reads + 1 }) := by
      rw [ackLedger, Prog.bind_eq, Runtime.ensureRun, hst]
      exact Prog.run_bind_error _ hens
    rw [hled]
    exact ⟨false, cn, rfl, nofun⟩

/-- An acknowledgement under an outage that is not tolerated raises the driver's error. -/
theorem ack_escapes (hst : rt.store = Postgres.store)
    (hs : MemoryStore.WellFormed h.connection.committed) (hw : h.connection.working = none)
    {req : CaptureRequest} {a : Ack}
    (ht : ¬ Tolerated out.faults h.connection.calls
      (ackCalls h.connection.committed rt.targetId req.scheduledFor a)) :
    ∃ cn, (ack rt req a).run (Host.answer out) h =
      (.error (.operationalError outageMsg), { h with connection := cn, reads := h.reads + 1 }) := by
  rw [ack_eq, Prog.run_tryCatch]
  by_cases h01 : out.faults h.connection.calls = none ∧ out.faults (h.connection.calls + 1) = none
  · rw [Tolerated, if_pos h01] at ht
    have hnot : ¬ ∀ i, h.connection.calls ≤ i → i < h.connection.calls +
        ackCalls h.connection.committed rt.targetId req.scheduledFor a → out.faults i = none :=
      fun hq => ht fun i hi hi' => hq i (by omega) hi'
    obtain ⟨cn, hr⟩ := (completes_ackLedger
      (h := { h with reads := h.reads + 1 }) hst hs hw h01 req a (out.clock h.reads)).fault hnot
    rw [hr]
    exact ⟨cn, rfl⟩
  · rw [Tolerated, if_neg h01] at ht
    obtain ⟨cn, hens⟩ := ensureRun_fault
      (h := { h with reads := h.reads + 1 }) (c := .ensureRun rt.targetId req.scheduledFor
        (if a.captureId.isSome then .captured else .scheduled) req.kind.origin a.captureId
        (out.clock h.reads)) h01
    rw [if_neg ht] at hens
    have hled : (ackLedger rt req a (out.clock h.reads)).run (Host.answer out)
        { h with reads := h.reads + 1 } = (.error (.operationalError outageMsg),
          { h with connection := cn, reads := h.reads + 1 }) := by
      rw [ackLedger, Prog.bind_eq, Runtime.ensureRun, hst]
      exact Prog.run_bind_error _ hens
    rw [hled]
    exact ⟨cn, rfl⟩

end Acknowledgement

end EnergyPlatform
