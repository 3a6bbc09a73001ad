import EnergyPlatform.Lib.Rely
import EnergyPlatform.Runtime.Acknowledge
import EnergyPlatform.Runtime.Gaps
import EnergyPlatform.Runtime.Process
import EnergyPlatform.Store.Inheritance

/-!
# Runtime.Lineage

Workers over one capture log and one ledger, and what their calls keep.

`Attends` is how a worker is answered: any time, any document, any blob; a call may raise, with or
without its effect. `Traced` is the invariant: a run names a capture of its own target and instant,
an attempt under a lease has such a capture, and every row and occurrence of Silver is what some
worker made of the capture of the attempt it is recorded under. `Lawful` is what a call must be for
`Traced` to be kept: `attends_lawful`.
-/

namespace EnergyPlatform

open Lib (Dict Prog)

/-- The capture log and the ledger of all workers. -/
structure Shared where
  log : CaptureLog
  store : MemoryStore

/-- How a worker is answered: any time, document and blob, and any call may raise, with or without
its effect. -/
def Attends : Shared → (o : Op StoreCall) → Except Exn (o.Ret StoreCall.Ret) → Shared → Prop
  | w, .bronze c, r, w' => w'.store = w.store ∧ ∃ (sha256 : Bytes → Sha256) (b : Bronze),
      b.log = w.log ∧ (r = .ok (b.exec sha256 c).1 ∧ w'.log = (b.exec sha256 c).2.log ∨
        (∃ e, r = .error e) ∧ (w'.log = w.log ∨ w'.log = (b.exec sha256 c).2.log))
  | w, .ledger c, r, w' => w'.log = w.log ∧
      ((∃ out, r = .ok out ∧ w.store.exec c = some (out, w'.store)) ∨
        (∃ e, r = .error e) ∧ (w'.store = w.store ∨ ∃ out, w.store.exec c = some (out, w'.store)))
  | w, _, _, w' => w' = w

namespace CaptureLog

/-- Every entry is filed under its capture id. -/
def Keyed (l : CaptureLog) : Prop := ∀ {k e}, l.entries.get? k = some e → e.captureId = k

/-- The capture id names an entry of this target and instant. -/
def Names (l : CaptureLog) (c : CaptureId) (targetId : String) (at_ : Instant) : Prop :=
  ∃ e, l.entries.get? c = some e ∧ e.targetId = targetId ∧ e.scheduledFor = at_

/-- No entry is lost or changed. -/
def Extends (l l' : CaptureLog) : Prop :=
  ∀ {k e}, l.entries.get? k = some e → l'.entries.get? k = some e

variable {l l' : CaptureLog}

theorem Names.extends {c : CaptureId} {targetId : String} {at_ : Instant}
    (h : l.Names c targetId at_) (hl : l.Extends l') : l'.Names c targetId at_ := by
  obtain ⟨e, he, ht, ha⟩ := h
  exact ⟨e, hl he, ht, ha⟩

theorem Keyed.get (h : l.Keyed) {c : CaptureId} {e : CaptureEntry} (he : l.get c = some e) :
    l.entries.get? c = some e := by
  obtain ⟨k, hk⟩ := Dict.mem_values.mp (List.mem_of_find?_eq_some he)
  have hc : e.captureId = c := by simpa using List.find?_some he
  rw [← hc, h hk]
  exact hk

theorem Keyed.putNew (h : l.Keyed) {e : CaptureEntry} (he : e.captureId = e.key) :
    (l.putNew e).2.Keyed ∧ l.Extends (l.putNew e).2 ∧
      ((l.putNew e).1 = true → (l.putNew e).2.entries.get? e.captureId = some e) := by
  cases hg : l.entries.get? e.key with
  | some x =>
    have hput : l.putNew e = (false, l) := by simp [CaptureLog.putNew, Dict.contains, hg]
    rw [hput]
    exact ⟨h, fun hk => hk, fun hf => absurd hf Bool.false_ne_true⟩
  | none =>
    have hput : l.putNew e = (true, { l with entries := l.entries.set e.key e }) := by
      simp [CaptureLog.putNew, Dict.contains, hg]
    rw [hput]
    refine ⟨?_, ?_, fun _ => ?_⟩
    · intro k x hx
      rw [Dict.get?_set] at hx
      split at hx
      · rename_i hk
        rw [Option.some.injEq] at hx
        rw [← hx, he, hk]
      · exact h hx
    · intro k x hx
      have hne : k ≠ e.key := by
        rintro rfl
        rw [hg] at hx
        cases hx
      exact (Dict.get?_set_ne _ _ hne).trans hx
    · rw [he]
      exact Dict.get?_set_self ..

/-- A call on the log keeps it, where a new entry carries its own key. -/
theorem Keyed.exec (sha256 : Bytes → Sha256) {b : Bronze} (h : b.log.Keyed) (c : BronzeCall)
    (hc : ∀ e, c = .putNew e → e.captureId = e.key) :
    (b.exec sha256 c).2.log.Keyed ∧ b.log.Extends (b.exec sha256 c).2.log := by
  cases c with
  | putNew e =>
    obtain ⟨hk, hx, -⟩ := h.putNew (hc e rfl)
    exact ⟨hk, hx⟩
  | putInvalidation inv =>
    have he : (b.log.putInvalidation inv).2.entries = b.log.entries := by
      simp only [CaptureLog.putInvalidation]
      split <;> rfl
    refine ⟨?_, ?_⟩
    · intro k e hg
      simp only [Bronze.exec, he] at hg
      exact h hg
    · intro k e hg
      simp only [Bronze.exec, he]
      exact hg
  | _ => exact ⟨h, fun hg => hg⟩

end CaptureLog

/-! ## What a row is traced to -/

section Trace

variable {ι : Type} (rts : ι → Runtime StoreCall.Ret)

/-- The worker mapped a payload of the entry, for a run of this instant, and `o` came out. -/
def MappedFrom (rt : Runtime StoreCall.Ret) (e : CaptureEntry) (at_ : Instant)
    (o : EnergyObservation) : Prop :=
  ∃ payload d deliveryDay processedAt result, rt.env.sha256 payload = e.rawRef.sha256 ∧
    derivationFor rt.impl rt.manifest = some d ∧ deliveryDayFor rt.zone at_ = .ok deliveryDay ∧
    mapPayload rt.env rt.manifest payload
      (contextOf rt e at_ deliveryDay processedAt d.derivationId) = .ok result ∧
    o ∈ result.observations

/-- The run of the attempt, its capture, and the worker that mapped it. -/
structure Trace (w : Shared) (a : Nat) (o : EnergyObservation) (att : RunAttempt) (run : Run)
    (e : CaptureEntry) (i : ι) : Prop where
  filed : w.store.attemptTable.get? a = some att
  leased : att.leaseOwner.isSome
  runFiled : w.store.runTable.get? att.runId = some run
  entry : ∃ c, att.captureId = some c ∧ w.log.entries.get? c = some e
  targetId : e.targetId = run.targetId
  scheduledFor : e.scheduledFor = run.scheduledFor
  worker : run.targetId = (rts i).targetId
  mapped : MappedFrom (rts i) e run.scheduledFor o

def Traceable (w : Shared) (a : Nat) (o : EnergyObservation) : Prop :=
  ∃ att run e i, Trace rts w a o att run e i

structure Traced (w : Shared) : Prop where
  wellFormed : w.store.WellFormed
  keyed : w.log.Keyed
  runs : ∀ {i run c}, w.store.runTable.get? i = some run → run.captureId = some c →
    w.log.Names c run.targetId run.scheduledFor
  attempts : ∀ {i a c}, w.store.attemptTable.get? i = some a → a.leaseOwner.isSome →
    a.captureId = some c → ∃ run, w.store.runTable.get? a.runId = some run ∧
      w.log.Names c run.targetId run.scheduledFor
  rows : ∀ {i row}, w.store.rowTable.get? i = some row →
    Traceable rts w row.runAttemptId row.observation
  occurrences : ∀ {v f t a}, w.store.HasOccurrence v f t a →
    ∃ o, Traceable rts w a o ∧ versionIdentity o = v ∧ o.fetchedAt = f ∧ orderingInstant o = t

/-- What the others may do: entries, runs and leased attempts stay what they are. -/
structure Later (w w' : Shared) : Prop where
  log : w.log.Extends w'.log
  runs : MemoryStore.RunsKept w.store w'.store
  leases : ∀ {i a}, w.store.attemptTable.get? i = some a → a.leaseOwner.isSome →
    ∃ b, w'.store.attemptTable.get? i = some b ∧ MemoryStore.SameLease a b

theorem Later.refl (w : Shared) : Later w w :=
  ⟨fun h => h, fun _ run hr => ⟨run, hr, rfl, rfl⟩, fun h hl => ⟨_, h, hl, rfl, rfl⟩⟩

theorem Later.trans (w w' w'' : Shared) (h : Later w w') (h' : Later w' w'') : Later w w'' where
  log hk := h'.log (h.log hk)
  runs := by
    intro i run hr
    obtain ⟨run', hr', ht, ha⟩ := h.runs i run hr
    obtain ⟨run'', hr'', ht', ha'⟩ := h'.runs i run' hr'
    exact ⟨run'', hr'', ht'.trans ht, ha'.trans ha⟩
  leases {i a} hi hl := by
    obtain ⟨b, hb, hbl, hrun, hcap⟩ := h.leases hi hl
    obtain ⟨b', hb', hbl', hrun', hcap'⟩ := h'.leases hb hbl
    exact ⟨b', hb', hbl', hrun'.trans hrun, hcap'.trans hcap⟩

/-- The run of this id is of this target and instant. -/
def RunAt (w : Shared) (i : Nat) (targetId : String) (at_ : Instant) : Prop :=
  ∃ run, w.store.runTable.get? i = some run ∧ run.targetId = targetId ∧ run.scheduledFor = at_

variable {rts} {w w' : Shared}

theorem RunAt.later {i : Nat} {targetId : String} {at_ : Instant} (h : RunAt w i targetId at_)
    (hl : Later w w') : RunAt w' i targetId at_ := by
  obtain ⟨run, hr, ht, ha⟩ := h
  obtain ⟨run', hr', ht', ha'⟩ := hl.runs _ run hr
  exact ⟨run', hr', ht'.trans ht, ha'.trans ha⟩

theorem Traceable.later {a : Nat} {o : EnergyObservation} (h : Traceable rts w a o)
    (hl : Later w w') : Traceable rts w' a o := by
  obtain ⟨att, run, e, i, h⟩ := h
  obtain ⟨c, hc, he⟩ := h.entry
  obtain ⟨att', hatt, hleased, hrun, hcap⟩ := hl.leases h.filed h.leased
  obtain ⟨run', hrun', ht, ha⟩ := hl.runs _ run h.runFiled
  exact ⟨att', run', e, i,
    { filed := hatt
      leased := hleased
      runFiled := hrun ▸ hrun'
      entry := ⟨c, hcap.trans hc, hl.log he⟩
      targetId := h.targetId.trans ht.symm
      scheduledFor := h.scheduledFor.trans ha.symm
      worker := ht.trans h.worker
      mapped := ha ▸ h.mapped }⟩

/-- What a call has to be. -/
def Lawful (rts : ι → Runtime StoreCall.Ret) (w : Shared) : Op StoreCall → Prop
  | .bronze (.putNew e) => e.captureId = e.key
  | .ledger (.ensureRun targetId at_ _ _ c _) => ∀ x, c = some x → w.log.Names x targetId at_
  | .ledger (.markRecaptured i x _) => ∀ run, w.store.runTable.get? i = some run →
      w.log.Names x run.targetId run.scheduledFor
  | .ledger (.commit c args _) => ∀ o ∈ args.observations, Traceable rts w c.attempt.id o
  | _ => True

/-- A capture that a call names for a run is one of its target and instant. -/
theorem Traced.gives (h : Traced rts w) {c : StoreCall} (hlaw : Lawful rts w (.ledger c))
    {out : c.Ret} {s' : MemoryStore} (hc : w.store.exec c = some (out, s')) {i : Nat} {run : Run}
    {x : CaptureId} (hrun : s'.runTable.get? i = some run) (hg : MemoryStore.Gives c run x) :
    w.log.Names x run.targetId run.scheduledFor := by
  cases c with
  | ensureRun targetId at_ state origin captureId now =>
    obtain ⟨hcap, ht, ha⟩ := hg
    rw [ht, ha]
    exact hlaw x hcap
  | markRecaptured j y now =>
    obtain ⟨hj, rfl⟩ := hg
    obtain ⟨old, hold, -⟩ := MemoryStore.markRecaptured_cases hc
    have hid : run.id = i := (h.wellFormed.exec hc).runs.id hrun
    obtain ⟨run', hrun', ht, ha⟩ := MemoryStore.exec_runsKept h.wellFormed hc j old hold
    rw [← hj, hid, hrun, Option.some.injEq] at hrun'
    rw [hrun', ht, ha]
    exact hlaw old hold
  | _ => exact absurd hg id

theorem Traced.commits {c : StoreCall} (hlaw : Lawful rts w (.ledger c)) {o : EnergyObservation}
    (ho : o ∈ MemoryStore.rowsOf c) : Traceable rts w (MemoryStore.attemptOf c) o := by
  cases c with
  | commit c args now => exact hlaw o ho
  | _ => exact absurd ho List.not_mem_nil

theorem Traced.store (h : Traced rts w) {c : StoreCall} (hlaw : Lawful rts w (.ledger c))
    {out : c.Ret} {s' : MemoryStore} (hc : w.store.exec c = some (out, s')) :
    Traced rts ⟨w.log, s'⟩ ∧ Later w ⟨w.log, s'⟩ := by
  have hin := MemoryStore.exec_inherits h.wellFormed hc
  have hkept := MemoryStore.exec_runsKept h.wellFormed hc
  have hlater : Later w ⟨w.log, s'⟩ := ⟨fun hk => hk, hkept, hin.kept⟩
  have hruns : ∀ {i run c}, s'.runTable.get? i = some run → run.captureId = some c →
      w.log.Names c run.targetId run.scheduledFor := by
    intro i run x hrun hx
    rcases hin.captures hrun hx with ⟨old, hold, hcap⟩ | hg
    · obtain ⟨run', hrun', ht, ha⟩ := hkept i old hold
      rw [hrun, Option.some.injEq] at hrun'
      rw [hrun', ht, ha]
      exact h.runs hold hcap
    · exact h.gives hlaw hc hrun hg
  obtain ⟨obs, hobs, hgrown⟩ := hin.silver
  refine ⟨⟨h.wellFormed.exec hc, h.keyed, hruns, ?_, ?_, ?_⟩, hlater⟩
  · intro i b x hb hl hx
    rcases hin.leased hb hl with ⟨a, ha, hal, -, hrun, hcap⟩ | ⟨run, hrun, hcap⟩
    · obtain ⟨run, hr, hn⟩ := h.attempts ha hal (hcap.symm.trans hx)
      obtain ⟨run', hr', ht, hat⟩ := hkept _ run hr
      exact ⟨run', hrun ▸ hr', by rw [ht, hat]; exact hn⟩
    · exact ⟨run, hrun, hruns hrun (hcap.trans hx)⟩
  · intro i row hrow
    rcases hgrown.rowNew hrow with hold | ⟨ha, ho, -⟩
    · exact (h.rows hold).later hlater
    · rw [ha]
      exact (Traced.commits hlaw (hobs _ ho)).later hlater
  · intro v f t a hocc
    rcases hgrown.occurrenceNew hocc with hold | ⟨rfl, -, o, ho, rfl, rfl, rfl⟩
    · obtain ⟨o, hto, hv, hf, ht⟩ := h.occurrences hold
      exact ⟨o, hto.later hlater, hv, hf, ht⟩
    · exact ⟨o, (Traced.commits hlaw (hobs _ ho)).later hlater, rfl, rfl, rfl⟩

/-- The log may grow. -/
theorem Traced.log (h : Traced rts w) {l : CaptureLog} (hk : l.Keyed) (hx : w.log.Extends l) :
    Traced rts ⟨l, w.store⟩ ∧ Later w ⟨l, w.store⟩ := by
  have hlater : Later w ⟨l, w.store⟩ :=
    ⟨hx, fun _ run hr => ⟨run, hr, rfl, rfl⟩, fun hi hl => ⟨_, hi, hl, rfl, rfl⟩⟩
  refine ⟨⟨h.wellFormed, hk, fun hr hc => (h.runs hr hc).extends hx, ?_,
    fun hr => (h.rows hr).later hlater, ?_⟩, hlater⟩
  · intro i a c ha hl hc
    obtain ⟨run, hr, hn⟩ := h.attempts ha hl hc
    exact ⟨run, hr, hn.extends hx⟩
  · intro v f t a hocc
    obtain ⟨o, ho, hv⟩ := h.occurrences hocc
    exact ⟨o, ho.later hlater, hv⟩

/-- A lawful call keeps the invariant and the rely, however it is answered. -/
theorem attends_lawful (h : Traced rts w) {o : Op StoreCall} (hlaw : Lawful rts w o)
    {r : Except Exn (o.Ret StoreCall.Ret)} (ha : Attends w o r w') : Traced rts w' ∧ Later w w' := by
  cases o with
  | clock =>
    obtain rfl := ha
    exact ⟨h, .refl w'⟩
  | fetch ctx previous =>
    obtain rfl := ha
    exact ⟨h, .refl w'⟩
  | bronze c =>
    obtain ⟨hs, sha256, b, hb, ha⟩ := ha
    obtain ⟨l', s'⟩ := w'
    obtain rfl := hs
    have hexec := CaptureLog.Keyed.exec sha256 (b := b) (hb ▸ h.keyed) c (by
      rintro e rfl
      exact hlaw)
    rw [hb] at hexec
    rcases ha with ⟨-, rfl⟩ | ⟨-, rfl | rfl⟩
    · exact h.log hexec.1 hexec.2
    · exact ⟨h, .refl w⟩
    · exact h.log hexec.1 hexec.2
  | ledger c =>
    obtain ⟨l', s'⟩ := w'
    obtain ⟨rfl, ha⟩ := ha
    rcases ha with ⟨out, -, hc⟩ | ⟨-, rfl | ⟨out, hc⟩⟩
    · exact h.store hlaw hc
    · exact ⟨h, .refl w⟩
    · exact h.store hlaw hc

end Trace

end EnergyPlatform
