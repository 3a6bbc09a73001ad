import EnergyPlatform.Mapping.DerivationIdentity
import EnergyPlatform.Runtime.Commits
import EnergyPlatform.Runtime.Steady

/-!
# Runtime.Workers

Any number of workers over one capture log and one ledger, their calls in any order, each stopped
anywhere.

`lineage_truthful`: every row and every occurrence of Silver is what some worker made of the very
capture that its attempt names.
-/

namespace EnergyPlatform

open Lib (Dict Prog)

/-! ## Processing -/

/-- What is known of a claim that was granted, from then on: its attempt, its run, its capture. -/
structure Taken (w : Shared) (targetId : String) (c : Claim) : Prop where
  attempt : ∃ att, w.store.attemptTable.get? c.attempt.id = some att ∧ att.leaseOwner.isSome ∧
    att.runId = c.run.id ∧ att.captureId = c.attempt.captureId
  run : RunAt w c.run.id targetId c.run.scheduledFor
  capture : c.run.captureId = c.attempt.captureId

theorem Taken.later {w w' : Shared} {targetId : String} {c : Claim} (h : Taken w targetId c)
    (hl : Later w w') : Taken w' targetId c := by
  obtain ⟨att, hatt, howner, hrun, hcap⟩ := h.attempt
  obtain ⟨b, hb, hbowner, hbrun, hbcap⟩ := hl.leases hatt howner
  exact ⟨⟨b, hb, hbowner, hbrun.trans hrun, hbcap.trans hcap⟩, h.run.later hl, h.capture⟩

/-- A claim that was granted works for the capture of its attempt. -/
theorem Taken.capture_eq {w : Shared} {targetId : String} {c : Claim} (h : Taken w targetId c) :
    c.capture = c.attempt.captureId := by
  rw [Claim.capture, h.capture]
  cases c.attempt.captureId <;> rfl

section Process

variable {ι : Type} {rts : ι → Runtime StoreCall.Ret} {w w' : Shared}

/-- What a worker makes of the capture of its claim can be traced to it. -/
theorem Taken.traceable {i : ι} {c : Claim} {x : CaptureId} {entry : CaptureEntry}
    {o : EnergyObservation} (h : Taken w (rts i).targetId c) (hi : Traced rts w)
    (hx : c.capture = some x) (he : w.log.entries.get? x = some entry)
    (ho : MappedFrom (rts i) entry c.run.scheduledFor o) : Traceable rts w c.attempt.id o := by
  rw [h.capture_eq] at hx
  obtain ⟨att, hatt, howner, hrunId, hcap⟩ := h.attempt
  obtain ⟨run, hrun, e, he', ht, ha⟩ := hi.attempts hatt howner (hcap.trans hx)
  obtain ⟨run', hrun', ht', ha'⟩ := h.run
  rw [hrunId, hrun', Option.some.injEq] at hrun
  rw [he, Option.some.injEq] at he'
  subst hrun he'
  exact ⟨att, run', entry, i,
    { filed := hatt
      leased := howner
      runFiled := hrunId ▸ hrun'
      entry := ⟨x, hcap.trans hx, he⟩
      targetId := ht
      scheduledFor := ha
      worker := ht'
      mapped := ha' ▸ ho }⟩

variable {rt : Runtime StoreCall.Ret}

theorem steady_claim (hst : rt.store = memoryStore) {i : Nat} {targetId : String} {at_ : Instant}
    (now : Instant) (hrun : RunAt w i targetId at_) :
    Steady rts (fun r w' => ∀ c, r = some c → Taken w' targetId c) (rt.claim i now) w := by
  refine steady_store hst (.claim i rt.owner rt.leaseTtl now) (fun _ _ _ => trivial)
    fun w₁ s' out hl hi he w' hl' _ c hc => ?_
  obtain ⟨old, hold, ⟨-, rfl, -⟩ | ⟨-, att, rfl, ho⟩⟩ := MemoryStore.claim_cases he
  · cases hc
  · cases hc
    have hopen := hi.wellFormed.opened rt.owner rt.leaseTtl now hold
    rw [ho] at hopen
    obtain ⟨run, hr, ht, ha⟩ := hrun.later hl
    rw [hold, Option.some.injEq] at hr
    subst hr
    refine Taken.later ⟨⟨att, hopen.filed, ?_, hopen.runId, rfl⟩, ?_, hopen.captureId.symm⟩ hl'
    · rw [hopen.leaseOwner]
      rfl
    · refine ⟨MemoryStore.granted old rt.owner rt.leaseTtl now, ?_, ht, rfl⟩
      show s'.runTable.get? old.id = _
      rw [hopen.same.runTable]
      exact Dict.get?_set_self w₁.store.runTable _ _

/-- The payload that is read is the one the entry refers to. -/
theorem steady_read (sha256 : Bytes → Sha256) (ref : BlobRef) (hi : Traced rts w) :
    Steady rts (fun o _ => sha256 o.payload = ref.sha256)
      (Bronze.read sha256 ref : Verb StoreCall.Ret _) w := by
  have hverified : ∀ data tier (w : Shared), Steady rts (fun o _ => sha256 o.payload = ref.sha256)
      (Bronze.verified sha256 ref data tier : Verb StoreCall.Ret _) w := by
    intro data tier w
    unfold Bronze.verified
    split
    · exact Prog.Abides.raise
    · rename_i h
      exact steady_ret fun _ _ _ => not_not.mp h
  refine steady_bind hi (steady_harmless (Prog.Only.perform trivial)) fun hot w₁ _ hi₁ _ => ?_
  split
  · exact hverified _ _ w₁
  · refine steady_bind hi₁ (steady_harmless (Prog.Only.perform trivial)) fun cold w₂ _ _ _ => ?_
    split
    · exact hverified _ _ w₂
    · exact Prog.Abides.raise

theorem steady_readPayload (ref : BlobRef) (hi : Traced rts w) :
    Steady rts (fun r _ => ∀ p, r = .ok p → rt.env.sha256 p = ref.sha256) (readPayload rt ref) w := by
  refine Prog.Abides.tryCatch (R := lineageRely rts) hi ?_ fun e w₁ _ _ => ?_
  · refine steady_bind hi (steady_read _ ref hi) fun o w₁ _ _ ho => ?_
    refine steady_ret fun _ _ _ p hp => ?_
    cases hp
    exact ho
  · split
    · exact steady_ret fun _ _ _ p hp => by cases hp
    · exact Prog.Abides.raise

theorem only_commitFailed (hst : rt.store = memoryStore) (c : Claim) (d : Derivation)
    (outcome : AttemptOutcome) (error : String) (event : QualityEvent) :
    (commitFailed rt c d outcome error event).Only Harmless fun _ => True := by
  refine Prog.Only.bind (Prog.Only.perform trivial) fun now => ?_
  exact Prog.Only.bind (only_store hst rfl) fun _ => trivial

theorem ReadOnly.harmless {o : Op StoreCall} (h : ReadOnly o) : Harmless o := by
  cases o with
  | clock | fetch => exact trivial
  | bronze c =>
    cases c with
    | putNew => exact absurd h id
    | _ => exact trivial
  | ledger c =>
    cases c with
    | ensureRun | markRecaptured | commit => exact absurd h id
    | _ => exact trivial

theorem steady_commitMapped {i : ι} (hst : (rts i).store = memoryStore) (c : Claim) (d : Derivation)
    (result : MappingResult) (extra : List QualityEvent) (hi : Traced rts w)
    (hlaw : ∀ w', Later w w' → Traced rts w' → ∀ o ∈ result.observations,
      Traceable rts w' c.attempt.id o) :
    Steady rts (fun _ _ => True) (commitMapped (rts i) c d result extra) w := by
  have hread := Prog.Only.imp (fun _ ho => ReadOnly.harmless ho)
    (reads_otherTransports hst result.observations)
  refine steady_bind hi (steady_harmless hread) fun others w₁ hl₁ hi₁ _ => ?_
  refine steady_bind hi₁ (steady_py _) fun compared w₂ hl₂ hi₂ _ => ?_
  refine steady_bind hi₂ steady_clock fun now w₃ hl₃ hi₃ _ => ?_
  refine steady_bind hi₃ (Q := fun _ _ => True) (steady_store hst (.commit c _ now)
    (fun w₄ hl₄ hi₄ => ?_) fun _ _ _ _ _ _ _ _ _ => trivial) fun _ w₄ _ _ _ => ?_
  · exact hlaw w₄ (((hl₁.trans _ _ _ hl₂).trans _ _ _ hl₃).trans _ _ _ hl₄) hi₄
  · exact steady_ret fun _ _ _ => trivial

theorem steady_processOne {i : ι} (hst : (rts i).store = memoryStore) {c : Claim} {d : Derivation}
    (hd : derivationFor (rts i).impl (rts i).manifest = some d) (hi : Traced rts w)
    (hc : Taken w (rts i).targetId c) :
    Steady rts (fun _ _ => True) (processOne (rts i) c d) w := by
  have hfind : Steady rts (fun r w' => ∀ e, r = some e → ∃ x, c.capture = some x ∧
      w'.log.entries.get? x = some e) (findEntry c.capture) w := by
    cases hx : c.capture with
    | none => exact steady_ret fun _ _ _ e he => by cases he
    | some x => exact (steady_getEntry x).imp fun r w' _ _ h e he => ⟨x, rfl, h e he⟩
  refine steady_bind hi hfind fun r w₁ hl₁ hi₁ hr => ?_
  cases r with
  | none => exact steady_harmless (only_commitFailed hst ..)
  | some entry =>
    obtain ⟨x, hx, he⟩ := hr entry rfl
    refine steady_bind hi₁ (steady_harmless (only_store hst trivial)) fun void w₂ hl₂ hi₂ _ => ?_
    split
    · exact steady_harmless (Prog.Only.bind (only_store hst trivial) fun _ => only_commitFailed hst ..)
    · refine steady_bind hi₂ (steady_readPayload entry.rawRef hi₂) fun r w₃ hl₃ hi₃ hp => ?_
      cases r with
      | error msg => exact steady_harmless (only_commitFailed hst ..)
      | ok payload =>
        refine steady_bind hi₃ (steady_py _) fun deliveryDay w₄ hl₄ hi₄ hday => ?_
        refine steady_bind hi₄ steady_clock fun processedAt w₅ hl₅ hi₅ _ => ?_
        split
        · exact steady_harmless (only_commitFailed hst ..)
        · exact Prog.Abides.raise
        · rename_i result hmap
          refine steady_bind hi₅ (steady_py _) fun extra w₆ hl₆ hi₆ _ => ?_
          refine steady_commitMapped hst c d result extra hi₆ fun w₇ hl₇ hi₇ o ho => ?_
          have hl : Later w₁ w₇ := ((((hl₂.trans _ _ _ hl₃).trans _ _ _ hl₄).trans _ _ _
            hl₅).trans _ _ _ hl₆).trans _ _ _ hl₇
          exact (hc.later (hl₁.trans _ _ _ hl)).traceable hi₇ hx (hl.log he)
            ⟨payload, d, deliveryDay, processedAt, result, hp payload rfl, hd, hday, hmap, ho⟩

theorem steady_processRuns {i : ι} (hst : (rts i).store = memoryStore) {d : Derivation}
    (hd : derivationFor (rts i).impl (rts i).manifest = some d) (limit : Option Int)
    (runs : List Run) : ∀ (reports : List ProcessReport) (w : Shared), Traced rts w →
    (∀ r ∈ runs, RunAt w r.id (rts i).targetId r.scheduledFor) →
    Steady rts (fun _ _ => True) (processRuns (rts i) d limit runs reports) w := by
  induction runs with
  | nil => exact fun _ _ _ _ => steady_ret fun _ _ _ => trivial
  | cons run rest ih =>
    intro reports w hi hruns
    have hrest : ∀ {w'}, Later w w' → ∀ r ∈ rest, RunAt w' r.id (rts i).targetId r.scheduledFor :=
      fun hl r hr => (hruns r (List.mem_cons_of_mem _ hr)).later hl
    unfold processRuns
    split
    · exact steady_ret fun _ _ _ => trivial
    · refine steady_bind hi steady_clock fun now w₁ hl₁ hi₁ _ => ?_
      refine steady_bind hi₁ (steady_claim hst now ((hruns run List.mem_cons_self).later hl₁))
        fun r w₂ hl₂ hi₂ htaken => ?_
      cases r with
      | none => exact ih reports w₂ hi₂ (hrest (hl₁.trans _ _ _ hl₂))
      | some c =>
        refine steady_bind hi₂ (steady_processOne hst hd hi₂ (htaken c rfl))
          fun report w₃ hl₃ hi₃ _ => ?_
        exact ih _ w₃ hi₃ (hrest ((hl₁.trans _ _ _ hl₂).trans _ _ _ hl₃))

/-- A pending run is one of the target's. -/
theorem steady_pendingRuns (hst : rt.store = memoryStore) (now : Instant) :
    Steady rts (fun runs w' => ∀ r ∈ runs, RunAt w' r.id rt.targetId r.scheduledFor)
      (rt.pendingRuns now) w := by
  refine steady_store hst (.pendingRuns rt.targetId now) (fun _ _ _ => trivial)
    fun w₁ s' out _ hi he w' hl _ r hr => ?_
  obtain ⟨rfl, rfl⟩ := Prod.mk.inj (Option.some.inj he)
  have hruns := List.mem_of_mem_filter hr
  simp only [MemoryStore.runs, List.mem_insertionSort, List.mem_filter, decide_eq_true_eq] at hruns
  obtain ⟨hmem, ht, -⟩ := hruns
  obtain ⟨k, hk⟩ := Dict.mem_values.mp hmem
  have hid := hi.wellFormed.runs.id hk
  exact RunAt.later ⟨r, hid ▸ hk, ht, rfl⟩ hl

theorem steady_process {i : ι} (hst : (rts i).store = memoryStore) (limit : Option Int)
    (hi : Traced rts w) : Steady rts (fun _ _ => True) (process (rts i) limit) w := by
  refine steady_bind hi steady_clock fun now w₁ _ hi₁ _ => ?_
  refine steady_bind hi₁ (steady_reconcile hst _ _ hi₁) fun _ w₂ _ hi₂ _ => ?_
  have hown : Steady rts (fun d _ => derivationFor (rts i).impl (rts i).manifest = some d)
      (ownDerivation (rts i)) w₂ := by
    unfold ownDerivation
    split
    · rename_i d hd
      exact steady_ret fun _ _ _ => hd
    · exact Prog.Abides.raise
  refine steady_bind hi₂ hown fun d w₃ _ hi₃ hd => ?_
  refine steady_bind hi₃ (steady_pendingRuns hst now) fun runs w₄ _ hi₄ hruns => ?_
  exact steady_processRuns hst hd limit runs [] w₄ hi₄ hruns

theorem only_enqueueReplays (hst : rt.store = memoryStore) (admits : Run → Bool) (now : Instant)
    (runs : List Run) : ∀ queued : List RunAttempt,
    (enqueueReplays rt admits now runs queued).Only Harmless fun _ => True := by
  induction runs with
  | nil => exact fun _ => trivial
  | cons run rest ih =>
    intro queued
    unfold enqueueReplays
    split
    · exact Prog.Only.bind (only_store hst trivial) fun _ => ih _
    · exact ih _

theorem steady_backfillRuns (hst : rt.store = memoryStore) (limit : Option Int) (runs : List Run) :
    ∀ (reports : List CaptureReport) (w : Shared), Traced rts w →
    Steady rts (fun _ _ => True) (backfillRuns rt limit runs reports) w := by
  induction runs with
  | nil => exact fun _ _ _ => steady_ret fun _ _ _ => trivial
  | cons run rest ih =>
    intro reports w hi
    unfold backfillRuns
    split
    · exact ih reports w hi
    · split
      · exact steady_ret fun _ _ _ => trivial
      · refine steady_bind hi (steady_capture hst _ hi) fun report w₁ _ hi₁ _ => ?_
        exact ih _ w₁ hi₁

theorem steady_recaptureDays (hst : rt.store = memoryStore) (today : Day) (n : Nat) :
    ∀ (back : Int) (w : Shared), Traced rts w →
    Steady rts (fun _ _ => True) (recaptureDays rt today back n) w := by
  have hlast : ∀ d, (lastRunOfDay rt d).Only Harmless fun _ => True := by
    intro d
    refine Prog.Only.bind (only_pyExcept _) fun bounds => ?_
    exact Prog.Only.bind (Prog.Only.perform trivial) fun _ => only_pyExcept _
  induction n with
  | zero => exact fun _ _ _ => steady_ret fun _ _ _ => trivial
  | succ n ih =>
    intro back w hi
    refine steady_bind hi (steady_py _) fun d w₁ _ hi₁ _ => ?_
    have hday : Steady rts (fun _ _ => True) (recaptureDay rt d) w₁ := by
      refine steady_bind hi₁ (steady_harmless (hlast d)) fun at_ w₂ _ hi₂ _ => ?_
      cases at_ with
      | none => exact steady_ret fun _ _ _ => trivial
      | some t =>
        refine steady_bind hi₂ (steady_capture hst _ hi₂) fun report w₃ _ _ _ => ?_
        exact steady_ret fun _ _ _ => trivial
    refine steady_bind hi₁ hday fun report w₂ _ hi₂ _ => ?_
    refine steady_bind hi₂ (ih (back + 1) w₂ hi₂) fun rest w₃ _ _ _ => ?_
    exact steady_ret fun _ _ _ => trivial

theorem only_invalidate (hst : rt.store = memoryStore) (ledger : Bool)
    (derivation : Option DerivationId) (reason by_ : String) (now : Instant)
    (captures : List CaptureId) :
    (invalidate rt ledger derivation reason by_ now captures).Only Harmless fun _ => True := by
  induction captures with
  | nil => exact trivial
  | cons c rest ih =>
    unfold invalidate
    split
    · exact trivial
    · refine Prog.Only.bind (Prog.Only.perform trivial) fun entry => ?_
      cases entry with
      | none => exact trivial
      | some e =>
        refine Prog.Only.bind (Prog.Only.perform trivial) fun created => ?_
        have hrest : ((invalidate rt ledger derivation reason by_ now rest).bind fun others =>
            (.ret (created :: others) : Verb StoreCall.Ret _)).Only Harmless fun _ => True :=
          Prog.Only.bind ih fun _ => trivial
        by_cases hl : ledger
        · simp only [if_pos hl]
          exact Prog.Only.bind (only_store hst trivial) fun _ => hrest
        · simp only [if_neg hl]
          exact hrest

end Process

/-! ## All verbs together -/

/-- What a worker is told to do. -/
inductive Task where
  | capture (req : CaptureRequest)
  | recapture (days : Int) (now : Option Instant)
  | backfill (limit : Option Int)
  | reconcile (window : Option Duration) (now : Option Instant)
  | detectGaps (lookback : Option Duration) (now : Option Instant)
  | process (limit : Option Int)
  | replayRange (since until_ : Instant)
  | replayDerivation (d : DerivationId)
  | invalidate (ledger : Bool) (derivation : Option DerivationId) (reason by_ : String)
      (captures : List CaptureId)

/-- The task's verb, its result forgotten. -/
def Task.program (rt : Runtime StoreCall.Ret) : Task → Verb StoreCall.Ret Unit
  | capture req => (EnergyPlatform.capture rt req).toUnit
  | recapture days now => (EnergyPlatform.recapture rt days now).toUnit
  | backfill limit => (EnergyPlatform.backfill rt limit).toUnit
  | reconcile window now => (EnergyPlatform.reconcile rt window now).toUnit
  | detectGaps lookback now => (EnergyPlatform.detectGaps rt lookback now).toUnit
  | process limit => (EnergyPlatform.process rt limit).toUnit
  | replayRange since until_ => (EnergyPlatform.replayRange rt since until_).toUnit
  | replayDerivation d => (EnergyPlatform.replayDerivation rt d).toUnit
  | invalidate ledger derivation reason by_ captures =>
    (clock.bind fun now =>
      EnergyPlatform.invalidate rt ledger derivation reason by_ now captures).toUnit

def Shared.empty : Shared := ⟨.empty, .init⟩

section Together

variable {ι : Type} {rts : ι → Runtime StoreCall.Ret} {w : Shared}

theorem steady_task {i : ι} (hst : (rts i).store = memoryStore) (task : Task) (hi : Traced rts w) :
    Steady rts (fun _ _ => True) (task.program (rts i)) w := by
  have hunit : ∀ {α : Type} {p : Verb StoreCall.Ret α}, Steady rts (fun _ _ => True) p w →
      Steady rts (fun _ _ => True) p.toUnit w :=
    fun hp => steady_bind hi hp fun _ _ _ _ _ => steady_ret fun _ _ _ => trivial
  cases task with
  | capture req => exact hunit (steady_capture hst req hi)
  | recapture days now =>
    refine hunit ?_
    unfold EnergyPlatform.recapture
    split
    · exact Prog.Abides.raise
    · have hfrom : ∀ now w, Traced rts w → Steady rts (fun _ _ => True)
          ((pyExcept (deliveryDayFor (rts i).zone now)).bind fun today =>
            recaptureDays (rts i) today 1 days.toNat) w := by
        intro now w hi
        exact steady_bind hi (steady_py _) fun today w₁ _ hi₁ _ =>
          steady_recaptureDays hst today _ 1 w₁ hi₁
      cases now with
      | some t => exact hfrom t w hi
      | none => exact steady_bind hi steady_clock fun now w₁ _ hi₁ _ => hfrom now w₁ hi₁
  | backfill limit =>
    exact hunit (steady_bind hi (steady_harmless (only_store hst trivial)) fun runs w₁ _ hi₁ _ =>
      steady_backfillRuns hst limit runs [] w₁ hi₁)
  | reconcile window now => exact hunit (steady_reconcile hst window now hi)
  | detectGaps lookback now => exact hunit (steady_detectGaps hst lookback now hi)
  | process limit => exact hunit (steady_process hst limit hi)
  | replayRange since until_ =>
    refine hunit (steady_bind hi steady_clock fun now w₁ _ hi₁ _ => ?_)
    refine steady_bind hi₁ (steady_reconcile hst _ _ hi₁) fun _ w₂ _ hi₂ _ => ?_
    refine steady_harmless (Prog.Only.bind (only_store hst trivial) fun runs => ?_)
    exact only_enqueueReplays hst _ now runs []
  | replayDerivation d =>
    refine hunit (steady_harmless (Prog.Only.bind (Prog.Only.perform trivial) fun now => ?_))
    refine Prog.Only.bind (only_store hst trivial) fun runs => ?_
    exact only_enqueueReplays hst _ now runs []
  | invalidate ledger derivation reason by_ captures =>
    refine hunit (steady_harmless (Prog.Only.bind (Prog.Only.perform trivial) fun now => ?_))
    exact only_invalidate hst ledger derivation reason by_ now captures

theorem Traced.empty : Traced rts Shared.empty where
  wellFormed := .init
  keyed h := by cases h
  runs h := by cases h
  attempts h := by cases h
  rows h := by cases h
  occurrences h := by
    obtain ⟨i, r, hr, -⟩ := h
    cases hr

/-- Any workers, their calls in any order, each stopped anywhere, keep `Traced`. -/
theorem traced_run [DecidableEq ι] (hst : ∀ i, (rts i).store = memoryStore) (tasks : ι → Task)
    {es : List (Prog.Event ι Shared)} {c : Prog.System ι Shared (Op.Ret StoreCall.Ret) Exn Unit}
    (hrun : Prog.Run Attends ⟨Shared.empty, fun i => (tasks i).program (rts i)⟩ es c) :
    Traced rts c.world := by
  have hi : (lineageRely rts).inv Shared.empty := Traced.empty
  exact (Prog.Run.abides (R := lineageRely rts) hi
    (fun i => steady_task (hst i) (tasks i) Traced.empty) hrun).1

end Together

/-! ## What the mapping stamps -/

section Stamped

variable {env : Env} {manifest : Manifest} {ctx : MappingContext}

/-- What holds of every observation a metric gives holds of every observation of the document. -/
theorem mapRecords_all {P : EnergyObservation → Prop} (hP : ∀ contract record e name mm o events,
      mapMetric env manifest contract record ctx e name mm = .ok (o, events) → P o)
    {records : List SourceRecord} {result : MappingResult}
    (h : mapRecords env manifest records ctx = .ok result) : ∀ o ∈ result.observations, P o := by
  unfold mapRecords at h
  split at h
  · cases h
  · rename_i contract _
    obtain ⟨last, hlast, h⟩ := bind_eq_ok.mp h
    cases h
    have hnote : ∀ {locator : String} {seen seen' : Seen} {o : EnergyObservation},
        (∀ x ∈ seen.values, P x) → P o → noteObservation locator seen o = .ok seen' →
        ∀ x ∈ seen'.values, P x := by
      intro locator seen seen' o hseen ho h
      unfold noteObservation at h
      split at h
      · cases h
        intro x hx
        obtain ⟨k, hk⟩ := Dict.mem_values.mp hx
        rw [Dict.get?_set] at hk
        split at hk
        · cases hk
          exact ho
        · exact hseen x (Dict.mem_values.mpr ⟨k, hk⟩)
      · split at h
        · cases h
          exact hseen
        · cases h
    refine foldlM_keeps (I := fun s : MapState => ∀ x ∈ s.seen.values, P x)
      (fun record s s' hs h => ?_) records (fun x hx => absurd hx List.not_mem_nil) hlast
    obtain ⟨e, -, h⟩ := bind_eq_ok.mp h
    refine foldlM_keeps (I := fun s : MapState => ∀ x ∈ s.seen.values, P x)
      (fun p s s' hs h => ?_) _ ?_ h
    swap
    · exact hs
    obtain ⟨⟨o, events⟩, ho, h⟩ := bind_eq_ok.mp h
    obtain ⟨seen, hseen, h⟩ := bind_eq_ok.mp h
    cases h
    exact hnote hs (hP _ _ _ _ _ _ _ ho) hseen

/-- An observation carries the payload, the derivation and the fetch time of its context. -/
theorem mapPayload_stamped {payload : Bytes} {result : MappingResult}
    (h : mapPayload env manifest payload ctx = .ok result) : ∀ o ∈ result.observations,
      o.payloadSha256 = ctx.payloadSha256 ∧ o.derivationId = ctx.derivationId ∧
        o.fetchedAt = ctx.fetchedAt := by
  unfold mapPayload at h
  split at h
  · cases h
  · refine mapRecords_all (fun contract record e name mm o events ho => ?_) h
    unfold mapMetric at ho
    split at ho
    · cases ho
    · obtain ⟨value, -, ho⟩ := bind_eq_ok.mp ho
      obtain ⟨isNegative, -, ho⟩ := bind_eq_ok.mp ho
      split at ho
      · cases ho
      · obtain ⟨o', ho', ho⟩ := bind_eq_ok.mp ho
        obtain ⟨rfl, -⟩ := validated_ok ho'
        obtain ⟨rfl, -⟩ := Prod.mk.inj (Except.ok.inj ho)
        exact ⟨rfl, rfl, rfl⟩

end Stamped

/-! ## Lineage -/

section Lineage

variable {ι : Type} {rts : ι → Runtime StoreCall.Ret}

theorem CaptureLog.Keyed.get_of {l : CaptureLog} (h : l.Keyed) {c : CaptureId} {e : CaptureEntry}
    (he : l.entries.get? c = some e) : l.get c = some e := by
  cases hg : l.get c with
  | none =>
    have := List.find?_eq_none.mp hg e (Dict.mem_values.mpr ⟨c, he⟩)
    rw [h he] at this
    exact absurd (decide_eq_true rfl) this
  | some x =>
    rw [h.get hg, Option.some.injEq] at he
    rw [he]

/-- The capture that an attempt names, its run, and the worker whose derivation is `d` and that
mapped a payload of this capture to `o`. -/
structure Lineage (rts : ι → Runtime StoreCall.Ret) (w : Shared) (a : Nat) (o : EnergyObservation)
    (run : Run) (c : CaptureId) (e : CaptureEntry) (i : ι) : Prop where
  attempt : ∃ att, w.store.attemptTable.get? a = some att ∧ att.captureId = some c ∧
    w.store.runTable.get? att.runId = some run
  entry : w.log.get c = some e
  targetId : e.targetId = run.targetId
  scheduledFor : e.scheduledFor = run.scheduledFor
  fetchedAt : e.fetchedAt = o.fetchedAt
  payload : e.payloadSha256 = o.payloadSha256
  worker : (rts i).targetId = run.targetId
  derivation : ∃ d, derivationFor (rts i).impl (rts i).manifest = some d ∧
    d.derivationId = o.derivationId
  mapped : MappedFrom (rts i) e run.scheduledFor o

theorem Trace.lineage {w : Shared} (hw : w.log.Keyed) {a : Nat} {o : EnergyObservation}
    {att : RunAttempt} {run : Run} {e : CaptureEntry} {i : ι} (h : Trace rts w a o att run e i) :
    ∃ c, Lineage rts w a o run c e i := by
  obtain ⟨c, hc, he⟩ := h.entry
  obtain ⟨payload, d, deliveryDay, processedAt, result, hsha, hd, hday, hmap, ho⟩ := h.mapped
  obtain ⟨hpayload, hderivation, hfetched⟩ := mapPayload_stamped hmap o ho
  exact ⟨c,
    { attempt := ⟨att, h.filed, hc, h.runFiled⟩
      entry := hw.get_of he
      targetId := h.targetId
      scheduledFor := h.scheduledFor
      fetchedAt := hfetched.symm
      payload := hpayload.symm
      worker := h.worker.symm
      derivation := ⟨d, hd, hderivation.symm⟩
      mapped := h.mapped }⟩

/-- Lineage is truthful. Any workers do any verbs over one log and one ledger, their calls in any
order, every call may fail with or without its effect, each worker may stop anywhere: every row, and
every occurrence of a row, is what some worker's mapping made of a payload of the capture that its
attempt names, an entry of the run's own target and instant, with the fetch time, the payload hash
and the derivation recorded. -/
theorem lineage_truthful [DecidableEq ι] (hst : ∀ i, (rts i).store = memoryStore) (tasks : ι → Task)
    {es : List (Prog.Event ι Shared)} {c : Prog.System ι Shared (Op.Ret StoreCall.Ret) Exn Unit}
    (hrun : Prog.Run Attends ⟨Shared.empty, fun i => (tasks i).program (rts i)⟩ es c) :
    (∀ n row, c.world.store.rowTable.get? n = some row → ∃ run x e i,
      Lineage rts c.world row.runAttemptId row.observation run x e i) ∧
    ∀ v f t a, c.world.store.HasOccurrence v f t a → ∃ o run x e i,
      Lineage rts c.world a o run x e i ∧ versionIdentity o = v ∧ o.fetchedAt = f ∧
        orderingInstant o = t := by
  have h := traced_run hst tasks hrun
  refine ⟨fun n row hrow => ?_, fun v f t a hocc => ?_⟩
  · obtain ⟨att, run, e, i, ht⟩ := h.rows hrow
    obtain ⟨x, hx⟩ := ht.lineage h.keyed
    exact ⟨run, x, e, i, hx⟩
  · obtain ⟨o, ⟨att, run, e, i, ht⟩, hv, hf, hi⟩ := h.occurrences hocc
    obtain ⟨x, hx⟩ := ht.lineage h.keyed
    exact ⟨o, run, x, e, i, hx, hv, hf, hi⟩

/-- A worker of the prices table of a page. -/
def pricesWorker : Runtime StoreCall.Ret where
  manifest := pricesTable "#today"
  impl := asciiImplementation pageLibs fun _ => 0
  store := memoryStore
  owner := "worker"
  leaseTtl := 5 * minute
  reconcileWindow := 48 * hour

/-- The page is one byte, and it is always the same time. -/
def pageAnswer (w : Shared) : (o : Op StoreCall) → Except Exn (o.Ret StoreCall.Ret) × Shared
  | .clock => (.ok (1767225600 * second : Instant), w)
  | .fetch _ _ => (.ok ⟨"https://www.ote-cr.cz/", 200, [1], none, 1767225600 * second, none, none,
      false, []⟩, w)
  | .bronze c =>
    let b : Bronze := ⟨Dict.empty.set 1 [1], none, w.log⟩
    (.ok (b.exec hexAddress c).1, { w with log := (b.exec hexAddress c).2.log })
  | .ledger c =>
    match w.store.exec c with
    | some (r, s) => (.ok r, { w with store := s })
    | none => (.error (.keyError "no such row"), w)

theorem pageAnswer_attends (w : Shared) (o : Op StoreCall) :
    Attends w o (pageAnswer w o).1 (pageAnswer w o).2 := by
  cases o with
  | clock => exact rfl
  | fetch ctx previous => exact rfl
  | bronze c => exact ⟨rfl, hexAddress, ⟨Dict.empty.set 1 [1], none, w.log⟩, rfl, .inl ⟨rfl, rfl⟩⟩
  | ledger c =>
    simp only [pageAnswer]
    split
    · rename_i r s hc
      exact ⟨rfl, .inl ⟨r, rfl, hc⟩⟩
    · exact ⟨rfl, .inr ⟨⟨_, rfl⟩, .inl rfl⟩⟩

/-- A capture, and then a pass of `process` by another worker. -/
def pageTasks (second : Bool) : Task :=
  if second then .process none else .capture ⟨1767225600 * EnergyPlatform.second, none, false, .capture⟩

def pageRun : List (Prog.Event Bool Shared) × Prog.System Bool Shared (Op.Ret StoreCall.Ret) Exn Unit :=
  Prog.schedule pageAnswer
    ⟨Shared.empty, fun second => (pageTasks second).program pricesWorker⟩
    (List.replicate 24 true ++ List.replicate 12 false)

/-- The one row of that run is traced to the capture. -/
theorem lineage_truthful_page : ∃ row run x e,
    pageRun.2.world.store.rowTable.get? 1 = some row ∧
      row.observation.value = some (.finite false 10 0) ∧
      ∃ i, Lineage (fun _ : Bool => pricesWorker) pageRun.2.world 2 row.observation run x e i := by
  have hrun : Prog.Run Attends ⟨Shared.empty, fun second => (pageTasks second).program pricesWorker⟩
      pageRun.1 pageRun.2 := Prog.schedule_run Attends pageAnswer_attends _ _
  have hrow : (pageRun.2.world.store.rowTable.get? 1).map
      (fun row => (row.observation.value, row.runAttemptId)) =
        some (some (.finite false 10 0), 2) := by decide +kernel
  obtain ⟨row, hget, hfields⟩ := Option.map_eq_some_iff.mp hrow
  obtain ⟨hvalue, hattempt⟩ := Prod.mk.inj hfields
  have hmemory : ∀ b : Bool, ((fun _ => pricesWorker) b : Runtime StoreCall.Ret).store = memoryStore :=
    fun _ => rfl
  obtain ⟨run, x, e, i, h⟩ := (lineage_truthful hmemory pageTasks hrun).1 1 row hget
  exact ⟨row, run, x, e, hget, hvalue, i, hattempt ▸ h⟩

end Lineage

end EnergyPlatform
