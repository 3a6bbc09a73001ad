import EnergyPlatform.Runtime.Host

/-!
# Runtime.Plan

The part of a capture before the ledger is told: what it fetches and stores, and the report it
plans. `capture_eq`: a capture is that part and then the acknowledgement. `captureBronze_ok`: the
entry a plan names is in the capture log.
-/

namespace EnergyPlatform

open Lib (Prog)

section Plan

variable {L : Type} {LRet : L → Type} (rt : Runtime LRet)

/-- What is acknowledged, and the report once it is known whether the ledger was updated. -/
structure Plan where
  ack : Ack
  entry : Option CaptureEntry
  report : Bool → CaptureReport

def refusedPlan (req : CaptureRequest) (outcome : AttemptOutcome) (error : String) : Plan :=
  ⟨⟨outcome, none, some error, false⟩, none,
    fun updated => ⟨req.scheduledFor, outcome, none, false, some error, updated⟩⟩

def storedPlan (req : CaptureRequest) (o : Bronze.CaptureOutcome) : Plan :=
  ⟨⟨.ok, some o.entry.captureId, none, req.force && o.created && o.entry.contentChanged⟩,
    some o.entry, fun updated => ⟨req.scheduledFor, .ok, some o.entry, o.created, none, updated⟩⟩

def noopPlan (req : CaptureRequest) (entry : CaptureEntry) : Plan :=
  ⟨⟨.noop, some entry.captureId, none, false⟩, some entry,
    fun updated => ⟨req.scheduledFor, .noop, some entry, false, none, updated⟩⟩

/-- `captureNew` up to the acknowledgement. -/
def captureNewBronze (req : CaptureRequest) : Verb LRet Plan := do
  let d ← requestedDay rt req
  let baseline ← captureBaseline rt req.scheduledFor
  let conditional := baseline.map fun b => ⟨b.etag, b.lastModified⟩
  match ← fetchOutcome ⟨req.scheduledFor, d⟩ conditional with
  | .error (outcome, msg) => .ret (refusedPlan req outcome msg)
  | .ok result =>
    match ← bronzeOutcome ⟨rt.targetId, req.scheduledFor, result,
        rt.manifest.contract.sourceTransport, req.force, .given baseline⟩ with
    | .error (outcome, msg) => .ret (refusedPlan req outcome msg)
    | .ok o => .ret (storedPlan req o)

/-- `capture` up to the acknowledgement. -/
def captureBronze (req : CaptureRequest) : Verb LRet Plan := do
  let existing ← entriesFor rt.targetId req.scheduledFor
  match if req.force then none else existing.getLast? with
  | some entry => .ret (noopPlan req entry)
  | none => captureNewBronze rt req

/-- Acknowledge, then report. -/
def finish (req : CaptureRequest) (p : Plan) : Verb LRet CaptureReport := do
  let updated ← ack rt req p.ack
  .ret (p.report updated)

theorem captureNew_eq (req : CaptureRequest) :
    captureNew rt req = (captureNewBronze rt req).bind (finish rt req) := by
  simp only [captureNew, captureNewBronze, Prog.bind_eq, Prog.bind_assoc]
  congr 1
  funext d
  congr 1
  funext baseline
  congr 1
  funext fetched
  cases fetched with
  | error e => rfl
  | ok result =>
    simp only [Prog.bind_assoc]
    congr 1
    funext stored
    cases stored with
    | error e => rfl
    | ok o => rfl

/-- A capture is its Bronze part, then the ledger. -/
theorem capture_eq (req : CaptureRequest) :
    capture rt req = (captureBronze rt req).bind (finish rt req) := by
  simp only [capture, captureBronze, Prog.bind_eq, Prog.bind_assoc]
  congr 1
  funext existing
  generalize (if req.force then none else existing.getLast?) = last
  cases last with
  | none => exact captureNew_eq rt req
  | some entry => rfl

end Plan

/-! ## The Bronze part of a capture -/

/-- What an outage surfaces as. -/
def Exn.outage : Exn → Bool
  | storeUnavailable _ | operationalError _ | exit _ => true
  | _ => false

def Op.isLedger {L : Type} : Op L → Bool
  | ledger _ => true
  | _ => false

section BronzePart

variable {L : Type} {LRet : L → Type}

/-- The program makes no ledger call and raises nothing that looks like an outage. -/
abbrev Apart {α : Type} (p : Verb LRet α) : Prop :=
  p.Only (fun o => o.isLedger = false) fun e => e.outage = false

theorem apart_pyExcept {α : Type} (x : Except PyError α) : Apart (pyExcept x : Verb LRet α) := by
  cases x with
  | ok a => exact trivial
  | error e => exact rfl

theorem apart_storePayload (a : Bronze.CaptureArgs) (previous : Option CaptureEntry)
    (blob : Option Bronze.StoredBlob) : Apart (Bronze.storePayload a previous blob : Verb LRet _) := by
  unfold Bronze.storePayload
  split
  · cases previous with
    | none => exact rfl
    | some p =>
      simp only
      split
      · exact rfl
      · exact trivial
  · cases blob with
    | some b => exact trivial
    | none => exact Prog.Only.bind (.perform rfl) fun _ => trivial

theorem apart_captureLoop (a : Bronze.CaptureArgs) (n : Nat) (blob : Option Bronze.StoredBlob)
    (collided : Bool) : Apart (Bronze.captureLoop a n blob collided : Verb LRet _) := by
  induction n generalizing blob collided with
  | zero => exact rfl
  | succ n ih =>
    refine Prog.Only.bind (.perform rfl) fun existing => ?_
    generalize (if a.force = true ∨ collided = true then none else existing.getLast?) = last
    cases last with
    | some e => exact trivial
    | none =>
      refine Prog.Only.bind (apart_storePayload a _ blob) fun stored => ?_
      refine Prog.Only.bind (.perform rfl) fun created => ?_
      split
      · exact trivial
      · exact ih _ _

theorem apart_bronzeOutcome (a : Bronze.CaptureArgs) : Apart (bronzeOutcome a : Verb LRet _) := by
  refine Prog.Only.tryCatch (fun e => e.outage = false)
    (.bind (apart_captureLoop a _ none false) fun _ => trivial) (fun _ h => h) fun e he => ?_
  cases e with
  | bronzeError msg => exact trivial
  | _ => exact he

theorem apart_fetchOutcome (ctx : FetchContext) (conditional : Option Conditional) :
    Apart (fetchOutcome ctx conditional : Verb LRet _) := by
  refine Prog.Only.tryCatch (fun e => e.outage = false)
    (.bind (.perform rfl) fun _ => trivial) (fun _ h => h) fun e he => ?_
  cases e with
  | fetch f => cases f <;> first | exact trivial | exact he
  | _ => exact he

variable (rt : Runtime LRet)

theorem apart_captureBaseline (at_ : Instant) : Apart (captureBaseline rt at_) := by
  refine Prog.Only.bind (apart_pyExcept _) fun d => ?_
  refine Prog.Only.bind (apart_pyExcept _) fun bounds => ?_
  refine Prog.Only.bind (.perform rfl) fun entries => ?_
  exact Prog.Only.bind (apart_pyExcept _) fun _ => trivial

theorem apart_captureNewBronze (req : CaptureRequest) : Apart (captureNewBronze rt req) := by
  have hday : Apart (requestedDay rt req) := by
    unfold requestedDay
    cases req.deliveryDay with
    | some d => exact trivial
    | none => exact apart_pyExcept _
  refine Prog.Only.bind hday fun d => ?_
  refine Prog.Only.bind (apart_captureBaseline rt _) fun baseline => ?_
  refine Prog.Only.bind (apart_fetchOutcome _ _) fun fetched => ?_
  cases fetched with
  | error e => exact trivial
  | ok result =>
    refine Prog.Only.bind (apart_bronzeOutcome _) fun stored => ?_
    cases stored with
    | error e => exact trivial
    | ok o => exact trivial

theorem apart_captureBronze (req : CaptureRequest) : Apart (captureBronze rt req) := by
  refine Prog.Only.bind (.perform rfl) fun existing => ?_
  generalize (if req.force = true then none else existing.getLast?) = last
  cases last with
  | some entry => exact trivial
  | none => exact apart_captureNewBronze rt req

end BronzePart

section Stored

variable {out : Outside}

/-- The entry is in the capture log. -/
def Logged (b : Bronze) (e : CaptureEntry) : Prop := ∃ k, b.log.entries.get? k = some e

/-- What a call apart from the ledger answers does not depend on the connection, and what it
raises is no outage. -/
theorem answer_apart (out : Outside) (h : Host) {o : Op DriverCall} (ho : o.isLedger = false) :
    (∀ c, ({ h with connection := c } : Host).answer out o =
      ((h.answer out o).1, { (h.answer out o).2 with connection := c })) ∧
    (h.answer out o).2.connection = h.connection ∧
      ∀ e, (h.answer out o).1 = .error e → e.outage = false := by
  cases o with
  | clock => exact ⟨fun _ => rfl, rfl, nofun⟩
  | fetch ctx previous =>
    refine ⟨fun _ => rfl, rfl, fun e he => ?_⟩
    simp only [Host.answer] at he
    cases hf : out.fetch h.fetches ctx previous with
    | ok r => rw [hf] at he; cases he
    | error f => rw [hf] at he; cases he; rfl
  | bronze c => exact ⟨fun _ => rfl, rfl, nofun⟩
  | ledger d => cases ho

theorem Apart.run {α : Type} {p : Verb DriverCall.Ret α} (hp : Apart p) (out : Outside) (h : Host) :
    (p.run (Host.answer out) h).2.connection = h.connection ∧
      ∀ e, (p.run (Host.answer out) h).1 = .error e → e.outage = false := by
  have hans : ∀ (s : Host) (o : Op DriverCall), o.isLedger = false → s.connection = h.connection →
      (s.answer out o).2.connection = h.connection ∧
        ∀ e, (s.answer out o).1 = .error e → e.outage = false :=
    fun s o ho hs => ⟨(answer_apart out s ho).2.1.trans hs, (answer_apart out s ho).2.2⟩
  exact Prog.Only.run _ hp hans rfl

/-- A program apart from the ledger does the same on any connection. -/
theorem Apart.run_connection {α : Type} {p : Verb DriverCall.Ret α} (hp : Apart p) (out : Outside) (c : Connection)
    (h : Host) : p.run (Host.answer out) { h with connection := c } =
      ((p.run (Host.answer out) h).1,
        { (p.run (Host.answer out) h).2 with connection := c }) := by
  induction p generalizing h with
  | ret a => rfl
  | raise e => rfl
  | call o k ih =>
    obtain ⟨hc, -, he⟩ := answer_apart out h hp.1
    rw [Prog.run_call, Prog.run_call, hc c]
    exact ih _ (hp.2 _ he) _

theorem logged_of_mem {b : Bronze} {targetId : String} {at_ : Instant} {e : CaptureEntry}
    (h : e ∈ b.log.entriesFor targetId at_) : Logged b e := by
  simp only [CaptureLog.entriesFor, CaptureLog.ordered, List.mem_insertionSort, List.mem_filter,
    Lib.Dict.mem_values] at h
  exact h.1

theorem logged_putNew {b : Bronze} {e : CaptureEntry} (h : (b.log.putNew e).1 = true) :
    Logged { b with log := (b.log.putNew e).2 } e := by
  unfold CaptureLog.putNew at h ⊢
  split at h
  · cases h
  · rename_i hc
    rw [if_neg hc]
    exact ⟨e.key, Lib.Dict.get?_set_self _ _ _⟩

/-- What `Bronze.capture` returns is in the log when it returns. -/
theorem captureLoop_logged {a : Bronze.CaptureArgs} {n : Nat} {blob : Option Bronze.StoredBlob}
    {collided : Bool} {h h' : Host} {o : Bronze.CaptureOutcome}
    (hr : (Bronze.captureLoop a n blob collided : Verb DriverCall.Ret _).run
      (Host.answer out) h = (.ok o, h')) : Logged h'.bronze o.entry := by
  induction n generalizing blob collided h with
  | zero => cases hr
  | succ n ih =>
    obtain ⟨existing, h₁, he, hr⟩ := Prog.of_run_bind _ hr
    generalize hlast : (if a.force = true ∨ collided = true then none
      else existing.getLast?) = last at hr
    cases last with
    | some last =>
      cases he
      cases hr
      split at hlast
      · cases hlast
      · exact logged_of_mem (List.mem_of_getLast? hlast)
    | none =>
      obtain ⟨stored, h₂, -, hr⟩ := Prog.of_run_bind _ hr
      obtain ⟨created, h₃, hp, hr⟩ := Prog.of_run_bind _ hr
      cases hp
      split at hr
      · rename_i hc
        cases hr
        exact logged_putNew hc
      · exact ih hr

theorem bronzeOutcome_logged {a : Bronze.CaptureArgs} {h h' : Host} {o : Bronze.CaptureOutcome}
    (hr : (bronzeOutcome a : Verb DriverCall.Ret _).run (Host.answer out) h =
      (.ok (.ok o), h')) : Logged h'.bronze o.entry := by
  obtain ⟨x, hx, hr⟩ | ⟨e, h₁, -, hr⟩ := Prog.of_run_tryCatch _ hr
  · cases hx
    obtain ⟨o', h₁, ho, hr⟩ := Prog.of_run_bind _ hr
    cases hr
    exact captureLoop_logged ho
  · cases e <;> cases hr

theorem fetchOutcome_refused {ctx : FetchContext} {c : Option Conditional} {h h' : Host}
    {e : AttemptOutcome × String}
    (hr : (fetchOutcome ctx c : Verb DriverCall.Ret _).run (Host.answer out) h =
      (.ok (.error e), h')) : e.1 = .sourceUnavailable ∨ e.1 = .failed := by
  obtain ⟨x, hx, hr⟩ | ⟨exn, h₁, -, hr⟩ := Prog.of_run_tryCatch _ hr
  · cases hx
    obtain ⟨r, h₁, -, hr⟩ := Prog.of_run_bind _ hr
    cases hr
  · cases exn with
    | fetch f =>
      cases f with
      | unavailable msg => cases hr; exact .inl rfl
      | unbuildable msg => cases hr; exact .inr rfl
      | other msg => cases hr
    | _ => cases hr

theorem bronzeOutcome_refused {a : Bronze.CaptureArgs} {h h' : Host} {e : AttemptOutcome × String}
    (hr : (bronzeOutcome a : Verb DriverCall.Ret _).run (Host.answer out) h =
      (.ok (.error e), h')) : e.1 = .failed := by
  obtain ⟨x, hx, hr⟩ | ⟨exn, h₁, -, hr⟩ := Prog.of_run_tryCatch _ hr
  · cases hx
    obtain ⟨r, h₁, -, hr⟩ := Prog.of_run_bind _ hr
    cases hr
  · cases exn with
    | bronzeError msg => cases hr; rfl
    | _ => cases hr

/-- A plan reports what it acknowledges, and the entry it names is in the log. -/
structure PlanOk (p : Plan) (b : Bronze) : Prop where
  outcome : ∀ u, (p.report u).outcome = p.ack.outcome
  entry : ∀ u, (p.report u).entry = p.entry
  updated : ∀ u, (p.report u).ledgerUpdated = u
  named : p.ack.outcome = .ok ∨ p.ack.outcome = .noop → ∃ e, p.entry = some e ∧ Logged b e

theorem captureNewBronze_ok {rt : Runtime DriverCall.Ret} {req : CaptureRequest} {h h' : Host}
    {p : Plan} (hr : (captureNewBronze rt req).run (Host.answer out) h = (.ok p, h')) :
    PlanOk p h'.bronze := by
  obtain ⟨d, h₁, -, hr⟩ := Prog.of_run_bind _ hr
  obtain ⟨baseline, h₂, -, hr⟩ := Prog.of_run_bind _ hr
  obtain ⟨fetched, h₃, hf, hr⟩ := Prog.of_run_bind _ hr
  cases fetched with
  | error e =>
    cases hr
    refine ⟨fun _ => rfl, fun _ => rfl, fun _ => rfl, fun ho => ?_⟩
    have hne := fetchOutcome_refused hf
    simp only [refusedPlan] at ho
    rcases ho with ho | ho <;> rw [ho] at hne <;> simp at hne
  | ok result =>
    obtain ⟨stored, h₄, hs, hr⟩ := Prog.of_run_bind _ hr
    cases stored with
    | error e =>
      cases hr
      refine ⟨fun _ => rfl, fun _ => rfl, fun _ => rfl, fun ho => ?_⟩
      have hne := bronzeOutcome_refused hs
      simp only [refusedPlan] at ho
      rcases ho with ho | ho <;> rw [ho] at hne <;> simp at hne
    | ok o =>
      cases hr
      exact ⟨fun _ => rfl, fun _ => rfl, fun _ => rfl, fun _ => ⟨_, rfl, bronzeOutcome_logged hs⟩⟩

theorem captureBronze_ok {rt : Runtime DriverCall.Ret} {req : CaptureRequest} {h h' : Host}
    {p : Plan} (hr : (captureBronze rt req).run (Host.answer out) h = (.ok p, h')) :
    PlanOk p h'.bronze := by
  obtain ⟨existing, h₁, he, hr⟩ := Prog.of_run_bind _ hr
  generalize hlast : (if req.force = true then none else existing.getLast?) = last at hr
  cases last with
  | some entry =>
    cases he
    cases hr
    split at hlast
    · cases hlast
    · exact ⟨fun _ => rfl, fun _ => rfl, fun _ => rfl,
        fun _ => ⟨_, rfl, logged_of_mem (List.mem_of_getLast? hlast)⟩⟩
  | none => exact captureNewBronze_ok hr

end Stored

end EnergyPlatform
