import EnergyPlatform.Lib.Ends
import EnergyPlatform.Runtime.Process

/-!
# Runtime.Commits

What processing a claim does to the log and the ledger: nothing, until its one commit.

`processOne_ends`: on every path, whatever the calls answer, `process_one` only reads, and where it
returns it made exactly one commit, at its end; the commit carries its derivation, rows only with the
verdict `ok`, and the report says what the ledger answered.
-/

namespace EnergyPlatform

open Lib (Dict Prog)

/-- The call changes neither the log, nor the blobs, nor the ledger. -/
def ReadOnly : Op StoreCall → Prop
  | .clock | .bronze (.getHot _) | .bronze (.getCold _) | .bronze (.entriesFor ..)
  | .bronze (.list ..) | .bronze (.get _) | .bronze (.invalidations _) => True
  | .ledger (.getRun ..) | .ledger (.runs ..) | .ledger (.attempts _) | .ledger (.pendingRuns ..)
  | .ledger (.runsWithDerivation _) | .ledger (.invalidations _) | .ledger (.isInvalidated ..)
  | .ledger (.attemptCaptures _) | .ledger (.currentRows _) => True
  | _ => False

/-- What `process_one` may commit under a derivation. -/
structure Fits (d : Derivation) (args : Commit) : Prop where
  derivation : args.derivation = some d
  verdict : (args.state = .processed ∧ args.outcome = .ok ∧ args.error = none) ∨
    (args.state = .failed ∧ (args.outcome = .failed ∨ args.outcome = .quarantined) ∧
      args.error.isSome ∧ args.observations = [])

/-- The outcome that is reported for a commit. -/
def reportedOutcome (args : Commit) (result : CommitResult) : AttemptOutcome :=
  if result.lostLease then .lostLease
  else if args.state = .failed then args.outcome
  else if result.inserted ≠ 0 ∨ result.occurrences ≠ 0 ∨ args.observations = [] then .ok
  else .noop

/-- The report of a commit and its answer. -/
structure ReportOf (c : Claim) (args : Commit) (result : CommitResult) (report : ProcessReport) :
    Prop where
  runId : report.runId = c.run.id
  scheduledFor : report.scheduledFor = c.run.scheduledFor
  attemptKind : report.attemptKind = c.attempt.kind
  outcome : report.outcome = reportedOutcome args result
  inserted : report.inserted =
    if result.lostLease ∨ args.state = .failed then 0 else result.inserted
  error : report.error = args.error

/-- The last call is a commit under the claim, and the report is its. -/
def CommitsUnder (c : Claim) (d : Derivation) (o : Op StoreCall) : Prop :=
  ∃ args now, o = .ledger (.commit c args now) ∧ Fits d args

def ReportsOn (o : Op StoreCall) : o.Ret StoreCall.Ret → ProcessReport → Prop :=
  match o with
  | .ledger (.commit c args _) => fun result report => ReportOf c args result report
  | _ => fun _ _ => False

section Verbs

variable {rt : Runtime StoreCall.Ret} (hst : rt.store = memoryStore) {α : Type}

/-- The program only reads. -/
abbrev Reads (p : Verb StoreCall.Ret α) : Prop := p.Only ReadOnly fun _ => True

theorem reads_py (x : Except PyError α) : Reads (pyExcept x : Verb StoreCall.Ret α) := by
  cases x with
  | ok a => exact trivial
  | error e => exact trivial

theorem reads_clock : Reads (clock : Verb StoreCall.Ret Instant) := Prog.Only.perform trivial

theorem reads_readPayload (ref : BlobRef) : Reads (readPayload rt ref) := by
  have hverified : ∀ data tier,
      Reads (Bronze.verified rt.env.sha256 ref data tier : Verb StoreCall.Ret _) := by
    intro data tier
    unfold Bronze.verified
    split <;> exact trivial
  refine Prog.Only.tryCatch (fun _ => True) (Prog.Only.bind ?_ fun _ => trivial)
    (fun _ _ => trivial) fun e _ => ?_
  · refine Prog.Only.bind (Prog.Only.perform trivial) fun hot => ?_
    cases hot with
    | some data => exact hverified data .hot
    | none =>
      refine Prog.Only.bind (Prog.Only.perform trivial) fun cold => ?_
      cases cold with
      | some data => exact hverified data .cold
      | none => exact trivial
  · split <;> exact trivial

include hst

theorem reads_store {c : StoreCall} (hc : ReadOnly (.ledger c)) : Reads (rt.store c) := by
  rw [hst]
  exact Prog.Only.perform hc

theorem reads_addTransportRows (datasetId : String) (start stop : Instant)
    (others : List Transport) :
    ∀ out : OtherCurrent, Reads (addTransportRows rt datasetId start stop out others) := by
  induction others with
  | nil => exact fun _ => trivial
  | cons t rest ih => exact fun out => Prog.Only.bind (reads_store hst trivial) fun _ => ih _

theorem reads_otherTransports (observations : List EnergyObservation) :
    Reads (readOtherTransports rt observations) := by
  unfold readOtherTransports
  split
  · split
    · exact reads_addTransportRows hst ..
    · exact trivial
  · exact trivial

/-- A program that only reads up to one commit under the claim. -/
abbrev CommitsOnce (c : Claim) (d : Derivation) (p : Verb StoreCall.Ret ProcessReport) : Prop :=
  p.Ends ReadOnly (CommitsUnder c d) ReportsOn

theorem commitFailed_ends {c : Claim} {d : Derivation} {outcome : AttemptOutcome} {error : String}
    {event : QualityEvent} (ho : outcome = .failed ∨ outcome = .quarantined) :
    CommitsOnce c d (commitFailed rt c d outcome error event) := by
  refine Prog.Ends.bind reads_clock fun now => ?_
  simp only [Runtime.commit, hst]
  refine Prog.Ends.last (o := Op.ledger (StoreCall.commit c _ now)) ⟨_, now, rfl, rfl, .inr ⟨rfl, ho, rfl, rfl⟩⟩
    fun result => ⟨rfl, rfl, rfl, ?_, ?_, rfl⟩
  · simp only [reportedOutcome, if_true]
  · simp only [or_true, if_true]

theorem commitMapped_ends (c : Claim) (d : Derivation) (result : MappingResult)
    (extra : List QualityEvent) : CommitsOnce c d (commitMapped rt c d result extra) := by
  refine Prog.Ends.bind (reads_otherTransports hst _) fun others => ?_
  refine Prog.Ends.bind (reads_py _) fun compared => ?_
  refine Prog.Ends.bind reads_clock fun now => ?_
  simp only [Runtime.commit, hst]
  refine Prog.Ends.last (o := Op.ledger (StoreCall.commit c _ now)) ⟨_, now, rfl, rfl, .inl ⟨rfl, rfl, rfl⟩⟩
    fun committed => ?_
  cases hl : committed.lostLease with
  | true =>
    simp only [if_true]
    exact ⟨rfl, rfl, rfl, by simp only [reportedOutcome, hl, if_true], by simp [hl], rfl⟩
  | false =>
    simp only [Bool.false_eq_true, if_false]
    refine ⟨rfl, rfl, rfl, ?_, ?_, rfl⟩
    · simp [reportedOutcome, hl]
    · simp [hl]

/-- On every path `process_one` only reads, and where it returns it made one commit, its last call. -/
theorem processOne_ends (c : Claim) (d : Derivation) : CommitsOnce c d (processOne rt c d) := by
  have hfind : Reads (findEntry c.capture : Verb StoreCall.Ret _) := by
    unfold findEntry
    split
    · exact Prog.Only.perform trivial
    · exact trivial
  refine Prog.Ends.bind hfind fun entry => ?_
  cases entry with
  | none => exact commitFailed_ends hst (.inl rfl)
  | some entry =>
    refine Prog.Ends.bind (reads_store hst trivial) fun void => ?_
    cases void with
    | true =>
      refine Prog.Ends.bind (reads_store hst trivial) fun decisions => ?_
      exact commitFailed_ends hst (.inr rfl)
    | false =>
      refine Prog.Ends.bind (reads_readPayload entry.rawRef) fun payload => ?_
      cases payload with
      | error msg => exact commitFailed_ends hst (.inl rfl)
      | ok payload =>
        refine Prog.Ends.bind (reads_py _) fun deliveryDay => ?_
        refine Prog.Ends.bind reads_clock fun processedAt => ?_
        split
        · exact commitFailed_ends hst (.inr rfl)
        · exact trivial
        · refine Prog.Ends.bind (reads_py _) fun extra => ?_
          exact commitMapped_ends hst c d _ extra

/-- Whatever answers the calls, and whatever it keeps as long as it is only read: where `process_one`
returns, it only read until one last call, a commit under its claim and its derivation, with rows only
where the verdict is `ok`, and the report says what was answered. -/
theorem processOne_commits {σ : Type} {answer : σ → (o : Op StoreCall) → Except Exn
    (o.Ret StoreCall.Ret) × σ} {same : σ → σ → Prop} (hrefl : ∀ s, same s s)
    (htrans : ∀ s s' s'', same s s' → same s' s'' → same s s'')
    (hread : ∀ s o, ReadOnly o → same s (answer s o).2) {c : Claim} {d : Derivation} {s s' : σ}
    {report : ProcessReport} (h : (processOne rt c d).run answer s = (.ok report, s')) :
    ∃ s₁ args now result, same s s₁ ∧
      answer s₁ (.ledger (.commit c args now)) = (.ok result, s') ∧ Fits d args ∧
      ReportOf c args result report := by
  obtain ⟨s₁, o, result, hsame, ⟨args, now, rfl, hfits⟩, hcommit, hreport⟩ :=
    Prog.Ends.run hrefl htrans hread (processOne_ends hst c d) h
  exact ⟨s₁, args, now, result, hsame, hcommit, hfits, hreport⟩

end Verbs

end EnergyPlatform
