import EnergyPlatform.Store.Memory

/-!
# Store.Calls

`StoreCall` lists the calls a worker can make on the store, one constructor a method, and
`MemoryStore.exec` runs one of them: every call is one atomic step, which is what the transactions
of the database give. `Reachable` is a store that any sequence of calls leaves behind.
-/

namespace EnergyPlatform

inductive StoreCall where
  | ensureRun (targetId : String) (scheduledFor : Instant) (state : RunState) (origin : RunOrigin)
      (captureId : Option CaptureId) (now : Instant)
  | getRun (targetId : String) (scheduledFor : Instant)
  | runs (targetId : String) (since until_ : Option Instant)
  | setState (runId : Nat) (state : RunState) (now : Instant)
  | markRecaptured (runId : Nat) (captureId : CaptureId) (now : Instant)
  | claim (runId : Nat) (owner : String) (ttl : Duration) (now : Instant)
  | renew (claim : Claim) (ttl : Duration) (now : Instant)
  | commit (claim : Claim) (args : Commit) (now : Instant)
  | recordAttempt (runId : Nat) (kind : AttemptKind) (outcome : AttemptOutcome)
      (captureId : Option CaptureId) (error : Option String) (now : Instant)
  | enqueueReplay (runId : Nat) (now : Instant)
  | attempts (runId : Nat)
  | pendingRuns (targetId : String) (now : Instant)
  | runsWithDerivation (derivationId : DerivationId)
  | addInvalidation (inv : Invalidation)
  | invalidations (targetId : String)
  | isInvalidated (captureId : CaptureId) (derivationId : Option DerivationId)
  | attemptCaptures (targetId : String)
  | registerDerivation (d : Derivation) (now : Instant)
  | addEvents (targetId : String) (events : List QualityEvent) (runAttemptId : Option Nat)
      (now : Instant)
  | currentRows (q : MemoryStore.CurrentQuery)

/-- What a call returns. -/
def StoreCall.Ret : StoreCall → Type
  | ensureRun .. | setState .. | markRecaptured .. => Run
  | getRun .. => Option Run
  | runs .. | pendingRuns .. | runsWithDerivation .. => List Run
  | claim .. => Option Claim
  | renew .. | addInvalidation .. | isInvalidated .. => Bool
  | commit .. => CommitResult
  | recordAttempt .. => RunAttempt
  | enqueueReplay .. => Option RunAttempt
  | attempts .. => List RunAttempt
  | attemptCaptures .. => List (Nat × CaptureId)
  | registerDerivation .. => Derivation
  | addEvents .. => Nat
  | invalidations .. => List Invalidation
  | currentRows .. => List CurrentRow

namespace MemoryStore

/-- Run one call; `none` is a `KeyError`. -/
def exec (s : MemoryStore) : (c : StoreCall) → Option (c.Ret × MemoryStore)
  | .ensureRun targetId at_ state origin captureId now =>
    some (s.ensureRun targetId at_ state origin captureId now)
  | .getRun targetId at_ => some (s.getRun targetId at_, s)
  | .runs targetId since until_ => some (s.runs targetId since until_, s)
  | .setState runId state now => s.setState runId state now
  | .markRecaptured runId captureId now => s.markRecaptured runId captureId now
  | .claim runId owner ttl now => s.claim runId owner ttl now
  | .renew c ttl now => s.renew c ttl now
  | .commit c args now => s.commit c args now
  | .recordAttempt runId kind outcome captureId error now =>
    some (s.recordAttempt runId kind outcome captureId error now)
  | .enqueueReplay runId now => s.enqueueReplay runId now
  | .attempts runId => some (s.attempts runId, s)
  | .pendingRuns targetId now => some (s.pendingRuns targetId now, s)
  | .runsWithDerivation d => (s.runsWithDerivation d).map fun rs => (rs, s)
  | .addInvalidation inv => some (s.addInvalidation inv)
  | .invalidations targetId => some (s.invalidations targetId, s)
  | .isInvalidated captureId d => some (s.isInvalidated captureId d, s)
  | .attemptCaptures targetId => some (s.attemptCaptures targetId, s)
  | .registerDerivation d now => some (s.registerDerivation d now)
  | .addEvents targetId events attemptId now => some (s.addEvents targetId events attemptId now)
  | .currentRows q => (s.currentRows dataset q).map fun rows => (rows, s)

/-- A store that some sequence of calls leaves behind. -/
inductive Reachable : MemoryStore → Prop where
  | init : Reachable init
  | call {s s' : MemoryStore} {c : StoreCall} {out : c.Ret} :
      Reachable s → s.exec c = some (out, s') → Reachable s'

/-- The store after a list of calls. -/
def after (s : MemoryStore) : List StoreCall → Option MemoryStore
  | [] => some s
  | c :: rest => (s.exec c).bind fun p => after p.2 rest

theorem Reachable.after {calls : List StoreCall} : ∀ {s s' : MemoryStore}, Reachable s →
    s.after calls = some s' → Reachable s' := by
  induction calls with
  | nil => intro s s' hs h; cases h; exact hs
  | cons c rest ih =>
    intro s s' hs h
    obtain ⟨⟨out, s₁⟩, he, h⟩ := Option.bind_eq_some_iff.mp h
    exact ih (hs.call he) h

end MemoryStore

end EnergyPlatform
