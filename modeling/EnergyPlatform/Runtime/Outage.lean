import EnergyPlatform.Mapping.Targets
import EnergyPlatform.Runtime.Acknowledge
import EnergyPlatform.Runtime.Plan

/-!
# Runtime.Outage

A capture under every pattern of database outages. `capture_survives_iff`: the verb completes as
its Bronze part dictates exactly when the acknowledgement tolerates the outage; the command, when
besides it could connect.
-/

namespace EnergyPlatform

open Lib (Prog)

/-! ## A capture under an outage -/

section Survival

variable {out : Outside}

/-- The run `r` of a capture ended as its Bronze part `b` dictates, whatever the ledger did. -/
structure Survives (out : Outside) (b : Except Exn Plan × Host)
    (r : Except Exn CaptureReport × Host) : Prop where
  /-- Only what the Bronze part raised is raised, and that is no outage. -/
  raises : ∀ e, b.1 = .error e → r.1 = .error e ∧ e.outage = false
  fetched : r.2.fetches = b.2.fetches
  stored : r.2.bronze = b.2.bronze
  reports : ∀ p, b.1 = .ok p → ∃ report, r.1 = .ok report ∧ report.outcome = p.ack.outcome ∧
    report.entry = p.entry ∧
    (report.outcome = .ok ∨ report.outcome = .noop →
      ∃ e, report.entry = some e ∧ Logged r.2.bronze e) ∧
    (report.ledgerUpdated = true → b.2.connection.calls < r.2.connection.calls ∧
      ∀ i, b.2.connection.calls ≤ i → i < r.2.connection.calls → out.faults i = none)

theorem Survives.raised {e : Exn} (he : e.outage = false) (h : Host) :
    Survives out (.error e, h) (.error e, h) where
  raises e' h' := by
    cases h'
    exact ⟨rfl, he⟩
  fetched := rfl
  stored := rfl
  reports p h' := by cases h'

theorem Survives.reported {p : Plan} {h h' : Host} (hp : PlanOk p h.bronze) {updated : Bool}
    (hf : h'.fetches = h.fetches) (hb : h'.bronze = h.bronze)
    (hu : updated = true → h.connection.calls < h'.connection.calls ∧
      ∀ i, h.connection.calls ≤ i → i < h'.connection.calls → out.faults i = none) :
    Survives out (.ok p, h) (.ok (p.report updated), h') where
  raises e h' := by cases h'
  fetched := hf
  stored := hb
  reports p' h'' := by
    cases h''
    refine ⟨_, rfl, hp.outcome _, hp.entry _, fun ho => ?_, fun hup => ?_⟩
    · rw [hp.outcome] at ho
      obtain ⟨e, he, hl⟩ := hp.named ho
      exact ⟨e, (hp.entry _).trans he, hb ▸ hl⟩
    · exact hu ((hp.updated _).symm.trans hup)

/-- The outage is tolerated by the acknowledgement that follows the Bronze part `b`. -/
def AckTolerated (out : Outside) (targetId : String) (at_ : Instant) (s : MemoryStore) (n : Nat)
    (b : Except Exn Plan) : Prop :=
  ∀ p, b = .ok p → Tolerated out.faults n (ackCalls s targetId at_ p.ack)

/-- A capture that survived raised nothing that looks like an outage. -/
theorem Survives.noOutage {b : Except Exn Plan × Host} {r : Except Exn CaptureReport × Host}
    (h : Survives out b r) {e : Exn} (he : r.1 = .error e) : e.outage = false := by
  rcases b with ⟨b, h₁⟩
  cases b with
  | error e' =>
    obtain ⟨hr, ho⟩ := h.raises e' rfl
    rw [he] at hr
    cases hr
    exact ho
  | ok p =>
    obtain ⟨report, hr, -⟩ := h.reports p rfl
    rw [he] at hr
    cases hr

variable {rt : Runtime DriverCall.Ret} {h : Host}

theorem capture_tolerates (hst : rt.store = Postgres.store)
    (hs : MemoryStore.WellFormed h.connection.committed) (hw : h.connection.working = none)
    {req : CaptureRequest} (ht : AckTolerated out rt.targetId req.scheduledFor
      h.connection.committed h.connection.calls
      ((captureBronze rt req).run (Host.answer out) h).1) :
    Survives out ((captureBronze rt req).run (Host.answer out) h)
      ((capture rt req).run (Host.answer out) h) := by
  obtain ⟨hconn, hexn⟩ := (apart_captureBronze rt req).run out h
  rw [capture_eq]
  rcases hb : (captureBronze rt req).run (Host.answer out) h with ⟨b, h₁⟩
  rw [hb] at hconn hexn ht
  cases b with
  | error e =>
    rw [Prog.run_bind_error _ hb]
    exact .raised (hexn e rfl) h₁
  | ok p =>
    have ht := ht p rfl
    rw [← hconn] at ht hs hw
    obtain ⟨u, cn, hr, hu⟩ := ack_tolerated hst hs hw ht
    rw [Prog.run_bind_ok _ hb, finish, Prog.bind_eq, Prog.run_bind_ok _ hr]
    exact .reported (captureBronze_ok hb) rfl rfl hu

theorem capture_escapes (hst : rt.store = Postgres.store)
    (hs : MemoryStore.WellFormed h.connection.committed) (hw : h.connection.working = none)
    {req : CaptureRequest} (ht : ¬ AckTolerated out rt.targetId req.scheduledFor
      h.connection.committed h.connection.calls
      ((captureBronze rt req).run (Host.answer out) h).1) :
    ((capture rt req).run (Host.answer out) h).1 = .error (.operationalError outageMsg) := by
  obtain ⟨hconn, -⟩ := (apart_captureBronze rt req).run out h
  rw [capture_eq]
  rcases hb : (captureBronze rt req).run (Host.answer out) h with ⟨b, h₁⟩
  rw [hb] at hconn ht
  simp only [AckTolerated, not_forall] at ht
  obtain ⟨p, hp, ht⟩ := ht
  cases hp
  rw [← hconn] at ht hs hw
  obtain ⟨cn, hr⟩ := ack_escapes hst hs hw ht
  rw [Prog.run_bind_ok _ hb, finish, Prog.bind_eq, Prog.run_bind_error _ hr]

/-- Without a database the capture only reports that the ledger was not updated. -/
theorem capture_survives_unconfigured {rt : Runtime DriverCall.Ret}
    (hst : rt.store = unavailableStore) (h : Host) (req : CaptureRequest) :
    Survives out ((captureBronze rt req).run (Host.answer out) h)
      ((capture rt req).run (Host.answer out) h) := by
  obtain ⟨-, hexn⟩ := (apart_captureBronze rt req).run out h
  rw [capture_eq]
  rcases hb : (captureBronze rt req).run (Host.answer out) h with ⟨b, h₁⟩
  rw [hb] at hexn
  cases b with
  | error e =>
    rw [Prog.run_bind_error _ hb]
    exact .raised (hexn e rfl) h₁
  | ok p =>
    have hp := captureBronze_ok hb
    have hack : (ack rt req p.ack).run (Host.answer out) h₁ =
        (.ok false, { h₁ with reads := h₁.reads + 1 }) := by
      rw [ack_eq, ackLedger, Prog.bind_eq, Runtime.ensureRun, hst]
      rfl
    rw [Prog.run_bind_ok _ hb, finish, Prog.bind_eq, Prog.run_bind_ok _ hack]
    refine .reported hp rfl rfl fun hu => ?_
    cases hu

/-! ### The command -/

/-- The connection is made, and the server is new enough. -/
def Connected (out : Outside) (n : Nat) : Prop :=
  (∀ i, n ≤ i → i < n + 3 → out.faults i = none) ∧ Postgres.minServerVersion ≤ out.serverVersion

/-- The host after `k` driver calls that changed no table. -/
def Host.called (h : Host) (k : Nat) : Host :=
  { h with connection := ⟨h.connection.committed, none, h.connection.calls + k⟩ }

theorem run_connected (hw : h.connection.working = none) (h0 : out.faults h.connection.calls = none) :
    Postgres.connected.run (Host.answer out) h = (.ok (), h.called 1) := by
  have hr : Postgres.connect.run (Host.answer out) h = (.ok (), h.called 1) := by
    rw [Host.called, ← hw]
    exact run_driver_ok .connect h0
  rw [Postgres.connected, Prog.run_tryCatch, hr]

theorem run_connected_fault (h0 : out.faults h.connection.calls ≠ none) :
    ∃ h' msg, Postgres.connected.run (Host.answer out) h =
      (.error (.storeUnavailable msg), h') := by
  obtain ⟨cn, -, hr⟩ := run_driver_fault .connect h0
  have hr : Postgres.connect.run (Host.answer out) h =
      (.error (.operationalError outageMsg), { h with connection := cn }) := hr
  rw [Postgres.connected, Prog.run_tryCatch, hr]
  exact ⟨_, _, rfl⟩

theorem run_serverVersion (k : Nat) (hk : out.faults (h.connection.calls + k) = none) :
    Postgres.serverVersion.run (Host.answer out) (h.called k) =
      (.ok out.serverVersion, h.called (k + 1)) :=
  run_driver_ok (h := h.called k) .serverVersion hk

theorem run_rollback (k : Nat) (hk : out.faults (h.connection.calls + k) = none) :
    Postgres.rollback.run (Host.answer out) (h.called k) = (.ok (), h.called (k + 1)) :=
  run_driver_ok (h := h.called k) .rollback hk

theorem open_ok (hw : h.connection.working = none) (hc : Connected out h.connection.calls) :
    (Cli.store true false).run (Host.answer out) h = (.ok Postgres.store, h.called 3) := by
  have hopen : Postgres.open_.run (Host.answer out) h = (.ok Postgres.store, h.called 3) := by
    rw [Postgres.open_, Prog.bind_eq,
      Prog.run_bind_ok _ (run_connected hw (hc.1 _ (by omega) (by omega))), Prog.bind_eq,
      Prog.run_bind_ok _ (run_serverVersion 1 (hc.1 _ (by omega) (by omega))), Prog.bind_eq,
      Prog.run_bind_ok _ (run_rollback 2 (hc.1 _ (by omega) (by omega))),
      if_neg (Nat.not_lt.mpr hc.2)]
    rfl
  show (Postgres.open_.tryCatch _).run _ h = _
  rw [Prog.run_tryCatch, hopen]

/-- Whatever keeps `PostgresStore` from opening ends the command. -/
theorem open_refused (hw : h.connection.working = none) (hc : ¬ Connected out h.connection.calls) :
    ∃ e, e.outage = true ∧ ((Cli.store true false).run (Host.answer out) h).1 = .error e := by
  have hopen : ∃ e h', (e = .operationalError outageMsg ∨ ∃ msg, e = .storeUnavailable msg) ∧
      Postgres.open_.run (Host.answer out) h = (.error e, h') := by
    rw [Postgres.open_, Prog.bind_eq]
    by_cases h0 : out.faults h.connection.calls = none
    · rw [Prog.run_bind_ok _ (run_connected hw h0), Prog.bind_eq]
      by_cases h1 : out.faults (h.connection.calls + 1) = none
      · rw [Prog.run_bind_ok _ (run_serverVersion 1 h1), Prog.bind_eq]
        by_cases h2 : out.faults (h.connection.calls + 2) = none
        · have hv : out.serverVersion < Postgres.minServerVersion := by
            by_contra hv
            refine hc ⟨fun i hi hi' => ?_, Nat.not_lt.mp hv⟩
            obtain rfl | rfl | rfl : i = h.connection.calls ∨ i = h.connection.calls + 1 ∨
              i = h.connection.calls + 2 := by omega
            · exact h0
            · exact h1
            · exact h2
          rw [Prog.run_bind_ok _ (run_rollback 2 h2), if_pos hv]
          exact ⟨_, _, .inr ⟨_, rfl⟩, rfl⟩
        · obtain ⟨cn, -, hr⟩ := run_driver_fault (h := h.called 2) .rollback h2
          exact ⟨_, _, .inl rfl, Prog.run_bind_error _ hr⟩
      · obtain ⟨cn, -, hr⟩ := run_driver_fault (h := h.called 1) .serverVersion h1
        exact ⟨_, _, .inl rfl, Prog.run_bind_error _ hr⟩
    · obtain ⟨h', msg, hr⟩ := run_connected_fault h0
      exact ⟨_, _, .inr ⟨msg, rfl⟩, Prog.run_bind_error _ hr⟩
  obtain ⟨e, h', he, hr⟩ := hopen
  rw [Cli.store, if_neg (by decide), Prog.run_tryCatch, hr]
  obtain rfl | ⟨msg, rfl⟩ := he
  · exact ⟨_, rfl, rfl⟩
  · exact ⟨_, rfl, rfl⟩

/-- The report of the command. -/
def reportOf (r : Except Exn (CaptureReport × Nat) × Host) : Except Exn CaptureReport × Host :=
  (r.1.map Prod.fst, r.2)

theorem run_report {p : Verb DriverCall.Ret CaptureReport} {h : Host} :
    reportOf ((p.bind fun report => .ret (report, Cli.exitCode report)).run
      (Host.answer out) h) = p.run (Host.answer out) h := by
  rw [Prog.run_bind]
  rcases p.run (Host.answer out) h with ⟨r, h'⟩
  cases r <;> rfl

/-- Driver calls that answered before the Bronze part do not matter. -/
theorem Survives.earlier {b : Except Exn Plan × Host} {r : Except Exn CaptureReport × Host}
    {c : Connection} (hs : Survives out (b.1, { b.2 with connection := c }) r)
    (hle : b.2.connection.calls ≤ c.calls)
    (hq : ∀ i, b.2.connection.calls ≤ i → i < c.calls → out.faults i = none) :
    Survives out b r where
  raises := hs.raises
  fetched := hs.fetched
  stored := hs.stored
  reports p hp := by
    obtain ⟨report, hr, ho, he, hl, hu⟩ := hs.reports p hp
    refine ⟨report, hr, ho, he, hl, fun hup => ?_⟩
    obtain ⟨hlt, hnone⟩ := hu hup
    refine ⟨lt_of_le_of_lt hle hlt, fun i hi hi' => ?_⟩
    by_cases hic : i < c.calls
    · exact hq i hi hic
    · exact hnone i (Nat.not_lt.mp hic) hi'

end Survival

/-! ## Survived outages -/

section Claim

variable (manifest : Manifest) (impl : Implementation) (out : Outside)
  (h : Host)

/-- The capture verb over PostgreSQL survives the outage. -/
def VerbSurvives (req : CaptureRequest) : Prop :=
  Survives out ((captureBronze (Cli.runtime manifest impl Postgres.store) req).run
      (Host.answer out) h)
    ((capture (Cli.runtime manifest impl Postgres.store) req).run (Host.answer out) h)

/-- The capture command survives the outage. -/
def CommandSurvives (dsn : Bool) (when_ : Instant) (force : Bool) : Prop :=
  Survives out ((captureBronze (Cli.runtime manifest impl Postgres.store)
      ⟨when_, none, force, .capture⟩).run (Host.answer out) h)
    (reportOf ((Cli.captureCmd manifest impl dsn when_ force).run (Host.answer out) h))

/-- The outage from the `n`-th driver call on is tolerated by the acknowledgement of a request. -/
def RequestTolerated (req : CaptureRequest) (n : Nat) : Prop :=
  AckTolerated out manifest.targetId req.scheduledFor h.connection.committed n
    ((captureBronze (Cli.runtime manifest impl Postgres.store) req).run (Host.answer out) h).1

variable {manifest impl out h}

theorem verb_survives_iff (hs : MemoryStore.WellFormed h.connection.committed)
    (hw : h.connection.working = none) (req : CaptureRequest) :
    VerbSurvives manifest impl out h req ↔
      RequestTolerated manifest impl out h req h.connection.calls := by
  constructor
  · intro hsurv
    by_contra ht
    have := hsurv.noOutage (capture_escapes rfl hs hw ht)
    cases this
  · exact capture_tolerates rfl hs hw

theorem command_survives_iff (hs : MemoryStore.WellFormed h.connection.committed)
    (hw : h.connection.working = none) (when_ : Instant) (force : Bool) :
    CommandSurvives manifest impl out h true when_ force ↔
      Connected out h.connection.calls ∧ RequestTolerated manifest impl out h
        ⟨when_, none, force, .capture⟩ (h.connection.calls + 3) := by
  by_cases hc : Connected out h.connection.calls
  · have hrun : reportOf ((Cli.captureCmd manifest impl true when_ force).run
        (Host.answer out) h) = (capture (Cli.runtime manifest impl Postgres.store)
          ⟨when_, none, force, .capture⟩).run (Host.answer out) (h.called 3) := by
      rw [Cli.captureCmd, Prog.bind_eq, Prog.run_bind_ok _ (open_ok hw hc), Prog.bind_eq, run_report]
    have hbronze := (apart_captureBronze (Cli.runtime manifest impl Postgres.store)
      ⟨when_, none, force, .capture⟩).run_connection out
      (h.called 3).connection h
    have hconn := ((apart_captureBronze (Cli.runtime manifest impl Postgres.store)
      ⟨when_, none, force, .capture⟩).run out h).1
    have htol : AckTolerated out manifest.targetId when_ (h.called 3).connection.committed
        (h.called 3).connection.calls ((captureBronze (Cli.runtime manifest impl Postgres.store)
          ⟨when_, none, force, .capture⟩).run (Host.answer out) (h.called 3)).1 ↔
        RequestTolerated manifest impl out h ⟨when_, none, force, .capture⟩
          (h.connection.calls + 3) := by
      rw [show h.called 3 = { h with connection := (h.called 3).connection } from rfl, hbronze]
      rfl
    rw [and_iff_right hc, ← htol, CommandSurvives, hrun]
    constructor
    · intro hsurv
      by_contra ht
      have := hsurv.noOutage (capture_escapes (h := h.called 3) rfl hs rfl ht)
      cases this
    · intro ht
      have hsurv : Survives out _ ((capture (Cli.runtime manifest impl Postgres.store)
          ⟨when_, none, force, .capture⟩).run (Host.answer out) (h.called 3)) :=
        capture_tolerates (h := h.called 3) rfl hs rfl ht
      rw [show h.called 3 = { h with connection := (h.called 3).connection } from rfl, hbronze] at hsurv
      refine hsurv.earlier ?_ fun i hi hi' => ?_
      · rw [hconn]
        exact Nat.le_add_right _ _
      · rw [hconn] at hi
        exact hc.1 i hi hi'
  · refine iff_of_false (fun hsurv => ?_) fun hand => hc hand.1
    obtain ⟨e, he, hr⟩ := open_refused hw hc
    have hrun : (reportOf ((Cli.captureCmd manifest impl true when_ force).run
        (Host.answer out) h)).1 = .error e := by
      rcases hst : (Cli.store true false).run (Host.answer out) h with ⟨r, h'⟩
      rw [hst] at hr
      cases hr
      rw [Cli.captureCmd, Prog.bind_eq, Prog.run_bind_error _ hst]
      rfl
    have := hsurv.noOutage hrun
    rw [he] at this
    cases this

theorem command_survives_unconfigured (when_ : Instant) (force : Bool) :
    CommandSurvives manifest impl out h false when_ force := by
  have hrun : reportOf ((Cli.captureCmd manifest impl false when_ force).run
      (Host.answer out) h) = (capture (Cli.runtime manifest impl unavailableStore)
        ⟨when_, none, force, .capture⟩).run (Host.answer out) h := by
    rw [Cli.captureCmd, Prog.bind_eq]
    exact run_report
  rw [CommandSurvives, hrun]
  have hst : (Cli.runtime manifest impl unavailableStore).store = unavailableStore := rfl
  exact capture_survives_unconfigured hst h _

/-- Exactly which outages a capture survives. The verb: those that hit `ensure_run` and leave the
rollback after it working. The command: those, once it could connect; or any, without a DSN. -/
theorem capture_survives_iff (hs : MemoryStore.Reachable h.connection.committed)
    (hw : h.connection.working = none) :
    (∀ req, VerbSurvives manifest impl out h req ↔
      RequestTolerated manifest impl out h req h.connection.calls) ∧
    ∀ dsn when_ force, CommandSurvives manifest impl out h dsn when_ force ↔
      (dsn = true → Connected out h.connection.calls ∧ RequestTolerated manifest impl out h
        ⟨when_, none, force, .capture⟩ (h.connection.calls + 3)) := by
  refine ⟨verb_survives_iff hs.wellFormed hw, fun dsn when_ force => ?_⟩
  cases dsn with
  | false => exact iff_of_true (command_survives_unconfigured when_ force) nofun
  | true =>
    rw [command_survives_iff hs.wellFormed hw]
    exact ⟨fun ht _ => ht, fun ht => ht rfl⟩

end Claim

/-! ### Outages that are not survived -/

section Failing

/-- A worker at 2026-01-01T00:00Z with an empty Bronze and an empty ledger. -/
def freshHost : Host := ⟨⟨.empty, none, .empty⟩, ⟨.init, none, 0⟩, 0, 0⟩

/-- The source answers one byte; the listed driver calls are lost. -/
def outsideLosing (lost : List Nat) : Outside where
  sha256 := hexAddress
  clock n := 1767225600 * second + n
  fetch _ _ _ := .ok ⟨"https://www.ote-cr.cz/", 200, [1], none, 1767225600 * second, none, none,
    false, []⟩
  faults n := if n ∈ lost then some .lost else none
  serverVersion := 160000

def failingRequest : CaptureRequest := ⟨1767225600 * second, none, false, .capture⟩

/-- A connection lost in `ensure_run` keeps neither the verb nor the command from their report, one
lost when the attempt is recorded does. -/
theorem ensure_run_outage_survived :
    VerbSurvives oteIntradayMarket (asciiImplementation .refusing fun _ => 0) (outsideLosing [0])
      freshHost failingRequest ∧
    CommandSurvives oteIntradayMarket (asciiImplementation .refusing fun _ => 0) (outsideLosing [3])
      freshHost true (1767225600 * second) false ∧
    ¬ VerbSurvives oteIntradayMarket (asciiImplementation .refusing fun _ => 0) (outsideLosing [2])
      freshHost failingRequest := by
  have hsurvives : ∀ lost, _ := fun lost => @capture_survives_iff oteIntradayMarket
    (asciiImplementation .refusing fun _ => 0) (outsideLosing lost) freshHost .init rfl
  refine ⟨((hsurvives [0]).1 _).mpr fun p _ => ?_,
    ((hsurvives [3]).2 _ _ _).mpr fun _ => ⟨⟨fun i _ hi => ?_, by decide⟩, fun p _ => ?_⟩,
    fun h => ?_⟩
  · exact (if_neg (by decide)).mpr rfl
  · have hi : i < 3 := hi
    exact if_neg (by simp only [List.mem_singleton]; omega)
  · exact (if_neg (by decide)).mpr rfl
  · have hack : ((captureBronze (Cli.runtime oteIntradayMarket
        (asciiImplementation .refusing fun _ => 0) Postgres.store) failingRequest).run
          (Host.answer (outsideLosing [2])) freshHost).1.toOption.map (fun p => p.ack.outcome) =
        some .ok := by decide +kernel
    obtain ⟨p, hp, hok⟩ := Option.map_eq_some_iff.mp hack
    have htol := ((hsurvives [2]).1 _).mp h p (eq_ok_of_toOption hp)
    -- the two calls of `ensure_run` are followed by those that record the attempt
    have hcalls : 2 < freshHost.connection.calls + ackCalls freshHost.connection.committed
        oteIntradayMarket.targetId failingRequest.scheduledFor p.ack := by
      rw [ackCalls, hok, if_neg (by decide : ¬ AttemptOutcome.ok = .noop)]
      omega
    rw [Tolerated, if_pos (by decide)] at htol
    cases htol 2 le_rfl hcalls

/-- A database that is down at the start keeps the command from fetching; a connection lost when
the attempt is recorded raises out of the verb. -/
theorem outage_not_survived :
    ¬ CommandSurvives oteIntradayMarket (asciiImplementation .refusing fun _ => 0)
      (outsideLosing [0]) freshHost true (1767225600 * second) false ∧
    ¬ VerbSurvives oteIntradayMarket (asciiImplementation .refusing fun _ => 0)
      (outsideLosing [2]) freshHost failingRequest := by
  constructor
  · intro h
    have hr : (reportOf ((Cli.captureCmd oteIntradayMarket (asciiImplementation .refusing fun _ => 0)
        true (1767225600 * second) false).run (Host.answer (outsideLosing [0])) freshHost)).1 =
      .error (.exit 1) := rfl
    cases h.noOutage hr
  · intro h
    have hr : ((capture (Cli.runtime oteIntradayMarket (asciiImplementation .refusing fun _ => 0)
        Postgres.store) failingRequest).run (Host.answer (outsideLosing [2])) freshHost).1 =
      .error (.operationalError outageMsg) := rfl
    cases h.noOutage hr

end Failing

end EnergyPlatform
