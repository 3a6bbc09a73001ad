import EnergyPlatform.Runtime.Alerts
import EnergyPlatform.Runtime.Representative

/-!
# Runtime.Unprocessed

The captures a pass of the gap detector reports as unprocessed, and the runs a worker takes up.

`unprocessed_iff`: every run a pass reports is pending or leased after it exactly when no overdue
instant had a stuck run before it. `failed_reported`: a run that failed is reported and no worker
takes it up.
-/

namespace EnergyPlatform

open Lib (Dict Prog)

/-- `pending_runs` lists the run of an instant, or a worker holds it under a live lease. -/
def TakenUp (s : MemoryStore) (targetId : String) (now t : Instant) : Prop :=
  ∃ run, s.find targetId t = some run ∧
    (run ∈ s.pendingRuns targetId now ∨ ∃ u, run.leaseUntil = some u ∧ now ≤ u)

/-- A replay of the run waits, or was given up. -/
def ReplayOpen (s : MemoryStore) (run : Run) (now : Instant) : Prop :=
  ∃ a ∈ s.attempts run.id, a.kind = .replay ∧ (a.pending ∨ a.expired now)

/-- A run that has its capture, was not processed, and that no verb picks up. -/
structure Stuck (s : MemoryStore) (run : Run) (now : Instant) : Prop where
  capture : run.captureId ≠ none
  processed : run.state ≠ .processed
  captured : run.state ≠ .captured
  replay : ¬ ReplayOpen s run now
  lease : ¬ ∃ u, run.leaseUntil = some u ∧ now ≤ u

/-- An instant with an entry whose run is stuck. -/
def StuckAt (b : Bronze) (s : MemoryStore) (targetId : String) (now t : Instant) : Prop :=
  HasEntry b targetId t ∧ ∃ run, s.find targetId t = some run ∧ Stuck s run now

section Unprocessed

variable {rt : Runtime StoreCall.Ret} {out : Outside} {w w' : Local} {s s' : MemoryStore}
variable {targetId : String} {now t : Instant}

theorem takenUp_iff : TakenUp s targetId now t ↔ ∃ run, s.find targetId t = some run ∧
    (run.state = .captured ∨ ReplayOpen s run now ∨ ∃ u, run.leaseUntil = some u ∧ now ≤ u) := by
  refine exists_congr fun run => and_congr_right fun hfind => ?_
  obtain ⟨hrow, htarget, -⟩ := MemoryStore.find_eq_some hfind
  have hmem : run ∈ s.runs targetId none none :=
    MemoryStore.mem_runs.mpr ⟨hrow, htarget, fun u hu => absurd hu (Option.not_mem_none u),
      fun u hu => absurd hu (Option.not_mem_none u)⟩
  have hpending : run ∈ s.pendingRuns targetId now ↔
      run.state = .captured ∨ ReplayOpen s run now := by
    rw [MemoryStore.pendingRuns, List.mem_filter, and_iff_right hmem, decide_eq_true_eq,
      List.any_eq_true]
    simp only [decide_eq_true_eq, ReplayOpen]
  rw [hpending, or_assoc]

theorem ReplayOpen.congr {run : Run} (h : s'.attemptTable = s.attemptTable) :
    ReplayOpen s' run now ↔ ReplayOpen s run now := by
  unfold ReplayOpen MemoryStore.attempts
  rw [h]

theorem TakenUp.congr (h : s'.attemptTable = s.attemptTable)
    (hfind : s'.find targetId t = s.find targetId t) :
    TakenUp s' targetId now t ↔ TakenUp s targetId now t := by
  rw [takenUp_iff, takenUp_iff, hfind]
  simp only [ReplayOpen.congr h]

theorem StuckAt.congr {b : Bronze} (h : s'.attemptTable = s.attemptTable)
    (hfind : s'.find targetId t = s.find targetId t) :
    StuckAt b s' targetId now t ↔ StuckAt b s targetId now t := by
  unfold StuckAt
  rw [hfind]
  refine and_congr_right fun _ => exists_congr fun run => and_congr_right fun _ => ?_
  constructor
  · exact fun hs => ⟨hs.capture, hs.processed, hs.captured, (ReplayOpen.congr h).not.mp hs.replay,
      hs.lease⟩
  · exact fun hs => ⟨hs.capture, hs.processed, hs.captured, (ReplayOpen.congr h).not.mpr hs.replay,
      hs.lease⟩

/-! ## One instant -/

/-- The calls about an instant leave the attempts and the other runs alone. -/
structure Confined (rt : Runtime StoreCall.Ret) (t : Instant) (w w' : Local) : Prop extends
    Elsewhere rt t w w' where
  store : w'.store.WellFormed
  attempts : w'.store.attemptTable = w.store.attemptTable

/-- What looking at an instant leaves and says. -/
structure Looked (rt : Runtime StoreCall.Ret) (now t : Instant) (stuck : Prop) (w : Local)
    (gap : Option Gap) (w' : Local) : Prop extends Confined rt t w w' where
  at_ : ∀ g ∈ gap, g.scheduledFor = t
  taken : (∀ g ∈ gap, g.kind = .unprocessedCapture → TakenUp w'.store rt.targetId now t) ↔ ¬ stuck

theorem Confined.refl (h : w.store.WellFormed) : Confined rt t w w :=
  ⟨⟨rfl, fun _ _ => rfl⟩, h, rfl⟩

theorem Confined.quiet {kind : GapKind} {action : String} {stuck : Prop} (h : Confined rt t w w')
    (hkind : kind ≠ .unprocessedCapture) (hstuck : ¬ stuck) :
    Looked rt now t stuck w (some ⟨t, kind, action⟩) w' where
  toConfined := h
  at_ g hg := by
    obtain rfl := Option.some.inj hg
    rfl
  taken := by
    refine iff_of_true (fun g hg hk => ?_) hstuck
    obtain rfl := Option.some.inj hg
    exact absurd hk hkind

theorem ensureRun_confined (h : w.store.WellFormed) (state : RunState) (origin : RunOrigin)
    (c : Option CaptureId) (now : Instant) :
    Confined rt t w { w with store := (w.store.ensureRun rt.targetId t state origin c now).2 } := by
  obtain ⟨hwf, helse⟩ := ensureRun_elsewhere (t := t) h rt.targetId state origin c now
  refine ⟨⟨rfl, helse⟩, hwf, ?_⟩
  rcases MemoryStore.ensureRun_cases w.store rt.targetId t state origin c now with
    ⟨-, r, -, -, -, -, -, -, -, -, he⟩ | ⟨old, -, ⟨-, -, -, he⟩ | ⟨-, he⟩⟩
  all_goals simp only [he]
  all_goals rfl

theorem setState_confined {r : Run} (h : w.store.WellFormed)
    (hf : w.store.find rt.targetId t = some r) (state : RunState) (now : Instant) :
    Confined rt t w { w with store := w.store.putRun { r with state, updatedAt := now } } := by
  obtain ⟨-, hwf, hfind⟩ := setState_run h hf state now
  exact ⟨⟨rfl, fun u hu => (hfind u).trans (if_neg hu)⟩, hwf, rfl⟩

theorem addEvents_confined (h : Confined rt t w w') (events : List QualityEvent) (now : Instant) :
    Confined rt t w { w' with store := (w'.store.addEvents rt.targetId events none now).2 } := by
  refine ⟨⟨h.bronze, fun u hu => ?_⟩,
    h.store.exec (c := .addEvents rt.targetId events none now) rfl, ?_⟩
  · refine Eq.trans ?_ (h.find u hu)
    rw [MemoryStore.addEvents_frame]
    rfl
  · refine Eq.trans ?_ h.attempts
    rw [MemoryStore.addEvents_frame]

/-- The run of an instant that has its capture. -/
theorem stuckAt_iff {b : Bronze} {r : Run} (hentry : HasEntry b targetId t)
    (hfind : s.find targetId t = some r) (hc : r.captureId ≠ none) (hp : r.state ≠ .processed) :
    TakenUp s targetId now t ↔ ¬ StuckAt b s targetId now t := by
  rw [takenUp_iff]
  constructor
  · rintro ⟨run, hrun, htaken⟩ ⟨-, run', hrun', hs⟩
    obtain rfl := Option.some.inj (hrun.symm.trans hrun')
    rcases htaken with htaken | htaken | htaken
    · exact hs.captured htaken
    · exact hs.replay htaken
    · exact hs.lease htaken
  · intro hs
    refine ⟨r, hfind, ?_⟩
    by_contra hno
    rw [not_or, not_or] at hno
    exact hs ⟨hentry, r, hfind, hc, hp, hno.1, hno.2.1, hno.2.2⟩

/-- A run that lacks its capture gets it, unless it was processed without one. -/
theorem ensureCaptured_looked (h : w.store.WellFormed) (entry : CaptureEntry)
    (hrun : ∀ r, w.store.find rt.targetId t = some r → r.captureId = none) :
    Looked rt now t (StuckAt w.bronze w.store rt.targetId now t) w
      (if (w.store.ensureRun rt.targetId t .captured .reconciled (some entry.captureId) now).1.state
          ≠ .processed then
        some ⟨t, .unprocessedCapture, "replay: the next process run claims it"⟩ else none)
      { w with store :=
        (w.store.ensureRun rt.targetId t .captured .reconciled (some entry.captureId) now).2 } where
  toConfined := ensureRun_confined h .captured .reconciled _ now
  at_ g hg := by
    split_ifs at hg
    · obtain rfl := Option.some.inj hg
      rfl
    · cases hg
  taken := by
    refine iff_of_true (fun g hg _ => ?_) fun hs => ?_
    · split_ifs at hg with hp
      · refine takenUp_iff.mpr ⟨(w.store.ensureRun rt.targetId t .captured .reconciled
          (some entry.captureId) now).1, ?_, .inl ?_⟩
        · rw [MemoryStore.find_ensureRun h, if_pos rfl]
        · rcases MemoryStore.ensureRun_cases w.store rt.targetId t .captured .reconciled
            (some entry.captureId) now with
            ⟨-, r, -, -, -, hs, -, -, -, -, he⟩ | ⟨old, hold, ⟨-, -, -, he⟩ | ⟨hno, he⟩⟩
          · rw [he]
            exact hs
          · rw [he]
          · -- the run was left as it is, so it was processed
            rw [he] at hp
            exact absurd ⟨rfl, hp, hrun old hold⟩ hno
      · cases hg
    · obtain ⟨-, run, hfind, hstuck⟩ := hs
      exact hstuck.capture (hrun run hfind)

theorem capturedInstant_looked (hst : rt.store = memoryStore) (h : w.store.WellFormed)
    (hentry : HasEntry w.bronze rt.targetId t) (entry : CaptureEntry) {run : Option Run}
    (hrun : run = w.store.find rt.targetId t) :
    (capturedInstant rt entry run t now).Keeps (Local.answer out) Risky (fun _ => True)
      (Looked rt now t (StuckAt w.bronze w.store rt.targetId now t) w) w := by
  unfold capturedInstant
  cases run with
  | none =>
    refine keeps_store hst (exec_ensureRun ..) (fun _ => trivial) ?_
    refine ensureCaptured_looked h entry fun r hr => ?_
    cases hrun.trans hr
  | some r =>
    by_cases hc : r.captureId = none
    · simp only [if_pos hc]
      refine keeps_store hst (exec_ensureRun ..) (fun _ => trivial) ?_
      refine ensureCaptured_looked h entry fun r' hr => ?_
      obtain rfl := Option.some.inj (hrun.trans hr)
      exact hc
    · simp only [if_neg hc]
      refine ⟨.refl h, fun g hg => ?_, ?_⟩
      · split_ifs at hg
        · obtain rfl := Option.some.inj hg
          rfl
        · cases hg
      · by_cases hp : r.state = .processed
        · refine iff_of_true (fun g hg _ => ?_) fun hs => ?_
          · rw [if_neg (not_not.mpr hp)] at hg
            cases hg
          · obtain ⟨-, run', hfind, hstuck⟩ := hs
            obtain rfl := Option.some.inj (hrun.trans hfind)
            exact hstuck.processed hp
        · rw [← stuckAt_iff hentry hrun.symm hc hp]
          constructor
          · exact fun hall => hall _ (if_pos hp) rfl
          · exact fun htaken g _ _ => htaken

theorem missingInstant_looked (hst : rt.store = memoryStore) (h : w.store.WellFormed)
    {run : Option Run} (hrun : run = w.store.find rt.targetId t) {stuck : Prop} (hstuck : ¬ stuck) :
    (missingInstant rt run t now).Keeps (Local.answer out) Risky (fun _ => True)
      (Looked rt now t stuck w) w := by
  unfold missingInstant
  cases run with
  | none =>
    refine keeps_store hst (exec_ensureRun ..) (fun _ => trivial) ?_
    exact (ensureRun_confined h .missingCapture .backfill none now).quiet (by decide) hstuck
  | some r =>
    by_cases hs : r.state = .scheduled ∨ r.state = .failed
    · simp only [if_pos hs]
      refine keeps_store hst (setState_run h hrun.symm .missingCapture now).1 (fun _ => trivial) ?_
      exact (setState_confined h hrun.symm .missingCapture now).quiet (by decide) hstuck
    · simp only [if_neg hs]
      exact (Confined.refl h).quiet (by decide) hstuck

/-- The alert that follows a mark. -/
theorem alert_looked (hst : rt.store = memoryStore) {action : String} {stuck : Prop}
    (h : Confined rt t w w') (hstuck : ¬ stuck) :
    ((alert rt t now).bind fun _ => .ret (some (Gap.mk t .unrecoverable action))).Keeps
      (Local.answer out) Risky (fun _ => True) (Looked rt now t stuck w) w' := by
  have hassoc : (alert rt t now).bind (fun _ => .ret (some (Gap.mk t .unrecoverable action))) =
      (rt.store (.addEvents rt.targetId [gapEvent rt.manifest.maxAge t] none now)).bind
        fun _ => .ret (some (Gap.mk t .unrecoverable action)) :=
    Prog.bind_assoc _ (fun _ => .ret ()) _
  rw [hassoc]
  refine keeps_store hst (exec_addEvents ..) (fun _ => trivial) ?_
  exact (addEvents_confined h _ now).quiet (by decide) hstuck

theorem lostInstant_looked (hst : rt.store = memoryStore) (h : w.store.WellFormed)
    {run : Option Run} (hrun : run = w.store.find rt.targetId t) {stuck : Prop} (hstuck : ¬ stuck) :
    (lostInstant rt run t now).Keeps (Local.answer out) Risky (fun _ => True)
      (Looked rt now t stuck w) w := by
  unfold lostInstant
  cases run with
  | none =>
    refine keeps_store hst (exec_ensureRun ..) (fun _ => trivial) ?_
    exact alert_looked hst (ensureRun_confined h .unrecoverable .backfill none now) hstuck
  | some r =>
    by_cases hs : r.state ≠ .unrecoverable
    · simp only [if_pos hs]
      refine keeps_store hst (setState_run h hrun.symm .unrecoverable now).1 (fun _ => trivial) ?_
      exact alert_looked hst (setState_confined h hrun.symm .unrecoverable now) hstuck
    · simp only [if_neg hs]
      exact (Confined.refl h).quiet (by decide) hstuck

/-- An instant that is old enough and whose run is stuck. -/
def Overdue (x : Expected) (b : Bronze) (s : MemoryStore) (targetId : String) (t : Instant) :
    Prop :=
  ¬ x.now - t < x.tolerance ∧ StuckAt b s targetId x.now t

theorem expectedInstant_looked (hst : rt.store = memoryStore) (h : w.store.WellFormed)
    {x : Expected} (hread : Read rt x w t) :
    (expectedInstant rt x t).Keeps (Local.answer out) Risky (fun _ => True)
      (Looked rt x.now t (Overdue x w.bronze w.store rt.targetId t) w) w := by
  unfold expectedInstant
  split
  · rename_i hnew
    exact (Confined.refl h).quiet (by decide) fun ho => ho.1 hnew
  · rename_i hold
    cases hentry : x.entries.get? t with
    | some entry =>
      have hiff : Overdue x w.bronze w.store rt.targetId t ↔
          StuckAt w.bronze w.store rt.targetId x.now t := and_iff_right hold
      rw [hiff]
      exact capturedInstant_looked hst h (hread.entry.mp ⟨entry, hentry⟩) entry hread.run
    | none =>
      have hno : ¬ Overdue x w.bronze w.store rt.targetId t := fun ho => by
        obtain ⟨e, he⟩ := hread.entry.mpr ho.2.1
        cases hentry.symm.trans he
      simp only
      split
      · exact missingInstant_looked hst h hread.run hno
      · exact lostInstant_looked hst h hread.run hno

/-! ## A pass -/

/-- What the calls about a list of instants leave and say. -/
structure LookedAll (rt : Runtime StoreCall.Ret) (x : Expected) (l : List Instant) (w : Local)
    (gaps : List Gap) (w' : Local) : Prop where
  attempts : w'.store.attemptTable = w.store.attemptTable
  find : ∀ u, u ∉ l → w'.store.find rt.targetId u = w.store.find rt.targetId u
  at_ : ∀ g ∈ gaps, g.scheduledFor ∈ l
  taken : (∀ g ∈ gaps, g.kind = .unprocessedCapture →
      TakenUp w'.store rt.targetId x.now g.scheduledFor) ↔
    ∀ t ∈ l, ¬ Overdue x w.bronze w.store rt.targetId t

/-- The first instant, and then the others. -/
theorem Looked.cons {x : Expected} {l : List Instant} {gap : Option Gap} {gaps : List Gap}
    {w'' : Local} (h : Looked rt x.now t (Overdue x w.bronze w.store rt.targetId t) w gap w')
    (hnew : t ∉ l) (hrest : LookedAll rt x l w' gaps w'') :
    LookedAll rt x (t :: l) w (gap.toList ++ gaps) w'' where
  attempts := hrest.attempts.trans h.attempts
  find u hu := by
    rw [List.mem_cons, not_or] at hu
    exact (hrest.find u hu.2).trans (h.find u hu.1)
  at_ g hg := by
    rcases List.mem_append.mp hg with hg | hg
    · exact List.mem_cons.mpr (.inl (h.at_ g (Option.mem_toList.mp hg)))
    · exact List.mem_cons_of_mem t (hrest.at_ g hg)
  taken := by
    have hfirst : (∀ g ∈ gap.toList, g.kind = .unprocessedCapture →
        TakenUp w''.store rt.targetId x.now g.scheduledFor) ↔
        ¬ Overdue x w.bronze w.store rt.targetId t := by
      rw [← h.taken]
      refine forall_congr' fun g => ?_
      rw [Option.mem_toList]
      refine imp_congr_right fun hg => imp_congr_right fun _ => ?_
      rw [h.at_ g hg]
      exact TakenUp.congr hrest.attempts (hrest.find t hnew)
    -- the first instant changes nothing about the others
    have hothers : (∀ u ∈ l, ¬ Overdue x w'.bronze w'.store rt.targetId u) ↔
        ∀ u ∈ l, ¬ Overdue x w.bronze w.store rt.targetId u := by
      refine forall_congr' fun u => imp_congr_right fun hu => ?_
      refine not_congr (and_congr_right fun _ => ?_)
      rw [h.bronze]
      exact StuckAt.congr h.attempts (h.find u fun hut => hnew (hut ▸ hu))
    rw [List.forall_mem_append, List.forall_mem_cons, hfirst, hrest.taken, hothers]

theorem expectedInstants_looked (hst : rt.store = memoryStore) {x : Expected} {l : List Instant} :
    ∀ {w : Local}, w.store.WellFormed → l.Nodup → (∀ t ∈ l, Read rt x w t) →
      (expectedInstants rt x l).Keeps (Local.answer out) Risky (fun _ => True)
        (LookedAll rt x l w) w := by
  induction l with
  | nil =>
    intro w _ _ _
    refine ⟨rfl, fun _ _ => rfl, fun g hg => absurd hg List.not_mem_nil, ?_⟩
    exact iff_of_true (fun g hg => absurd hg List.not_mem_nil)
      fun t ht => absurd ht List.not_mem_nil
  | cons t rest ih =>
    intro w h hnodup hread
    obtain ⟨hnew, hnodup⟩ := List.nodup_cons.mp hnodup
    unfold expectedInstants
    refine Prog.Keeps.bind (expectedInstant_looked hst h (hread t List.mem_cons_self))
      fun gap w' hlook => ?_
    refine Prog.Keeps.bind (ih hlook.store hnodup fun u hu => ?_) fun gaps w'' hrest =>
      hlook.cons hnew hrest
    obtain ⟨hr, he⟩ := hread u (List.mem_cons_of_mem t hu)
    exact ⟨hr.trans (hlook.find u fun hut => hnew (hut ▸ hu)).symm, by rw [hlook.bronze]; exact he⟩

/-- The instants a pass expects: those that fired in the window and are older than the tolerance. -/
def overdueInstants (rt : Runtime StoreCall.Ret) (lookback : Option Duration) (now : Instant) :
    Except PyError (List Instant) := do
  let cadence := rt.manifest.cadence
  let smallest ← cadenceOf rt.env.txt (rt.env.zones cadence.timezone) cadence.cron now
  let start ← checkedInstant (now - lookbackOf rt lookback)
  let instants ← cronInstants rt.env.txt (rt.env.zones cadence.timezone) cadence.cron start now
  .ok (instants.filter fun t => 2 * smallest ≤ now - t)

/-- No overdue instant with an entry has a stuck run. -/
def NoneStuck (rt : Runtime StoreCall.Ret) (lookback : Option Duration) (now : Instant)
    (w : Local) : Prop :=
  ∀ l, overdueInstants rt lookback now = .ok l → ∀ t ∈ l,
    ¬ StuckAt w.bronze w.store rt.targetId now t

/-- Every run a pass reports as unprocessed is taken up. -/
def AllTakenUp (rt : Runtime StoreCall.Ret) (now : Instant) (gaps : List Gap) (w' : Local) : Prop :=
  ∀ g ∈ gaps, g.kind = .unprocessedCapture → TakenUp w'.store rt.targetId now g.scheduledFor

theorem detectAt_looked (hst : rt.store = memoryStore) (h : w.store.WellFormed)
    (lookback : Option Duration) :
    (detectAt rt lookback now).Keeps (Local.answer out) Risky (fun _ => True)
      (fun gaps w' => AllTakenUp rt now gaps w' ↔ NoneStuck rt lookback now w) w := by
  refine keeps_pyExcept trivial fun smallest hsmallest => keeps_pyExcept trivial fun cutoff _ => ?_
  unfold detectFrom
  refine keeps_pyExcept trivial fun start hstart => ?_
  have hans : Local.answer out w (.bronze (.list rt.targetId (some start) none)) =
      (.ok (w.bronze.log.list rt.targetId (some start) none), w) := rfl
  refine Prog.Keeps.perform_bind hans (fun _ => trivial) ?_
  have hexec : w.store.exec (.runs rt.targetId (some start) none) =
      some (w.store.runs rt.targetId (some start) none, w.store) := rfl
  refine keeps_store hst hexec (fun _ => trivial) ?_
  refine keeps_pyExcept trivial fun instants hinstants => ?_
  obtain ⟨hnodup, hwhole⟩ := cronInstants_wholeMinute hinstants
  have hread : ∀ t ∈ instants, Read rt
      ⟨entriesByInstant (w.bronze.log.list rt.targetId (some start) none),
        runsByInstant (w.store.runs rt.targetId (some start) none), 2 * smallest, cutoff, now⟩
      w t :=
    fun t ht => ⟨read_runs h (hwhole t ht).2, read_entries (hwhole t ht).2⟩
  refine (expectedInstants_looked hst h hnodup hread).imp fun gaps w' hall => ?_
  have hoverdue : overdueInstants rt lookback now =
      .ok (instants.filter fun t => 2 * smallest ≤ now - t) :=
    bind_eq_ok.mpr ⟨smallest, hsmallest, bind_eq_ok.mpr ⟨start, hstart,
      bind_eq_ok.mpr ⟨instants, hinstants, rfl⟩⟩⟩
  refine hall.taken.trans ?_
  unfold NoneStuck
  rw [hoverdue]
  constructor
  · rintro hnone l hl t ht hs
    obtain rfl := Except.ok.inj hl
    rw [List.mem_filter, decide_eq_true_eq] at ht
    exact hnone t ht.1 ⟨not_lt.mpr ht.2, hs⟩
  · rintro hnone t ht ⟨hold, hs⟩
    refine hnone _ rfl t ?_ hs
    exact List.mem_filter.mpr ⟨ht, decide_eq_true (not_lt.mp hold)⟩

/-- The time of a pass: the one it is given, or what the clock says. -/
def passTime (out : Outside) (w : Local) (at_ : Option Instant) : Instant :=
  at_.getD (out.clock w.reads)

/-- After a pass over a reachable ledger, every run it reports as unprocessed is pending or leased
exactly when no overdue instant with an entry had a stuck run before it. -/
theorem unprocessed_iff (out : Outside) (hst : rt.store = memoryStore)
    (h : MemoryStore.Reachable w.store) {lookback : Option Duration} {at_ : Option Instant}
    {gaps : List Gap}
    (hrun : (detectGaps rt lookback at_).run (Local.answer out) w = (.ok gaps, w')) :
    AllTakenUp rt (passTime out w at_) gaps w' ↔ NoneStuck rt lookback (passTime out w at_) w := by
  cases at_ with
  | some now => exact (detectAt_looked hst h.wellFormed lookback).run hrun
  | none =>
    -- the clock is read first, and the rest of the worker is as it was
    exact (detectAt_looked (w := { w with reads := w.reads + 1 }) hst h.wellFormed
      lookback).run hrun

end Unprocessed

/-! ## A run that failed -/

/-- What a worker commits for a capture it cannot decode. -/
def failedCommit : Commit where
  state := .failed
  outcome := .failed
  error := some "not a workbook"
  derivation := none
  observations := []
  events := [⟨"process_failed", .error, "not a workbook", "", none⟩]

/-- A capture, and a commit of the run as failed or none at all. -/
def captureAndFail (fails : Bool) : Verb StoreCall.Ret Unit := do
  let _ ← capture minutelyWorker ⟨noon - 2 * minute, none, false, .capture⟩
  if fails then
    let claim ← minutelyWorker.claim 1 (noon - 2 * minute)
    match claim with
    | some claim => do
      let _ ← minutelyWorker.commit claim failedCommit (noon - 2 * minute)
      .ret ()
    | none => .ret ()
  else .ret ()

def afterFailure (fails : Bool) : Local :=
  ((captureAndFail fails).run (Local.answer changingSource) fresh).2

theorem afterFailure_reachable (fails : Bool) :
    MemoryStore.Reachable (afterFailure fails).store :=
  ((Local.Sound.init .empty none 0 0).run changingSource (captureAndFail fails)).reachable

/-- The pass over the last three minutes. -/
def passAfter (fails : Bool) : Except Exn (List Gap) × Local :=
  (detectFrom minutelyWorker (2 * minute) none (3 * minute) noon).run (Local.answer changingSource)
    (afterFailure fails)

theorem passAfter_run {fails : Bool} {gaps : List Gap}
    (h : (passAfter fails).1.toOption = some gaps) :
    (detectGaps minutelyWorker (some (3 * minute)) (some noon)).run (Local.answer changingSource)
      (afterFailure fails) = (.ok gaps, (passAfter fails).2) := by
  rw [shortPass_program]
  change passAfter fails = (.ok gaps, (passAfter fails).2)
  generalize passAfter fails = final at h ⊢
  obtain ⟨r, w'⟩ := final
  cases r with
  | error e => cases h
  | ok gaps' =>
    obtain rfl := Option.some.inj h
    rfl

/-- A capture whose run failed: the pass reports it, and no worker takes it up. -/
theorem failed_reported : ∃ w : Local, MemoryStore.Reachable w.store ∧ ∃ gaps w',
    (detectGaps minutelyWorker (some (3 * minute)) (some noon)).run (Local.answer changingSource)
      w = (.ok gaps, w') ∧ ¬ AllTakenUp minutelyWorker noon gaps w' := by
  have hgaps : (passAfter true).1.toOption = some
      [⟨noon - 2 * minute, .unprocessedCapture, "replay: the next process run claims it"⟩,
        ⟨noon - minute, .pending, "inside tolerance; nothing to do"⟩,
        ⟨noon, .pending, "inside tolerance; nothing to do"⟩] := by decide +kernel
  have hrow : ((passAfter true).2.store.find minutelyWorker.targetId (noon - 2 * minute)).map
      (fun run => (run.state, run.leaseUntil)) = some (.failed, none) := by decide +kernel
  have hattempts : ((passAfter true).2.store.attemptTable.values.all fun a => a.kind ≠ .replay) =
      true := by decide +kernel
  refine ⟨_, afterFailure_reachable true, _, _, passAfter_run hgaps, fun h => ?_⟩
  obtain ⟨run, hfind, htaken⟩ := takenUp_iff.mp (h _ List.mem_cons_self rfl)
  rw [hfind] at hrow
  obtain ⟨hstate, hlease⟩ := Prod.mk.inj (Option.some.inj hrow)
  rcases htaken with hcaptured | hreplay | hheld
  · cases hstate.symm.trans hcaptured
  · obtain ⟨a, ha, hkind, -⟩ := hreplay
    have hmem : a ∈ (passAfter true).2.store.attemptTable.values := (List.mem_filter.mp ha).1
    exact of_decide_eq_true (List.all_eq_true.mp hattempts a hmem) hkind
  · obtain ⟨u, hu, -⟩ := hheld
    cases hlease.symm.trans hu

/-- A run whose capture waits for a worker is reported, and pending. -/
theorem captured_taken_up : ∃ gaps w',
    (detectGaps minutelyWorker (some (3 * minute)) (some noon)).run (Local.answer changingSource)
      (afterFailure false) = (.ok gaps, w') ∧
    (∃ g ∈ gaps, g.kind = .unprocessedCapture) ∧ AllTakenUp minutelyWorker noon gaps w' := by
  have hgaps : (passAfter false).1.toOption = some
      [⟨noon - 2 * minute, .unprocessedCapture, "replay: the next process run claims it"⟩,
        ⟨noon - minute, .pending, "inside tolerance; nothing to do"⟩,
        ⟨noon, .pending, "inside tolerance; nothing to do"⟩] := by decide +kernel
  have hcaptured : ((afterFailure false).store.runTable.values.all fun run =>
      run.state = .captured) = true := by decide +kernel
  have hrun := passAfter_run hgaps
  refine ⟨_, _, hrun, ⟨_, List.mem_cons_self, rfl⟩, ?_⟩
  refine (unprocessed_iff changingSource rfl (afterFailure_reachable false) hrun).mpr ?_
  rintro l - t - ⟨-, run, hfind, hstuck⟩
  have hmem := Dict.mem_values.mpr (MemoryStore.find_eq_some hfind).1
  exact hstuck.captured (of_decide_eq_true (List.all_eq_true.mp hcaptured run hmem))

end EnergyPlatform
