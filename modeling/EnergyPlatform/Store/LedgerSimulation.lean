import EnergyPlatform.Store.Transactions
import EnergyPlatform.Store.WellFormed

/-!
# Store.LedgerSimulation

The memory store against the tables of PostgreSQL, one ledger operation at a time.

`Simulates reg ρ s t`: the tables hold what the memory store holds, with the ids renamed by `ρ`. The
identity columns skip values the memory counters do not, so the renaming is strictly monotone and
not the identity. A new id extends the renaming above all ids in use: `Extends`.
-/

namespace EnergyPlatform

open Lib

/-- How the ids of a memory store read in the tables. -/
structure Renaming where
  runs : Nat → Nat
  attempts : Nat → Nat
  rows : Nat → Nat
  events : Nat → Nat
  runsMono : StrictMono runs
  attemptsMono : StrictMono attempts
  rowsMono : StrictMono rows
  eventsMono : StrictMono events

namespace Renaming

variable (ρ : Renaming)

def run (r : Run) : Run := { r with id := ρ.runs r.id }

def attempt (a : RunAttempt) : RunAttempt :=
  { a with id := ρ.attempts a.id, runId := ρ.runs a.runId }

def claim (c : Claim) : Claim := ⟨ρ.run c.run, c.fence, ρ.attempt c.attempt⟩

def row (reg : Registry) (r : StoredObservation) : ObservationRow :=
  ⟨ρ.rows r.id, ρ.attempts r.runAttemptId, r.observation, ownerTransportOf reg r.observation⟩

def event (e : StoredEvent) : StoredEvent :=
  { e with id := ρ.events e.id, runAttemptId := e.runAttemptId.map ρ.attempts }

/-- The same call with the ids of the tables. -/
def call : LedgerCall → LedgerCall
  | .ensureRun targetId at_ state origin captureId now =>
    .ensureRun targetId at_ state origin captureId now
  | .setState runId state now => .setState (ρ.runs runId) state now
  | .markRecaptured runId captureId now => .markRecaptured (ρ.runs runId) captureId now
  | .claim runId owner ttl now => .claim (ρ.runs runId) owner ttl now
  | .renew c ttl now => .renew (ρ.claim c) ttl now
  | .commit c args now => .commit (ρ.claim c) args now
  | .recordAttempt runId kind outcome captureId error now =>
    .recordAttempt (ρ.runs runId) kind outcome captureId error now
  | .enqueueReplay runId now => .enqueueReplay (ρ.runs runId) now
  | .pendingRuns targetId now => .pendingRuns targetId now

/-- The same result with the ids of the tables. -/
def result : (c : LedgerCall) → c.Ret → (ρ.call c).Ret
  | .ensureRun .., r => ρ.run r
  | .setState .., r => ρ.run r
  | .markRecaptured .., r => ρ.run r
  | .claim .., c => Option.map ρ.claim c
  | .renew .., b => b
  | .commit .., r => r
  | .recordAttempt .., a => ρ.attempt a
  | .enqueueReplay .., a => Option.map ρ.attempt a
  | .pendingRuns .., rs => List.map ρ.run rs

variable {ρ}

theorem runs_inj {i j : Nat} : ρ.runs i = ρ.runs j ↔ i = j := ρ.runsMono.injective.eq_iff

theorem attempts_inj {i j : Nat} : ρ.attempts i = ρ.attempts j ↔ i = j :=
  ρ.attemptsMono.injective.eq_iff

theorem rows_inj {i j : Nat} : ρ.rows i = ρ.rows j ↔ i = j := ρ.rowsMono.injective.eq_iff

end Renaming

/-- `f` up to `n`, then the numbers from `m` on. -/
def extendAt (f : Nat → Nat) (n m k : Nat) : Nat := if k ≤ n then f k else m + (k - (n + 1))

theorem extendAt_mono {f : Nat → Nat} {n m : Nat} (hf : StrictMono f) (hm : f n < m) :
    StrictMono (extendAt f n m) := by
  intro i j hij
  simp only [extendAt]
  by_cases hj : j ≤ n
  · rw [if_pos hj, if_pos (by omega)]
    exact hf hij
  · rw [if_neg hj]
    split
    · rename_i hi
      have := hf.monotone hi
      omega
    · omega

theorem extendAt_old {f : Nat → Nat} {n m k : Nat} (hk : k ≤ n) : extendAt f n m k = f k := if_pos hk

theorem extendAt_new {f : Nat → Nat} {n m : Nat} : extendAt f n m (n + 1) = m := by
  rw [extendAt, if_neg (by omega)]
  omega

/-- The two renamings agree on the ids in use. -/
structure Extends (q : Seq) (ρ ρ' : Renaming) : Prop where
  runs : ∀ k, k ≤ q.runs → ρ'.runs k = ρ.runs k
  attempts : ∀ k, k ≤ q.attempts → ρ'.attempts k = ρ.attempts k
  rows : ∀ k, k ≤ q.rows → ρ'.rows k = ρ.rows k
  events : ∀ k, k ≤ q.events → ρ'.events k = ρ.events k

theorem Extends.refl (q : Seq) (ρ : Renaming) : Extends q ρ ρ :=
  ⟨fun _ _ => rfl, fun _ _ => rfl, fun _ _ => rfl, fun _ _ => rfl⟩

/-- The counters only grow. -/
structure Seq.Le (q q' : Seq) : Prop where
  runs : q.runs ≤ q'.runs
  attempts : q.attempts ≤ q'.attempts
  rows : q.rows ≤ q'.rows
  events : q.events ≤ q'.events

theorem Seq.Le.refl (q : Seq) : q.Le q := ⟨le_rfl, le_rfl, le_rfl, le_rfl⟩

theorem Seq.Le.trans {q q' q'' : Seq} (h : q.Le q') (h' : q'.Le q'') : q.Le q'' :=
  ⟨h.runs.trans h'.runs, h.attempts.trans h'.attempts, h.rows.trans h'.rows,
    h.events.trans h'.events⟩

theorem Extends.trans {q q' : Seq} {ρ ρ' ρ'' : Renaming} (h : Extends q ρ ρ')
    (h' : Extends q' ρ' ρ'') (hq : q.Le q') : Extends q ρ ρ'' where
  runs k hk := (h'.runs k (hk.trans hq.runs)).trans (h.runs k hk)
  attempts k hk := (h'.attempts k (hk.trans hq.attempts)).trans (h.attempts k hk)
  rows k hk := (h'.rows k (hk.trans hq.rows)).trans (h.rows k hk)
  events k hk := (h'.events k (hk.trans hq.events)).trans (h.events k hk)

namespace MemoryStore

/-- Attempts are listed in the order of their ids, and ids that name a run or an attempt name one
that is there. -/
structure Scoped (s : MemoryStore) : Prop where
  attemptOrder : s.attemptTable.keys.Pairwise (· < ·)
  attemptRun : ∀ {i a}, s.attemptTable.get? i = some a → ∃ r, s.runTable.get? a.runId = some r
  eventId : ∀ {i e}, s.eventTable.get? i = some e → e.id = i ∧ i ≤ s.seq.events
  eventAttempt : ∀ {i e a}, s.eventTable.get? i = some e → e.runAttemptId = some a →
    ∃ x, s.attemptTable.get? a = some x

end MemoryStore

/-- The tables hold what the memory store holds, with the ids renamed. -/
structure Simulates (reg : Registry) (ρ : Renaming) (s : MemoryStore) (t : Postgres.Tables) :
    Prop where
  runs : t.runs = s.runTable.values.map ρ.run
  attempts : t.attempts = s.attemptTable.values.map ρ.attempt
  derivations : t.derivations = s.derivationTable.values
  observations : t.observations = s.rowTable.values.map (ρ.row reg)
  occurrences : ∀ i f x a, (s.seen i).get? f = some (x, a) ↔ ∃ oc ∈ t.occurrences,
    oc.observationId = ρ.rows i ∧ oc.fetchedAt = f ∧ oc.runAttemptId = ρ.attempts a ∧ oc.ordering = x
  occurrenceIds : ∀ oc ∈ t.occurrences, ∃ i f x a, (s.seen i).get? f = some (x, a) ∧
    oc.observationId = ρ.rows i ∧ oc.fetchedAt = f ∧ oc.runAttemptId = ρ.attempts a
  occurrenceKeys : t.occurrences.Pairwise fun oc oc' =>
    ¬ (oc.observationId = oc'.observationId ∧ oc.fetchedAt = oc'.fetchedAt)
  events : t.events = s.eventTable.values.map ρ.event
  seqRuns : ρ.runs s.seq.runs ≤ t.seq.runs
  seqAttempts : ρ.attempts s.seq.attempts ≤ t.seq.attempts
  seqRows : ρ.rows s.seq.rows ≤ t.seq.observations
  seqEvents : ρ.events s.seq.events ≤ t.seq.events

namespace Simulates

open MemoryStore

variable {reg : Registry} {ρ ρ' : Renaming} {s : MemoryStore} {t : Postgres.Tables}

/-! ## Renaming further -/

theorem seen_row (hw : WellFormed s) {i : Nat} {f x : Instant} {a : Nat}
    (hf : (s.seen i).get? f = some (x, a)) :
    i ≤ s.seq.rows ∧ a ≤ s.seq.attempts := by
  obtain ⟨r, hr⟩ := hw.silver.seenRow hf
  obtain ⟨y, hy⟩ := hw.seenAttempt ⟨i, r, hr, rfl, hf⟩
  exact ⟨hw.silver.bound hr, hw.attempts.bound hy⟩

/-- A renaming that agrees on the ids in use does as well. -/
theorem rename (h : Simulates reg ρ s t) (hw : WellFormed s) (hsc : Scoped s)
    (he : Extends s.seq ρ ρ') : Simulates reg ρ' s t where
  runs := by
    rw [h.runs]
    refine List.map_congr_left fun r hr => ?_
    obtain ⟨i, hi⟩ := Dict.mem_values.mp hr
    have hid := hw.runs.id hi
    rw [Renaming.run, Renaming.run, he.runs r.id (hid ▸ hw.runs.bound hi)]
  attempts := by
    rw [h.attempts]
    refine List.map_congr_left fun a ha => ?_
    obtain ⟨i, hi⟩ := Dict.mem_values.mp ha
    obtain ⟨r, hr⟩ := hsc.attemptRun hi
    have hid := hw.attempts.id hi
    rw [Renaming.attempt, Renaming.attempt, he.attempts a.id (hid ▸ hw.attempts.bound hi),
      he.runs a.runId (hw.runs.bound hr)]
  derivations := h.derivations
  observations := by
    rw [h.observations]
    refine List.map_congr_left fun r hr => ?_
    obtain ⟨i, hi⟩ := Dict.mem_values.mp hr
    obtain ⟨a, ha⟩ := hw.rowAttempt hi
    have hid := hw.silver.id hi
    rw [Renaming.row, Renaming.row, he.rows r.id (hid ▸ hw.silver.bound hi),
      he.attempts _ (hw.attempts.bound ha)]
  occurrences i f x a := by
    have hsame : ∀ i f x a, (s.seen i).get? f = some (x, a) →
        ρ'.rows i = ρ.rows i ∧ ρ'.attempts a = ρ.attempts a := fun i f x a hf =>
      ⟨he.rows i (seen_row hw hf).1, he.attempts a (seen_row hw hf).2⟩
    constructor
    · intro hf
      obtain ⟨oc, hoc, ho, hfe, ha, hx⟩ := (h.occurrences i f x a).mp hf
      obtain ⟨hi', ha'⟩ := hsame i f x a hf
      exact ⟨oc, hoc, ho.trans hi'.symm, hfe, ha.trans ha'.symm, hx⟩
    · rintro ⟨oc, hoc, ho, hfe, ha, hx⟩
      obtain ⟨j, f', x', b, hf', ho', hfe', ha''⟩ := h.occurrenceIds oc hoc
      obtain ⟨hj, hb⟩ := hsame j f' x' b hf'
      have hji : j = i := Renaming.rows_inj.mp ((hj.trans ho'.symm).trans ho)
      have hba : b = a := Renaming.attempts_inj.mp ((hb.trans ha''.symm).trans ha)
      subst hji hba
      exact (h.occurrences j f x b).mpr ⟨oc, hoc, ho', hfe, ha'', hx⟩
  occurrenceIds oc hoc := by
    obtain ⟨i, f, x, a, hf, ho, hfe, ha⟩ := h.occurrenceIds oc hoc
    exact ⟨i, f, x, a, hf, ho.trans (he.rows i (seen_row hw hf).1).symm, hfe,
      ha.trans (he.attempts a (seen_row hw hf).2).symm⟩
  occurrenceKeys := h.occurrenceKeys
  events := by
    rw [h.events]
    refine List.map_congr_left fun e he' => ?_
    obtain ⟨i, hi⟩ := Dict.mem_values.mp he'
    obtain ⟨hid, hb⟩ := hsc.eventId hi
    have hatt : e.runAttemptId.map ρ.attempts = e.runAttemptId.map ρ'.attempts := by
      cases ha : e.runAttemptId with
      | none => rfl
      | some a =>
        obtain ⟨x, hx⟩ := hsc.eventAttempt hi ha
        rw [Option.map_some, Option.map_some, he.attempts a (hw.attempts.bound hx)]
    rw [Renaming.event, Renaming.event, he.events e.id (hid ▸ hb), hatt]
  seqRuns := (he.runs _ (le_refl _)).symm ▸ h.seqRuns
  seqAttempts := (he.attempts _ (le_refl _)).symm ▸ h.seqAttempts
  seqRows := (he.rows _ (le_refl _)).symm ▸ h.seqRows
  seqEvents := (he.events _ (le_refl _)).symm ▸ h.seqEvents

/-! ## Updates in place -/

theorem values_set_eq_update {ν : Type} {d : Dict Nat ν} {id : ν → Nat}
    (hid : ∀ {i v}, d.get? i = some v → id v = i) {k : Nat} {old : ν} (hold : d.get? k = some old)
    (f : ν → ν) : (d.set k (f old)).values = Sql.update (fun v => id v = k) f d.values := by
  refine Dict.values_eq_map ?_ fun i v hv => ?_
  · rw [Dict.keys_set, if_pos (Dict.mem_keys.mpr ⟨old, hold⟩)]
  · simp only [Dict.get?_set, hid hv, decide_eq_true_eq]
    by_cases hik : i = k
    · subst hik
      rw [hold, Option.some.injEq] at hv
      rw [if_pos rfl, if_pos rfl, hv]
    · rw [if_neg hik, if_neg hik, hv]

theorem find?_id {ν : Type} {d : Dict Nat ν} {id : ν → Nat}
    (hid : ∀ {i v}, d.get? i = some v → id v = i) {k : Nat} {old : ν} (hold : d.get? k = some old) :
    d.values.find? (fun v => id v = k) = some old := by
  cases hf : d.values.find? fun v => id v = k with
  | none =>
    have := List.find?_eq_none.mp hf old (Dict.mem_values.mpr ⟨k, hold⟩)
    simp [hid hold] at this
  | some v =>
    obtain ⟨i, hi⟩ := Dict.mem_values.mp (List.mem_of_find?_eq_some hf)
    have hk : id v = k := by simpa using List.find?_some hf
    rw [hid hi] at hk
    rw [hk, hold] at hi
    exact hi.symm

theorem run_of_mem (hw : WellFormed s) {r : Run} (hr : r ∈ s.runTable.values) :
    s.runTable.get? r.id = some r := by
  obtain ⟨i, hi⟩ := Dict.mem_values.mp hr
  rw [hw.runs.id hi]
  exact hi

theorem attempt_of_mem (hw : WellFormed s) {a : RunAttempt} (ha : a ∈ s.attemptTable.values) :
    s.attemptTable.get? a.id = some a := by
  obtain ⟨i, hi⟩ := Dict.mem_values.mp ha
  rw [hw.attempts.id hi]
  exact hi

/-- An update of the row with one id, under a condition that holds of it. -/
theorem update_one {ν μ : Type} {d : Dict Nat ν} {id : ν → Nat}
    (hid : ∀ {i v}, d.get? i = some v → id v = i) {k : Nat} {old : ν} (hold : d.get? k = some old)
    (g : ν → μ) (c : μ → Bool) (set : μ → μ) (f : ν → ν)
    (hc : ∀ v, d.get? (id v) = some v → c (g v) = decide (id v = k)) (hset : set (g old) = g (f old)) :
    (Sql.returning c set (d.values.map g)).head? = some (g (f old)) ∧
      Sql.update c set (d.values.map g) = (d.set k (f old)).values.map g := by
  have hmem : ∀ v ∈ d.values, d.get? (id v) = some v := by
    intro v hv
    obtain ⟨i, hi⟩ := Dict.mem_values.mp hv
    rw [hid hi]
    exact hi
  have hc' : ∀ v ∈ d.values, c (g v) = decide (id v = k) := fun v hv => hc v (hmem v hv)
  have hset' : ∀ v ∈ d.values, decide (id v = k) = true → set (g v) = g (f v) := by
    intro v hv hk
    have hv' := hmem v hv
    rw [of_decide_eq_true hk, hold, Option.some.injEq] at hv'
    rw [← hv', hset]
  rw [Sql.returning_map hc' hset', Sql.update_map hc' hset', values_set_eq_update hid hold f,
    Sql.returning, List.map_map, List.head?_map, List.head?_filter, find?_id hid hold]
  exact ⟨rfl, rfl⟩

/-- An update whose condition holds of no row. -/
theorem update_none {μ : Type} {rows : List μ} {c : μ → Bool} (set : μ → μ)
    (hc : ∀ r ∈ rows, c r = false) :
    Sql.returning c set rows = [] ∧ Sql.update c set rows = rows := by
  constructor
  · rw [Sql.returning, List.filter_eq_nil_iff.mpr fun r hr => by simp [hc r hr]]
    rfl
  · rw [Sql.update]
    refine (List.map_congr_left fun r hr => ?_).trans (List.map_id rows)
    rw [hc r hr]
    rfl

theorem updateRun_some (h : Simulates reg ρ s t) (hw : WellFormed s) {k : Nat} {old : Run}
    (hold : s.runTable.get? k = some old) (c : Run → Bool) (set f : Run → Run)
    (hc : ∀ r, s.runTable.get? r.id = some r → c (ρ.run r) = decide (r.id = k))
    (hset : set (ρ.run old) = ρ.run (f old)) : t.updateRun c set = (some (ρ.run (f old)),
      { t with runs := (s.runTable.set k (f old)).values.map ρ.run }) := by
  obtain ⟨hrow, hrows⟩ := update_one hw.runs.id hold ρ.run c set f hc hset
  rw [Postgres.Tables.updateRun, h.runs, hrow, hrows]

theorem updateRun_none (h : Simulates reg ρ s t) (hw : WellFormed s) (c : Run → Bool)
    (set : Run → Run) (hc : ∀ r, s.runTable.get? r.id = some r → c (ρ.run r) = false) :
    t.updateRun c set = (none, t) := by
  have hno : ∀ r ∈ t.runs, c r = false := by
    intro r hr
    rw [h.runs] at hr
    obtain ⟨q, hq, rfl⟩ := List.mem_map.mp hr
    exact hc q (run_of_mem hw hq)
  obtain ⟨hrow, hrows⟩ := update_none set hno
  rw [Postgres.Tables.updateRun, hrow, hrows]
  rfl

/-- The tables after an update of one run. -/
theorem putRun (h : Simulates reg ρ s t) (r : Run) : Simulates reg ρ (s.putRun r)
    { t with runs := (s.runTable.set r.id r).values.map ρ.run } :=
  { h with runs := rfl }

/-! ## New ids -/

/-- The next attempt id of the memory store reads as `m`. -/
def addAttempt (ρ : Renaming) {n m : Nat} (hm : ρ.attempts n < m) : Renaming :=
  { ρ with
    attempts := extendAt ρ.attempts n m
    attemptsMono := extendAt_mono ρ.attemptsMono hm }

def addRun (ρ : Renaming) {n m : Nat} (hm : ρ.runs n < m) : Renaming :=
  { ρ with
    runs := extendAt ρ.runs n m
    runsMono := extendAt_mono ρ.runsMono hm }

def addRow (ρ : Renaming) {n m : Nat} (hm : ρ.rows n < m) : Renaming :=
  { ρ with
    rows := extendAt ρ.rows n m
    rowsMono := extendAt_mono ρ.rowsMono hm }

def addEvent (ρ : Renaming) {n m : Nat} (hm : ρ.events n < m) : Renaming :=
  { ρ with
    events := extendAt ρ.events n m
    eventsMono := extendAt_mono ρ.eventsMono hm }

theorem extends_addAttempt {q : Seq} {m : Nat} (hm : ρ.attempts q.attempts < m) :
    Extends q ρ (addAttempt ρ hm) :=
  { Extends.refl q ρ with attempts := fun _ hk => extendAt_old hk }

theorem extends_addRun {q : Seq} {m : Nat} (hm : ρ.runs q.runs < m) : Extends q ρ (addRun ρ hm) :=
  { Extends.refl q ρ with runs := fun _ hk => extendAt_old hk }

theorem extends_addRow {q : Seq} {m : Nat} (hm : ρ.rows q.rows < m) : Extends q ρ (addRow ρ hm) :=
  { Extends.refl q ρ with rows := fun _ hk => extendAt_old hk }

theorem extends_addEvent {q : Seq} {m : Nat} (hm : ρ.events q.events < m) :
    Extends q ρ (addEvent ρ hm) :=
  { Extends.refl q ρ with events := fun _ hk => extendAt_old hk }

/-- A fresh attempt on both sides. -/
theorem newAttempt (h : Simulates reg ρ s t) (hw : WellFormed s) (hsc : Scoped s)
    (mk mk' : Nat → RunAttempt) (hid : ∀ n, (mk n).id = n)
    (hmk : ∀ n m, mk' m = { ρ.attempt (mk n) with id := m }) : ∃ ρ', Extends s.seq ρ ρ' ∧
      ρ'.runs = ρ.runs ∧ (t.insertAttempt mk').1 = ρ'.attempt (s.newAttempt mk).1 ∧
      Simulates reg ρ' (s.newAttempt mk).2 (t.insertAttempt mk').2 := by
  have hm : ρ.attempts s.seq.attempts < t.seq.attempts + 1 := Nat.lt_succ_of_le h.seqAttempts
  have hnew : mk' (t.seq.attempts + 1) = (addAttempt ρ hm).attempt (mk (s.seq.attempts + 1)) := by
    have hext : (addAttempt ρ hm).attempts (mk (s.seq.attempts + 1)).id = t.seq.attempts + 1 := by
      rw [hid]
      exact extendAt_new
    rw [Renaming.attempt, hext, hmk (s.seq.attempts + 1)]
    rfl
  have h' := h.rename hw hsc (extends_addAttempt hm)
  refine ⟨addAttempt ρ hm, extends_addAttempt hm, rfl, hnew, { h' with attempts := ?_, seqAttempts := ?_ }⟩
  · have hfresh : s.attemptTable.get? (mk (s.seq.attempts + 1)).id = none := by
      rw [hid]
      exact hw.attempts.fresh
    simp only [MemoryStore.newAttempt, putAttempt_attemptTable, Postgres.Tables.insertAttempt]
    rw [Dict.values_set_of_none _ hfresh, List.map_append, ← h'.attempts, hnew]
    rfl
  · exact le_of_eq extendAt_new

/-! ## Operations on runs -/

theorem find (h : Simulates reg ρ s t) (targetId : String) (at_ : Instant) :
    (t.runs.find? fun r => r.targetId = targetId ∧ r.scheduledFor = at_) =
      (s.find targetId at_).map ρ.run := by
  rw [h.runs, List.find?_map]
  rfl

theorem ensureRun (h : Simulates reg ρ s t) (hw : WellFormed s) (hsc : Scoped s)
    (targetId : String) (at_ : Instant) (state : RunState) (origin : RunOrigin)
    (captureId : Option CaptureId) (now : Instant) : ∃ ρ', Extends s.seq ρ ρ' ∧
      (t.ensureRun targetId at_ state origin captureId now).1 =
        ρ'.run (s.ensureRun targetId at_ state origin captureId now).1 ∧
      Simulates reg ρ' (s.ensureRun targetId at_ state origin captureId now).2
        (t.ensureRun targetId at_ state origin captureId now).2 := by
  have hfind := h.find targetId at_
  simp only [Postgres.Tables.ensureRun, MemoryStore.ensureRun]
  cases hs : s.find targetId at_ with
  | none =>
    rw [hs, Option.map_none] at hfind
    simp only [hfind]
    have hm : ρ.runs s.seq.runs < t.seq.runs + 1 := Nat.lt_succ_of_le h.seqRuns
    have h' := h.rename hw hsc (extends_addRun hm)
    have hnew : ∀ r : Run, r.id = s.seq.runs + 1 →
        (addRun ρ hm).run r = { r with id := t.seq.runs + 1 } := by
      intro r hr
      rw [Renaming.run, hr, show (addRun ρ hm).runs (s.seq.runs + 1) = t.seq.runs + 1 from extendAt_new]
    refine ⟨addRun ρ hm, extends_addRun hm, by rw [hnew _ rfl],
      { h' with runs := ?_, seqRuns := ?_ }⟩
    · simp only [putRun_runTable]
      rw [Dict.values_set_of_none _ hw.runs.fresh, List.map_append, ← h'.runs]
      simp only [List.map_cons, List.map_nil]
      rw [hnew _ rfl]
    · exact le_of_eq extendAt_new
  | some old =>
    rw [hs, Option.map_some] at hfind
    obtain ⟨⟨i, hi⟩, -⟩ := find_eq_some hs
    have hid := hw.runs.id hi
    subst hid
    simp only [hfind]
    -- the columns `DO UPDATE` sets are those the memory store replaces, or stay
    generalize hex : ({ id := t.seq.runs + 1, targetId, scheduledFor := at_, state, fence := 0, origin
                        leaseOwner := none, leaseUntil := none, captureId, createdAt := now
                        updatedAt := now } : Run) = excluded
    have hmem : (if state = .captured ∧ ¬ final old.state ∧ old.captureId = none then
        ({ old with state := .captured, captureId, updatedAt := now },
          s.putRun { old with state := .captured, captureId, updatedAt := now })
        else (old, s)) = (Postgres.Tables.onConflict excluded old,
          s.putRun (Postgres.Tables.onConflict excluded old)) := by
      rw [← hex]
      simp only [Postgres.Tables.onConflict, Postgres.Tables.overwrites, final, ne_eq,
        decide_eq_true_eq]
      split
      · rfl
      · rw [MemoryStore.putRun, Dict.set_get? hi]
    have hset : Postgres.Tables.onConflict excluded (ρ.run old) =
        ρ.run (Postgres.Tables.onConflict excluded old) := rfl
    have hupdate := h.updateRun_some hw hi (fun q => q.id = (ρ.run old).id)
      (Postgres.Tables.onConflict excluded) (Postgres.Tables.onConflict excluded)
      (fun r _ => by rw [decide_eq_decide]; exact Renaming.runs_inj) hset
    rw [hmem]
    refine ⟨ρ, Extends.refl _ _, hset, { h.putRun _ with runs := ?_, seqRuns := ?_ }⟩
    · exact congrArg (fun p => p.2.runs) hupdate
    · exact h.seqRuns.trans (Nat.le_succ _)

theorem setState (h : Simulates reg ρ s t) (hw : WellFormed s) {k : Nat} {state : RunState}
    {now : Instant} {out : Run} {s' : MemoryStore} (hs : s.setState k state now = some (out, s')) :
    ∃ t', t.setState (ρ.runs k) state now = some (ρ.run out, t') ∧ Simulates reg ρ s' t' := by
  obtain ⟨old, hold, rfl, rfl⟩ := setState_cases hs
  have hid := hw.runs.id hold
  subst hid
  have hupdate := h.updateRun_some hw hold (fun r => r.id = ρ.runs old.id)
    (fun r => { r with state, updatedAt := now }) (fun r => { r with state, updatedAt := now })
    (fun r _ => by rw [decide_eq_decide]; exact Renaming.runs_inj) rfl
  rw [Postgres.Tables.setState, hupdate]
  exact ⟨_, rfl, h.putRun { old with state, updatedAt := now }⟩

theorem markRecaptured (h : Simulates reg ρ s t) (hw : WellFormed s) {k : Nat} {c : CaptureId}
    {now : Instant} {out : Run} {s' : MemoryStore}
    (hs : s.markRecaptured k c now = some (out, s')) :
    ∃ t', t.markRecaptured (ρ.runs k) c now = some (ρ.run out, t') ∧ Simulates reg ρ s' t' := by
  obtain ⟨old, hold, rfl, rfl⟩ := markRecaptured_cases hs
  have hid := hw.runs.id hold
  subst hid
  have hupdate := h.updateRun_some hw hold (fun r => r.id = ρ.runs old.id) (fun r => recaptured r c now)
    (fun r => recaptured r c now)
    (fun r _ => by rw [decide_eq_decide]; exact Renaming.runs_inj) rfl
  simp only [Postgres.Tables.markRecaptured]
  rw [show (fun r : Run => ({ r with
    state := .captured, captureId := some c, fence := r.fence + 1, leaseOwner := none
    leaseUntil := none, updatedAt := now } : Run)) = fun r => recaptured r c now from rfl, hupdate]
  exact ⟨_, rfl, h.putRun (recaptured old c now)⟩

theorem renew (h : Simulates reg ρ s t) (hw : WellFormed s) {c : Claim} {ttl : Duration}
    {now : Instant} {out : Bool} {s' : MemoryStore} (hs : s.renew c ttl now = some (out, s')) :
    ∃ t', t.renew (ρ.claim c) ttl now = (out, t') ∧ Simulates reg ρ s' t' := by
  obtain ⟨old, hold, hcase⟩ := renew_cases hs
  have hid := hw.runs.id hold
  have hcond : ∀ r, s.runTable.get? r.id = some r →
      (decide ((ρ.run r).id = (ρ.claim c).run.id) && decide ((ρ.run r).fence = (ρ.claim c).fence)) =
        (decide (r.id = c.run.id) && decide (r.fence = c.fence)) := by
    intro r _
    simp only [Renaming.run, Renaming.claim, Renaming.runs_inj]
    rfl
  rcases hcase with ⟨hne, rfl, rfl⟩ | ⟨heq, rfl, rfl⟩
  · have hupdate := h.updateRun_none hw
      (fun r => decide (r.id = (ρ.claim c).run.id) && decide (r.fence = (ρ.claim c).fence))
      (fun r => { r with leaseUntil := some (now + ttl), updatedAt := now }) fun r hr => by
        rw [hcond r hr]
        by_cases hk : r.id = c.run.id
        · rw [hk, hold, Option.some.injEq] at hr
          simp [← hr, hne]
        · simp [hk]
    refine ⟨t, ?_, h⟩
    rw [Postgres.Tables.renew, hupdate]
    rfl
  · have hupdate := h.updateRun_some hw hold
      (fun r => decide (r.id = (ρ.claim c).run.id) && decide (r.fence = (ρ.claim c).fence))
      (fun r => { r with leaseUntil := some (now + ttl), updatedAt := now })
      (fun r => renewed r ttl now) (fun r hr => by
        rw [hcond r hr]
        by_cases hk : r.id = c.run.id
        · rw [hk, hold, Option.some.injEq] at hr
          simp [← hr, heq, hid]
        · simp [hk]) rfl
    rw [Postgres.Tables.renew, hupdate]
    refine ⟨_, rfl, ?_⟩
    have hput := h.putRun (renewed old ttl now)
    rw [show (renewed old ttl now).id = c.run.id from hid] at hput
    exact hput

/-! ## Operations on attempts -/

/-- The tables after an update of one attempt. -/
theorem putAttempt (h : Simulates reg ρ s t) (a : RunAttempt) : Simulates reg ρ (s.putAttempt a)
    { t with attempts := (s.attemptTable.set a.id a).values.map ρ.attempt } :=
  { h with attempts := rfl }

theorem any_attempts (h : Simulates reg ρ s t) (c : RunAttempt → Bool) :
    t.attempts.any c = s.attemptTable.values.any fun a => c (ρ.attempt a) := by
  rw [h.attempts, List.any_map]
  rfl

/-- A reference to an attempt that is there. -/
theorem attempt_there (h : Simulates reg ρ s t) {i : Nat} {a : RunAttempt}
    (ha : s.attemptTable.get? i = some a) (hid : a.id = i) :
    t.attempts.any (fun x => x.id = ρ.attempts i) = true := by
  rw [h.any_attempts, List.any_eq_true]
  exact ⟨a, Dict.mem_values.mpr ⟨i, ha⟩, by simp [Renaming.attempt, hid]⟩

theorem run_there (h : Simulates reg ρ s t) {i : Nat} {r : Run} (hr : s.runTable.get? i = some r)
    (hid : r.id = i) : t.runs.any (fun x => x.id = ρ.runs i) = true := by
  rw [h.runs, List.any_map, List.any_eq_true]
  exact ⟨r, Dict.mem_values.mpr ⟨i, hr⟩, by simp [Renaming.run, hid]⟩

theorem recordAttempt (h : Simulates reg ρ s t) (hw : WellFormed s) (hsc : Scoped s) {k : Nat}
    {r : Run} (hr : s.runTable.get? k = some r) (kind : AttemptKind) (outcome : AttemptOutcome)
    (captureId : Option CaptureId) (error : Option String) (now : Instant) :
    ∃ ρ' t', Extends s.seq ρ ρ' ∧
      t.recordAttempt (ρ.runs k) kind outcome captureId error now =
        some (ρ'.attempt (s.recordAttempt k kind outcome captureId error now).1, t') ∧
      Simulates reg ρ' (s.recordAttempt k kind outcome captureId error now).2 t' := by
  rw [Postgres.Tables.recordAttempt, h.run_there hr (hw.runs.id hr), if_pos rfl]
  obtain ⟨ρ', he, -, hout, hsim⟩ := h.newAttempt hw hsc
    (fun id =>
      { id, runId := k, kind, leaseOwner := none, leaseUntil := none, fence := none, captureId
        derivationId := none, outcome := some outcome, error, startedAt := now
        finishedAt := some now })
    (fun id =>
      { id, runId := ρ.runs k, kind, leaseOwner := none, leaseUntil := none, fence := none, captureId
        derivationId := none, outcome := some outcome, error, startedAt := now
        finishedAt := some now })
    (fun _ => rfl) (fun _ _ => rfl)
  refine ⟨ρ', _, he, ?_, hsim⟩
  rw [MemoryStore.recordAttempt, ← hout]

theorem unheld_attempt (k : Nat) (a : RunAttempt) :
    Postgres.Tables.unheld (ρ.runs k) (ρ.attempt a) = (decide (a.runId = k) && pendingReplay a) := by
  have hopen : Postgres.Tables.openReplay (ρ.attempt a) = Postgres.Tables.openReplay a := rfl
  rw [Postgres.Tables.unheld, hopen, Bool.eq_iff_iff]
  simp [Postgres.Tables.openReplay, Renaming.attempt, Renaming.runs_inj, pendingReplay,
    RunAttempt.pending, and_assoc]

theorem expired_eq (now : Instant) (a : RunAttempt) : a.expired now =
    (a.outcome.isNone && a.leaseOwner.isSome && a.leaseUntil.any (· < now)) := by
  rw [RunAttempt.expired]
  cases a.leaseUntil <;> rfl

theorem abandoned_attempt (k : Nat) (now : Instant) (a : RunAttempt) :
    Postgres.Tables.abandoned (ρ.runs k) now (ρ.attempt a) =
      (decide (a.runId = k) && expiredReplay now a) := by
  have hopen : Postgres.Tables.openReplay (ρ.attempt a) = Postgres.Tables.openReplay a := rfl
  rw [Postgres.Tables.abandoned, hopen, Bool.eq_iff_iff]
  simp [Postgres.Tables.openReplay, Renaming.attempt, Renaming.runs_inj, expiredReplay, expired_eq,
    and_assoc]

theorem any_unheld (h : Simulates reg ρ s t) (k : Nat) :
    t.attempts.any (Postgres.Tables.unheld (ρ.runs k)) = (s.attempts k).any pendingReplay := by
  rw [h.any_attempts, MemoryStore.attempts, List.any_filter]
  simp only [unheld_attempt]

/-- `INSERT … WHERE NOT EXISTS` of a replay attempt. -/
theorem insertReplay (h : Simulates reg ρ s t) (hw : WellFormed s) (hsc : Scoped s) (k : Nat)
    (captureId : Option CaptureId) (now : Instant) (hno : (s.attempts k).any pendingReplay = false) :
    ∃ ρ', Extends s.seq ρ ρ' ∧ ρ'.runs = ρ.runs ∧
      (t.insertReplay (ρ.runs k) captureId now).1 =
        some (ρ'.attempt (s.newAttempt (replayAttempt k captureId now)).1) ∧
      Simulates reg ρ' (s.newAttempt (replayAttempt k captureId now)).2
        (t.insertReplay (ρ.runs k) captureId now).2 := by
  obtain ⟨ρ', he, hruns, hout, hsim⟩ := h.newAttempt hw hsc (replayAttempt k captureId now)
    (Postgres.Tables.replayRow (ρ.runs k) captureId now) (fun _ => rfl) (fun _ _ => rfl)
  rw [Postgres.Tables.insertReplay, h.any_unheld, hno, if_neg Bool.false_ne_true]
  exact ⟨ρ', he, hruns, congrArg some hout, hsim⟩

theorem enqueueReplay (h : Simulates reg ρ s t) (hw : WellFormed s) (hsc : Scoped s) {k : Nat}
    {r : Run} (hr : s.runTable.get? k = some r) {now : Instant} {out : Option RunAttempt}
    {s' : MemoryStore} (hs : s.enqueueReplay k now = some (out, s')) : ∃ ρ' t', Extends s.seq ρ ρ' ∧
      t.enqueueReplay (ρ.runs k) now = (out.map ρ'.attempt, t') ∧ Simulates reg ρ' s' t' := by
  have hfind : t.runs.find? (fun q => q.id = ρ.runs k) = some (ρ.run r) := by
    have hk : ((fun q : Run => decide (q.id = ρ.runs k)) ∘ ρ.run) = fun q => decide (q.id = k) := by
      funext q
      exact decide_eq_decide.mpr Renaming.runs_inj
    rw [h.runs, List.find?_map, hk, find?_id hw.runs.id hr]
    rfl
  simp only [Postgres.Tables.enqueueReplay, hfind]
  simp only [MemoryStore.enqueueReplay] at hs
  cases hany : (s.attempts k).any pendingReplay with
  | true =>
    rw [hany, if_pos rfl] at hs
    cases hs
    refine ⟨ρ, t, Extends.refl _ _, ?_, h⟩
    rw [Postgres.Tables.insertReplay, h.any_unheld, hany, if_pos rfl]
    rfl
  | false =>
    rw [hany, if_neg Bool.false_ne_true, hr] at hs
    cases hs
    obtain ⟨ρ', he, -, hout, hsim⟩ := h.insertReplay hw hsc k r.captureId now hany
    exact ⟨ρ', _, he, Prod.ext hout rfl, hsim⟩

end Simulates

end EnergyPlatform
