import EnergyPlatform.Lib.Sql
import EnergyPlatform.Store.InsertionOrder
import Mathlib.Data.List.Lex

/-!
# Store.SqlView

The views `observations_current` and `observations_current_by_transport` against the in-memory
`current_rows`.

`Mirrors reg db s` relates the tables of a database to a memory store with the same data. A view
may return any result `DISTINCT ON` permits. `sql_view_refines`: where no two eligible rows of one
identity tie in rank, every permitted result is what the memory store selects; for the view by
transport it is enough that no two of one transport tie. `cross_transport_tie`: a tie across
transports leaves the first view free to return what the memory store does not.
-/

namespace EnergyPlatform

open Lib

/-! ## The tables and the views -/

/-- A row of `observations`; the value columns are those of the observation. -/
structure ObservationRow where
  id : Nat
  runAttemptId : Nat
  observation : EnergyObservation
  ownerTransport : Option Transport
deriving DecidableEq

structure OccurrenceRow where
  observationId : Nat
  runAttemptId : Nat
  fetchedAt : Instant
  sourcePublishedAt : Option Instant
deriving DecidableEq

/-- The columns the views read. `attempts` is `run_attempts (id, capture_id)`, `derivations` is
`(derivation_id, registered_at)`. -/
structure Database where
  observations : List ObservationRow
  occurrences : List OccurrenceRow
  attempts : List (Nat × Option CaptureId)
  derivations : List (DerivationId × Instant)
  invalidations : List Invalidation

/-- The condition of the `NOT EXISTS`:
`i.capture_id = a.capture_id AND (i.derivation_id IS NULL OR i.derivation_id = ob.derivation_id)`. -/
def voids (captureId : Option CaptureId) (d : DerivationId) (i : Invalidation) : Bool :=
  Sql.holds (Sql.and (Sql.eq (some i.captureId) captureId)
    (Sql.or (Sql.isNull i.derivationId) (Sql.eq i.derivationId (some d))))

/-- `COALESCE(source_published_at, fetched_at)`. -/
def OccurrenceRow.ordering (oc : OccurrenceRow) : Instant := oc.sourcePublishedAt.getD oc.fetchedAt

/-- A row of the join the views select from. -/
structure JoinedRow where
  row : ObservationRow
  registeredAt : Instant
  newest : Instant
deriving DecidableEq

namespace Database

/-- `observation_occurrences_valid`. -/
def validOccurrences (db : Database) : List OccurrenceRow :=
  ((Sql.join (Sql.join db.occurrences db.observations fun oc ob => ob.id = oc.observationId)
    db.attempts fun p a => a.1 = p.1.runAttemptId).filter fun p =>
      ! db.invalidations.any (voids p.2.2 p.1.2.observation.derivationId)).map fun p => p.1.1

/-- `max(…) GROUP BY observation_id`: no group, no row. -/
def newest (db : Database) (id : Nat) : Option Instant :=
  ((db.validOccurrences.filter fun oc => oc.observationId = id).map OccurrenceRow.ordering).max?

def joined (db : Database) : List JoinedRow :=
  (Sql.join db.observations db.derivations fun o d => d.1 = o.observation.derivationId).filterMap
    fun p => (db.newest p.1.id).map fun n => ⟨p.1, p.2.2, n⟩

end Database

/-- `string_to_array(contract_version, '.')::int[]`; a component beyond `int` is an error. -/
def versionArray (v : ContractVersion) : Option (List ℤ) :=
  if v.major < 2 ^ 31 ∧ v.minor < 2 ^ 31 ∧ v.patch < 2 ^ 31 then
    some [(v.major : ℤ), (v.minor : ℤ), (v.patch : ℤ)]
  else none

namespace JoinedRow

/-- `CASE WHEN owner_transport IS NULL OR source_transport = owner_transport THEN 0 ELSE 1 END`. -/
def ownerCase (j : JoinedRow) : ℕ :=
  if Sql.holds (Sql.or (Sql.isNull j.row.ownerTransport)
    (Sql.eq (some j.row.observation.sourceTransport) j.row.ownerTransport)) then 0 else 1

/-- `newest DESC, version DESC, registered_at DESC, derivation_id DESC`. -/
def versionOrder (j : JoinedRow) :
    Instantᵒᵈ ×ₗ (List ℤ)ᵒᵈ ×ₗ Instantᵒᵈ ×ₗ DerivationIdᵒᵈ :=
  toLex (OrderDual.toDual j.newest,
    toLex (OrderDual.toDual ((versionArray j.row.observation.contractVersion).getD []),
      toLex (OrderDual.toDual j.registeredAt,
        OrderDual.toDual j.row.observation.derivationId)))

def ownerOrder (j : JoinedRow) : ℕ ×ₗ Instantᵒᵈ ×ₗ (List ℤ)ᵒᵈ ×ₗ Instantᵒᵈ ×ₗ DerivationIdᵒᵈ :=
  toLex (j.ownerCase, j.versionOrder)

def identity (j : JoinedRow) : ObservationIdentity := observationIdentity j.row.observation

def identityByTransport (j : JoinedRow) : ObservationIdentity × Transport :=
  (observationIdentity j.row.observation, j.row.observation.sourceTransport)

def currentRow (j : JoinedRow) : CurrentRow :=
  ⟨j.row.observation, j.row.runAttemptId, orderingBasis j.row.observation⟩

end JoinedRow

namespace Database

/-- Every cast of a view succeeds. -/
def CastsOk (db : Database) : Prop :=
  ∀ j ∈ db.joined, (versionArray j.row.observation.contractVersion).isSome = true

/-- `observations_current` may return `out`. -/
def Current (c : Sql.ColumnOrder ObservationIdentity) (db : Database) (out : List JoinedRow) :
    Prop :=
  db.CastsOk ∧ Sql.DistinctOn JoinedRow.identity
    (c.orderBy JoinedRow.identity fun a b => a.ownerOrder ≤ b.ownerOrder) db.joined out

/-- `observations_current_by_transport` may return `out`. -/
def CurrentByTransport (c : Sql.ColumnOrder (ObservationIdentity × Transport)) (db : Database)
    (out : List JoinedRow) : Prop :=
  db.CastsOk ∧ Sql.DistinctOn JoinedRow.identityByTransport
    (c.orderBy JoinedRow.identityByTransport fun a b => a.versionOrder ≤ b.versionOrder) db.joined
    out

end Database

/-- The `WHERE` of the query over the views. -/
def MemoryStore.CurrentQuery.whereClause (q : MemoryStore.CurrentQuery) (o : EnergyObservation) :
    Bool :=
  o.datasetId = q.datasetId ∧ (∀ t ∈ q.start, t ≤ o.deliveryStartUtc) ∧
    (∀ t ∈ q.stop, o.deliveryStartUtc < t) ∧ (∀ m ∈ q.metric, o.metric = m) ∧
    ∀ t ∈ q.transport, o.sourceTransport = t

/-! ## The same data in a database and in a memory store -/

open MemoryStore

variable (reg : Registry)

/-- The stored row with the owner the registry names, as `commit` inserts it. -/
def ObservationRow.of (r : StoredObservation) : ObservationRow :=
  ⟨r.id, r.runAttemptId, r.observation, ownerTransportOf reg r.observation⟩

structure Mirrors (db : Database) (s : MemoryStore) : Prop where
  observations : ∀ o, o ∈ db.observations ↔ ∃ r ∈ s.rowTable.values, o = .of reg r
  occurrences : ∀ i f t a, (s.seen i).get? f = some (t, a) ↔ ∃ oc ∈ db.occurrences,
    oc.observationId = i ∧ oc.fetchedAt = f ∧ oc.runAttemptId = a ∧ oc.ordering = t
  attempts : ∀ a c, (a, c) ∈ db.attempts ↔
    ∃ att, s.attemptTable.get? a = some att ∧ att.captureId = c
  derivations : ∀ d t, (d, t) ∈ db.derivations ↔ s.registeredAt d = some t
  invalidations : ∀ i, i ∈ db.invalidations ↔
    s.invalidationTable.get? (i.targetId, i.captureId, i.derivationId) = some i
  invalidationKeys : ∀ k i, s.invalidationTable.get? k = some i →
    k = (i.targetId, i.captureId, i.derivationId)

/-- Every invalidated capture id is prefixed by the target its invalidation names. -/
def Prefixed (db : Database) : Prop := ∀ i ∈ db.invalidations, i.captureId.target = i.targetId

variable {reg} {db : Database} {s : MemoryStore}

theorem voids_iff {c : Option CaptureId} {d : DerivationId} {i : Invalidation} :
    voids c d i = true ↔ c = some i.captureId ∧
      (i.derivationId = none ∨ i.derivationId = some d) := by
  rw [voids, Sql.holds_and, Sql.holds_or, Sql.holds_eq, Sql.holds_isNull, Sql.holds_eq]
  constructor
  · rintro ⟨⟨x, hx, hc⟩, h⟩
    rw [Option.some.injEq] at hx
    refine ⟨hx ▸ hc, h.imp id ?_⟩
    rintro ⟨y, hy, hd⟩
    rw [hy, hd]
  · rintro ⟨hc, h⟩
    exact ⟨⟨_, rfl, hc⟩, h.imp id fun hd => ⟨d, hd, rfl⟩⟩

/-- The `NOT EXISTS` and `is_invalidated` agree: the target in the memory key is the one the
capture id starts with. -/
theorem Mirrors.occurrenceValid (hm : Mirrors reg db s) (hp : Prefixed db) (c : Option CaptureId)
    (d : DerivationId) :
    (! db.invalidations.any (voids c d)) = s.occurrenceValid d c := by
  have hkey : ∀ c d', s.invalidationTable.contains (c.target, c, d') = true ↔
      ∃ i ∈ db.invalidations, i.captureId = c ∧ i.derivationId = d' := by
    intro c d'
    rw [Dict.contains_iff]
    constructor
    · rintro ⟨i, hi⟩
      have hk := hm.invalidationKeys _ _ hi
      simp only [Prod.mk.injEq] at hk
      obtain ⟨ht, hc, hd⟩ := hk
      exact ⟨i, (hm.invalidations i).mpr (by rw [← ht, ← hc, ← hd]; exact hi), hc.symm, hd.symm⟩
    · rintro ⟨i, hi, rfl, rfl⟩
      exact ⟨i, by rw [hp i hi]; exact (hm.invalidations i).mp hi⟩
  cases c with
  | none =>
    have hnone : db.invalidations.any (voids none d) = false := by
      rw [List.any_eq_false]
      intro i _ hv
      obtain ⟨hc, -⟩ := voids_iff.mp hv
      cases hc
    rw [hnone]; rfl
  | some c =>
    simp only [MemoryStore.occurrenceValid, isInvalidated, Option.isSome_some, Bool.true_and]
    congr 1
    rw [Bool.eq_iff_iff, List.any_eq_true, Bool.or_eq_true, hkey, hkey]
    constructor
    · rintro ⟨i, hi, hv⟩
      obtain ⟨hc, hd⟩ := voids_iff.mp hv
      rw [Option.some.injEq] at hc
      exact hd.imp (fun hd => ⟨i, hi, hc.symm, hd⟩) fun hd => ⟨i, hi, hc.symm, hd⟩
    · rintro (⟨i, hi, rfl, hd⟩ | ⟨i, hi, rfl, hd⟩)
      · exact ⟨i, hi, voids_iff.mpr ⟨rfl, .inl hd⟩⟩
      · exact ⟨i, hi, voids_iff.mpr ⟨rfl, .inr hd⟩⟩

theorem Mirrors.observation (hm : Mirrors reg db s) (hr : Readable s) {o : ObservationRow}
    (ho : o ∈ db.observations) {r : StoredObservation} (hrow : r ∈ s.rowTable.values)
    (hid : o.id = r.id) : o = .of reg r := by
  obtain ⟨q, hq, rfl⟩ := (hm.observations o).mp ho
  obtain ⟨i, hi⟩ := Dict.mem_values.mp hrow
  obtain ⟨j, hj⟩ := Dict.mem_values.mp hq
  have hij : j = i := by
    rw [← hr.rowId hi, ← hr.rowId hj]; exact hid
  rw [hij, hi, Option.some.injEq] at hj
  rw [hj]

/-- The valid occurrences of a row, in the database and in memory. -/
theorem Mirrors.validInstant (hm : Mirrors reg db s) (hr : Readable s) (hp : Prefixed db)
    {r : StoredObservation} (hrow : r ∈ s.rowTable.values) {t : Instant} :
    t ∈ (db.validOccurrences.filter fun oc => oc.observationId = r.id).map OccurrenceRow.ordering ↔
      ValidInstant s r t := by
  simp only [Database.validOccurrences, List.mem_map, List.mem_filter, Sql.mem_join,
    decide_eq_true_eq, Prod.exists]
  constructor
  · rintro ⟨oc, ⟨⟨oc', ob, a, c, ⟨⟨⟨hoc, hob, hon⟩, ha, hat⟩, hv⟩, rfl⟩, hid⟩, rfl⟩
    obtain ⟨att, hatt, rfl⟩ := (hm.attempts a c).mp ha
    have hseen := (hm.occurrences _ _ _ _).mpr ⟨oc', hoc, rfl, rfl, rfl, rfl⟩
    rw [hid, ← hat] at hseen
    have hobr := hm.observation hr hob hrow (hon.trans hid)
    rw [hm.occurrenceValid hp, hobr] at hv
    exact ⟨_, a, att, hseen, hatt, hv⟩
  · rintro ⟨f, a, att, hf, hatt, hv⟩
    obtain ⟨oc, hoc, hid, rfl, rfl, rfl⟩ := (hm.occurrences _ _ _ _).mp hf
    refine ⟨oc, ⟨⟨oc, .of reg r, oc.runAttemptId, att.captureId,
      ⟨⟨⟨hoc, (hm.observations _).mpr ⟨r, hrow, rfl⟩, hid.symm⟩,
        (hm.attempts _ _).mpr ⟨att, hatt, rfl⟩, rfl⟩, ?_⟩, rfl⟩, hid⟩, rfl⟩
    rw [hm.occurrenceValid hp]
    exact hv

theorem Mirrors.newest (hm : Mirrors reg db s) (hr : Readable s) (hp : Prefixed db)
    {r : StoredObservation} (hrow : r ∈ s.rowTable.values) {t : Instant} :
    db.newest r.id = some t ↔ IsGreatest {x | ValidInstant s r x} t := by
  have hset : {x | ValidInstant s r x} = {x | x ∈ (db.validOccurrences.filter
      fun oc => oc.observationId = r.id).map OccurrenceRow.ordering} :=
    Set.ext fun _ => (hm.validInstant hr hp hrow).symm
  rw [hset, Database.newest, List.max?_eq_some_iff]
  exact ⟨fun ⟨hmem, hle⟩ => ⟨hmem, fun x hx => hle x hx⟩, fun ⟨hmem, hle⟩ => ⟨hmem, fun x hx => hle hx⟩⟩

/-- The join has one row for each stored row that is eligible and whose derivation is registered. -/
theorem Mirrors.mem_joined (hm : Mirrors reg db s) (hr : Readable s) (hp : Prefixed db)
    {j : JoinedRow} : j ∈ db.joined ↔ ∃ r ∈ s.rowTable.values, j.row = .of reg r ∧
      s.registeredAt r.observation.derivationId = some j.registeredAt ∧
      IsGreatest {x | ValidInstant s r x} j.newest := by
  simp only [Database.joined, List.mem_filterMap, Sql.mem_join, decide_eq_true_eq, Prod.exists,
    Option.map_eq_some_iff]
  constructor
  · rintro ⟨o, d, t, ⟨ho, hd, rfl⟩, n, hn, rfl⟩
    obtain ⟨r, hrow, rfl⟩ := (hm.observations o).mp ho
    exact ⟨r, hrow, rfl, (hm.derivations _ _).mp hd, (hm.newest hr hp hrow).mp hn⟩
  · rintro ⟨r, hrow, hj, hreg, hg⟩
    refine ⟨j.row, _, j.registeredAt, ⟨(hm.observations _).mpr ⟨r, hrow, hj⟩,
      (hm.derivations _ _).mpr hreg, by rw [hj]; rfl⟩, j.newest, ?_, rfl⟩
    rw [hj]
    exact (hm.newest hr hp hrow).mpr hg

/-! ## The order of the views and the rank -/

/-- The rank of the row a joined row stands for. -/
def JoinedRow.rank (reg : Registry) (j : JoinedRow) : Rank :=
  EnergyPlatform.rank reg j.row.observation j.registeredAt j.newest

theorem versionArray_order {v w : ContractVersion} (hv : (versionArray v).isSome = true)
    (hw : (versionArray w).isSome = true) :
    ((versionArray v).getD [] < (versionArray w).getD [] ↔ semverKey v < semverKey w) ∧
    ((versionArray v).getD [] = (versionArray w).getD [] ↔ semverKey v = semverKey w) := by
  have hget : ∀ {u}, (versionArray u).isSome = true →
      (versionArray u).getD [] = [(u.major : ℤ), (u.minor : ℤ), (u.patch : ℤ)] := by
    intro u hu
    unfold versionArray at hu ⊢
    split
    · rfl
    · rename_i hno
      rw [if_neg hno] at hu; cases hu
  rw [hget hv, hget hw]
  refine ⟨?_, ?_⟩
  · simp [semverKey, Prod.Lex.toLex_lt_toLex, List.cons_lt_cons_iff]
  · simp [semverKey]

theorem versionOrder_le {a b : JoinedRow}
    (ha : (versionArray a.row.observation.contractVersion).isSome = true)
    (hb : (versionArray b.row.observation.contractVersion).isSome = true) :
    a.versionOrder ≤ b.versionOrder ↔
      b.newest < a.newest ∨ b.newest = a.newest ∧
        (semverKey b.row.observation.contractVersion < semverKey a.row.observation.contractVersion ∨
          semverKey b.row.observation.contractVersion = semverKey a.row.observation.contractVersion ∧
          (b.registeredAt < a.registeredAt ∨ b.registeredAt = a.registeredAt ∧
            b.row.observation.derivationId ≤ a.row.observation.derivationId)) := by
  obtain ⟨hlt, heq⟩ := versionArray_order hb ha
  simp only [JoinedRow.versionOrder, Prod.Lex.toLex_le_toLex, OrderDual.toDual_lt_toDual,
    OrderDual.toDual_le_toDual, EmbeddingLike.apply_eq_iff_eq, hlt, eq_comm (a := a.newest),
    eq_comm (a := a.registeredAt)]
  rw [eq_comm (a := (versionArray a.row.observation.contractVersion).getD []), heq]

/-- Within one owner rank, the columns after the owner order as the rank does, downwards. -/
theorem versionOrder_le_iff {reg : Registry} {a b : JoinedRow}
    (ha : (versionArray a.row.observation.contractVersion).isSome = true)
    (hb : (versionArray b.row.observation.contractVersion).isSome = true)
    (ho : ownerRank reg a.row.observation = ownerRank reg b.row.observation) :
    a.versionOrder ≤ b.versionOrder ↔ b.rank reg ≤ a.rank reg := by
  rw [versionOrder_le ha hb]
  simp only [JoinedRow.rank, EnergyPlatform.rank, Prod.Lex.toLex_le_toLex, ho, lt_irrefl, true_and,
    false_or]

theorem ownerCase_of {reg : Registry} {j : JoinedRow} {r : StoredObservation}
    (h : j.row = .of reg r) : j.ownerCase = 1 - ownerRank reg j.row.observation := by
  have ho : j.row.ownerTransport = ownerTransportOf reg j.row.observation := by rw [h]; rfl
  rw [JoinedRow.ownerCase, ownerRank, ho]
  cases ownerTransportOf reg j.row.observation with
  | none => simp [Sql.holds_or, Sql.holds_isNull]
  | some owner =>
    by_cases ht : j.row.observation.sourceTransport = owner
    · simp [Sql.holds_or, Sql.holds_isNull, Sql.holds_eq, ht]
    · simp [Sql.holds_or, Sql.holds_isNull, Sql.holds_eq, ht, Ne.symm ht]

/-- The whole `ORDER BY` of the first view orders as the rank does, downwards. -/
theorem ownerOrder_le_iff {reg : Registry} {a b : JoinedRow} {r r' : StoredObservation}
    (ha : (versionArray a.row.observation.contractVersion).isSome = true)
    (hb : (versionArray b.row.observation.contractVersion).isSome = true)
    (har : a.row = .of reg r) (hbr : b.row = .of reg r') :
    a.ownerOrder ≤ b.ownerOrder ↔ b.rank reg ≤ a.rank reg := by
  have h1 := ownerRank_le_one reg a.row.observation
  have h2 := ownerRank_le_one reg b.row.observation
  rw [JoinedRow.ownerOrder, JoinedRow.ownerOrder, Prod.Lex.toLex_le_toLex, ownerCase_of har,
    ownerCase_of hbr, versionOrder_le ha hb]
  simp only [JoinedRow.rank, EnergyPlatform.rank, Prod.Lex.toLex_le_toLex]
  have hlt : 1 - ownerRank reg a.row.observation < 1 - ownerRank reg b.row.observation ↔
      ownerRank reg b.row.observation < ownerRank reg a.row.observation := by omega
  have heq : 1 - ownerRank reg a.row.observation = 1 - ownerRank reg b.row.observation ↔
      ownerRank reg b.row.observation = ownerRank reg a.row.observation := by omega
  rw [hlt, heq]

/-! ## The views select what the memory store selects -/

theorem whereClause_iff {q : CurrentQuery} {o : EnergyObservation} :
    q.whereClause o = true ↔ q.Satisfies o := by
  simp only [CurrentQuery.whereClause, CurrentQuery.Satisfies, CurrentQuery.admits,
    decide_eq_true_eq]
  tauto

section Agree

variable (hm : Mirrors reg db s) (hr : Readable s) (hreg : Registered s) (hp : Prefixed db)

include hm hr hp

theorem Mirrors.joined_rank {j : JoinedRow} (hj : j ∈ db.joined) :
    ∃ r ∈ s.rowTable.values, j.row = .of reg r ∧ Ranked reg s r (j.rank reg) ∧ Eligible s r := by
  obtain ⟨r, hrow, hjr, hreg, hg⟩ := (hm.mem_joined hr hp).mp hj
  refine ⟨r, hrow, hjr, ⟨j.registeredAt, j.newest, hreg, hg, ?_⟩, ⟨_, hg.1⟩⟩
  rw [JoinedRow.rank, hjr]
  rfl

include hreg

theorem Mirrors.joined_of {r : StoredObservation} (hrow : r ∈ s.rowTable.values)
    (he : Eligible s r) : ∃ j ∈ db.joined, j.row = .of reg r ∧ j.rank reg = s.rankOf reg r := by
  obtain ⟨t, n, ht, hg, hρ⟩ := rankOf_ranked reg hr hreg hrow he
  refine ⟨⟨.of reg r, t, n⟩, (hm.mem_joined hr hp).mpr ⟨r, hrow, rfl, ht, hg⟩, rfl, ?_⟩
  rw [hρ]
  rfl

variable {κ : Type} [DecidableEq κ] {group : JoinedRow → κ} {le : JoinedRow → JoinedRow → Prop}
  {out : List JoinedRow} {q : CurrentQuery}
  (hkey : ∀ a b, group a = group b ↔ q.key a.row.observation = q.key b.row.observation)
  (hle : ∀ a ∈ db.joined, ∀ b ∈ db.joined, group a = group b → le a b → b.rank reg ≤ a.rank reg)
  (htie : ∀ a ∈ s.rowTable.values, ∀ b ∈ s.rowTable.values, Eligible s a → Eligible s b →
    q.key a.observation = q.key b.observation → ∀ ρ, Ranked reg s a ρ → Ranked reg s b ρ → a = b)
  (hout : Sql.DistinctOn group le db.joined out)

include hkey hle htie hout

/-- A row of the view that satisfies the query is the winner of its key. -/
theorem view_wins {j : JoinedRow} (hj : j ∈ out) (hq : q.Satisfies j.row.observation) :
    ∃ r, j.row = .of reg r ∧ Wins reg s q r := by
  obtain ⟨hjm, hmin⟩ := hout.mem hj
  obtain ⟨r, hrow, hjr, hρ, he⟩ := hm.joined_rank hr hp hjm
  have hobs : j.row.observation = r.observation := by rw [hjr]; rfl
  rw [hobs] at hq
  obtain ⟨w, hw, hk, hle'⟩ := exists_wins reg hr hrow hq.1 he
  obtain ⟨hwm, -, hwe⟩ := hw.candidate reg hr
  obtain ⟨jw, hjw, hjwr, hjρ⟩ := hm.joined_of hr hreg hp hwm hwe
  have hg : group jw = group j := by
    rw [hkey, hobs, hjwr]
    exact hk
  have hge : s.rankOf reg w ≤ s.rankOf reg r := by
    rw [← hjρ, rankOf_of_ranked reg hr hρ]
    rcases hmin jw hjw hg with rfl | hlej
    · exact le_rfl
    · exact hle j hjm jw hjw hg.symm hlej
  have heq := le_antisymm hle' hge
  have hρr := rankOf_ranked reg hr hreg hrow he
  rw [heq] at hρr
  have hrw := htie r hrow w hwm he hwe hk.symm _ hρr (rankOf_ranked reg hr hreg hwm hwe)
  exact ⟨r, hjr, hrw ▸ hw⟩

/-- Every winner that satisfies the query is in the view. -/
theorem view_covers {r : StoredObservation} (hw : Wins reg s q r) (hq : q.Satisfies r.observation) :
    ∃ j ∈ out, j.row = .of reg r := by
  obtain ⟨hrow, -, he⟩ := hw.candidate reg hr
  obtain ⟨jr, hjr, hjrow, -⟩ := hm.joined_of hr hreg hp hrow he
  obtain ⟨j, hj, hg⟩ := hout.covers hjr
  have hk : q.key j.row.observation = q.key r.observation := by
    have := (hkey _ _).mp hg
    rw [hjrow] at this
    exact this
  obtain ⟨r', hjr', hw'⟩ := view_wins hm hr hreg hp hkey hle htie hout hj (q.satisfies_of_key hq hk)
  have hk' : q.key r'.observation = q.key r.observation := by
    rw [← hk, hjr']; rfl
  rw [Wins, hk'] at hw'
  exact ⟨j, hj, by rw [hjr', hw'.unique hw]⟩

theorem view_agrees : ∃ rows, s.currentRows reg q = some rows ∧
    ((out.filter fun j => q.whereClause j.row.observation).map JoinedRow.currentRow).Perm rows := by
  refine ⟨_, currentRows_eq reg hr q (hreg.comparable q), ?_⟩
  refine List.Perm.trans ?_ (List.perm_insertionSort _ _).symm
  refine (List.perm_ext_iff_of_nodup ?_ ?_).mpr fun c => ?_
  · refine List.Nodup.of_map (fun c : CurrentRow => q.key c.observation) ?_
    rw [List.map_map]
    have hnd := hout.nodup
    rw [List.Nodup, List.pairwise_map] at hnd ⊢
    exact (hnd.imp fun hne he => hne ((hkey _ _).mpr he)).sublist List.filter_sublist
  · refine List.Nodup.of_map (fun c : CurrentRow => q.key c.observation) ?_
    rw [List.map_map]
    exact kept_keys_nodup reg q
  · simp only [List.mem_map, mem_kept reg hr q]
    constructor
    · rintro ⟨j, hj, rfl⟩
      obtain ⟨hj, hwhere⟩ := List.mem_filter.mp hj
      have hq := whereClause_iff.mp hwhere
      obtain ⟨r, hjr, hw⟩ := view_wins hm hr hreg hp hkey hle htie hout hj hq
      rw [hjr] at hq
      exact ⟨r, ⟨hq, hw⟩, by rw [JoinedRow.currentRow, hjr]; rfl⟩
    · rintro ⟨r, ⟨hq, hw⟩, rfl⟩
      obtain ⟨j, hj, hjr⟩ := view_covers hm hr hreg hp hkey hle htie hout hw hq
      refine ⟨j, List.mem_filter.mpr ⟨hj, whereClause_iff.mpr ?_⟩, ?_⟩
      · rw [hjr]; exact hq
      · rw [JoinedRow.currentRow, hjr]; rfl

end Agree

/-- No two different eligible rows of one identity, whatever their transports, have one rank. -/
def NoIdentityTie (reg : Registry) (s : MemoryStore) : Prop :=
  ∀ a ∈ s.rowTable.values, ∀ b ∈ s.rowTable.values, a ≠ b → Eligible s a → Eligible s b →
    observationIdentity a.observation = observationIdentity b.observation →
    ∀ ρ, ¬ (Ranked reg s a ρ ∧ Ranked reg s b ρ)

/-- Every version component fits the `int` it is cast to. -/
def VersionsFit (s : MemoryStore) : Prop :=
  ∀ r ∈ s.rowTable.values, (versionArray r.observation.contractVersion).isSome = true

theorem castsOk (hm : Mirrors reg db s) (hr : Readable s) (hp : Prefixed db) (hv : VersionsFit s) :
    db.CastsOk := by
  intro j hj
  obtain ⟨r, hrow, hjr, -⟩ := hm.joined_rank hr hp hj
  rw [hjr]
  exact hv r hrow

theorem orderBy_le {κ : Type} {c : Sql.ColumnOrder κ} {group : JoinedRow → κ}
    {rest : JoinedRow → JoinedRow → Prop} {a b : JoinedRow} (hg : group a = group b)
    (h : c.orderBy group rest a b) : rest a b := by
  rcases h with ⟨-, h⟩ | ⟨hne, -⟩
  · exact h
  · exact absurd hg hne

/-- Every result of the view by transport is what the selection with a transport gives. -/
theorem transport_view_agrees (hm : Mirrors reg db s) (hr : Readable s) (hreg : Registered s)
    (hp : Prefixed db) (hv : VersionsFit s) (hno : NoTie reg s)
    {c : Sql.ColumnOrder (ObservationIdentity × Transport)} {out : List JoinedRow}
    (hout : db.CurrentByTransport c out) {q : CurrentQuery} (hq : q.transport ≠ none) :
    ∃ rows, s.currentRows reg q = some rows ∧
      ((out.filter fun j => q.whereClause j.row.observation).map JoinedRow.currentRow).Perm
        rows := by
  have hcasts := castsOk hm hr hp hv
  obtain ⟨tr, hq⟩ := Option.ne_none_iff_exists'.mp hq
  have hkey : ∀ o o' : EnergyObservation, q.key o = q.key o' ↔
      observationIdentity o = observationIdentity o' ∧ o.sourceTransport = o'.sourceTransport := by
    intro o o'
    simp [CurrentQuery.key, hq]
  refine view_agrees hm hr hreg hp (fun a b => ?_) (fun a ha b hb hg hle => ?_) ?_ hout.2
  · rw [hkey, JoinedRow.identityByTransport, JoinedRow.identityByTransport, Prod.mk.injEq]
  · rw [JoinedRow.identityByTransport, JoinedRow.identityByTransport, Prod.mk.injEq] at hg
    exact (versionOrder_le_iff (hcasts a ha) (hcasts b hb) (ownerRank_congr reg hg.1 hg.2)).mp
      (orderBy_le (Prod.ext hg.1 hg.2) hle)
  · intro a ha b hb hea heb hk ρ hρa hρb
    by_contra hne
    obtain ⟨hid, ht⟩ := (hkey _ _).mp hk
    exact hno a ha b hb hne hea heb hid ht ρ ⟨hρa, hρb⟩

/-- The SQL views refine the Python selection. For every data set whose derivations are registered,
whose invalidations name the target of their capture and whose versions fit `int`: the view by
transport has a result, and every result it may have is what `current_rows` selects with a
transport, if no two eligible rows of one identity and transport tie; likewise the view without a
transport, if no two eligible rows of one identity tie. -/
theorem sql_view_refines (hm : Mirrors reg db s) (hr : Readable s) (hreg : Registered s)
    (hp : Prefixed db) (hv : VersionsFit s) :
    (NoTie reg s → ∀ c, (∃ out, db.CurrentByTransport c out) ∧ ∀ out, db.CurrentByTransport c out →
      ∀ q : CurrentQuery, q.transport ≠ none → ∃ rows, s.currentRows reg q = some rows ∧
        ((out.filter fun j => q.whereClause j.row.observation).map JoinedRow.currentRow).Perm rows) ∧
    (NoIdentityTie reg s → ∀ c, (∃ out, db.Current c out) ∧ ∀ out, db.Current c out →
      ∀ q : CurrentQuery, q.transport = none → ∃ rows, s.currentRows reg q = some rows ∧
        ((out.filter fun j => q.whereClause j.row.observation).map JoinedRow.currentRow).Perm
          rows) := by
  have hcasts := castsOk hm hr hp hv
  refine ⟨fun hno c => ⟨?_, ?_⟩, fun hno c => ⟨?_, ?_⟩⟩
  · obtain ⟨out, hout⟩ := Sql.DistinctOn.exists_result JoinedRow.identityByTransport db.joined
      (c.orderBy_total _ fun a b => le_total a.versionOrder b.versionOrder)
      (c.orderBy_trans _ fun _ _ _ => le_trans)
    exact ⟨out, hcasts, hout⟩
  · exact fun out hout q hq => transport_view_agrees hm hr hreg hp hv hno hout hq
  · obtain ⟨out, hout⟩ := Sql.DistinctOn.exists_result JoinedRow.identity db.joined
      (c.orderBy_total _ fun a b => le_total a.ownerOrder b.ownerOrder)
      (c.orderBy_trans _ fun _ _ _ => le_trans)
    exact ⟨out, hcasts, hout⟩
  · rintro out ⟨-, hout⟩ q hq
    refine view_agrees hm hr hreg hp (fun a b => ?_) (fun a ha b hb hg hle => ?_) ?_ hout
    · exact (key_of_identity hq).symm
    · obtain ⟨r, -, har, -⟩ := hm.joined_rank hr hp ha
      obtain ⟨r', -, hbr, -⟩ := hm.joined_rank hr hp hb
      exact (ownerOrder_le_iff (hcasts a ha) (hcasts b hb) har hbr).mp (orderBy_le hg hle)
    · intro a ha b hb hea heb hk ρ hρa hρb
      by_contra hne
      exact hno a ha b hb hne hea heb ((key_of_identity hq).mp hk) ρ ⟨hρa, hρb⟩

/-! ## A tie across transports -/

/-- The tables of a store, each in the order of its keys. -/
def Database.ofStore (reg : Registry) (s : MemoryStore) : Database where
  observations := s.rowTable.values.map (.of reg)
  occurrences := s.occurrenceTable.entries.flatMap fun e =>
    e.2.entries.map fun x => ⟨e.1, x.2.2, x.1, some x.2.1⟩
  attempts := s.attemptTable.entries.map fun e => (e.1, e.2.captureId)
  derivations := s.derivationTable.entries.filterMap fun e => e.2.registeredAt.map fun t => (e.1, t)
  invalidations := s.invalidationTable.values

theorem ofStore_mirrors (reg : Registry) (hs : Reachable s) : Mirrors reg (.ofStore reg s) s where
  observations o := by
    simp only [Database.ofStore, List.mem_map]
    exact exists_congr fun r => and_congr_right fun _ => eq_comm
  occurrences i f t a := by
    simp only [Database.ofStore, List.mem_flatMap, List.mem_map, Prod.exists, seen]
    constructor
    · intro h
      cases hi : s.occurrenceTable.get? i with
      | none => simp [hi] at h
      | some d =>
        rw [hi, Option.getD_some] at h
        exact ⟨_, ⟨i, d, Dict.get?_eq_some_iff.mp hi, f, t, a, Dict.get?_eq_some_iff.mp h, rfl⟩,
          rfl, rfl, rfl, rfl⟩
    · rintro ⟨oc, ⟨i, d, hd, f, t, a, hf, rfl⟩, rfl, rfl, rfl, rfl⟩
      rw [Dict.get?_eq_some_iff.mpr hd]
      exact Dict.get?_eq_some_iff.mpr hf
  attempts a c := by
    simp only [Database.ofStore, List.mem_map, Prod.exists, Prod.mk.injEq, Dict.get?_eq_some_iff]
    constructor
    · rintro ⟨a, att, h, rfl, rfl⟩
      exact ⟨att, h, rfl⟩
    · rintro ⟨att, h, rfl⟩
      exact ⟨a, att, h, rfl, rfl⟩
  derivations d t := by
    simp only [Database.ofStore, List.mem_filterMap, Option.map_eq_some_iff, Prod.exists,
      Prod.mk.injEq, registeredAt, Option.bind_eq_some_iff, Dict.get?_eq_some_iff]
    constructor
    · rintro ⟨d, x, h, t, ht, rfl, rfl⟩
      exact ⟨x, h, ht⟩
    · rintro ⟨x, h, ht⟩
      exact ⟨d, x, h, t, ht, rfl, rfl⟩
  invalidations i := by
    refine Dict.mem_values.trans ⟨?_, fun h => ⟨_, h⟩⟩
    rintro ⟨k, hk⟩
    exact (hs.wellFormed.invalidations hk) ▸ hk
  invalidationKeys k i h := hs.wellFormed.invalidations h

/-- Two transports that do not own the price, published at one instant under one derivation. -/
def crossTransport : MemoryStore :=
  (init.after (.registerDerivation dayAheadDerivation 0 ::
    commitRun 1 1 0 0 [dayAheadPrice 1 .xlsx 0 (some 0)] ++
    commitRun 2 2 hour hour [dayAheadPrice 2 .rest hour (some 0)])).get (by decide)

theorem crossTransport_reachable : Reachable crossTransport :=
  Reachable.init.after (Option.some_get _).symm

/-- The rows the views select from, the later capture first. -/
theorem crossTransport_sorted (c : Sql.ColumnOrder ObservationIdentity) :
    (Database.ofStore dataset crossTransport).Current c
      (Sql.firsts JoinedRow.identity (Database.ofStore dataset crossTransport).joined.reverse) := by
  refine ⟨by unfold Database.CastsOk; decide, _, List.reverse_perm _, ?_, rfl⟩
  rw [List.pairwise_reverse]
  have hsame : (Database.ofStore dataset crossTransport).joined.Pairwise fun a b =>
      b.identity = a.identity ∧ b.ownerOrder = a.ownerOrder := by decide
  exact hsame.imp fun ⟨hg, ho⟩ => .inl ⟨hg, ho.le⟩

theorem cross_transport_tie :
    Reachable crossTransport ∧ Mirrors dataset (.ofStore dataset crossTransport) crossTransport ∧
      Registered crossTransport ∧ Prefixed (.ofStore dataset crossTransport) ∧
      VersionsFit crossTransport ∧ NoTie dataset crossTransport ∧
      ∀ c, ∃ out, (Database.ofStore dataset crossTransport).Current c out ∧
        ∀ rows, crossTransport.currentRows dataset (dayAheadQuery none) = some rows →
          ¬ ((out.filter fun j => (dayAheadQuery none).whereClause j.row.observation).map
            JoinedRow.currentRow).Perm rows := by
  refine ⟨crossTransport_reachable, ofStore_mirrors dataset crossTransport_reachable, by decide,
    by unfold Prefixed; decide, by unfold VersionsFit; decide, ?_, fun c => ⟨_, crossTransport_sorted c, ?_⟩⟩
  · have hne : ∀ a ∈ crossTransport.rowTable.values, ∀ b ∈ crossTransport.rowTable.values,
        a.observation.sourceTransport = b.observation.sourceTransport → a = b := by decide
    exact fun a ha b hb hab _ _ _ ht => absurd (hne a ha b hb ht) hab
  · intro rows hrows
    have hone : crossTransport.currentRows dataset (dayAheadQuery none) =
        some ((crossTransport.rowTable.values.take 1).map currentRow) := by decide
    rw [← Option.some.inj (hone.symm.trans hrows)]
    decide

def correctedStore : MemoryStore := (init.after corrected).get (by decide)

theorem sql_view_refines_corrected :
    ∃ c out rows, (Database.ofStore dataset correctedStore).Current c out ∧
      correctedStore.currentRows dataset (dayAheadQuery none) = some rows ∧
      ((out.filter fun j => (dayAheadQuery none).whereClause j.row.observation).map
        JoinedRow.currentRow).Perm rows := by
  have hs : Reachable correctedStore := Reachable.init.after (Option.some_get _).symm
  have hno : NoIdentityTie dataset correctedStore := by
    have hne : ∀ a ∈ correctedStore.rowTable.values, ∀ b ∈ correctedStore.rowTable.values,
        a ≠ b → correctedStore.rankOf dataset a ≠ correctedStore.rankOf dataset b := by decide
    intro a ha b hb hab _ _ _ ρ ⟨hρ, hρ'⟩
    apply hne a ha b hb hab
    rw [rankOf_of_ranked dataset hs.wellFormed.readable hρ,
      rankOf_of_ranked dataset hs.wellFormed.readable hρ']
  obtain ⟨-, hviews⟩ := sql_view_refines (ofStore_mirrors dataset hs) hs.wellFormed.readable
    (by decide) (by unfold Prefixed; decide) (by unfold VersionsFit; decide)
  obtain ⟨c⟩ := Sql.ColumnOrder.nonempty ObservationIdentity
  obtain ⟨⟨out, hout⟩, hagree⟩ := hviews hno c
  obtain ⟨rows, hrows, hperm⟩ := hagree out hout (dayAheadQuery none) rfl
  exact ⟨c, out, rows, hout, hrows, hperm⟩

end EnergyPlatform
