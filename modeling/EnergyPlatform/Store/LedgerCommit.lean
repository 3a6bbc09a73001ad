import EnergyPlatform.Store.LedgerClaims

/-!
# Store.LedgerCommit

`commit` on the memory store and on the tables: the derivation, one version row and one occurrence
an observation, the quality events, and the attempt and the run that are closed.

`insertObservations` carries the loop of one side through the loop of the other.
-/

namespace EnergyPlatform

open Lib

namespace MemoryStore

variable {s s' : MemoryStore}

/-- The claim names a run and an attempt of the store. -/
structure Genuine (s : MemoryStore) (c : Claim) : Prop where
  run : ∃ r, s.runTable.get? c.run.id = some r ∧ r.targetId = c.run.targetId
  attempt : ∃ a, s.attemptTable.get? c.attempt.id = some a
  own : c.attempt.runId = c.run.id

/-- The observation is one the columns and the foreign key of `observations` admit. -/
def Insertable (s : MemoryStore) (o : EnergyObservation) : Prop :=
  Postgres.Tables.fits o = true ∧ ∃ d, s.derivationTable.get? o.derivationId = some d

/-! ## The invariants inside a commit -/

/-- Silver has grown under an attempt that is there, and the other tables are the same. -/
theorem WellFormed.grown (h : WellFormed s) {a : Nat} {obs : List EnergyObservation}
    (hg : Grown s a obs s') (hsilver : SilverOk s') (hr : s'.runTable = s.runTable)
    (hqr : s'.seq.runs = s.seq.runs) (ha : s'.attemptTable = s.attemptTable)
    (hqa : s'.seq.attempts = s.seq.attempts) (hd : s'.derivationTable = s.derivationTable)
    (hi : s'.invalidationTable = s.invalidationTable) (hself : ∃ x, s.attemptTable.get? a = some x) :
    WellFormed s' where
  runs := h.runs.of_eq hr hqr
  attempts := h.attempts.of_eq ha hqa
  silver := hsilver
  derivations hx := h.derivations (hd ▸ hx)
  rowAttempt hrow := by
    rw [ha]
    rcases hg.rowNew hrow with hrow | ⟨hra, -⟩
    · exact h.rowAttempt hrow
    · rw [hra]; exact hself
  seenAttempt ho := by
    rw [ha]
    rcases hg.occurrenceNew ho with ho | ⟨rfl, -⟩
    · exact h.seenAttempt ho
    · exact hself
  invalidations hk := h.invalidations (hi ▸ hk)

/-- Neither runs, attempts nor events have changed. -/
theorem Scoped.of_same (h : Scoped s) (hr : s'.runTable = s.runTable)
    (ha : s'.attemptTable = s.attemptTable) (he : s'.eventTable = s.eventTable)
    (hq : s'.seq.events = s.seq.events) : Scoped s' :=
  h.of_attempts (fun {_ r} hi => ⟨r, hr ▸ hi⟩) (ha ▸ h.attemptOrder) (fun hi => h.attemptRun (ha ▸ hi))
    (fun _ _ hi => ⟨_, ha ▸ hi⟩) he hq

theorem Scoped.addEvent (h : Scoped s) {a : Nat} (ha : ∃ x, s.attemptTable.get? a = some x)
    (targetId : String) (now : Instant) (e : QualityEvent) :
    Scoped (s.addEvent targetId (some a) now e) := by
  refine ⟨h.attemptOrder, h.attemptRun, fun {i e'} hi => ?_, fun {i e' b} hi hb => ?_⟩
  · simp only [MemoryStore.addEvent, Dict.get?_set] at hi ⊢
    split at hi
    · rename_i hnew
      rw [← Option.some.inj hi]
      exact ⟨hnew.symm, hnew.le⟩
    · obtain ⟨hid, hle⟩ := h.eventId hi
      exact ⟨hid, by omega⟩
  · simp only [MemoryStore.addEvent, Dict.get?_set] at hi
    split at hi
    · rw [← Option.some.inj hi, Option.some.injEq] at hb
      exact hb ▸ ha
    · exact h.eventAttempt hi hb

theorem WellFormed.addEvent (h : WellFormed s) (targetId : String) (a : Option Nat) (now : Instant)
    (e : QualityEvent) : WellFormed (s.addEvent targetId a now e) :=
  h.of_same (h.runs.of_eq rfl rfl) (h.attempts.of_eq rfl rfl) (fun _ x hx => ⟨x, hx⟩) ⟨rfl, rfl, rfl⟩
    rfl rfl

/-- What the loop of `commit` leaves alone. -/
theorem insertOne_frame (a : Nat) (l : CommitLoop) (o : EnergyObservation) :
    (insertOne a l o).store = { l.store with
      rowTable := (insertOne a l o).store.rowTable
      occurrenceTable := (insertOne a l o).store.occurrenceTable
      seq := { l.store.seq with rows := (insertOne a l o).store.seq.rows } } :=
  foldl_insertOne_frame a [o] l

theorem insertOne_seq (a : Nat) (l : CommitLoop) (o : EnergyObservation) :
    l.store.seq.Le (insertOne a l o).store.seq := by
  simp only [insertOne]
  split
  · exact ⟨le_rfl, le_rfl, Nat.le_succ _, le_rfl⟩
  · exact .refl _

theorem foldl_insertOne_seq (a : Nat) (obs : List EnergyObservation) : ∀ l : CommitLoop,
    l.store.seq.Le (obs.foldl (insertOne a) l).store.seq := by
  induction obs with
  | nil => exact fun l => .refl _
  | cons o rest ih => exact fun l => (insertOne_seq a l o).trans (ih _)

theorem foldl_addEvent_seq (targetId : String) (a : Option Nat) (now : Instant)
    (events : List QualityEvent) : ∀ s : MemoryStore,
      s.seq.Le (events.foldl (addEvent targetId a now) s).seq := by
  induction events with
  | nil => exact fun s => .refl _
  | cons e rest ih =>
    intro s
    have hone : s.seq.Le (s.addEvent targetId a now e).seq :=
      ⟨le_rfl, le_rfl, le_rfl, Nat.le_succ _⟩
    exact hone.trans (ih _)

/-- The loop has kept the invariants, and the committing attempt is there. -/
structure Looping (a : Nat) (l : CommitLoop) : Prop where
  loop : LoopOk l
  store : WellFormed l.store
  order : Scoped l.store
  attempt : ∃ x, l.store.attemptTable.get? a = some x

theorem Looping.insertOne {a : Nat} {l : CommitLoop} (h : Looping a l) (o : EnergyObservation) :
    Looping a (insertOne a l o) := by
  obtain ⟨hloop, hgrown⟩ := insertOne_spec h.loop a o
  have hf := insertOne_frame a l o
  have hruns : (MemoryStore.insertOne a l o).store.runTable = l.store.runTable := by rw [hf]
  have hattempts : (MemoryStore.insertOne a l o).store.attemptTable = l.store.attemptTable := by rw [hf]
  refine ⟨hloop, ?_, ?_, by rw [hattempts]; exact h.attempt⟩
  · exact h.store.grown hgrown hloop.silver hruns (by rw [hf]) hattempts (by rw [hf]) (by rw [hf])
      (by rw [hf]) h.attempt
  · exact h.order.of_same hruns hattempts (by rw [hf]) (by rw [hf])

theorem Looping.foldl {a : Nat} (obs : List EnergyObservation) : ∀ {l : CommitLoop}, Looping a l →
    Looping a (obs.foldl (MemoryStore.insertOne a) l) := by
  induction obs with
  | nil => exact fun h => h
  | cons o rest ih => exact fun h => ih (h.insertOne o)

theorem Scoped.addEvents {targetId : String} {a : Nat} {now : Instant} (events : List QualityEvent) :
    ∀ {s : MemoryStore}, Scoped s → (∃ x, s.attemptTable.get? a = some x) →
      Scoped (s.addEvents targetId events (some a) now).2 := by
  induction events with
  | nil => exact fun h _ => h
  | cons e rest ih => exact fun {s} h ha => ih (h.addEvent ha targetId now e) ha

theorem WellFormed.addEvents (targetId : String) (events : List QualityEvent) (a : Option Nat)
    (now : Instant) (h : WellFormed s) : WellFormed (s.addEvents targetId events a now).2 := by
  have hf := addEvents_frame targetId events a now s
  exact h.of_same (h.runs.of_eq (by rw [hf]) (by rw [hf])) (h.attempts.of_eq (by rw [hf]) (by rw [hf]))
    (fun _ x hx => ⟨x, by rw [hf]; exact hx⟩) ⟨by rw [hf], by rw [hf], by rw [hf]⟩ (by rw [hf])
    (by rw [hf])

end MemoryStore

namespace Simulates

open MemoryStore

variable {reg : Registry} {ρ : Renaming} {s : MemoryStore} {t : Postgres.Tables}

/-! ## The statements of `commit` -/

theorem insertDerivation (h : Simulates reg ρ s t) (hw : WellFormed s) (d : Derivation)
    (now : Instant) : Simulates reg ρ (s.registerDerivation d now).2 (t.insertDerivation d now) := by
  have hany : (t.derivations.any fun x => x.derivationId = d.derivationId) =
      s.derivationTable.contains d.derivationId := by
    rw [Bool.eq_iff_iff, List.any_eq_true, Dict.contains_iff, h.derivations]
    constructor
    · rintro ⟨x, hx, hid⟩
      obtain ⟨k, hk⟩ := Dict.mem_values.mp hx
      rw [← of_decide_eq_true hid, (hw.derivations hk).1]
      exact ⟨x, hk⟩
    · rintro ⟨x, hx⟩
      exact ⟨x, Dict.mem_values.mpr ⟨_, hx⟩, by simpa using (hw.derivations hx).1⟩
  rw [Postgres.Tables.insertDerivation, hany, MemoryStore.registerDerivation]
  cases hd : s.derivationTable.get? d.derivationId with
  | some stored =>
    rw [if_pos (Dict.contains_iff.mpr ⟨stored, hd⟩)]
    exact h
  | none =>
    rw [if_neg (by simp [Dict.contains, hd])]
    refine { h with derivations := ?_ }
    show t.derivations ++ _ = _
    rw [Dict.values_set_of_none _ hd, h.derivations]

theorem dimensions_eq_iff {d e : Dimensions} : d = e ↔ d.entries = e.entries := by
  cases d
  cases e
  simp

theorem conflicts_eq (o q : EnergyObservation) :
    Postgres.Tables.conflicts o q = decide (versionIdentity q = versionIdentity o) := by
  rw [Postgres.Tables.conflicts, decide_eq_decide, dimensions_eq_iff]
  simp only [versionIdentity, observationIdentity, VersionIdentity.mk.injEq,
    ObservationIdentity.mk.injEq, and_assoc]

/-- `ON CONFLICT … DO UPDATE … RETURNING id` finds the row the memory store files the version
under. -/
theorem find_version (h : Simulates reg ρ s t) {l : CommitLoop} (hl : LoopOk l) (hs : l.store = s)
    (o : EnergyObservation) :
    (t.observations.find? fun q => Postgres.Tables.conflicts o q.observation) =
      (l.existing.get? (versionIdentity o)).bind fun i => (s.rowTable.get? i).map (ρ.row reg) := by
  subst hs
  have hc : ((fun q : ObservationRow => Postgres.Tables.conflicts o q.observation) ∘ ρ.row reg) =
      fun r => decide (versionIdentity r.observation = versionIdentity o) :=
    funext fun r => conflicts_eq o r.observation
  rw [h.observations, List.find?_map, hc]
  cases hk : l.existing.get? (versionIdentity o) with
  | none =>
    have hnone : l.store.rowTable.values.find?
        (fun r => decide (versionIdentity r.observation = versionIdentity o)) = none := by
      rw [List.find?_eq_none]
      intro r hr hv
      obtain ⟨i, hi⟩ := Dict.mem_values.mp hr
      rw [hl.existing.mpr ⟨r, hi, of_decide_eq_true hv⟩] at hk
      cases hk
    rw [hnone]
    rfl
  | some i =>
    obtain ⟨r, hr, hv⟩ := hl.existing.mp hk
    have hfind : l.store.rowTable.values.find?
        (fun r => decide (versionIdentity r.observation = versionIdentity o)) = some r := by
      cases hf : l.store.rowTable.values.find?
          (fun r => decide (versionIdentity r.observation = versionIdentity o)) with
      | none =>
        have := List.find?_eq_none.mp hf r (Dict.mem_values.mpr ⟨i, hr⟩)
        simp [hv] at this
      | some q =>
        obtain ⟨j, hj⟩ := Dict.mem_values.mp (List.mem_of_find?_eq_some hf)
        have hq : versionIdentity q.observation = versionIdentity o := by simpa using List.find?_some hf
        rw [hl.silver.unique hj hr (hq.trans hv.symm), hr] at hj
        exact hj.symm
    rw [hfind, Option.bind_some, hr]

theorem seen_addOccurrence_new {i a : Nat} {o : EnergyObservation}
    (hnone : (s.seen i).get? o.fetchedAt = none) {j : Nat} {f : Instant} {y : Instant × Nat} :
    ((s.addOccurrence i a o).seen j).get? f = some y ↔ (s.seen j).get? f = some y ∨
      (j = i ∧ f = o.fetchedAt ∧ y = (orderingInstant o, a)) := by
  rw [seen_addOccurrence]
  split
  · rename_i hj
    subst hj
    rw [Dict.get?_setDefault]
    simp [hnone]
  · rename_i hj
    simp [hj]

/-- One occurrence a capture: the second one of the same capture is dropped on both sides. -/
theorem insertOccurrence (h : Simulates reg ρ s t) (i : Nat) {a : Nat} {x : RunAttempt}
    (ha : s.attemptTable.get? a = some x) (hid : x.id = a) (o : EnergyObservation) :
    ∃ t', t.insertOccurrence (ρ.rows i) (ρ.attempts a) o =
        some (if (s.seen i).contains o.fetchedAt then 0 else 1, t') ∧
      t'.seq = t.seq ∧ Simulates reg ρ (s.addOccurrence i a o) t' := by
  have hany : (t.occurrences.any fun oc =>
      oc.observationId = ρ.rows i ∧ oc.fetchedAt = o.fetchedAt) = (s.seen i).contains o.fetchedAt := by
    rw [Bool.eq_iff_iff, List.any_eq_true, Dict.contains_iff]
    constructor
    · rintro ⟨oc, hoc, hc⟩
      obtain ⟨ho, hf⟩ := of_decide_eq_true hc
      obtain ⟨j, f, x, b, hseen, ho', hf', -⟩ := h.occurrenceIds oc hoc
      have hij : j = i := Renaming.rows_inj.mp (ho'.symm.trans ho)
      subst hij
      exact ⟨(x, b), (hf'.symm.trans hf) ▸ hseen⟩
    · rintro ⟨⟨x, b⟩, hseen⟩
      obtain ⟨oc, hoc, ho, hf, -⟩ := (h.occurrences i o.fetchedAt x b).mp hseen
      exact ⟨oc, hoc, decide_eq_true ⟨ho, hf⟩⟩
  rw [Postgres.Tables.insertOccurrence, hany]
  cases hcon : (s.seen i).contains o.fetchedAt with
  | true =>
    obtain ⟨w, hw⟩ := Dict.contains_iff.mp hcon
    have hseen : ∀ j, (s.addOccurrence i a o).seen j = s.seen j := by
      intro j
      rw [seen_addOccurrence]
      split
      · rename_i hj
        rw [hj, Dict.setDefault_of_some _ hw]
      · rfl
    refine ⟨t, rfl, rfl, { h with occurrences := ?_, occurrenceIds := ?_ }⟩
    · simp only [hseen]; exact h.occurrences
    · simp only [hseen]; exact h.occurrenceIds
  | false =>
    rw [h.attempt_there ha hid]
    have hnone : (s.seen i).get? o.fetchedAt = none := by simpa [Dict.contains] using hcon
    refine ⟨_, rfl, rfl, { h with occurrences := ?_, occurrenceIds := ?_, occurrenceKeys := ?_ }⟩
    · intro j f x b
      rw [seen_addOccurrence_new hnone, h.occurrences]
      constructor
      · rintro (⟨oc, hoc, hk⟩ | ⟨rfl, rfl, hy⟩)
        · exact ⟨oc, List.mem_append_left _ hoc, hk⟩
        · obtain ⟨rfl, rfl⟩ := Prod.mk.inj hy
          exact ⟨_, List.mem_append_right _ (List.mem_singleton.mpr rfl), rfl, rfl, rfl, rfl⟩
      · rintro ⟨oc, hoc, ho, hf, hb, hx⟩
        rcases List.mem_append.mp hoc with hoc | hoc
        · exact .inl ⟨oc, hoc, ho, hf, hb, hx⟩
        · obtain rfl := List.mem_singleton.mp hoc
          refine .inr ⟨(Renaming.rows_inj.mp ho).symm, hf.symm, Prod.ext hx.symm ?_⟩
          exact (Renaming.attempts_inj.mp hb).symm
    · intro oc hoc
      rcases List.mem_append.mp hoc with hoc | hoc
      · obtain ⟨j, f, x, b, hseen, hk⟩ := h.occurrenceIds oc hoc
        exact ⟨j, f, x, b, (seen_addOccurrence_new hnone).mpr (.inl hseen), hk⟩
      · obtain rfl := List.mem_singleton.mp hoc
        exact ⟨i, o.fetchedAt, orderingInstant o, a,
          (seen_addOccurrence_new hnone).mpr (.inr ⟨rfl, rfl, rfl⟩), rfl, rfl, rfl⟩
    · refine List.pairwise_append.mpr ⟨h.occurrenceKeys, List.pairwise_singleton _ _, ?_⟩
      intro oc hoc oc' hoc' hkey
      obtain rfl := List.mem_singleton.mp hoc'
      have hsame : (t.occurrences.any fun oc =>
          oc.observationId = ρ.rows i ∧ oc.fetchedAt = o.fetchedAt) = true :=
        List.any_eq_true.mpr ⟨oc, hoc, by simpa using hkey⟩
      rw [hany, hcon] at hsame
      cases hsame

theorem derivation_there (h : Simulates reg ρ s t) (hw : WellFormed s) {k : DerivationId}
    {d : Derivation} (hd : s.derivationTable.get? k = some d) :
    (t.derivations.any fun x => x.derivationId = k) = true := by
  rw [h.derivations, List.any_eq_true]
  exact ⟨d, Dict.mem_values.mpr ⟨k, hd⟩, by simpa using (hw.derivations hd).1⟩

/-- A new version row on both sides. -/
theorem putRow (h : Simulates reg ρ s t) (hw : WellFormed s) (hsc : Scoped s) (a : Nat)
    (o : EnergyObservation) : ∃ ρ', Extends s.seq ρ ρ' ∧ ρ'.runs = ρ.runs ∧ ρ'.attempts = ρ.attempts ∧
      ρ'.rows (s.seq.rows + 1) = t.seq.observations + 1 ∧
      Simulates reg ρ' (s.addRow a o).2 { t with
        observations := t.observations ++
          [⟨t.seq.observations + 1, ρ.attempts a, o, ownerTransportOf reg o⟩]
        seq := { t.seq with observations := t.seq.observations + 1 } } := by
  have hm : ρ.rows s.seq.rows < t.seq.observations + 1 := Nat.lt_succ_of_le h.seqRows
  have h' := h.rename hw hsc (extends_addRow hm)
  have hnew : (Simulates.addRow ρ hm).rows (s.seq.rows + 1) = t.seq.observations + 1 := extendAt_new
  refine ⟨Simulates.addRow ρ hm, extends_addRow hm, rfl, rfl, hnew,
    { h' with observations := ?_, seqRows := ?_ }⟩
  · simp only [MemoryStore.addRow]
    rw [Dict.values_set_of_none _ hw.silver.fresh, List.map_append, ← h'.observations]
    simp only [List.map_cons, List.map_nil, Renaming.row]
    rw [hnew]
    rfl
  · exact hnew.le

/-- The loop body on both sides. -/
theorem insertOne {l : CommitLoop} (h : Simulates reg ρ l.store t) {a : Nat} (hl : Looping a l)
    {o : EnergyObservation} (hfits : Postgres.Tables.fits o = true)
    (hd : ∃ d, l.store.derivationTable.get? o.derivationId = some d) :
    ∃ ρ' id new rowcount t₁ t', Extends l.store.seq ρ ρ' ∧ ρ'.runs = ρ.runs ∧
      ρ'.attempts = ρ.attempts ∧
      t.insertObservation reg (ρ.attempts a) o = some ((id, new), t₁) ∧
      t₁.insertOccurrence id (ρ.attempts a) o = some (rowcount, t') ∧
      (insertOne a l o).inserted = l.inserted + (if new then 1 else 0) ∧
      (insertOne a l o).occurrences =
        l.occurrences + (if rowcount ≠ 0 ∧ new = false then 1 else 0) ∧
      Simulates reg ρ' (insertOne a l o).store t' := by
  obtain ⟨x, hx⟩ := hl.attempt
  obtain ⟨d, hd⟩ := hd
  have hxid := hl.store.attempts.id hx
  have hfind := h.find_version hl.loop rfl o
  rw [Postgres.Tables.insertObservation, hfits, hfind]
  simp only [MemoryStore.insertOne]
  cases hk : l.existing.get? (versionIdentity o) with
  | some i =>
    obtain ⟨r, hr, -⟩ := hl.loop.existing.mp hk
    have hid := hl.store.silver.id hr
    have h₁ : Simulates reg ρ l.store
        { t with seq := { t.seq with observations := t.seq.observations + 1 } } :=
      { h with seqRows := h.seqRows.trans (Nat.le_succ _) }
    obtain ⟨t', hocc, -, hsim⟩ := h₁.insertOccurrence i hx hxid o
    have hrow : (ρ.row reg r).id = ρ.rows i := congrArg ρ.rows hid
    simp only [Option.bind_some, hr, Option.map_some, hrow]
    refine ⟨ρ, _, _, _, _, t', Extends.refl _ _, rfl, rfl, rfl, hocc, rfl, ?_, hsim⟩
    cases (l.store.seen i).contains o.fetchedAt <;> rfl
  | none =>
    obtain ⟨ρ', he, hruns, hattempts, hnew, hsim⟩ := h.putRow hl.store hl.order a o
    have hx' : (l.store.addRow a o).2.attemptTable.get? a = some x := hx
    obtain ⟨t', hocc, -, hsim'⟩ := hsim.insertOccurrence (l.store.seq.rows + 1) hx' hxid o
    simp only [Option.bind_none, h.derivation_there hl.store hd, h.attempt_there hx hxid]
    rw [hnew, hattempts] at hocc
    exact ⟨ρ', _, _, _, _, t', he, hruns, hattempts, rfl, hocc, rfl, by simp, hsim'⟩

theorem insertObservations {a : Nat} (obs : List EnergyObservation) : ∀ {l : CommitLoop}
    {ρ : Renaming} {t : Postgres.Tables}, Simulates reg ρ l.store t → Looping a l →
      (∀ o ∈ obs, Insertable l.store o) → ∃ ρ' t', Extends l.store.seq ρ ρ' ∧ ρ'.runs = ρ.runs ∧
        ρ'.attempts = ρ.attempts ∧
        Postgres.Tables.insertObservations reg (ρ.attempts a) obs (l.inserted, l.occurrences) t =
          some (((obs.foldl (MemoryStore.insertOne a) l).inserted,
            (obs.foldl (MemoryStore.insertOne a) l).occurrences), t') ∧
        Simulates reg ρ' (obs.foldl (MemoryStore.insertOne a) l).store t' := by
  induction obs with
  | nil =>
    intro l ρ t h _ _
    exact ⟨ρ, t, Extends.refl _ _, rfl, rfl, rfl, h⟩
  | cons o rest ih =>
    intro l ρ t h hl hok
    obtain ⟨hfits, hd⟩ := hok o List.mem_cons_self
    obtain ⟨ρ₁, id, new, rowcount, t₁, t₂, he, hruns, hattempts, hins, hocc, hinserted, hoccurrences,
      hsim⟩ := h.insertOne hl hfits hd
    have hf := insertOne_frame a l o
    have hrest : ∀ o' ∈ rest, Insertable (MemoryStore.insertOne a l o).store o' := by
      intro o' ho'
      have := hok o' (List.mem_cons_of_mem _ ho')
      rw [Insertable, hf]
      exact this
    obtain ⟨ρ', t', he', hruns', hattempts', hrun, hsim'⟩ := ih hsim (hl.insertOne o) hrest
    refine ⟨ρ', t', he.trans he' (insertOne_seq a l o), hruns'.trans hruns, hattempts'.trans hattempts, ?_, hsim'⟩
    rw [Postgres.Tables.insertObservations, hins]
    simp only [Option.bind_eq_bind, Option.bind_some, hocc]
    rw [← hinserted, ← hoccurrences, ← hattempts]
    exact hrun

theorem insertEvents (targetId : String) {a : Nat} (now : Instant) (events : List QualityEvent) :
    ∀ {s : MemoryStore} {ρ : Renaming} {t : Postgres.Tables}, Simulates reg ρ s t → WellFormed s →
      Scoped s → (∃ x, s.attemptTable.get? a = some x) → ∃ ρ' t', Extends s.seq ρ ρ' ∧
        ρ'.runs = ρ.runs ∧ ρ'.attempts = ρ.attempts ∧
        Postgres.Tables.insertEvents targetId (ρ.attempts a) now events t = some t' ∧
        Simulates reg ρ' (s.addEvents targetId events (some a) now).2 t' := by
  induction events with
  | nil =>
    intro s ρ t h _ _ _
    exact ⟨ρ, t, Extends.refl _ _, rfl, rfl, rfl, h⟩
  | cons e rest ih =>
    intro s ρ t h hw hsc ha
    obtain ⟨x, hx⟩ := ha
    have hm : ρ.events s.seq.events < t.seq.events + 1 := Nat.lt_succ_of_le h.seqEvents
    have hfresh : s.eventTable.get? (s.seq.events + 1) = none := by
      cases hg : s.eventTable.get? (s.seq.events + 1) with
      | none => rfl
      | some e =>
        have := (hsc.eventId hg).2
        omega
    have h' := h.rename hw hsc (extends_addEvent hm)
    have hnew : (Simulates.addEvent ρ hm).events (s.seq.events + 1) = t.seq.events + 1 := extendAt_new
    have hsim : Simulates reg (Simulates.addEvent ρ hm) (s.addEvent targetId (some a) now e)
        { t with
          events := t.events ++ [⟨t.seq.events + 1, targetId, some (ρ.attempts a), e, now⟩]
          seq := { t.seq with events := t.seq.events + 1 } } := by
      refine { h' with events := ?_, seqEvents := hnew.le }
      simp only [MemoryStore.addEvent]
      rw [Dict.values_set_of_none _ hfresh, List.map_append, ← h'.events]
      simp only [List.map_cons, List.map_nil, Renaming.event]
      rw [hnew]
      rfl
    obtain ⟨ρ', t', he, hruns, hattempts, hrun, hsim'⟩ :=
      ih hsim (hw.addEvent ..) (hsc.addEvent ⟨x, hx⟩ ..) ⟨x, hx⟩
    refine ⟨ρ', t', (extends_addEvent hm).trans he ⟨le_rfl, le_rfl, le_rfl, Nat.le_succ _⟩, hruns,
      hattempts, ?_, hsim'⟩
    rw [Postgres.Tables.insertEvents, h.attempt_there hx (hw.attempts.id hx), if_pos rfl]
    exact hrun

/-! ## Commit -/

theorem any_fence (h : Simulates reg ρ s t) (hw : WellFormed s) {k : Nat} {old : Run}
    (hold : s.runTable.get? k = some old) (fence : Nat) :
    (t.runs.any fun r => decide (r.id = ρ.runs k) && decide (r.fence = fence)) =
      decide (old.fence = fence) := by
  rw [h.runs, List.any_map, Bool.eq_iff_iff, List.any_eq_true, decide_eq_true_iff]
  constructor
  · rintro ⟨r, hr, hc⟩
    simp only [Function.comp_apply, Renaming.run, Renaming.runs_inj, Bool.and_eq_true,
      decide_eq_true_eq] at hc
    have hr' := run_of_mem hw hr
    rw [hc.1, hold, Option.some.injEq] at hr'
    rw [hr']
    exact of_decide_eq_true hc.2
  · intro hf
    exact ⟨old, Dict.mem_values.mpr ⟨k, hold⟩, by simp [Renaming.run, hw.runs.id hold, hf]⟩

theorem registerAny (h : Simulates reg ρ s t) (hw : WellFormed s) (d : Option Derivation)
    (now : Instant) : Simulates reg ρ (s.registerAny d now) (t.insertAny d now) := by
  cases d with
  | none => exact h
  | some d => exact h.insertDerivation hw d now

theorem commit_lost (h : Simulates reg ρ s t) (hw : WellFormed s) {c : Claim} {run : Run}
    {att : RunAttempt} (hr : s.runTable.get? c.run.id = some run) (hne : run.fence ≠ c.fence)
    (ha : s.attemptTable.get? c.attempt.id = some att) (args : Commit) (now : Instant) : ∃ t',
      t.commit reg (ρ.claim c) args now = some (⟨0, true, 0⟩, t') ∧
      Simulates reg ρ (if att.outcome = none then s.putAttempt (closed now att) else s) t' := by
  have hfence := h.any_fence hw hr c.fence
  have hid := hw.attempts.id ha
  rw [decide_eq_false hne] at hfence
  rw [Postgres.Tables.commit, show (ρ.claim c).run.id = ρ.runs c.run.id from rfl,
    show (ρ.claim c).fence = c.fence from rfl, hfence]
  refine ⟨_, rfl, ?_⟩
  split
  · rename_i hopen
    obtain ⟨-, hrows⟩ := update_one hw.attempts.id ha ρ.attempt
      (fun a => decide (a.id = (ρ.claim c).attempt.id) && a.outcome.isNone) (closed now) (closed now)
      (fun a hfiled => by
        show (decide (ρ.attempts a.id = ρ.attempts c.attempt.id) && a.outcome.isNone) = _
        rw [Bool.eq_iff_iff]
        simp only [Renaming.attempts_inj, Bool.and_eq_true, decide_eq_true_eq]
        refine ⟨And.left, fun he => ⟨he, ?_⟩⟩
        rw [he, ha, Option.some.injEq] at hfiled
        rw [← hfiled, hopen]
        rfl) rfl
    have hput := h.putAttempt (closed now att)
    rw [closed_id, hid, ← hrows, ← h.attempts] at hput
    exact hput
  · rename_i hclosed
    have hno : ∀ a ∈ t.attempts,
        (decide (a.id = (ρ.claim c).attempt.id) && a.outcome.isNone) = false := by
      intro a hm
      rw [h.attempts] at hm
      obtain ⟨q, hq, rfl⟩ := List.mem_map.mp hm
      have hfiled := attempt_of_mem hw hq
      rw [Bool.eq_false_iff]
      intro hc
      obtain ⟨he, ho⟩ := Bool.and_eq_true_iff.mp hc
      rw [Renaming.attempts_inj.mp (of_decide_eq_true he), ha, Option.some.injEq] at hfiled
      rw [hfiled] at hclosed
      exact hclosed (Option.isNone_iff_eq_none.mp ho)
    exact { h with attempts := (update_none (closed now) hno).2.trans h.attempts }

/-- The attempt and the run a commit closes. -/
theorem close (h : Simulates reg ρ s t) (hw : WellFormed s) {c : Claim} {run : Run}
    {att : RunAttempt} (hr : s.runTable.get? c.run.id = some run) (heq : run.fence = c.fence)
    (ha : s.attemptTable.get? c.attempt.id = some att) (args : Commit) (now : Instant) :
    Simulates reg ρ ((s.putAttempt (closeAttempt att args now)).putRun (released run args.state now))
      { t with
        attempts := Sql.update (fun a => a.id = ρ.attempts c.attempt.id)
          (fun a => closeAttempt a args now) t.attempts
        runs := Sql.update (fun r => r.id = ρ.runs c.run.id && r.fence = c.fence)
          (fun r => released r args.state now) t.runs } := by
  have haid := hw.attempts.id ha
  have hrid := hw.runs.id hr
  obtain ⟨-, hattempts⟩ := update_one hw.attempts.id ha ρ.attempt
    (fun a => a.id = ρ.attempts c.attempt.id) (fun a => closeAttempt a args now)
    (fun a => closeAttempt a args now)
    (fun a _ => by rw [decide_eq_decide]; exact Renaming.attempts_inj) rfl
  obtain ⟨-, hruns⟩ := update_one hw.runs.id hr ρ.run
    (fun r => decide (r.id = ρ.runs c.run.id) && decide (r.fence = c.fence))
    (fun r => released r args.state now) (fun r => released r args.state now)
    (fun r hfiled => by
      show (decide (ρ.runs r.id = ρ.runs c.run.id) && decide (r.fence = c.fence)) = _
      rw [Bool.eq_iff_iff]
      simp only [Renaming.runs_inj, Bool.and_eq_true, decide_eq_true_eq]
      refine ⟨And.left, fun he => ⟨he, ?_⟩⟩
      rw [he, hr, Option.some.injEq] at hfiled
      rw [← hfiled, heq]) rfl
  have hput := (h.putAttempt (closeAttempt att args now)).putRun (released run args.state now)
  rw [h.attempts, h.runs, hattempts, hruns]
  rw [show (closeAttempt att args now).id = c.attempt.id from haid,
    show (released run args.state now).id = c.run.id from hrid] at hput
  exact hput

theorem commit (h : Simulates reg ρ s t) (hw : WellFormed s) (hsc : Scoped s) {c : Claim}
    (hg : Genuine s c) {args : Commit} {now : Instant}
    (hok : ∀ r, s.runTable.get? c.run.id = some r → r.fence = c.fence →
      ∀ o ∈ args.observations, Insertable (s.registerAny args.derivation now) o)
    {out : CommitResult} {s' : MemoryStore} (hs : s.commit c args now = some (out, s')) :
    ∃ ρ' t', Extends s.seq ρ ρ' ∧ t.commit reg (ρ.claim c) args now = some (out, t') ∧
      Simulates reg ρ' s' t' ∧ Scoped s' ∧ s.seq.Le s'.seq := by
  obtain ⟨run, hr, htarget⟩ := hg.run
  obtain ⟨att, ha⟩ := hg.attempt
  simp only [MemoryStore.commit, hr, Option.bind_eq_bind, Option.bind_some] at hs
  by_cases hf : run.fence = c.fence
  · rw [if_neg (not_not.mpr hf)] at hs
    have hreg := h.registerAny hw args.derivation now
    have hwR := hw.registerAny args.derivation now
    have hframe := registerAny_frame s args.derivation now
    generalize hS : s.registerAny args.derivation now = S at *
    have hruns : S.runTable = s.runTable := by rw [hframe]
    have hattempts : S.attemptTable = s.attemptTable := by rw [hframe]
    have hseq : S.seq = s.seq := by rw [hframe]
    have hscR : Scoped S := hsc.of_same hruns hattempts (by rw [hframe]) (by rw [hseq])
    have hl₀ : Looping c.attempt.id ⟨S, S.versionIds, 0, 0⟩ :=
      ⟨⟨hwR.silver, versionIds_spec hwR.silver⟩, hwR, hscR, att, hattempts ▸ ha⟩
    obtain ⟨ρ₁, t₁, he₁, hr₁, ha₁, hobs, hsim₁⟩ :=
      insertObservations args.observations hreg hl₀ (hok run hr hf)
    have hl := hl₀.foldl args.observations
    have hlf := insertAll_frame S c.attempt.id args.observations
    have hlseq := foldl_insertOne_seq c.attempt.id args.observations ⟨S, S.versionIds, 0, 0⟩
    rw [← insertAll] at hobs hsim₁ hl hlseq
    generalize hL : S.insertAll c.attempt.id args.observations = l at *
    obtain ⟨ρ₂, t₂, he₂, hr₂, ha₂, hev, hsim₂⟩ :=
      insertEvents run.targetId now args.events hsim₁ hl.store hl.order hl.attempt
    have hef := addEvents_frame run.targetId args.events (some c.attempt.id) now l.store
    have hw₂ := hl.store.addEvents run.targetId args.events (some c.attempt.id) now
    generalize hE : (l.store.addEvents run.targetId args.events (some c.attempt.id) now).2 = E at *
    have hrE : E.runTable.get? c.run.id = some run := by rw [hef, hlf, hruns]; exact hr
    have haE : E.attemptTable.get? c.attempt.id = some att := by
      rw [hef, hlf, hattempts]
      exact ha
    rw [haE, Option.bind_some] at hs
    cases hs
    have hclose := hsim₂.close hw₂ hrE hf haE args now
    have hρr : ρ₂.runs = ρ.runs := hr₂.trans hr₁
    have hρa : ρ₂.attempts = ρ.attempts := ha₂.trans ha₁
    rw [hseq] at he₁ hlseq
    have hfence := h.any_fence hw hr c.fence
    rw [decide_eq_true hf] at hfence
    have hscE : Scoped E := hE ▸ hl.order.addEvents args.events hl.attempt
    have hEseq : l.store.seq.Le E.seq := hE ▸ foldl_addEvent_seq run.targetId _ now args.events l.store
    have hput : Scoped (E.putAttempt (closeAttempt att args now)) :=
      hscE.putAttempt (show E.attemptTable.get? (closeAttempt att args now).id = some att by
        rw [closeAttempt, hw.attempts.id ha]; exact haE) rfl
    refine ⟨ρ₂, _, he₁.trans he₂ hlseq, ?_, hclose, hput.putRun _, hlseq.trans hEseq⟩
    rw [Postgres.Tables.commit, show (ρ.claim c).run.id = ρ.runs c.run.id from rfl,
      show (ρ.claim c).fence = c.fence from rfl, hfence]
    simp only [Bool.not_true, Bool.false_eq_true, if_false,
      show (ρ.claim c).attempt.id = ρ.attempts c.attempt.id from rfl,
      show (ρ.claim c).run.targetId = run.targetId from htarget.symm]
    rw [ha₁] at hev
    rw [hρr, hρa]
    rw [hobs]
    simp only [Option.bind_eq_bind, Option.bind_some, hev]
    rfl
  · rw [if_pos hf, ha] at hs
    cases hs
    obtain ⟨t', hcommit, hsim⟩ := h.commit_lost hw hr hf ha args now
    refine ⟨ρ, t', Extends.refl _ _, hcommit, hsim, ?_⟩
    split
    · have hatt : s.attemptTable.get? (closed now att).id = some att := by
        rw [closed_id, hw.attempts.id ha]
        exact ha
      exact ⟨hsc.putAttempt hatt rfl, .refl _⟩
    · exact ⟨hsc, .refl _⟩

end Simulates

end EnergyPlatform
