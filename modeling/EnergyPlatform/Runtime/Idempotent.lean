import EnergyPlatform.Runtime.Representative

/-!
# Runtime.Idempotent

A second `reconcile` over one Bronze has nothing to do.

A run is quiet for an entry when reconciling its instant with it would change nothing.
`reconcileInstants_quiet`: the pass leaves every run it looks at quiet. `reconcile_idempotent`: a
second pass touches nothing and leaves the ledger as it is.
-/

namespace EnergyPlatform

open Lib (Dict Prog)

open MemoryStore

/-! ## Quiet runs -/

/-- The run of an instant names a capture that `entry` does not overtake, or is processed and names
none. -/
def Quiet (known : CaptureId → Option CaptureEntry) (targetId : String) (at_ : Instant)
    (entry : CaptureEntry) (s : MemoryStore) : Prop :=
  ∃ run, s.find targetId at_ = some run ∧ (run.captureId = none → run.state = .processed) ∧
    ∀ c, run.captureId = some c → ¬ Overtakes known entry c

theorem Quiet.congr {known : CaptureId → Option CaptureEntry} {targetId : String} {at_ : Instant}
    {entry : CaptureEntry} {s s' : MemoryStore} (h : Quiet known targetId at_ entry s)
    (hfind : s'.find targetId at_ = s.find targetId at_) : Quiet known targetId at_ entry s' := by
  obtain ⟨run, hrun, hstate, hcapture⟩ := h
  exact ⟨run, hfind.trans hrun, hstate, hcapture⟩

/-- The capture a run is settled on is not overtaken again. -/
theorem not_overtakes_settled {known : CaptureId → Option CaptureEntry} {entry : CaptureEntry}
    {run : Option Run} {c : CaptureId} (h : settled known entry run = some c) :
    ¬ Overtakes known entry c := by
  have hself : ¬ Overtakes known entry entry.captureId := fun h => h.1 rfl
  unfold settled at h
  split at h
  · obtain rfl := Option.some.inj h
    exact hself
  · split at h
    · split_ifs at h
      obtain rfl := Option.some.inj h
      exact hself
    · split_ifs at h with hover
      · obtain rfl := Option.some.inj h
        exact hself
      · obtain rfl := Option.some.inj h
        exact hover

theorem settled_eq_none {known : CaptureId → Option CaptureEntry} {entry : CaptureEntry}
    {run : Option Run} (h : settled known entry run = none) :
    ∃ old, run = some old ∧ old.captureId = none ∧ old.state = .processed := by
  unfold settled at h
  split at h
  · cases h
  · rename_i old
    split at h
    · rename_i hnone
      split_ifs at h with hp
      exact ⟨old, rfl, hnone, hp⟩
    · split_ifs at h

/-! ## The decisions, mirrored twice -/

namespace MemoryStore

variable {s : MemoryStore}

theorem contains_addInvalidation (s : MemoryStore) (inv : Invalidation) :
    (s.addInvalidation inv).2.invalidationTable.contains
      (inv.targetId, inv.captureId, inv.derivationId) = true := by
  unfold addInvalidation
  dsimp only
  split_ifs with h
  · exact h
  · exact Dict.contains_iff.mpr ⟨inv, Dict.get?_set_self ..⟩

theorem contains_addInvalidation_of {key : String × CaptureId × Option DerivationId}
    (inv : Invalidation) (h : s.invalidationTable.contains key = true) :
    (s.addInvalidation inv).2.invalidationTable.contains key = true := by
  unfold addInvalidation
  dsimp only
  split_ifs
  · exact h
  · obtain ⟨v, hv⟩ := Dict.contains_iff.mp h
    refine Dict.contains_iff.mpr ?_
    rw [Dict.get?_set]
    split_ifs
    · exact ⟨inv, rfl⟩
    · exact ⟨v, hv⟩

theorem contains_mirrored_of {key : String × CaptureId × Option DerivationId}
    (decisions : List Invalidation) : ∀ {s : MemoryStore},
    s.invalidationTable.contains key = true →
    (s.mirrored decisions).invalidationTable.contains key = true := by
  induction decisions with
  | nil => exact fun h => h
  | cons inv rest ih => exact fun h => ih (contains_addInvalidation_of inv h)

theorem contains_mirrored (decisions : List Invalidation) : ∀ s : MemoryStore,
    ∀ inv ∈ decisions, (s.mirrored decisions).invalidationTable.contains
      (inv.targetId, inv.captureId, inv.derivationId) = true := by
  induction decisions with
  | nil => exact fun _ _ h => nomatch h
  | cons inv rest ih =>
    intro s i hi
    rcases List.mem_cons.mp hi with rfl | hi
    · exact contains_mirrored_of rest (contains_addInvalidation s i)
    · exact ih (s.addInvalidation inv).2 i hi

/-- Decisions that are there already add nothing. -/
theorem mirrored_of_contains {decisions : List Invalidation}
    (h : ∀ inv ∈ decisions, s.invalidationTable.contains
      (inv.targetId, inv.captureId, inv.derivationId) = true) : s.mirrored decisions = s := by
  induction decisions with
  | nil => rfl
  | cons inv rest ih =>
    obtain ⟨hinv, hrest⟩ := List.forall_mem_cons.mp h
    have hsame : (s.addInvalidation inv).2 = s := by
      simp only [addInvalidation, hinv, if_true]
    rw [mirrored, List.foldl_cons, hsame]
    exact ih hrest

theorem latest_congr {s' : MemoryStore} (h : s'.invalidationTable = s.invalidationTable)
    (d : DerivationId) (entries : List CaptureEntry) (acc : Dict Instant CaptureEntry) :
    s'.latest d entries acc = s.latest d entries acc := by
  have hvoid : ∀ c, s'.isInvalidated c (some d) = s.isInvalidated c (some d) := fun c => by
    rw [isInvalidated, isInvalidated, h]
  simp only [latest, hvoid]

end MemoryStore

/-! ## One pass, and the next -/

section Pass

variable (out : Outside) {rt : Runtime StoreCall.Ret} (hst : rt.store = memoryStore)

include hst

/-- A quiet run is left as it is. -/
theorem reconcileInstant_of_quiet {known : Dict CaptureId CaptureEntry} {at_ : Instant}
    {entry : CaptureEntry} (now : Instant) {w : Local} (hw : WellFormed w.store)
    (h : Quiet (lookup known w.bronze.log) rt.targetId at_ entry w.store) :
    (reconcileInstant rt known at_ entry now).run (Local.answer out) w = (.ok none, w) := by
  obtain ⟨run, hfind, hstate, hcapture⟩ := h
  have hens : w.store.ensureRun rt.targetId at_ .captured .reconciled (some entry.captureId) now =
      (run, w.store) := by
    rcases ensureRun_cases w.store rt.targetId at_ .captured .reconciled (some entry.captureId) now
      with ⟨hnone, -⟩ | ⟨old, hold, ⟨-, hp, hc, -⟩ | ⟨-, he⟩⟩
    · rw [hfind] at hnone
      cases hnone
    · obtain rfl := Option.some.inj (hfind.symm.trans hold)
      exact absurd (hstate hc) hp
    · obtain rfl := Option.some.inj (hfind.symm.trans hold)
      exact he
  obtain ⟨⟨i, hi⟩, -, -⟩ := find_eq_some hfind
  have hafter : w.store.runTable.get? run.id = some run := by rw [hw.runs.id hi]; exact hi
  have hadvance : (advance rt known entry run now).run (Local.answer out) w = (.ok run, w) := by
    rw [advance_run out hst known entry run now hafter]
    cases hc : run.captureId with
    | none => rfl
    | some c => exact if_neg (hcapture c hc)
  rw [reconcileInstant, Prog.bind_eq, Runtime.getRun, hst]
  refine (Local.run_store_bind (c := .getRun rt.targetId at_) rfl _).trans ?_
  rw [Prog.bind_eq, Runtime.ensureRun, hst]
  refine (Local.run_store_bind (c := .ensureRun rt.targetId at_ .captured .reconciled
    (some entry.captureId) now) (congrArg some hens) _).trans ?_
  refine (Prog.run_bind_ok _ hadvance).trans ?_
  have hsame : (w.store.getRun rt.targetId at_).all (fun b =>
      decide (b.state ≠ run.state ∨ b.captureId ≠ run.captureId)) = false := by
    rw [MemoryStore.getRun, hfind]
    simp
  exact congrArg (fun r => (Except.ok r, w)) (if_neg (by rw [hsame]; exact Bool.false_ne_true))

/-- Reconciling an instant leaves its run quiet. -/
theorem reconcileInstant_quiet (known : Dict CaptureId CaptureEntry) (at_ : Instant)
    (entry : CaptureEntry) (now : Instant) {w : Local} (hw : WellFormed w.store) : ∃ run s',
      (reconcileInstant rt known at_ entry now).run (Local.answer out) w =
        (.ok run, { w with store := s' }) ∧
      WellFormed s' ∧ s'.invalidationTable = w.store.invalidationTable ∧
      Quiet (lookup known w.bronze.log) rt.targetId at_ entry s' ∧
      ∀ t, t ≠ at_ → s'.find rt.targetId t = w.store.find rt.targetId t := by
  obtain ⟨run, s', hrun, hset⟩ := reconcileInstant_run out hst known at_ entry now hw
  cases hc : settled (lookup known w.bronze.log) entry (w.store.find rt.targetId at_) with
  | none =>
    -- nothing was to be done, and nothing was
    obtain ⟨old, hold, hnone, hp⟩ := settled_eq_none hc
    have hquiet : Quiet (lookup known w.bronze.log) rt.targetId at_ entry w.store :=
      ⟨old, hold, fun _ => hp, fun c h => by rw [hnone] at h; cases h⟩
    exact ⟨none, w.store, reconcileInstant_of_quiet out hst now hw hquiet, hw, rfl, hquiet,
      fun _ _ => rfl⟩
  | some c =>
    obtain ⟨after, hfind, hcapture⟩ := hset.here
    rw [hc] at hcapture
    refine ⟨run, s', hrun, hset.store, hset.invalidationTable, ⟨after, hfind, fun h => ?_, ?_⟩,
      hset.elsewhere⟩
    · rw [hcapture] at h
      cases h
    · intro c' hc'
      obtain rfl := Option.some.inj (hcapture.symm.trans hc')
      exact not_overtakes_settled hc

/-- A pass leaves the run of every instant of its list quiet. -/
theorem reconcileInstants_quiet (known : Dict CaptureId CaptureEntry) (now : Instant)
    (l : List (Instant × CaptureEntry)) : ∀ (touched : List Run) {w : Local}, WellFormed w.store →
    (l.map Prod.fst).Nodup → ∃ runs s',
      (reconcileInstants rt known now l touched).run (Local.answer out) w =
        (.ok runs, { w with store := s' }) ∧
      WellFormed s' ∧ s'.invalidationTable = w.store.invalidationTable ∧
      (∀ p ∈ l, Quiet (lookup known w.bronze.log) rt.targetId p.1 p.2 s') ∧
      ∀ t, t ∉ l.map Prod.fst → s'.find rt.targetId t = w.store.find rt.targetId t := by
  induction l with
  | nil =>
    intro touched w hw _
    exact ⟨touched, w.store, rfl, hw, rfl, fun p h => absurd h List.not_mem_nil, fun t _ => rfl⟩
  | cons head rest ih =>
    obtain ⟨at_, entry⟩ := head
    intro touched w hw hnd
    rw [List.map_cons, List.nodup_cons] at hnd
    obtain ⟨run, s₁, hrun, hwf, htable, hquiet, helse⟩ :=
      reconcileInstant_quiet out hst known at_ entry now hw
    obtain ⟨runs, s', hruns, hwf', htable', hquiet', helse'⟩ :=
      ih (touched ++ run.toList) (w := { w with store := s₁ }) hwf hnd.2
    refine ⟨runs, s', (Prog.run_bind_ok _ hrun).trans hruns, hwf', htable'.trans htable,
      List.forall_mem_cons.mpr ⟨hquiet.congr (helse' at_ hnd.1), hquiet'⟩, fun t hmem => ?_⟩
    rw [List.map_cons, List.mem_cons, not_or] at hmem
    exact (helse' t hmem.2).trans (helse t hmem.1)

/-- A pass over quiet runs touches nothing. -/
theorem reconcileInstants_of_quiet (known : Dict CaptureId CaptureEntry) (now : Instant)
    {l : List (Instant × CaptureEntry)} {w : Local} (hw : WellFormed w.store)
    (h : ∀ p ∈ l, Quiet (lookup known w.bronze.log) rt.targetId p.1 p.2 w.store) :
    ∀ touched, (reconcileInstants rt known now l touched).run (Local.answer out) w =
      (.ok touched, w) := by
  induction l with
  | nil => exact fun touched => rfl
  | cons head rest ih =>
    obtain ⟨hhead, hrest⟩ := List.forall_mem_cons.mp h
    intro touched
    refine (Prog.run_bind_ok _ (reconcileInstant_of_quiet out hst now hw hhead)).trans ?_
    rw [Option.toList_none, List.append_nil]
    exact ih hrest touched

/-- `reconcile` once the window and the derivation are known. -/
theorem reconcileAt_eq {d : Derivation} (hd : derivationFor rt.impl rt.manifest = some d)
    {window : Option Duration} {now : Instant} {since : Option Instant}
    (hsince : windowStart rt window now = .ok since) (w : Local) :
    (reconcileAt rt window now).run (Local.answer out) w =
      (reconcileInstants rt (byId (w.bronze.log.list rt.targetId since none)) now
        ((w.store.mirrored (w.bronze.log.invalidations rt.targetId)).latest d.derivationId
          (w.bronze.log.list rt.targetId since none) .empty).entries []).run (Local.answer out)
        { w with store := w.store.mirrored (w.bronze.log.invalidations rt.targetId) } := by
  have hlist := latestByInstant_run out hst d.derivationId
    (w.bronze.log.list rt.targetId since none)
    { w with store := w.store.mirrored (w.bronze.log.invalidations rt.targetId) } .empty
  rw [reconcileAt, hsince, hd]
  refine (Local.run_bronze_bind w (.invalidations rt.targetId) _).trans ?_
  refine (Prog.run_bind_ok _ (mirror_run out hst _ w)).trans ?_
  refine (Local.run_bronze_bind { w with store := _ } (.list rt.targetId since none) _).trans ?_
  exact Prog.run_bind_ok _ hlist

theorem reconcileAt_raises (hd : derivationFor rt.impl rt.manifest = none)
    {window : Option Duration} {now : Instant} {since : Option Instant}
    (hsince : windowStart rt window now = .ok since) (w : Local) : ∃ e w',
      (reconcileAt rt window now).run (Local.answer out) w = (.error e, w') := by
  rw [reconcileAt, hsince, hd]
  exact ⟨_, _, (Local.run_bronze_bind w (.invalidations rt.targetId) _).trans
    (Prog.run_bind_ok _ (mirror_run out hst _ w))⟩

/-- After one completed pass, a second one over the same Bronze, at the same time and for the same
window, touches no run and leaves the ledger as it is. -/
theorem reconcile_idempotent {w w' : Local} (hs : MemoryStore.Reachable w.store)
    (window : Option Duration) (now : Instant) {runs : List Run}
    (h : (reconcile rt window (some now)).run (Local.answer out) w = (.ok runs, w')) :
    (reconcile rt window (some now)).run (Local.answer out) w' = (.ok [], w') := by
  change (reconcileAt rt window now).run (Local.answer out) w = (.ok runs, w') at h
  change (reconcileAt rt window now).run (Local.answer out) w' = (.ok [], w')
  cases hsince : windowStart rt window now with
  | error e =>
    rw [reconcileAt, hsince] at h
    cases h
  | ok since =>
    cases hd : derivationFor rt.impl rt.manifest with
    | none =>
      obtain ⟨e, w'', he⟩ := reconcileAt_raises out hst hd hsince w
      rw [he] at h
      cases h
    | some d =>
      rw [reconcileAt_eq out hst hd hsince] at h
      obtain ⟨runs', s', hrun, hwf, htable, hquiet, -⟩ := reconcileInstants_quiet out hst
        (byId (w.bronze.log.list rt.targetId since none)) now
        ((w.store.mirrored (w.bronze.log.invalidations rt.targetId)).latest d.derivationId
          (w.bronze.log.list rt.targetId since none) .empty).entries []
        (w := { w with store := w.store.mirrored (w.bronze.log.invalidations rt.targetId) })
        (hs.wellFormed.mirrored _) (Dict.nodup _)
      obtain ⟨-, rfl⟩ := Prod.mk.inj (h.symm.trans hrun)
      rw [reconcileAt_eq out hst hd hsince]
      have hmirrored : s'.mirrored (w.bronze.log.invalidations rt.targetId) = s' :=
        mirrored_of_contains (htable ▸ contains_mirrored _ w.store)
      dsimp only
      rw [hmirrored, latest_congr htable]
      exact reconcileInstants_of_quiet out hst _ now (w := { w with store := s' }) hwf hquiet []

end Pass

/-- The second capture never reached the ledger: one pass takes it up, and the next has nothing to
do. -/
theorem reconcile_again : ∃ runs w',
    (reconcile marketWorker none (some hour)).run (Local.answer changingSource)
      (decided unavailableStore 1) = (.ok runs, w') ∧
    (reconcile marketWorker none (some hour)).run (Local.answer changingSource) w' =
      (.ok [], w') := by
  obtain ⟨d, hd, -⟩ := market_derivation
  have hreach : MemoryStore.Reachable (decided unavailableStore 1).store :=
    (decided_sound unavailableStore 1).reachable
  obtain ⟨runs, w', hrun, -⟩ := reconcile_run changingSource rfl hd (some hour) hreach.wellFormed
  exact ⟨runs, w', hrun, reconcile_idempotent changingSource rfl hreach none hour hrun⟩

end EnergyPlatform
