import EnergyPlatform.Runtime.Passes

/-!
# Runtime.Repairs

What the replay verbs queue, and what a pass then makes of it.

`replayDerivation_queues`: the verb queues one replay, of the capture the run names, for each run that
wrote a row under the derivation and has none pending, and touches nothing else.
`replay_repairs`: after it, a pass that returns leaves no such run unprocessed.
-/

namespace EnergyPlatform

open Lib (Dict Prog)

open MemoryStore

/-! ## The runs of a derivation -/

theorem mem_of_mapM_some {α β : Type} {f : α → Option β} {l : List α} :
    ∀ {l' : List β}, l.mapM f = some l' → ∀ y, y ∈ l' ↔ ∃ x ∈ l, f x = some y := by
  induction l with
  | nil =>
    intro l' h y
    obtain rfl : [] = l' := Option.some.inj h
    simp
  | cons x rest ih =>
    intro l' h y
    simp only [List.mapM_cons, Option.bind_eq_bind, Option.bind_eq_some_iff, Option.pure_def,
      Option.some.injEq] at h
    obtain ⟨z, hz, ys, hys, rfl⟩ := h
    rw [List.mem_cons, ih hys y]
    constructor
    · rintro (rfl | ⟨x', hx', hy⟩)
      · exact ⟨x, List.mem_cons_self, hz⟩
      · exact ⟨x', List.mem_cons_of_mem _ hx', hy⟩
    · rintro ⟨x', hx', hy⟩
      rcases List.mem_cons.mp hx' with rfl | hx'
      · exact .inl (Option.some.inj (hy.symm.trans hz))
      · exact .inr ⟨x', hx', hy⟩

/-- The run wrote a row under the derivation. -/
def Wrote (s : MemoryStore) (d : DerivationId) (run : Run) : Prop :=
  ∃ n row att, s.rowTable.get? n = some row ∧ row.observation.derivationId = d ∧
    s.attemptTable.get? row.runAttemptId = some att ∧ s.runTable.get? att.runId = some run

theorem mem_runsWithDerivation {s : MemoryStore} {d : DerivationId} {runs : List Run}
    (h : s.runsWithDerivation d = some runs) (run : Run) : run ∈ runs ↔ Wrote s d run := by
  simp only [runsWithDerivation, Option.bind_eq_bind, Option.bind_eq_some_iff,
    Option.some.injEq] at h
  obtain ⟨found, hfound, listed, hlisted, rfl⟩ := h
  rw [List.mem_insertionSort, mem_of_mapM_some hlisted]
  simp only [List.mem_dedup, List.mem_map, mem_of_mapM_some hfound, List.mem_filter,
    decide_eq_true_eq, Dict.mem_values]
  constructor
  · rintro ⟨i, ⟨att, ⟨j, ⟨row, ⟨⟨n, hrow⟩, hd⟩, rfl⟩, hatt⟩, rfl⟩, hrun⟩
    exact ⟨n, row, att, hrow, hd, hatt, hrun⟩
  · rintro ⟨n, row, att, hrow, hd, hatt, hrun⟩
    exact ⟨att.runId, ⟨att, ⟨row.runAttemptId, ⟨row, ⟨⟨n, hrow⟩, hd⟩, rfl⟩, hatt⟩, rfl⟩, hrun⟩

/-! ## The loop of the replay verbs -/

/-- The run has a replay nobody took up. -/
def HasPending (s : MemoryStore) (i : Nat) : Prop :=
  ∃ j a, s.attemptTable.get? j = some a ∧ a.runId = i ∧ pendingReplay a = true

/-- The attempts `queued` are new pending replays of runs among `ids`, each of the capture that its
run names; everything else is as it was, and each run of `ids` has a pending replay. -/
structure Queued (ids : List Nat) (queued : List RunAttempt) (s s' : MemoryStore) : Prop where
  same : SameButAttempts s s'
  filed : ∀ {j a}, s'.attemptTable.get? j = some a ↔
    s.attemptTable.get? j = some a ∨ a ∈ queued ∧ a.id = j
  fresh : ∀ a ∈ queued, s.attemptTable.get? a.id = none
  replay : ∀ a ∈ queued, pendingReplay a = true
  names : ∀ a ∈ queued, a.runId ∈ ids ∧ ¬ HasPending s a.runId ∧
    ∃ run, s.runTable.get? a.runId = some run ∧ a.captureId = run.captureId
  once : (queued.map RunAttempt.runId).Nodup
  due : ∀ i ∈ ids, HasPending s' i

theorem Queued.nil (s : MemoryStore) : Queued [] [] s s where
  same := .refl s
  filed := by simp
  fresh := by simp
  replay := by simp
  names := by simp
  once := List.nodup_nil
  due := by simp

theorem Queued.kept {ids : List Nat} {queued : List RunAttempt} {s s' : MemoryStore}
    (h : Queued ids queued s s') {i : Nat} (hp : HasPending s i) : HasPending s' i := by
  obtain ⟨j, a, ha, hr, hpending⟩ := hp
  exact ⟨j, a, h.filed.mpr (.inl ha), hr, hpending⟩

/-- First the replay of one run, then those of others. -/
theorem Queued.trans {ids ids' : List Nat} {queued queued' : List RunAttempt}
    {s s' s'' : MemoryStore} (h : Queued ids queued s s') (h' : Queued ids' queued' s' s'') :
    Queued (ids ++ ids') (queued ++ queued') s s'' where
  same := h.same.trans h'.same
  filed {j a} := by
    rw [h'.filed, h.filed, List.mem_append]
    tauto
  fresh a ha := by
    rcases List.mem_append.mp ha with ha | ha
    · exact h.fresh a ha
    · refine Option.eq_none_iff_forall_ne_some.mpr fun b hb => ?_
      have hnone := h'.fresh a ha
      rw [h.filed.mpr (.inl hb)] at hnone
      cases hnone
  replay a ha := (List.mem_append.mp ha).elim (h.replay a) (h'.replay a)
  names a ha := by
    rcases List.mem_append.mp ha with ha | ha
    · obtain ⟨hi, hno, hrun⟩ := h.names a ha
      exact ⟨List.mem_append_left _ hi, hno, hrun⟩
    · obtain ⟨hi, hno, run, hrun, hc⟩ := h'.names a ha
      exact ⟨List.mem_append_right _ hi, fun hp => hno (h.kept hp), run,
        h.same.runTable ▸ hrun, hc⟩
  once := by
    rw [List.map_append, List.nodup_append]
    refine ⟨h.once, h'.once, fun i hi k hk he => ?_⟩
    obtain ⟨a, ha, rfl⟩ := List.mem_map.mp hi
    obtain ⟨b, hb, rfl⟩ := List.mem_map.mp hk
    -- the second would have found the first one pending
    exact (h'.names b hb).2.1 ⟨a.id, a, h.filed.mpr (.inr ⟨ha, rfl⟩), he, h.replay a ha⟩
  due i hi := by
    rcases List.mem_append.mp hi with hi | hi
    · exact h'.kept (h.due i hi)
    · exact h'.due i hi

theorem enqueueReplay_queued {s s' : MemoryStore} (h : WellFormed s) {i : Nat} {now : Instant}
    {r : Option RunAttempt} (he : s.enqueueReplay i now = some (r, s')) :
    Queued [i] r.toList s s' := by
  rw [enqueueReplay] at he
  split at he
  · rename_i hany
    cases he
    obtain ⟨a, ha, hp⟩ := List.any_eq_true.mp hany
    obtain ⟨⟨j, hj⟩, hr⟩ := mem_attempts.mp ha
    refine { Queued.nil s with names := by simp, due := fun k hk => ?_ }
    obtain rfl := List.mem_singleton.mp hk
    exact ⟨j, a, hj, hr, hp⟩
  · rename_i hany
    simp only [Option.bind_eq_bind, Option.bind_eq_some_iff, Option.some.injEq,
      Prod.mk.injEq] at he
    obtain ⟨run, hrun, rfl, rfl⟩ := he
    have hnone : s.attemptTable.get? (s.seq.attempts + 1) = none := by
      refine Option.eq_none_iff_forall_ne_some.mpr fun b hb => ?_
      have := h.attempts.bound hb
      omega
    have hfiled : ∀ {j a}, (s.newAttempt (replayAttempt i run.captureId now)).2.attemptTable.get? j =
        some a ↔ s.attemptTable.get? j = some a ∨
          a ∈ [(s.newAttempt (replayAttempt i run.captureId now)).1] ∧ a.id = j := by
      intro j a
      change (s.attemptTable.set (s.seq.attempts + 1) _).get? j = some a ↔ _
      rw [Dict.get?_set, List.mem_singleton]
      split
      · rename_i hj
        subst hj
        rw [hnone, Option.some.injEq]
        constructor
        · rintro rfl
          exact .inr ⟨rfl, rfl⟩
        · rintro (ha | ⟨rfl, -⟩)
          · cases ha
          · rfl
      · rename_i hj
        constructor
        · exact .inl
        · rintro (ha | ⟨rfl, hid⟩)
          · exact ha
          · exact absurd hid.symm hj
    have hno : ¬ HasPending s i := by
      rintro ⟨j, a, ha, hr, hp⟩
      exact hany (List.any_eq_true.mpr ⟨a, mem_attempts.mpr ⟨⟨j, ha⟩, hr⟩, hp⟩)
    refine ⟨.newAttempt s _, hfiled, fun a ha => ?_, fun a ha => ?_, fun a ha => ?_, ?_,
      fun k hk => ?_⟩
    · obtain rfl := List.mem_singleton.mp ha
      exact hnone
    · obtain rfl := List.mem_singleton.mp ha
      rfl
    · obtain rfl := List.mem_singleton.mp ha
      exact ⟨List.mem_singleton_self i, hno, run, hrun, rfl⟩
    · exact List.nodup_singleton _
    · obtain rfl := List.mem_singleton.mp hk
      exact ⟨_, _, hfiled.mpr (.inr ⟨List.mem_singleton_self _, rfl⟩), rfl, rfl⟩

section Worker

variable {out : Outside} {rt : Runtime StoreCall.Ret} (hst : rt.store = memoryStore)

include hst

theorem enqueueReplays_queued (admits : Run → Bool) (now : Instant) (runs : List Run) :
    ∀ (queued : List RunAttempt) {w w' : Local} {r : List RunAttempt}, w.Sound →
      (enqueueReplays rt admits now runs queued).run (Local.answer out) w = (.ok r, w') →
      ∃ added, r = queued ++ added ∧ w'.bronze = w.bronze ∧ w'.reads = w.reads ∧ w'.Sound ∧
        Queued ((runs.filter admits).map Run.id) added w.store w'.store := by
  induction runs with
  | nil =>
    intro queued w w' r hw h
    cases h
    exact ⟨[], (List.append_nil _).symm, rfl, rfl, hw, .nil _⟩
  | cons run rest ih =>
    intro queued w w' r hw h
    rw [enqueueReplays] at h
    split at h
    · rename_i hadmits
      obtain ⟨attempt, w₁, hone, h⟩ := Prog.of_run_bind _ h
      rw [Runtime.enqueueReplay, hst] at hone
      obtain ⟨s, hs, rfl⟩ := Local.of_run_store hone
      have hsound : Local.Sound { w with store := s } :=
        ⟨hw.filed, hw.reachable.call (c := .enqueueReplay run.id now) hs⟩
      obtain ⟨added, rfl, hbronze, hreads, hsound', hq⟩ := ih _ hsound h
      refine ⟨attempt.toList ++ added, List.append_assoc .., hbronze, hreads, hsound', ?_⟩
      rw [List.filter_cons_of_pos hadmits, List.map_cons]
      exact (enqueueReplay_queued hw.reachable.wellFormed hs).trans hq
    · rename_i hadmits
      rw [List.filter_cons_of_neg hadmits]
      exact ih _ hw h

/-- A run of `replay_derivation`: the replays are those of the runs that wrote under it. -/
theorem replayDerivation_run {w w' : Local} (hw : w.Sound) {d : DerivationId}
    {queued : List RunAttempt}
    (h : (replayDerivation rt d).run (Local.answer out) w = (.ok queued, w')) :
    w'.Sound ∧ w'.bronze = w.bronze ∧ w.reads ≤ w'.reads ∧
      ∃ ids, Queued ids queued w.store w'.store ∧ ∀ i, i ∈ ids ↔
        ∃ run, w.store.runTable.get? i = some run ∧ run.targetId = rt.targetId ∧
          Wrote w.store d run := by
  simp only [replayDerivation, Prog.bind_eq] at h
  obtain ⟨now, w₁, hnow, h⟩ := Prog.of_run_bind _ h
  obtain ⟨rfl, rfl⟩ := Local.of_run_clock hnow
  obtain ⟨runs, w₂, hruns, h⟩ := Prog.of_run_bind _ h
  rw [Runtime.runsWithDerivation, hst] at hruns
  obtain ⟨s, hs, rfl⟩ := Local.of_run_store hruns
  obtain ⟨listed, hlisted, hpair⟩ := Option.map_eq_some_iff.mp hs
  obtain ⟨rfl, rfl⟩ := Prod.mk.inj hpair
  obtain ⟨added, rfl, hbronze, hreads, hsound, hq⟩ :=
    enqueueReplays_queued hst _ _ _ [] (w := { w with reads := w.reads + 1 })
      ⟨hw.filed, hw.reachable⟩ h
  refine ⟨hsound, hbronze, ?_, _, hq, fun i => ?_⟩
  · rw [hreads]
    exact Nat.le_succ _
  · have hids := hw.reachable.wellFormed.runs
    constructor
    · intro hi
      obtain ⟨run, hmem, rfl⟩ := List.mem_map.mp hi
      obtain ⟨hmem, ht⟩ := List.mem_filter.mp hmem
      obtain ⟨n, row, att, hrow, hd, hatt, hrun⟩ := (mem_runsWithDerivation hlisted run).mp hmem
      exact ⟨run, hids.id hrun ▸ hrun, of_decide_eq_true ht, n, row, att, hrow, hd, hatt, hrun⟩
    · rintro ⟨run, hrun, ht, hwrote⟩
      have hmem := (mem_runsWithDerivation hlisted run).mpr hwrote
      exact List.mem_map.mpr ⟨run, List.mem_filter.mpr ⟨hmem, decide_eq_true ht⟩, hids.id hrun⟩

/-- `replay_derivation` queues exactly one replay, of the capture the run names, for each run of the
target that wrote a row under the derivation and has none pending; nothing else changes. -/
theorem replayDerivation_queues {w w' : Local} (hw : w.Sound) {d : DerivationId}
    {queued : List RunAttempt}
    (h : (replayDerivation rt d).run (Local.answer out) w = (.ok queued, w')) :
    w'.bronze = w.bronze ∧ SameButAttempts w.store w'.store ∧
      (∀ j a, w'.store.attemptTable.get? j = some a ↔
        w.store.attemptTable.get? j = some a ∨ a ∈ queued ∧ a.id = j) ∧
      (∀ a ∈ queued, w.store.attemptTable.get? a.id = none ∧ pendingReplay a = true) ∧
      (queued.map RunAttempt.runId).Nodup ∧
      ∀ i captureId, (∃ a ∈ queued, a.runId = i ∧ a.captureId = captureId) ↔
        ¬ HasPending w.store i ∧ ∃ run, w.store.runTable.get? i = some run ∧
          run.captureId = captureId ∧ run.targetId = rt.targetId ∧ Wrote w.store d run := by
  obtain ⟨-, hbronze, -, ids, hq, hids⟩ := replayDerivation_run hst hw h
  refine ⟨hbronze, hq.same, fun j a => hq.filed, fun a ha => ⟨hq.fresh a ha, hq.replay a ha⟩, hq.once,
    fun i captureId => ⟨?_, ?_⟩⟩
  · rintro ⟨a, ha, rfl, rfl⟩
    obtain ⟨hi, hno, run, hrun, hc⟩ := hq.names a ha
    obtain ⟨run', hrun', ht, hwrote⟩ := (hids _).mp hi
    obtain rfl := Option.some.inj (hrun.symm.trans hrun')
    exact ⟨hno, run, hrun, hc.symm, ht, hwrote⟩
  · rintro ⟨hno, run, hrun, rfl, ht, hwrote⟩
    obtain ⟨j, a, ha, rfl, hp⟩ := hq.due i ((hids i).mpr ⟨run, hrun, ht, hwrote⟩)
    rcases hq.filed.mp ha with ha | ⟨ha, -⟩
    · exact absurd ⟨j, a, ha, rfl, hp⟩ hno
    · obtain ⟨-, -, run', hrun', hc⟩ := hq.names a ha
      obtain rfl := Option.some.inj (hrun.symm.trans hrun')
      exact ⟨a, ha, rfl, hc⟩

/-! ## A repair -/

omit hst in
theorem Queued.lapsed {ids : List Nat} {queued : List RunAttempt} {s s' : MemoryStore}
    (h : Queued ids queued s s') {limit : Instant} (hl : Lapsed s limit) : Lapsed s' limit := by
  refine ⟨fun i run u hr hu => hl.runs i run u (h.same.runTable ▸ hr) hu, fun j a ha ho hown => ?_⟩
  rcases h.filed.mp ha with ha | ⟨ha, -⟩
  · exact hl.attempts j a ha ho hown
  · exact absurd (h.replay a ha) (by rw [not_pendingReplay_of_leased hown]; exact Bool.false_ne_true)

omit hst in
theorem Queued.waiting {ids : List Nat} {queued : List RunAttempt} {s s' : MemoryStore}
    (h : Queued ids queued s s') {i : Nat} (hi : i ∈ ids) {run : Run}
    (hrun : s.runTable.get? i = some run) : Waiting s' run.targetId i := by
  obtain ⟨j, a, ha, hr, hp⟩ := h.due i hi
  obtain ⟨hk, ho, -⟩ := pendingReplay_iff.mp hp
  exact ⟨run, h.same.runTable ▸ hrun, rfl, .inr ⟨j, a, ha, hr, hk, ho⟩⟩

/-- A parser is mended: `replay_derivation` of the old derivation and then a pass that returns leave
every run of the target that had written under it processed under the derivation of today. -/
theorem replay_repairs {w w₁ w' : Local} (hw : w.Sound) {limit : Instant} (hl : Lapsed w.store limit)
    (hclock : ∀ n, w.reads ≤ n → limit ≤ out.clock n) {d : DerivationId} {queued : List RunAttempt}
    (hq : (replayDerivation rt d).run (Local.answer out) w = (.ok queued, w₁))
    {reports : List ProcessReport}
    (h : (process rt none).run (Local.answer out) w₁ = (.ok reports, w')) :
    ∃ own, derivationFor rt.impl rt.manifest = some own ∧
      ∀ i run, w.store.runTable.get? i = some run → run.targetId = rt.targetId →
        Wrote w.store d run → ∃ run', Done own w'.store i run' := by
  obtain ⟨hsound, -, hreads, ids, hqueued, hids⟩ := replayDerivation_run hst hw hq
  obtain ⟨own, s, passed, hown, haligned, -, hgiven, hdrained⟩ := process_run hst hsound
    (hqueued.lapsed hl) (fun n hn => hclock n (hreads.trans hn)) h
  refine ⟨own, hown, fun i run hrun ht hwrote => hdrained.done i (hgiven i (haligned.waiting ?_))⟩
  exact ht ▸ hqueued.waiting ((hids i).mpr ⟨run, hrun, ht, hwrote⟩) hrun

/-- So do `replay_range` and a pass for every run of the days that names a capture. -/
theorem replayRange_repairs {w w₁ w' : Local} (hw : w.Sound) {limit : Instant}
    (hl : Lapsed w.store limit) (hclock : ∀ n, w.reads ≤ n → limit ≤ out.clock n)
    {since until_ : Instant} {queued : List RunAttempt}
    (hq : (replayRange rt since until_).run (Local.answer out) w = (.ok queued, w₁))
    {reports : List ProcessReport}
    (h : (process rt none).run (Local.answer out) w₁ = (.ok reports, w')) :
    ∃ own, derivationFor rt.impl rt.manifest = some own ∧
      ∀ i run, w.store.runTable.get? i = some run → run.targetId = rt.targetId →
        since ≤ run.scheduledFor → run.scheduledFor < until_ → run.captureId.isSome = true →
          ∃ run', Done own w'.store i run' := by
  simp only [replayRange, Prog.bind_eq] at hq
  obtain ⟨now, w₂, hnow, hq⟩ := Prog.of_run_bind _ hq
  obtain ⟨rfl, rfl⟩ := Local.of_run_clock hnow
  obtain ⟨touched, w₃, hrec, hq⟩ := Prog.of_run_bind _ hq
  obtain ⟨hsound, -, haligned, hreads⟩ := reconcile_aligned hst
    (w := { w with reads := w.reads + 1 }) ⟨hw.filed, hw.reachable⟩ _ _ hrec
  obtain ⟨runs, w₄, hruns, hq⟩ := Prog.of_run_bind _ hq
  rw [Runtime.runs, hst] at hruns
  obtain ⟨s, hs, rfl⟩ := Local.of_run_store hruns
  obtain ⟨rfl, rfl⟩ : runs = w₃.store.runs rt.targetId (some since) (some until_) ∧
      s = w₃.store := by
    cases hs
    exact ⟨rfl, rfl⟩
  obtain ⟨added, -, -, hreads', hsound', hqueued⟩ :=
    enqueueReplays_queued hst _ _ _ [] (w := w₃) hsound hq
  obtain ⟨own, s, passed, hown, haligned', -, hgiven, hdrained⟩ := process_run hst hsound'
    (hqueued.lapsed (haligned.lapsed hl))
    (fun n hn => hclock n ((Nat.le_succ _).trans (hreads.trans (hreads' ▸ hn)))) h
  refine ⟨own, hown, fun i run hrun ht hsince huntil hname =>
    hdrained.done i (hgiven i (haligned'.waiting ?_))⟩
  obtain ⟨run', hrun', ht', hat, hkept, -⟩ := haligned.runs i run hrun
  have hmem : i ∈ ((w₃.store.runs rt.targetId (some since) (some until_)).filter
      fun r => r.captureId.isSome).map Run.id := by
    refine List.mem_map.mpr ⟨run', List.mem_filter.mpr ⟨?_, hkept hname⟩,
      hsound.reachable.wellFormed.runs.id hrun'⟩
    simp only [MemoryStore.runs, List.mem_insertionSort, List.mem_filter, Dict.mem_values,
      decide_eq_true_eq, Option.mem_some_iff, forall_eq']
    exact ⟨⟨i, hrun'⟩, ht'.trans ht, hat ▸ hsince, hat ▸ huntil⟩
  exact (ht'.trans ht) ▸ hqueued.waiting hmem hrun'

end Worker

/-! ## The page again -/

/-- The captured page, processed. -/
def pageProcessed : Local :=
  ((process pricesWorker none).run (Local.answer pageOutside) pageCaptured).2

theorem pageProcessed_sound : pageProcessed.Sound := pageCaptured_sound.run pageOutside _

theorem pageProcessed_lapsed (limit : Instant) : Lapsed pageProcessed.store limit :=
  lapsed_of_settled (by decide +kernel) (by decide +kernel) limit

/-- The processed page, its run queued again. -/
def pageQueued : Local :=
  ((replayDerivation pricesWorker 0).run (Local.answer pageOutside) pageProcessed).2

/-- The page wrote one row, and its run is queued once. -/
theorem replayDerivation_queues_page : ∃ queued,
    (replayDerivation pricesWorker 0).run (Local.answer pageOutside) pageProcessed =
      (.ok queued, pageQueued) ∧ queued.length = 1 ∧
      ∀ a ∈ queued, pageProcessed.store.attemptTable.get? a.id = none := by
  have hlength : ((replayDerivation pricesWorker 0).run (Local.answer pageOutside)
      pageProcessed).1.toOption.map List.length = some 1 := by decide +kernel
  rcases hq : (replayDerivation pricesWorker 0).run (Local.answer pageOutside) pageProcessed with
    ⟨queued | queued, w'⟩
  · rw [hq] at hlength
    cases hlength
  · rw [hq] at hlength
    obtain ⟨-, -, -, hfresh, -⟩ := replayDerivation_queues rfl pageProcessed_sound hq
    have hw : pageQueued = w' := by rw [pageQueued, hq]
    exact ⟨queued, by rw [hw], Option.some.inj hlength, fun a ha => (hfresh a ha).1⟩

theorem run_of_isOk {α : Type} {p : Verb StoreCall.Ret α} {w : Local}
    (h : (p.run (Local.answer pageOutside) w).1.isOk = true) :
    ∃ a, p.run (Local.answer pageOutside) w = (.ok a, (p.run (Local.answer pageOutside) w).2) := by
  rcases hp : p.run (Local.answer pageOutside) w with ⟨a | a, w'⟩
  · rw [hp] at h
    cases h
  · exact ⟨a, rfl⟩

/-- The row of the page is under the derivation, and a pass mends its run. -/
theorem replay_repairs_page : ∃ (own : Derivation) (run run' : Run), Wrote pageProcessed.store 0 run ∧
    Done own ((process pricesWorker none).run (Local.answer pageOutside) pageQueued).2.store run.id
      run' := by
  obtain ⟨queued, hq⟩ := run_of_isOk (p := replayDerivation pricesWorker 0) (w := pageProcessed)
    (by decide +kernel)
  obtain ⟨reports, hp⟩ := run_of_isOk (p := process pricesWorker none) (w := pageQueued)
    (by decide +kernel)
  obtain ⟨own, -, hdone⟩ := replay_repairs rfl pageProcessed_sound
    (pageProcessed_lapsed (1767225600 * second)) (fun _ _ => le_rfl) hq hp
  have hwrote : ((pageProcessed.store.runsWithDerivation 0).map fun runs =>
      runs.map fun r => (r.id, r.targetId)) = some [(1, pricesWorker.targetId)] := by
    decide +kernel
  obtain ⟨runs, hruns, hlisted⟩ := Option.map_eq_some_iff.mp hwrote
  obtain ⟨run, rest, rfl, hrun, -⟩ := List.map_eq_cons_iff.mp hlisted
  obtain ⟨hid, ht⟩ := Prod.mk.inj hrun
  have hw := (mem_runsWithDerivation hruns run).mp List.mem_cons_self
  obtain ⟨n, row, att, hrow, hd, hatt, hfiled⟩ := hw
  have hkey := pageProcessed_sound.reachable.wellFormed.runs.id hfiled
  obtain ⟨run', hdone'⟩ := hdone run.id run (hkey ▸ hfiled) ht ⟨n, row, att, hrow, hd, hatt, hfiled⟩
  exact ⟨own, run, run', ⟨n, row, att, hrow, hd, hatt, hfiled⟩, hdone'⟩

/-- The page's own minute, asked for again. -/
theorem replayRange_repairs_page : ∃ (own : Derivation) (w' : Local) (run run' : Run),
    run ∈ pageProcessed.store.runs pricesWorker.targetId none none ∧ Done own w'.store run.id run' := by
  obtain ⟨queued, hq⟩ := run_of_isOk
    (p := replayRange pricesWorker (1767225600 * second) (1767225660 * second)) (w := pageProcessed)
    (by decide +kernel)
  obtain ⟨reports, hp⟩ := run_of_isOk (p := process pricesWorker none)
    (w := ((replayRange pricesWorker (1767225600 * second) (1767225660 * second)).run
      (Local.answer pageOutside) pageProcessed).2) (by decide +kernel)
  obtain ⟨own, -, hdone⟩ := replayRange_repairs rfl pageProcessed_sound
    (pageProcessed_lapsed (1767225600 * second)) (fun _ _ => le_rfl) hq hp
  have hlisted : ∃ run ∈ pageProcessed.store.runs pricesWorker.targetId none none,
      run.targetId = pricesWorker.targetId ∧ 1767225600 * second ≤ run.scheduledFor ∧
        run.scheduledFor < 1767225660 * second ∧ run.captureId.isSome = true := by decide +kernel
  obtain ⟨run, hrun, ht, hsince, huntil, hname⟩ := hlisted
  have hfiled : ∃ i, pageProcessed.store.runTable.get? i = some run := by
    have hmem := hrun
    simp only [MemoryStore.runs, List.mem_insertionSort, List.mem_filter, Dict.mem_values] at hmem
    exact hmem.1
  obtain ⟨i, hi⟩ := hfiled
  obtain rfl := pageProcessed_sound.reachable.wellFormed.runs.id hi
  obtain ⟨run', hdone'⟩ := hdone run.id run hi ht hsince huntil hname
  exact ⟨own, _, run, run', hrun, hdone'⟩

end EnergyPlatform
