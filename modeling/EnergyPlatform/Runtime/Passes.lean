import EnergyPlatform.Runtime.Commits
import EnergyPlatform.Runtime.Representative
import EnergyPlatform.Runtime.Workers
import EnergyPlatform.Store.Pending

/-!
# Runtime.Passes

A pass of `process` by a worker that is alone.

`process_drains`: when every earlier lease has run out, a pass that returns leaves nothing pending at
any later time, and every run that was pending has been processed under the worker's derivation.
-/

namespace EnergyPlatform

open Lib (Dict Prog)

open MemoryStore

/-! ## Looking around -/

/-- The clock may have been read. -/
structure Local.Same (w w' : Local) : Prop where
  bronze : w'.bronze = w.bronze
  store : w'.store = w.store
  reads : w.reads ≤ w'.reads

theorem Local.Same.refl (w : Local) : w.Same w := ⟨rfl, rfl, le_rfl⟩

theorem Local.Same.trans (w w' w'' : Local) (h : w.Same w') (h' : w'.Same w'') : w.Same w'' :=
  ⟨h'.bronze.trans h.bronze, h'.store.trans h.store, h.reads.trans h'.reads⟩

theorem exec_readOnly {s s' : MemoryStore} {c : StoreCall} {r : c.Ret}
    (h : s.exec c = some (r, s')) (hc : ReadOnly (.ledger c)) : s' = s := by
  cases c with
  | getRun | runs | attempts | pendingRuns | isInvalidated | attemptCaptures | invalidations =>
    exact store_of_some h
  | runsWithDerivation | currentRows =>
    obtain ⟨rs, -, hrs⟩ := Option.map_eq_some_iff.mp h
    exact (congrArg Prod.snd hrs).symm
  | _ => exact absurd hc id

theorem Local.answer_readOnly (out : Outside) (w : Local) {o : Op StoreCall} (ho : ReadOnly o) :
    w.Same (w.answer out o).2 := by
  cases o with
  | clock => exact ⟨rfl, rfl, Nat.le_succ _⟩
  | fetch ctx previous => exact absurd ho id
  | bronze c =>
    cases c with
    | putBlob | putNew | putInvalidation => exact absurd ho id
    | _ => exact ⟨rfl, rfl, le_rfl⟩
  | ledger c =>
    rw [Local.answer]
    split
    · rename_i r s hc
      exact ⟨rfl, exec_readOnly hc ho, le_rfl⟩
    · exact .refl w

theorem Local.of_run_clock {out : Outside} {w w' : Local} {now : Instant}
    (h : (clock : Verb StoreCall.Ret Instant).run (Local.answer out) w = (.ok now, w')) :
    now = out.clock w.reads ∧ w' = { w with reads := w.reads + 1 } := by
  cases h
  exact ⟨rfl, rfl⟩

theorem Local.of_run_store {out : Outside} {w w' : Local} {c : StoreCall} {r : c.Ret}
    (h : (memoryStore c).run (Local.answer out) w = (.ok r, w')) :
    ∃ s, w.store.exec c = some (r, s) ∧ w' = { w with store := s } := by
  have h := (Prog.run_perform (Local.answer out) (Op.ledger c) w).symm.trans h
  rw [Local.answer] at h
  split at h
  · rename_i r' s hc
    obtain ⟨hr, rfl⟩ := Prod.mk.inj h
    obtain rfl : r' = r := Except.ok.inj hr
    exact ⟨s, hc, rfl⟩
  · cases (Prod.mk.inj h).1

section Worker

variable {out : Outside} {rt : Runtime StoreCall.Ret} (hst : rt.store = memoryStore)

/-- What a claim that was processed left: the commit, on the ledger as the claim found it. -/
structure Processed (w : Local) (c : Claim) (d : Derivation) (report : ProcessReport) (w' : Local)
    (args : Commit) (result : CommitResult) : Prop where
  fits : Fits d args
  commit : ∃ now, w.store.commit c args now = some (result, w'.store)
  bronze : w'.bronze = w.bronze
  reads : w.reads ≤ w'.reads
  report : ReportOf c args result report

include hst

theorem processOne_run {c : Claim} {d : Derivation} {w w' : Local} {report : ProcessReport}
    (h : (processOne rt c d).run (Local.answer out) w = (.ok report, w')) :
    ∃ args result, Processed w c d report w' args result := by
  have hreads : ∀ (w : Local) (o : Op StoreCall), ReadOnly o → w.Same (w.answer out o).2 :=
    fun w o ho => Local.answer_readOnly out w ho
  obtain ⟨w₁, o, a, hsame, ⟨args, now, rfl, hfits⟩, ha, hreport⟩ :=
    Prog.Ends.run Local.Same.refl Local.Same.trans hreads (processOne_ends hst c d) h
  rw [Local.answer] at ha
  split at ha
  · rename_i result s hc
    obtain ⟨hr, rfl⟩ := Prod.mk.inj ha
    obtain rfl : result = a := Except.ok.inj hr
    refine ⟨args, result, hfits, ⟨now, ?_⟩, hsame.bronze, hsame.reads, hreport⟩
    rw [← hsame.store]
    exact hc
  · cases (Prod.mk.inj ha).1

/-! ## The loop -/

/-- The run was processed under the derivation: it is free, in a final state of a pass, and an
attempt for the capture it names is closed with a verdict. -/
structure Done (d : Derivation) (s : MemoryStore) (i : Nat) (run : Run) : Prop where
  filed : s.runTable.get? i = some run
  state : run.state = .processed ∨ run.state = .failed
  lease : run.leaseUntil = none
  idle : Idle s i
  attempt : ∃ j a, s.attemptTable.get? j = some a ∧ a.runId = i ∧ a.captureId = run.captureId ∧
    a.derivationId = some d.derivationId ∧
    (a.outcome = some .ok ∨ a.outcome = some .failed ∨ a.outcome = some .quarantined)

/-- What processing the runs `ids` made of a ledger. -/
structure Drained (d : Derivation) (limit : Instant) (ids : List Nat) (s s' : MemoryStore) :
    Prop where
  done : ∀ i ∈ ids, ∃ run, Done d s' i run
  otherRuns : ∀ {k}, k ∉ ids → s'.runTable.get? k = s.runTable.get? k
  otherAttempts : ∀ {j a}, a.runId ∉ ids →
    (s'.attemptTable.get? j = some a ↔ s.attemptTable.get? j = some a)
  lapsed : Lapsed s' limit

omit hst in
theorem done_of_settled {limit : Instant} {s s' : MemoryStore} {i : Nat} {old : Run} {c : Claim}
    {args : Commit} {d : Derivation} (h : SettledRun limit s i old c args s') (hfits : Fits d args) :
    ∃ run, Done d s' i run := by
  obtain ⟨run, hrun, hstate, hlease, -, -, hcap⟩ := h.run
  obtain ⟨a, ha, hr, hout, hder, hacap⟩ := h.attempt
  refine ⟨run, hrun, ?_, hlease, h.idle, c.attempt.id, a, ha, hr, hacap.trans hcap.symm, ?_, ?_⟩
  · rw [hstate]
    exact hfits.verdict.imp (fun h => h.1) fun h => h.1
  · rw [hder, hfits.derivation]
    rfl
  · rw [hout]
    rcases hfits.verdict with ⟨-, ho, -⟩ | ⟨-, ho | ho, -⟩
    · exact .inl (congrArg some ho)
    · exact .inr (.inl (congrArg some ho))
    · exact .inr (.inr (congrArg some ho))

omit hst in
/-- What is done stays done while other runs are processed. -/
theorem Done.kept {d : Derivation} {limit : Instant} {ids : List Nat} {s s' : MemoryStore} {i : Nat}
    {run : Run} (h : Done d s i run) (hd : Drained d limit ids s s') (hi : i ∉ ids) :
    Done d s' i run := by
  obtain ⟨j, a, ha, hr, hrest⟩ := h.attempt
  refine ⟨(hd.otherRuns hi).trans h.filed, h.state, h.lease, fun k b hb hbr hk => ?_,
    j, a, (hd.otherAttempts (hr ▸ hi)).mpr ha, hr, hrest⟩
  exact h.idle k b ((hd.otherAttempts (hbr ▸ hi)).mp hb) hbr hk

theorem processRuns_drains {d : Derivation} {limit : Instant} (runs : List Run) :
    ∀ (reports : List ProcessReport) {w w' : Local} {reports' : List ProcessReport}, w.Sound →
    Lapsed w.store limit → (∀ n, w.reads ≤ n → limit ≤ out.clock n) →
    (∀ r ∈ runs, ∃ run, w.store.runTable.get? r.id = some run) → (runs.map Run.id).Nodup →
    (processRuns rt d none runs reports).run (Local.answer out) w = (.ok reports', w') →
    Drained d limit (runs.map Run.id) w.store w'.store := by
  induction runs with
  | nil =>
    intro reports w w' reports' _ hl _ _ _ h
    cases h
    exact ⟨fun i hi => absurd hi List.not_mem_nil, fun _ => rfl, fun _ => Iff.rfl, hl⟩
  | cons r rest ih =>
    intro reports w w' reports' hw hl hclock hruns hnodup h
    rw [List.map_cons, List.nodup_cons] at hnodup
    obtain ⟨hr, hrest⟩ := hnodup
    obtain ⟨old, hold⟩ := hruns r List.mem_cons_self
    simp only [processRuns, Option.any_none, Bool.false_eq_true, if_false, Prog.bind_eq] at h
    obtain ⟨now, w₁, hnow, h⟩ := Prog.of_run_bind _ h
    obtain ⟨rfl, rfl⟩ := Local.of_run_clock hnow
    obtain ⟨c, w₂, hclaim, h⟩ := Prog.of_run_bind _ h
    have hlimit : limit ≤ out.clock w.reads := hclock _ le_rfl
    rw [Runtime.claim, hst] at hclaim
    obtain ⟨s₁, hs₁, rfl⟩ := Local.of_run_store hclaim
    have hone := hw.reachable.onePending
    have hsound₂ : Local.Sound { w with store := s₁, reads := w.reads + 1 } :=
      ⟨hw.filed, hw.reachable.call (c := .claim r.id rt.owner rt.leaseTtl _) hs₁⟩
    obtain ⟨claim, rfl, -, hcommit⟩ := claim_commit hw.reachable.wellFormed hone hl
      hlimit hold hs₁
    simp only at h
    obtain ⟨report, w₃, hone₁, h⟩ := Prog.of_run_bind _ h
    obtain ⟨args, result, hp⟩ := processOne_run hst hone₁
    obtain ⟨now', hnow'⟩ := hp.commit
    obtain ⟨-, hsettled⟩ := hcommit hnow'
    have hsound₃ : w₃.Sound := by
      have := hsound₂.run out (processOne rt claim d)
      rw [hone₁] at this
      exact this
    have hdone := done_of_settled hsettled hp.fits
    have hrest' : Drained d limit (rest.map Run.id) w₃.store w'.store := by
      refine ih _ hsound₃ hsettled.lapsed (fun n hn => ?_) (fun q hq => ?_) hrest h
      · exact hclock n ((Nat.le_succ _).trans (hp.reads.trans hn))
      · obtain ⟨run, hrun⟩ := hruns q (List.mem_cons_of_mem _ hq)
        have hne : q.id ≠ r.id := fun he => hr (he ▸ List.mem_map_of_mem hq)
        exact ⟨run, (hsettled.otherRuns hne).trans hrun⟩
    refine ⟨fun i hi => ?_, fun {k} hk => ?_, fun {j a} ha => ?_, hrest'.lapsed⟩
    · rcases List.mem_cons.mp hi with rfl | hi
      · obtain ⟨run, hrun⟩ := hdone
        exact ⟨run, hrun.kept hrest' hr⟩
      · exact hrest'.done i hi
    · rw [List.map_cons, List.mem_cons, not_or] at hk
      rw [hrest'.otherRuns hk.2, hsettled.otherRuns hk.1]
    · rw [List.map_cons, List.mem_cons, not_or] at ha
      rw [hrest'.otherAttempts ha.2, hsettled.otherAttempts ha.1]

end Worker

/-! ## Reconciliation before the pass -/

/-- A call of `reconcile`: it reads, mirrors a decision, or names a capture for a run. -/
def Aligns : Op StoreCall → Prop
  | .ledger (.addInvalidation _) | .ledger (.markRecaptured ..) => True
  | .ledger (.ensureRun _ _ state _ captureId _) => state = .captured ∧ captureId.isSome = true
  | o => ReadOnly o

/-- What `reconcile` leaves of a ledger: the attempts, the runs and what is captured; no lease is
taken. -/
structure Aligned (s s' : MemoryStore) : Prop where
  attempts : s'.attemptTable = s.attemptTable
  runs : ∀ i run, s.runTable.get? i = some run → ∃ run', s'.runTable.get? i = some run' ∧
    run'.targetId = run.targetId ∧ run'.scheduledFor = run.scheduledFor ∧
    (run.captureId.isSome = true → run'.captureId.isSome = true) ∧
    (run.state = .captured → run'.state = .captured)
  leases : ∀ i run' u, s'.runTable.get? i = some run' → run'.leaseUntil = some u →
    ∃ run, s.runTable.get? i = some run ∧ run.leaseUntil = some u

theorem Aligned.refl (s : MemoryStore) : Aligned s s :=
  ⟨rfl, fun _ run hr => ⟨run, hr, rfl, rfl, id, id⟩, fun _ run _ hr hu => ⟨run, hr, hu⟩⟩

theorem Aligned.trans {s s' s'' : MemoryStore} (h : Aligned s s') (h' : Aligned s' s'') :
    Aligned s s'' where
  attempts := h'.attempts.trans h.attempts
  runs i run hr := by
    obtain ⟨run', hr', ht, ha, hn, hc⟩ := h.runs i run hr
    obtain ⟨run'', hr'', ht', ha', hn', hc'⟩ := h'.runs i run' hr'
    exact ⟨run'', hr'', ht'.trans ht, ha'.trans ha, fun hs => hn' (hn hs), fun hs => hc' (hc hs)⟩
  leases i run'' u hr hu := by
    obtain ⟨run', hr', hu'⟩ := h'.leases i run'' u hr hu
    exact h.leases i run' u hr' hu'

theorem Aligned.lapsed {s s' : MemoryStore} {limit : Instant} (h : Aligned s s')
    (hl : Lapsed s limit) : Lapsed s' limit := by
  refine ⟨fun i run u hr hu => ?_, fun j a ha => hl.attempts j a (h.attempts ▸ ha)⟩
  obtain ⟨old, hold, hu'⟩ := h.leases i run u hr hu
  exact hl.runs i old u hold hu'

/-- One run is replaced. -/
theorem Aligned.of_putRun {s s' : MemoryStore} (h : WellFormed s) {j : Nat} {old r : Run}
    (hr : s'.runTable = (s.putRun r).runTable) (ha : s'.attemptTable = s.attemptTable)
    (hold : s.runTable.get? j = some old) (hid : r.id = old.id) (ht : r.targetId = old.targetId)
    (hat : r.scheduledFor = old.scheduledFor) (hname : r.captureId.isSome = true)
    (hstate : r.state = .captured)
    (hlease : ∀ u, r.leaseUntil = some u → old.leaseUntil = some u) : Aligned s s' := by
  have htable : s'.runTable = s.runTable.set j r := by
    rw [hr, putRun_runTable, hid, h.runs.id hold]
  refine ⟨ha, fun i run hi => ?_, fun i run' u hi hu => ?_⟩
  · rw [htable, Dict.get?_set]
    by_cases hij : i = j
    · rw [if_pos hij]
      rw [hij, hold, Option.some.injEq] at hi
      subst hi
      exact ⟨r, rfl, ht, hat, fun _ => hname, fun _ => hstate⟩
    · rw [if_neg hij]
      exact ⟨run, hi, rfl, rfl, id, id⟩
  · rw [htable, Dict.get?_set] at hi
    split at hi
    · rename_i hij
      obtain rfl := Option.some.inj hi
      exact ⟨old, hij ▸ hold, hlease u hu⟩
    · exact ⟨run', hi, hu⟩

theorem exec_aligned {s s' : MemoryStore} (h : WellFormed s) {c : StoreCall} {r : c.Ret}
    (hc : Aligns (.ledger c)) (he : s.exec c = some (r, s')) : Aligned s s' := by
  cases c with
  | addInvalidation inv =>
    obtain rfl := store_of_some he
    simp only [MemoryStore.addInvalidation]
    split
    · exact .refl s
    · exact ⟨rfl, fun _ run hr => ⟨run, hr, rfl, rfl, id, id⟩, fun _ run _ hr hu => ⟨run, hr, hu⟩⟩
  | markRecaptured j captureId now =>
    obtain ⟨old, hj, rfl, rfl⟩ := markRecaptured_cases he
    exact .of_putRun h (r := recaptured old captureId now) rfl rfl hj rfl rfl rfl rfl rfl
      (fun u hu => by cases hu)
  | ensureRun targetId at_ state origin captureId now =>
    obtain rfl := store_of_some he
    rcases ensureRun_cases s targetId at_ state origin captureId now with
      ⟨-, run, hid, -, -, -, -, -, hlease, -, he⟩ | ⟨old, hf, ⟨-, -, -, he⟩ | ⟨-, he⟩⟩
    · rw [he]
      refine ⟨rfl, fun i q hi => ?_, fun i q u hi hu => ?_⟩
      · have hne : i ≠ run.id := by
          have := h.runs.bound hi
          omega
        exact ⟨q, (Dict.get?_set_ne _ _ hne).trans hi, rfl, rfl, id, id⟩
      · change (s.runTable.set run.id run).get? i = some q at hi
        rw [Dict.get?_set] at hi
        split at hi
        · obtain rfl := Option.some.inj hi
          rw [hlease] at hu
          cases hu
        · exact ⟨q, hi, hu⟩
    · obtain ⟨⟨j, hj⟩, -⟩ := find_eq_some hf
      rw [he]
      exact .of_putRun h (r := { old with state := .captured, captureId, updatedAt := now }) rfl rfl
        hj rfl rfl rfl hc.2 rfl (fun _ hu => hu)
    · rw [he]
      exact .refl s
  | getRun | runs | attempts | pendingRuns | isInvalidated | attemptCaptures | invalidations
  | runsWithDerivation | currentRows =>
    rw [exec_readOnly he hc]
    exact .refl s
  | _ => exact absurd hc id

section Aligns

variable {rt : Runtime StoreCall.Ret} (hst : rt.store = memoryStore) {α : Type}

theorem ReadOnly.aligns {o : Op StoreCall} (h : ReadOnly o) : Aligns o := by
  cases o with
  | clock => exact h
  | fetch ctx previous => exact h
  | bronze c => exact h
  | ledger c =>
    cases c with
    | addInvalidation => exact trivial
    | markRecaptured => exact trivial
    | ensureRun => exact absurd h id
    | _ => exact h

/-- The program makes no call but those of `reconcile`. -/
abbrev OnlyAligns (p : Verb StoreCall.Ret α) : Prop := p.Only Aligns fun _ => True

theorem Reads.aligns {p : Verb StoreCall.Ret α} (h : Reads p) : OnlyAligns p :=
  Prog.Only.imp (fun _ ho => ho.aligns) h

include hst

theorem aligns_store {c : StoreCall} (hc : Aligns (.ledger c)) : OnlyAligns (rt.store c) := by
  rw [hst]
  exact Prog.Only.perform hc

theorem aligns_mirror (decisions : List Invalidation) : OnlyAligns (mirror rt decisions) := by
  induction decisions with
  | nil => exact trivial
  | cons inv rest ih => exact Prog.Only.bind (aligns_store hst trivial) fun _ => ih

theorem aligns_latestByInstant (d : DerivationId) (entries : List CaptureEntry) :
    ∀ latest, OnlyAligns (latestByInstant rt d entries latest) := by
  induction entries with
  | nil => exact fun _ => trivial
  | cons e rest ih =>
    intro latest
    refine Prog.Only.bind (aligns_store hst trivial) fun void => ?_
    split
    · exact ih _
    · exact ih _

theorem aligns_reconcileInstants (known : Dict CaptureId CaptureEntry) (now : Instant)
    (instants : List (Instant × CaptureEntry)) :
    ∀ touched, OnlyAligns (reconcileInstants rt known now instants touched) := by
  have hadvance : ∀ entry after, OnlyAligns (advance rt known entry after now) := by
    intro entry after
    unfold advance
    split
    · exact trivial
    · rename_i c _
      split
      · have hknown : OnlyAligns (knownEntry known c : Verb StoreCall.Ret _) := by
          unfold knownEntry
          split
          · exact trivial
          · exact Prog.Only.perform trivial
        refine Prog.Only.bind hknown fun old => ?_
        split
        · exact aligns_store hst trivial
        · exact trivial
      · exact trivial
  induction instants with
  | nil => exact fun _ => trivial
  | cons p rest ih =>
    intro touched
    refine Prog.Only.bind ?_ fun _ => ih _
    refine Prog.Only.bind (aligns_store hst trivial) fun before => ?_
    refine Prog.Only.bind (aligns_store hst ⟨rfl, rfl⟩) fun after => ?_
    exact Prog.Only.bind (hadvance _ _) fun _ => trivial

theorem aligns_reconcile (window : Option Duration) (now : Option Instant) :
    OnlyAligns (reconcile rt window now) := by
  have hat : ∀ now, OnlyAligns (reconcileAt rt window now) := by
    intro now
    refine Prog.Only.bind (reads_py _).aligns fun since => ?_
    refine Prog.Only.bind (Prog.Only.perform trivial) fun decisions => ?_
    refine Prog.Only.bind (aligns_mirror hst _) fun _ => ?_
    split
    · exact trivial
    · refine Prog.Only.bind (Prog.Only.perform trivial) fun entries => ?_
      refine Prog.Only.bind (aligns_latestByInstant hst _ _ _) fun latest => ?_
      exact aligns_reconcileInstants hst _ _ _ _
  cases now with
  | some t => exact hat t
  | none => exact Prog.Only.bind reads_clock.aligns fun now => hat now

/-- A run of `reconcile`, whether it returns or raises. -/
theorem reconcile_aligned {out : Outside} {w : Local} (hw : w.Sound) (window : Option Duration)
    (now : Option Instant) {r : Except Exn (List Run)} {w' : Local}
    (h : (reconcile rt window now).run (Local.answer out) w = (r, w')) :
    w'.Sound ∧ w'.bronze = w.bronze ∧ Aligned w.store w'.store ∧ w.reads ≤ w'.reads := by
  have hkeeps := Prog.Only.run (I := fun x : Local => x.Sound ∧ x.bronze = w.bronze ∧
      Aligned w.store x.store ∧ w.reads ≤ x.reads) (Local.answer out)
    (aligns_reconcile hst window now) (fun x o ho hx => ?_)
    (s := w) ⟨hw, rfl, .refl _, le_rfl⟩
  · rw [h] at hkeeps
    exact hkeeps.1
  · obtain ⟨hsound, hbronze, haligned, hreads⟩ := hx
    refine ⟨⟨hsound.answer out o, ?_⟩, fun _ _ => trivial⟩
    cases o with
    | clock => exact ⟨hbronze, haligned, hreads.trans (Nat.le_succ _)⟩
    | fetch ctx previous => exact absurd ho id
    | bronze c =>
      have hsame := Local.answer_readOnly out x (o := .bronze c) ho
      exact ⟨hsame.bronze.trans hbronze, hsame.store ▸ haligned, hreads.trans hsame.reads⟩
    | ledger c =>
      rw [Local.answer]
      split
      · rename_i r s hc
        exact ⟨hbronze, haligned.trans (exec_aligned hsound.reachable.wellFormed ho hc), hreads⟩
      · exact ⟨hbronze, haligned, hreads⟩

/-! ## The whole pass -/

omit hst in
/-- A run that waits still does after `reconcile`. -/
theorem Aligned.waiting {s s' : MemoryStore} (h : Aligned s s') {targetId : String} {i : Nat}
    (hw : Waiting s targetId i) : Waiting s' targetId i := by
  obtain ⟨run, hi, ht, hd⟩ := hw
  obtain ⟨run', hi', ht', -, -, hc⟩ := h.runs i run hi
  refine ⟨run', hi', ht'.trans ht, hd.imp hc ?_⟩
  rintro ⟨j, a, ha, hrest⟩
  exact ⟨j, a, h.attempts ▸ ha, hrest⟩

omit hst in
/-- What was processed does not wait, and what was not is as it was. -/
theorem Drained.waiting {d : Derivation} {limit : Instant} {ids : List Nat} {s s' : MemoryStore}
    (h : Drained d limit ids s s') {targetId : String} {i : Nat} (hw : Waiting s' targetId i) :
    i ∉ ids ∧ Waiting s targetId i := by
  obtain ⟨run, hi, ht, hd⟩ := hw
  have hids : i ∉ ids := by
    intro hids
    obtain ⟨run', hdone⟩ := h.done i hids
    obtain rfl := Option.some.inj (hi.symm.trans hdone.filed)
    rcases hd with hd | ⟨j, a, ha, hr, hk, ho⟩
    · rcases hdone.state with hs | hs <;> cases hd.symm.trans hs
    · exact hdone.idle j a ha hr hk ho
  refine ⟨hids, run, (h.otherRuns hids).symm.trans hi, ht, hd.imp_right ?_⟩
  rintro ⟨j, a, ha, hr, hrest⟩
  exact ⟨j, a, (h.otherAttempts (hr ▸ hids)).mp ha, hr, hrest⟩

/-- What a pass that returns is: `reconcile`, and then the loop over all that waits. -/
theorem process_run {out : Outside} {w w' : Local} (hw : w.Sound) {limit : Instant}
    (hl : Lapsed w.store limit) (hclock : ∀ n, w.reads ≤ n → limit ≤ out.clock n)
    {reports : List ProcessReport}
    (h : (process rt none).run (Local.answer out) w = (.ok reports, w')) :
    ∃ d s ids, derivationFor rt.impl rt.manifest = some d ∧ Aligned w.store s ∧ w'.Sound ∧
      (∀ i, Waiting s rt.targetId i → i ∈ ids) ∧ Drained d limit ids s w'.store := by
  simp only [process, Prog.bind_eq] at h
  obtain ⟨now, w₁, hnow, h⟩ := Prog.of_run_bind _ h
  obtain ⟨rfl, rfl⟩ := Local.of_run_clock hnow
  obtain ⟨touched, w₂, hrec, h⟩ := Prog.of_run_bind _ h
  obtain ⟨hsound, -, haligned, hreads⟩ := reconcile_aligned hst
    (w := { w with reads := w.reads + 1 }) ⟨hw.filed, hw.reachable⟩ _ _ hrec
  obtain ⟨d, w₃, hown, h⟩ := Prog.of_run_bind _ h
  obtain ⟨hd, rfl⟩ : derivationFor rt.impl rt.manifest = some d ∧ w₂ = w₃ := by
    rw [ownDerivation] at hown
    split at hown
    · rename_i d' hd
      cases hown
      exact ⟨hd, rfl⟩
    · cases hown
  obtain ⟨runs, w₄, hruns, h⟩ := Prog.of_run_bind _ h
  rw [Runtime.pendingRuns, hst] at hruns
  obtain ⟨s, hs, rfl⟩ := Local.of_run_store hruns
  obtain ⟨rfl, rfl⟩ : runs = w₂.store.pendingRuns rt.targetId (out.clock w.reads) ∧
      s = w₂.store := by
    cases hs
    exact ⟨rfl, rfl⟩
  have hform := hsound.reachable.wellFormed
  have hlapsed := haligned.lapsed hl
  have hdrained := processRuns_drains hst _ [] (w := w₂) hsound hlapsed
    (fun n hn => hclock n ((Nat.le_succ _).trans (hreads.trans hn)))
    (fun r hr => by
      obtain ⟨⟨i, hi⟩, -⟩ := mem_pendingRuns.mp hr
      exact ⟨r, hform.runs.id hi ▸ hi⟩)
    (pendingRuns_ids_nodup hform _ _) h
  have hsound' : w'.Sound := by
    have := hsound.run out (processRuns rt d none
      (w₂.store.pendingRuns rt.targetId (out.clock w.reads)) [])
    rw [h] at this
    exact this
  exact ⟨d, w₂.store, _, hd, haligned, hsound', fun i hi => List.mem_map.mpr
    (hlapsed.attempts.pending_of_waiting hform (hclock _ le_rfl) hi), hdrained⟩

/-- When every lease has run out, a pass that returns leaves nothing pending at any time, and what
waited is processed under the worker's derivation. -/
theorem process_drains {out : Outside} {w w' : Local} (hw : w.Sound) {limit : Instant}
    (hl : Lapsed w.store limit) (hclock : ∀ n, w.reads ≤ n → limit ≤ out.clock n)
    {reports : List ProcessReport}
    (h : (process rt none).run (Local.answer out) w = (.ok reports, w')) :
    ∃ d, derivationFor rt.impl rt.manifest = some d ∧
      (∀ now, w'.store.pendingRuns rt.targetId now = []) ∧
      ∀ i, Waiting w.store rt.targetId i → ∃ run, Done d w'.store i run := by
  obtain ⟨d, s, ids, hd, haligned, hsound, hgiven, hdrained⟩ := process_run hst hw hl hclock h
  refine ⟨d, hd, fun now => List.eq_nil_iff_forall_not_mem.mpr fun run hrun => ?_, fun i hi => ?_⟩
  · obtain ⟨hnot, hbefore⟩ :=
      hdrained.waiting (waiting_of_pending hsound.reachable.wellFormed hrun)
    exact hnot (hgiven _ hbefore)
  · exact hdrained.done i (hgiven i (haligned.waiting hi))

end Aligns

/-! ## A page captured and processed -/

/-- The page is one byte, and it is always the same time. -/
def pageOutside : Outside where
  sha256 := hexAddress
  clock _ := 1767225600 * second
  fetch _ _ _ := .ok ⟨"https://www.ote-cr.cz/", 200, [1], none, 1767225600 * second, none, none,
    false, []⟩
  faults _ := none
  serverVersion := 160000

/-- A worker that has captured the page. -/
def pageCaptured : Local :=
  ((capture pricesWorker ⟨1767225600 * second, none, false, .capture⟩).run (Local.answer pageOutside)
    ⟨⟨.empty, none, .empty⟩, .init, 0, 0⟩).2

theorem pageCaptured_sound : pageCaptured.Sound :=
  (Local.Sound.init .empty none 0 0).run pageOutside _

theorem pageCaptured_lapsed (limit : Instant) : Lapsed pageCaptured.store limit :=
  lapsed_of_settled (by decide +kernel) (by decide +kernel) limit

/-- The page's run, claimed by the worker. -/
def pageClaimed : Option (Claim × Derivation × Local) := do
  let (claim, s) ← pageCaptured.store.claim 1 "worker" (5 * minute) 0
  let c ← claim
  let d ← derivationFor pricesWorker.impl pricesWorker.manifest
  some (c, d, { pageCaptured with store := s })

/-- The claim ends in one commit, of the ledger as it was claimed. -/
theorem processOne_commits_page : ∃ c d w, pageClaimed = some (c, d, w) ∧
    ∃ w₁ w' args now result report, w.Same w₁ ∧
      Local.answer pageOutside w₁ (.ledger (.commit c args now)) = (.ok result, w') ∧
      Fits d args ∧ ReportOf c args result report := by
  have hreturns : pageClaimed.map (fun x =>
      ((processOne pricesWorker x.1 x.2.1).run (Local.answer pageOutside) x.2.2).1.isOk) =
        some true := by decide +kernel
  obtain ⟨⟨c, d, w⟩, hclaimed, hok⟩ := Option.map_eq_some_iff.mp hreturns
  rcases hrun : (processOne pricesWorker c d).run (Local.answer pageOutside) w with
    ⟨report | report, w'⟩
  · rw [hrun] at hok
    cases hok
  · obtain ⟨w₁, args, now, result, h⟩ := processOne_commits rfl Local.Same.refl Local.Same.trans
      (fun w o ho => Local.answer_readOnly pageOutside w ho) hrun
    exact ⟨c, d, w, hclaimed, w₁, w', args, now, result, report, h⟩

/-- The run of the captured page waits, and a pass leaves nothing of it. -/
theorem process_drains_page : ∃ (d : Derivation) (w' : Local),
    Waiting pageCaptured.store pricesWorker.targetId 1 ∧
      (∀ now, w'.store.pendingRuns pricesWorker.targetId now = []) ∧
      ∃ run, Done d w'.store 1 run := by
  have hreturns : ((process pricesWorker none).run (Local.answer pageOutside) pageCaptured).1.isOk =
      true := by decide +kernel
  rcases hp : (process pricesWorker none).run (Local.answer pageOutside) pageCaptured with
    ⟨reports | reports, w'⟩
  · rw [hp] at hreturns
    cases hreturns
  have hpending : ∃ run ∈ pageCaptured.store.pendingRuns pricesWorker.targetId 0, run.id = 1 := by
    decide +kernel
  obtain ⟨run, hrun, hid⟩ := hpending
  have hwaits : Waiting pageCaptured.store pricesWorker.targetId 1 :=
    hid ▸ waiting_of_pending pageCaptured_sound.reachable.wellFormed hrun
  obtain ⟨d, -, hnone, hdone⟩ := process_drains rfl pageCaptured_sound
    (pageCaptured_lapsed (1767225600 * second)) (fun _ _ => le_rfl) hp
  exact ⟨d, w', hwaits, hnone, hdone 1 hwaits⟩

end EnergyPlatform
