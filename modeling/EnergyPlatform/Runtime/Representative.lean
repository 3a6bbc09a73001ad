import EnergyPlatform.Runtime.Provenance
import EnergyPlatform.Runtime.Reconcile

/-!
# Runtime.Representative

The capture that stands for an instant once the ledger is reconciled with all of Bronze.

`representative_iff`: it is a good one exactly for the instants that are `Repairable` before.
`reconcile` goes forward only, so a run that names an invalidated capture keeps it when every good
entry is an earlier attempt or has the same payload.
-/

namespace EnergyPlatform

open Lib (Dict Prog)

namespace CaptureLog

variable {l : CaptureLog}

/-- Every entry is filed under its key. -/
def Filed (l : CaptureLog) : Prop := ∀ {k e}, l.entries.get? k = some e → e.key = k

theorem Filed.empty : Filed empty := fun h => by cases h

theorem Filed.putNew (h : Filed l) (e : CaptureEntry) : Filed (l.putNew e).2 := by
  rw [CaptureLog.putNew]
  split
  · exact h
  · intro k e' he'
    rw [Dict.get?_set] at he'
    split at he'
    · rename_i hk
      rw [← Option.some.inj he', hk]
    · exact h he'

theorem Filed.exec (sha256 : Bytes → Sha256) {b : Bronze} (h : Filed b.log) (c : BronzeCall) :
    Filed (b.exec sha256 c).2.log := by
  cases c with
  | putNew e => exact h.putNew e
  | putInvalidation inv =>
    show Filed (b.log.putInvalidation inv).2
    rw [CaptureLog.putInvalidation]
    split
    · exact h
    · exact h
  | _ => exact h

/-- The entries of a target. -/
def ofTarget (l : CaptureLog) (targetId : String) : List CaptureEntry :=
  l.entries.values.filter fun e => e.targetId = targetId

theorem mem_ofTarget {targetId : String} {e : CaptureEntry} :
    e ∈ l.ofTarget targetId ↔ (∃ k, l.entries.get? k = some e) ∧ e.targetId = targetId := by
  simp only [ofTarget, List.mem_filter, Dict.mem_values, decide_eq_true_eq]

theorem mem_list {targetId : String} {e : CaptureEntry} :
    e ∈ l.list targetId none none ↔ e ∈ l.ofTarget targetId := by
  rw [mem_ofTarget, list, ordered, List.mem_insertionSort, List.mem_filter, Dict.mem_values]
  simp

/-- An entry of a target is determined by its instant and its attempt. -/
theorem Filed.unique (h : Filed l) {targetId : String} {e e' : CaptureEntry}
    (he : e ∈ l.ofTarget targetId) (he' : e' ∈ l.ofTarget targetId)
    (hat : e.scheduledFor = e'.scheduledFor) (hn : e.attempt = e'.attempt) : e = e' := by
  obtain ⟨⟨k, hk⟩, ht⟩ := mem_ofTarget.mp he
  obtain ⟨⟨k', hk'⟩, ht'⟩ := mem_ofTarget.mp he'
  have hkey : k = k' := by
    rw [← h hk, ← h hk', CaptureEntry.key, CaptureEntry.key, ht, ht', hat, hn]
  rw [hkey, hk', Option.some.injEq] at hk
  exact hk.symm

end CaptureLog

/-! ## The newest good entry -/

section Newest

variable (s : MemoryStore) (d : DerivationId) (entries : List CaptureEntry) (at_ : Instant)

/-- An entry of the instant that no decision of the ledger voids. -/
structure Good (e : CaptureEntry) : Prop where
  mem : e ∈ entries
  scheduledFor : e.scheduledFor = at_
  valid : s.isInvalidated e.captureId (some d) = false

/-- The good entry of the greatest attempt. -/
structure Newest (g : CaptureEntry) : Prop extends Good s d entries at_ g where
  attempt : ∀ e, Good s d entries at_ e → e.attempt ≤ g.attempt

variable {s d at_} {l : CaptureLog} {targetId : String}

theorem good_list {e : CaptureEntry} :
    Good s d (l.list targetId none none) at_ e ↔ Good s d (l.ofTarget targetId) at_ e :=
  ⟨fun h => ⟨CaptureLog.mem_list.mp h.mem, h.scheduledFor, h.valid⟩,
    fun h => ⟨CaptureLog.mem_list.mpr h.mem, h.scheduledFor, h.valid⟩⟩

theorem newestValid_newest {g : CaptureEntry}
    (h : s.newestValid d (l.list targetId none none) at_ = some g) :
    Newest s d (l.ofTarget targetId) at_ g := by
  have := CaptureLog.before_total
  have := CaptureLog.before_trans
  have hmem : ∀ {e}, e ∈ (l.list targetId none none).filter (fun e =>
      e.scheduledFor = at_ && ! s.isInvalidated e.captureId (some d)) ↔
      Good s d (l.ofTarget targetId) at_ e := by
    intro e
    rw [← good_list, List.mem_filter]
    simp only [Bool.and_eq_true, decide_eq_true_eq, Bool.not_eq_true']
    exact ⟨fun h => ⟨h.1, h.2.1, h.2.2⟩, fun h => ⟨h.mem, h.scheduledFor, h.valid⟩⟩
  have hsorted : ((l.list targetId none none).filter fun e =>
      e.scheduledFor = at_ && ! s.isInvalidated e.captureId (some d)).Pairwise CaptureLog.before :=
    (List.pairwise_insertionSort CaptureLog.before _).filter _
  obtain ⟨rest, hrest⟩ := List.getLast?_eq_some_iff.mp h
  have hg := hmem.mp (List.mem_of_getLast? h)
  refine ⟨hg, fun e he => ?_⟩
  rw [← hmem, hrest, List.mem_append, List.mem_singleton] at he
  rw [hrest, List.pairwise_append] at hsorted
  rcases he with he | rfl
  · have hat : e.scheduledFor = at_ :=
      (hmem.mp (hrest ▸ List.mem_append_left _ he)).scheduledFor
    rcases hsorted.2.2 e he g (List.mem_singleton_self g) with hlt | hle
    · rw [hat, hg.scheduledFor] at hlt
      exact absurd hlt (lt_irrefl _)
    · exact hle.2
  · exact le_refl _

theorem newestValid_none (h : s.newestValid d (l.list targetId none none) at_ = none)
    {e : CaptureEntry} (he : Good s d (l.ofTarget targetId) at_ e) : False := by
  have hmem : e ∈ (l.list targetId none none).filter fun e =>
      e.scheduledFor = at_ && ! s.isInvalidated e.captureId (some d) := by
    rw [List.mem_filter, CaptureLog.mem_list, he.scheduledFor, he.valid]
    exact ⟨he.mem, by simp⟩
  rw [List.getLast?_eq_none_iff.mp h] at hmem
  exact List.not_mem_nil hmem

/-- The newest good entry is the one `reconcile` finds. -/
theorem newest_iff (hlog : l.Filed) {g : CaptureEntry} :
    Newest s d (l.ofTarget targetId) at_ g ↔
      s.newestValid d (l.list targetId none none) at_ = some g := by
  refine ⟨fun h => ?_, newestValid_newest⟩
  cases hn : s.newestValid d (l.list targetId none none) at_ with
  | none => exact (newestValid_none hn h.toGood).elim
  | some g' =>
    have h' := newestValid_newest hn
    have hattempt := le_antisymm (h.attempt g' h'.toGood) (h'.attempt g h.toGood)
    rw [hlog.unique h'.mem h.mem (h'.scheduledFor.trans h.scheduledFor.symm) hattempt]

end Newest

/-! ## Workers -/

/-- What every run of verbs on a local worker keeps. -/
structure Local.Sound (w : Local) : Prop where
  filed : w.bronze.log.Filed
  reachable : MemoryStore.Reachable w.store

namespace Local.Sound

theorem init (hot : BlobStore) (cold : Option BlobStore) (reads fetches : Nat) :
    Sound ⟨⟨hot, cold, .empty⟩, .init, reads, fetches⟩ := ⟨CaptureLog.Filed.empty, .init⟩

theorem answer (out : Outside) {w : Local} (h : w.Sound) (o : Op StoreCall) :
    (w.answer out o).2.Sound := by
  cases o with
  | clock => exact ⟨h.filed, h.reachable⟩
  | fetch ctx previous => exact ⟨h.filed, h.reachable⟩
  | bronze c => exact ⟨CaptureLog.Filed.exec out.sha256 h.filed c, h.reachable⟩
  | ledger c =>
    rw [Local.answer]
    split
    · rename_i r s hc
      exact ⟨h.filed, h.reachable.call hc⟩
    · exact h

theorem run (out : Outside) {α : Type} (p : Verb StoreCall.Ret α) {w : Local} (h : w.Sound) :
    (p.run (Local.answer out) w).2.Sound :=
  Prog.run_keeps _ (fun _ o hw => hw.answer out o) p h

end Local.Sound

/-! ## What stands for an instant -/

section Represented

variable (s : MemoryStore) (d : DerivationId) (entries : List CaptureEntry) (targetId : String)
  (at_ : Instant)

/-- The capture is good and has the payload of `g`. -/
def SameAs (g : CaptureEntry) (c : CaptureId) : Prop :=
  s.isInvalidated c (some d) = false ∧
    ∃ e ∈ entries, e.captureId = c ∧ e.payloadSha256 = g.payloadSha256

/-- The run of an instant that has a good entry names a good capture with its payload. -/
def Represented : Prop :=
  ∀ g, Newest s d entries at_ g → ∃ run c, s.find targetId at_ = some run ∧
    run.captureId = some c ∧ SameAs s d entries g c

/-- There is no run, or one without a capture that is not processed, or one whose capture is good
already or is an earlier attempt with another payload. -/
def Repairable (known : CaptureId → Option CaptureEntry) : Prop :=
  ∀ g, Newest s d entries at_ g → ∀ run, s.find targetId at_ = some run →
    match run.captureId with
    | none => run.state ≠ .processed
    | some c => SameAs s d entries g c ∨ MemoryStore.Overtakes known g c

variable {s d entries targetId at_}

theorem Newest.congr {s' : MemoryStore} (h : s'.invalidationTable = s.invalidationTable)
    {g : CaptureEntry} : Newest s' d entries at_ g ↔ Newest s d entries at_ g := by
  have hvoid : ∀ c, s'.isInvalidated c (some d) = s.isInvalidated c (some d) := fun c => by
    rw [MemoryStore.isInvalidated, MemoryStore.isInvalidated, h]
  have hgood : ∀ {e}, Good s' d entries at_ e ↔ Good s d entries at_ e := fun {e} =>
    ⟨fun he => ⟨he.mem, he.scheduledFor, (hvoid _).symm.trans he.valid⟩,
      fun he => ⟨he.mem, he.scheduledFor, (hvoid _).trans he.valid⟩⟩
  exact ⟨fun hg => ⟨hgood.mp hg.toGood, fun e he => hg.attempt e (hgood.mpr he)⟩,
    fun hg => ⟨hgood.mpr hg.toGood, fun e he => hg.attempt e (hgood.mp he)⟩⟩

theorem SameAs.congr {s' : MemoryStore} (h : s'.invalidationTable = s.invalidationTable)
    {g : CaptureEntry} {c : CaptureId} : SameAs s' d entries g c ↔ SameAs s d entries g c := by
  rw [SameAs, SameAs, MemoryStore.isInvalidated, MemoryStore.isInvalidated, h]

theorem Newest.sameAs {g : CaptureEntry} (h : Newest s d entries at_ g) :
    SameAs s d entries g g.captureId := ⟨h.valid, g, h.mem, rfl, rfl⟩

/-- The capture settled on is good exactly when the run was repairable. -/
theorem settled_sameAs {known : CaptureId → Option CaptureEntry} {g : CaptureEntry}
    (hg : Newest s d entries at_ g) (old : Option Run) :
    (∃ c, MemoryStore.settled known g old = some c ∧ SameAs s d entries g c) ↔
      ∀ run, old = some run → match run.captureId with
        | none => run.state ≠ .processed
        | some c => SameAs s d entries g c ∨ MemoryStore.Overtakes known g c := by
  cases old with
  | none =>
    constructor
    · intro _ run h
      cases h
    · intro _
      exact ⟨_, rfl, hg.sameAs⟩
  | some run =>
    simp only [MemoryStore.settled, Option.some.injEq, forall_eq']
    cases run.captureId with
    | none =>
      dsimp only
      by_cases hp : run.state = .processed
      · rw [if_pos hp]
        constructor
        · intro h
          obtain ⟨c, hc, -⟩ := h
          cases hc
        · intro h
          exact absurd hp h
      · rw [if_neg hp]
        exact ⟨fun _ => hp, fun _ => ⟨_, rfl, hg.sameAs⟩⟩
    | some c =>
      dsimp only
      by_cases ho : MemoryStore.Overtakes known g c
      · rw [if_pos ho]
        exact ⟨fun _ => .inr ho, fun _ => ⟨_, rfl, hg.sameAs⟩⟩
      · rw [if_neg ho]
        constructor
        · intro h
          obtain ⟨c', hc, h⟩ := h
          cases hc
          exact .inl h
        · intro h
          exact ⟨c, rfl, h.resolve_right ho⟩

end Represented

section Reconcile

open MemoryStore

variable (out : Outside) {rt : Runtime StoreCall.Ret}

/-- An invalidated capture stands for no instant that has a good one, where it can be repaired. Over
any log and any reachable ledger, `reconcile` over all of Bronze returns, and for every instant: the
run names a good capture with the payload of the newest good entry, if there is one, exactly when
the instant was repairable before, the decisions of Bronze included. -/
theorem representative_iff (hst : rt.store = memoryStore) {d : Derivation}
    (hd : derivationFor rt.impl rt.manifest = some d) {w : Local} (hw : w.Sound)
    (now : Option Instant) : ∃ runs w',
      (reconcile rt none now).run (Local.answer out) w = (.ok runs, w') ∧ w'.bronze = w.bronze ∧
      ∀ at_, Represented w'.store d.derivationId (w'.bronze.log.ofTarget rt.targetId) rt.targetId at_ ↔
        Repairable (w.store.mirrored (w.bronze.log.invalidations rt.targetId)) d.derivationId
          (w.bronze.log.ofTarget rt.targetId) rt.targetId at_
          (lookup (byId (w.bronze.log.list rt.targetId none none)) w.bronze.log) := by
  obtain ⟨runs, w', hrun, h⟩ := reconcile_run out hst hd now hw.reachable.wellFormed
  refine ⟨runs, w', hrun, h.bronze, fun at_ => forall_congr' fun g => ?_⟩
  rw [h.bronze, Newest.congr h.invalidationTable, newest_iff hw.filed]
  refine imp_congr_right fun hg => ?_
  have hfind : (w.store.mirrored (w.bronze.log.invalidations rt.targetId)).find rt.targetId at_ =
      w.store.find rt.targetId at_ := by
    rw [mirrored_frame]
    rfl
  obtain ⟨run, hr, hc⟩ := h.some_ at_ g hg
  rw [hfind, ← settled_sameAs ((newest_iff hw.filed).mpr hg), ← hc]
  constructor
  · rintro ⟨run', c, hr', hc', hsame⟩
    rw [hr, Option.some.injEq] at hr'
    exact ⟨c, hr' ▸ hc', (SameAs.congr h.invalidationTable).mp hsame⟩
  · rintro ⟨c, hc', hsame⟩
    exact ⟨run, c, hr, hc', (SameAs.congr h.invalidationTable).mpr hsame⟩

end Reconcile

/-! ## A decision against the newest capture -/

/-- The n-th fetch answers the byte `n + 1`. -/
def changingSource : Outside where
  sha256 := hexAddress
  clock n := n * minute
  fetch n _ _ := .ok ⟨"https://www.ote-cr.cz/", 200, [UInt8.ofNat (n + 1)], none, n * minute, none,
    none, false, []⟩
  faults _ := none
  serverVersion := 160000

/-- A decision against one attempt of the first instant. -/
def marketDecision (attempt : Nat) : Invalidation :=
  ⟨"ote_intraday_market", captureId "ote_intraday_market" 0 attempt, none, "another day's file",
    "operator", hour⟩

/-- A capture and a forced one with other bytes, with or without a ledger, and a decision. -/
def decidedAgainst (ledger : StoreImpl StoreCall.Ret) (attempt : Nat) : Verb StoreCall.Ret Unit := do
  let _ ← capture marketWorker ⟨0, none, false, .capture⟩
  let _ ← capture { marketWorker with store := ledger } ⟨0, none, true, .capture⟩
  let _ ← putInvalidation (marketDecision attempt)
  .ret ()

def decided (ledger : StoreImpl StoreCall.Ret) (attempt : Nat) : Local :=
  ((decidedAgainst ledger attempt).run (Local.answer changingSource)
    ⟨⟨.empty, none, .empty⟩, .init, 0, 0⟩).2

theorem decided_sound (ledger : StoreImpl StoreCall.Ret) (attempt : Nat) :
    (decided ledger attempt).Sound := (Local.Sound.init .empty none 0 0).run changingSource _

/-- The derivation of the worker, under the hash that sends everything to 0. -/
theorem market_derivation :
    ∃ d, derivationFor marketWorker.impl marketWorker.manifest = some d ∧ d.derivationId = 0 := by
  have h : (derivationFor marketWorker.impl marketWorker.manifest).map Derivation.derivationId =
      some 0 := by decide +kernel
  exact Option.map_eq_some_iff.mp h

/-- The ledger names the second capture when the decision against it comes; `reconcile` does not go
back to the first. -/
theorem invalidated_stands : ∃ d, derivationFor marketWorker.impl marketWorker.manifest = some d ∧
    ∃ runs w', (reconcile marketWorker none (some hour)).run (Local.answer changingSource)
      (decided memoryStore 2) = (.ok runs, w') ∧
      ¬ Represented w'.store d.derivationId (w'.bronze.log.ofTarget "ote_intraday_market")
        "ote_intraday_market" 0 := by
  obtain ⟨d, hd, hid⟩ := market_derivation
  refine ⟨d, hd, ?_⟩
  have hsound : ((reconcile marketWorker none (some hour)).run (Local.answer changingSource)
      (decided memoryStore 2)).2.Sound := (decided_sound memoryStore 2).run changingSource _
  have hok : ((reconcile marketWorker none (some hour)).run (Local.answer changingSource)
      (decided memoryStore 2)).1.isOk = true := by decide +kernel
  have hnewest : (((reconcile marketWorker none (some hour)).run (Local.answer changingSource)
      (decided memoryStore 2)).2.store.newestValid 0
      (((reconcile marketWorker none (some hour)).run (Local.answer changingSource)
        (decided memoryStore 2)).2.bronze.log.list "ote_intraday_market" none none) 0).isSome = true := by
    decide +kernel
  have hfind : (((reconcile marketWorker none (some hour)).run (Local.answer changingSource)
      (decided memoryStore 2)).2.store.find "ote_intraday_market" 0).map Run.captureId =
      some (some (captureId "ote_intraday_market" 0 2)) := by decide +kernel
  have hvoid : ((reconcile marketWorker none (some hour)).run (Local.answer changingSource)
      (decided memoryStore 2)).2.store.isInvalidated (captureId "ote_intraday_market" 0 2) (some 0) =
      true := by decide +kernel
  generalize (reconcile marketWorker none (some hour)).run (Local.answer changingSource)
    (decided memoryStore 2) = final at hsound hok hnewest hfind hvoid
  obtain ⟨r, w'⟩ := final
  cases r with
  | error e => cases hok
  | ok runs =>
    refine ⟨runs, w', rfl, fun h => ?_⟩
    obtain ⟨g, hg⟩ := Option.isSome_iff_exists.mp hnewest
    rw [hid] at h
    obtain ⟨run, c, hrun, hc, hsame⟩ := h g ((newest_iff hsound.filed).mpr hg)
    rw [hrun, Option.map_some, hc, Option.some.injEq, Option.some.injEq] at hfind
    rw [hfind] at hsame
    exact Bool.noConfusion (hsame.1.symm.trans hvoid)

/-- A capture the ledger missed replaces the invalidated one. -/
theorem representative_iff_overtaken : ∃ d,
    derivationFor marketWorker.impl marketWorker.manifest = some d ∧
    ∃ runs w', (reconcile marketWorker none (some hour)).run (Local.answer changingSource)
      (decided unavailableStore 1) = (.ok runs, w') ∧
      Represented w'.store d.derivationId (w'.bronze.log.ofTarget "ote_intraday_market")
        "ote_intraday_market" 0 := by
  obtain ⟨d, hd, hid⟩ := market_derivation
  obtain ⟨runs, w', hrun, -, h⟩ := representative_iff changingSource rfl hd
    (decided_sound unavailableStore 1) (some hour)
  refine ⟨d, hd, runs, w', hrun, (h 0).mpr fun g hg run hfind => ?_⟩
  rw [newest_iff (decided_sound unavailableStore 1).filed, hid] at hg
  have hcapture : run.captureId = some (captureId "ote_intraday_market" 0 1) := by
    have : (((decided unavailableStore 1).store.mirrored ((decided unavailableStore 1).bronze.log.invalidations
      marketWorker.targetId)).find marketWorker.targetId 0).map Run.captureId =
        some (some (captureId "ote_intraday_market" 0 1)) := by decide +kernel
    rw [hfind] at this
    exact Option.some.inj this
  rw [hcapture]
  have hover : ((((decided unavailableStore 1).store.mirrored
      ((decided unavailableStore 1).bronze.log.invalidations marketWorker.targetId)).newestValid 0
      ((decided unavailableStore 1).bronze.log.list marketWorker.targetId none none) 0).all fun g =>
        MemoryStore.Overtakes (lookup (byId ((decided unavailableStore 1).bronze.log.list
          marketWorker.targetId none none)) (decided unavailableStore 1).bronze.log) g
          (captureId "ote_intraday_market" 0 1)) = true := by decide +kernel
  rw [hg] at hover
  exact .inr (of_decide_eq_true hover)

end EnergyPlatform
