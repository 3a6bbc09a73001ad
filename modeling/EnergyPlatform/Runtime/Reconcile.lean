import EnergyPlatform.Lib.Select
import EnergyPlatform.Runtime.Local
import EnergyPlatform.Store.Fencing

/-!
# Runtime.Reconcile

`reconcile`: Bronze is the truth, the ledger is rebuilt from it.

`reconcile_run` says what it makes of an in-memory ledger. Per instant with an entry that is not
invalidated, `settled` is the capture its run names afterwards; every other run is left alone.
-/

namespace EnergyPlatform

open Lib (Dict Prog)

section Verb

variable {L : Type} {LRet : L → Type} (rt : Runtime LRet)

/-- The decisions of Bronze are copied into the ledger. -/
def mirror : List Invalidation → Verb LRet Unit
  | [] => .ret ()
  | inv :: rest => do
    let _ ← rt.addInvalidation inv
    mirror rest

/-- `latest_by_instant`: the entries are ordered by attempt, and the last one wins. -/
def latestByInstant (d : DerivationId) : List CaptureEntry → Dict Instant CaptureEntry →
    Verb LRet (Dict Instant CaptureEntry)
  | [], latest => .ret latest
  | e :: rest, latest => do
    let void ← rt.isInvalidated e.captureId (some d)
    if void then latestByInstant d rest latest
    else latestByInstant d rest (latest.set e.scheduledFor e)

/-- `{e.capture_id: e for e in entries}`. -/
def byId (entries : List CaptureEntry) : Dict CaptureId CaptureEntry :=
  entries.foldl (fun d e => d.set e.captureId e) .empty

/-- `by_id.get(…) or log.get(…)`. -/
def knownEntry (known : Dict CaptureId CaptureEntry) (c : CaptureId) :
    Verb LRet (Option CaptureEntry) :=
  match known.get? c with
  | some e => .ret (some e)
  | none => getEntry c

/-- An existing run whose newest entry is a later attempt with another payload goes on to it. -/
def advance (known : Dict CaptureId CaptureEntry) (entry : CaptureEntry) (after : Run)
    (now : Instant) : Verb LRet Run :=
  match after.captureId with
  | none => .ret after
  | some c =>
    if c ≠ entry.captureId ∧ entry.captureId.attempt > c.attempt then do
      let old ← knownEntry known c
      if old.all fun e => e.payloadSha256 ≠ entry.payloadSha256 then
        rt.markRecaptured after.id entry.captureId now
      else .ret after
    else .ret after

/-- The run of one instant, when it was created or advanced. -/
def reconcileInstant (known : Dict CaptureId CaptureEntry) (scheduledFor : Instant)
    (entry : CaptureEntry) (now : Instant) : Verb LRet (Option Run) := do
  let before ← rt.getRun scheduledFor
  let after ← rt.ensureRun scheduledFor .captured .reconciled (some entry.captureId) now
  let after ← advance rt known entry after now
  .ret (if before.all fun b => b.state ≠ after.state ∨ b.captureId ≠ after.captureId then some after
    else none)

def reconcileInstants (known : Dict CaptureId CaptureEntry) (now : Instant) :
    List (Instant × CaptureEntry) → List Run → Verb LRet (List Run)
  | [], touched => .ret touched
  | (scheduledFor, entry) :: rest, touched => do
    let run ← reconcileInstant rt known scheduledFor entry now
    reconcileInstants known now rest (touched ++ run.toList)

/-- `since`: the window, widened by the correction days of the manifest. -/
def windowStart (window : Option Duration) (now : Instant) : Except PyError (Option Instant) :=
  match window with
  | none => .ok none
  | some w => do
    let since ← checkedInstant (now - w)
    let since ← checkedInstant (since - (rt.manifest.cadence.correctionDays.getD 0 : Int) * day)
    .ok (some since)

/-- `reconcile` at a given time. -/
def reconcileAt (window : Option Duration) (now : Instant) : Verb LRet (List Run) := do
  let since ← pyExcept (windowStart rt window now)
  let decisions ← bronzeInvalidations rt.targetId
  mirror rt decisions
  match derivationFor rt.impl rt.manifest with
  | none =>
    .raise (.py (.valueError
      (rt.env.txt.repr rt.manifest.contract.datasetId ++ " is not registered")))
  | some d => do
    let entries ← listEntries rt.targetId since none
    let latest ← latestByInstant rt d.derivationId entries .empty
    reconcileInstants rt (byId entries) now latest.entries []

def reconcile (window : Option Duration) (now : Option Instant) : Verb LRet (List Run) := do
  let now ← match now with
    | some t => .ret t
    | none => clock
  reconcileAt rt window now

end Verb

namespace MemoryStore

variable {s : MemoryStore}

/-! ## Runs by instant -/

theorem find_iff (h : RunsOk s) {targetId : String} {at_ : Instant} {r : Run} :
    s.find targetId at_ = some r ↔
      (∃ i, s.runTable.get? i = some r) ∧ r.targetId = targetId ∧ r.scheduledFor = at_ := by
  constructor
  · exact find_eq_some
  · rintro ⟨⟨i, hi⟩, ht, ha⟩
    cases hf : s.find targetId at_ with
    | none => exact absurd ⟨ht, ha⟩ (find_eq_none hf hi)
    | some q =>
      obtain ⟨⟨j, hj⟩, ht', ha'⟩ := find_eq_some hf
      rw [h.unique hi hj (ht.trans ht'.symm) (ha.trans ha'.symm), hj] at hi
      exact hi

theorem find_putRun (h : WellFormed s) {i : Nat} {old r : Run} (hold : s.runTable.get? i = some old)
    (hid : r.id = old.id) (ht : r.targetId = old.targetId) (ha : r.scheduledFor = old.scheduledFor)
    (targetId : String) (at_ : Instant) : (s.putRun r).find targetId at_ =
      if r.targetId = targetId ∧ r.scheduledFor = at_ then some r else s.find targetId at_ := by
  have h' := h.putRun hold hid ht ha
  have hri : r.id = i := hid.trans (h.runs.id hold)
  split
  · rename_i hc
    exact (find_iff h'.runs).mpr ⟨⟨r.id, Dict.get?_set_self ..⟩, hc.1, hc.2⟩
  · rename_i hc
    refine Option.ext fun q => ?_
    rw [find_iff h'.runs, find_iff h.runs, putRun_runTable, hri]
    refine and_congr_left fun hq => ⟨?_, ?_⟩
    · rintro ⟨j, hj⟩
      rw [Dict.get?_set] at hj
      split at hj
      · rw [Option.some.injEq] at hj
        rw [← hj] at hq
        exact absurd hq hc
      · exact ⟨j, hj⟩
    · rintro ⟨j, hj⟩
      refine ⟨j, ?_⟩
      rw [Dict.get?_set, if_neg]
      · exact hj
      · rintro rfl
        rw [hold, Option.some.injEq] at hj
        rw [← hj, ← ht, ← ha] at hq
        exact hc hq

theorem find_ensureRun (h : WellFormed s) (targetId : String) (at_ : Instant) (state : RunState)
    (origin : RunOrigin) (c : Option CaptureId) (now : Instant) (at' : Instant) :
    (s.ensureRun targetId at_ state origin c now).2.find targetId at' =
      if at_ = at' then some (s.ensureRun targetId at_ state origin c now).1
      else s.find targetId at' := by
  rcases ensureRun_cases s targetId at_ state origin c now with
    ⟨hnone, r, hid, ht, ha, -, -, -, -, -, he⟩ | ⟨old, hf, ⟨-, -, -, he⟩ | ⟨-, he⟩⟩
  · have hfresh : s.runTable.get? r.id = none := hid ▸ h.runs.fresh
    rw [he]
    show ((s.runTable.set r.id r).values.find? fun q => q.targetId = targetId ∧ q.scheduledFor = at') = _
    rw [Dict.values_set_of_none _ hfresh, List.find?_append, List.find?_singleton, ht, ha]
    simp only [true_and, decide_eq_true_eq]
    split
    · rename_i hat
      rw [← hat, show s.runTable.values.find? _ = none from hnone, Option.none_or]
    · exact Option.or_none
  · obtain ⟨⟨i, hi⟩, ht, ha⟩ := find_eq_some hf
    rw [he]
    refine (find_putRun h hi (r := { old with state := .captured, captureId := c, updatedAt := now })
      rfl rfl rfl targetId at').trans ?_
    simp only [ht, ha, true_and]
  · obtain ⟨-, ht, ha⟩ := find_eq_some hf
    rw [he]
    split
    · rename_i hat
      rw [← hat]
      exact hf
    · rfl

end MemoryStore

/-! ## The run of the verb -/

namespace MemoryStore

/-- The store once the decisions are mirrored. -/
def mirrored (s : MemoryStore) (decisions : List Invalidation) : MemoryStore :=
  decisions.foldl (fun s inv => (s.addInvalidation inv).2) s

theorem addInvalidation_frame (s : MemoryStore) (inv : Invalidation) :
    (s.addInvalidation inv).2 =
      { s with invalidationTable := (s.addInvalidation inv).2.invalidationTable } := by
  simp only [addInvalidation]
  split <;> rfl

theorem mirrored_frame (decisions : List Invalidation) : ∀ s : MemoryStore, s.mirrored decisions =
    { s with invalidationTable := (s.mirrored decisions).invalidationTable } := by
  induction decisions with
  | nil => exact fun s => rfl
  | cons inv rest ih =>
    intro s
    rw [mirrored, List.foldl_cons]
    refine (ih (s.addInvalidation inv).2).trans ?_
    rw [addInvalidation_frame]
    rfl

theorem WellFormed.mirrored (decisions : List Invalidation) : ∀ {s : MemoryStore}, WellFormed s →
    WellFormed (s.mirrored decisions) := by
  induction decisions with
  | nil => exact fun h => h
  | cons inv rest ih => exact fun h => ih (h.exec (c := .addInvalidation inv) rfl)

/-- The newest entry of each instant that is not invalidated. -/
def latest (s : MemoryStore) (d : DerivationId) (entries : List CaptureEntry)
    (acc : Dict Instant CaptureEntry) : Dict Instant CaptureEntry :=
  entries.foldl (fun l e =>
    if s.isInvalidated e.captureId (some d) then l else l.set e.scheduledFor e) acc

/-- The newest valid entry of one instant in a list of entries. -/
def newestValid (s : MemoryStore) (d : DerivationId) (entries : List CaptureEntry) (at_ : Instant) :
    Option CaptureEntry :=
  (entries.filter fun e =>
    e.scheduledFor = at_ && ! s.isInvalidated e.captureId (some d)).getLast?

theorem latest_get? (s : MemoryStore) (d : DerivationId) (at_ : Instant) (entries : List CaptureEntry) :
    ∀ acc : Dict Instant CaptureEntry, (s.latest d entries acc).get? at_ =
      (s.newestValid d entries at_).or (acc.get? at_) := by
  induction entries using List.reverseRecOn with
  | nil => exact fun acc => rfl
  | append_singleton rest e ih =>
    intro acc
    rw [latest, List.foldl_append, List.foldl_cons, List.foldl_nil]
    have hih := ih acc
    rw [latest] at hih
    rw [newestValid, List.filter_append]
    cases hv : s.isInvalidated e.captureId (some d) with
    | true =>
      rw [if_pos rfl, hih, newestValid, List.filter_cons_of_neg (by simp [hv]), List.filter_nil,
        List.append_nil]
    | false =>
      rw [if_neg Bool.false_ne_true, Dict.get?_set]
      by_cases hat : at_ = e.scheduledFor
      · rw [if_pos hat, List.filter_cons_of_pos (by simp [hv, hat]), List.filter_nil,
          List.getLast?_concat]
        rfl
      · rw [if_neg hat, hih, newestValid, List.filter_cons_of_neg (by simp [Ne.symm hat]),
          List.filter_nil, List.append_nil]

/-- The capture of `entry` is a later attempt than `c`, and has another payload as far as is known. -/
def Overtakes (known : CaptureId → Option CaptureEntry) (entry : CaptureEntry) (c : CaptureId) : Prop :=
  c ≠ entry.captureId ∧ entry.captureId.attempt > c.attempt ∧
    (known c).all fun e => e.payloadSha256 ≠ entry.payloadSha256

instance instDecidableOvertakes (known : CaptureId → Option CaptureEntry) (entry : CaptureEntry)
    (c : CaptureId) : Decidable (Overtakes known entry c) :=
  inferInstanceAs (Decidable (_ ∧ _ ∧ _))

/-- The capture the run of an instant names once the instant is reconciled with `entry`. -/
def settled (known : CaptureId → Option CaptureEntry) (entry : CaptureEntry) :
    Option Run → Option CaptureId
  | none => some entry.captureId
  | some run =>
    match run.captureId with
    | none => if run.state = .processed then none else some entry.captureId
    | some c => if Overtakes known entry c then some entry.captureId else some c

theorem ensureRun_captureId (s : MemoryStore) (targetId : String) (at_ : Instant) (origin : RunOrigin)
    (c : CaptureId) (now : Instant) :
    (s.ensureRun targetId at_ .captured origin (some c) now).1.captureId =
      match s.find targetId at_ with
      | none => some c
      | some run => if run.captureId = none ∧ run.state ≠ .processed then some c else run.captureId := by
  rcases ensureRun_cases s targetId at_ .captured origin (some c) now with
    ⟨hf, r, -, -, -, -, hc, -, -, -, he⟩ | ⟨old, hf, ⟨-, hp, hc, he⟩ | ⟨hk, he⟩⟩
  · rw [he, hf]
    exact hc
  · rw [he, hf]
    simp [hp, hc]
  · rw [he, hf]
    exact (if_neg fun h => hk ⟨rfl, h.2, h.1⟩ : (if old.captureId = none ∧ old.state ≠ .processed
      then some c else old.captureId) = old.captureId).symm

/-- The capture is settled by the run `ensureRun` returns. -/
theorem settled_ensureRun (known : CaptureId → Option CaptureEntry) (entry : CaptureEntry)
    (s : MemoryStore) (targetId : String) (at_ : Instant) (origin : RunOrigin) (now : Instant) :
    settled known entry (s.find targetId at_) =
      match (s.ensureRun targetId at_ .captured origin (some entry.captureId) now).1.captureId with
      | none => none
      | some c => if Overtakes known entry c then some entry.captureId else some c := by
  have hsame : (if Overtakes known entry entry.captureId then some entry.captureId
      else some entry.captureId) = some entry.captureId := ite_self _
  rw [ensureRun_captureId]
  cases s.find targetId at_ with
  | none => exact hsame.symm
  | some run =>
    dsimp only [settled]
    cases hc : run.captureId with
    | some c =>
      have hno : ¬ (some c = none ∧ run.state ≠ .processed) := fun h => nomatch h.1
      rw [if_neg hno]
    | none =>
      by_cases hp : run.state = .processed
      · rw [if_pos hp, if_neg fun h => h.2 hp]
      · rw [if_neg hp, if_pos ⟨rfl, hp⟩]
        exact hsame.symm

theorem ensureRun_invalidationTable (s : MemoryStore) (targetId : String) (at_ : Instant)
    (state : RunState) (origin : RunOrigin) (c : Option CaptureId) (now : Instant) :
    (s.ensureRun targetId at_ state origin c now).2.invalidationTable = s.invalidationTable := by
  rcases ensureRun_cases s targetId at_ state origin c now with
    ⟨-, r, -, -, -, -, -, -, -, -, he⟩ | ⟨old, -, ⟨-, -, -, he⟩ | ⟨-, he⟩⟩
  all_goals rw [he]
  all_goals rfl

/-- What reconciling one instant makes of the ledger. -/
structure Settled (targetId : String) (at_ : Instant) (c : Option CaptureId) (s s' : MemoryStore) :
    Prop where
  store : WellFormed s'
  invalidationTable : s'.invalidationTable = s.invalidationTable
  here : ∃ run, s'.find targetId at_ = some run ∧ run.captureId = c
  elsewhere : ∀ t, t ≠ at_ → s'.find targetId t = s.find targetId t

end MemoryStore

section Run

open MemoryStore

variable (out : Outside) {rt : Runtime StoreCall.Ret} (hst : rt.store = memoryStore)

include hst

theorem mirror_run (decisions : List Invalidation) : ∀ w : Local,
    (mirror rt decisions).run (Local.answer out) w =
      (.ok (), { w with store := w.store.mirrored decisions }) := by
  induction decisions with
  | nil => exact fun w => rfl
  | cons inv rest ih =>
    intro w
    rw [mirror, Prog.bind_eq, Runtime.addInvalidation, hst]
    refine (Local.run_store_bind (c := .addInvalidation inv) rfl _).trans ?_
    exact ih { w with store := (w.store.addInvalidation inv).2 }

theorem latestByInstant_run (d : DerivationId) (entries : List CaptureEntry) : ∀ (w : Local) acc,
    (latestByInstant rt d entries acc).run (Local.answer out) w =
      (.ok (w.store.latest d entries acc), w) := by
  induction entries with
  | nil => exact fun w acc => rfl
  | cons e rest ih =>
    intro w acc
    rw [latestByInstant, Prog.bind_eq, Runtime.isInvalidated, hst]
    refine (Local.run_store_bind (c := .isInvalidated e.captureId (some d)) (s := w.store) rfl _).trans ?_
    show Prog.run _ (if w.store.isInvalidated e.captureId (some d) then _ else _) w = _
    rw [latest, List.foldl_cons]
    split
    · exact ih w acc
    · exact ih w (acc.set e.scheduledFor e)

/-- The entry `advance` compares with: one of the listed entries, or the one in the log. -/
def lookup (known : Dict CaptureId CaptureEntry) (l : CaptureLog) (c : CaptureId) :
    Option CaptureEntry := (known.get? c).or (l.get c)

omit hst in
theorem knownEntry_run (known : Dict CaptureId CaptureEntry) (c : CaptureId) (w : Local) :
    (knownEntry known c : Verb StoreCall.Ret _).run (Local.answer out) w =
      (.ok (lookup known w.bronze.log c), w) := by
  rw [knownEntry, lookup]
  cases known.get? c with
  | some e => rfl
  | none => rfl

/-- The run `advance` returns, and the store it leaves. -/
theorem advance_run (known : Dict CaptureId CaptureEntry) (entry : CaptureEntry) (after : Run)
    (now : Instant) {w : Local} (hafter : w.store.runTable.get? after.id = some after) :
    (advance rt known entry after now).run (Local.answer out) w =
      match after.captureId with
      | none => (.ok after, w)
      | some c =>
        if Overtakes (lookup known w.bronze.log) entry c then
          (.ok (recaptured after entry.captureId now),
            { w with store := w.store.putRun (recaptured after entry.captureId now) })
        else (.ok after, w) := by
  rw [advance]
  cases hc : after.captureId with
  | none => rfl
  | some c =>
    dsimp only
    by_cases hlater : c ≠ entry.captureId ∧ entry.captureId.attempt > c.attempt
    · rw [if_pos hlater, Prog.bind_eq]
      refine (Prog.run_bind_ok _ (knownEntry_run out known c w)).trans ?_
      by_cases hother : (lookup known w.bronze.log c).all fun e =>
          e.payloadSha256 ≠ entry.payloadSha256
      · rw [if_pos hother, if_pos ⟨hlater.1, hlater.2, hother⟩, Runtime.markRecaptured, hst]
        refine Local.run_store ?_
        show (w.store.runTable.get? after.id).bind _ = _
        rw [hafter]
        rfl
      · rw [if_neg hother, if_neg fun h => hother h.2.2]
        rfl
    · rw [if_neg hlater]
      exact (if_neg fun h => hlater ⟨h.1, h.2.1⟩).symm

theorem reconcileInstant_run (known : Dict CaptureId CaptureEntry) (at_ : Instant)
    (entry : CaptureEntry) (now : Instant) {w : Local} (hw : WellFormed w.store) : ∃ run s',
      (reconcileInstant rt known at_ entry now).run (Local.answer out) w =
        (.ok run, { w with store := s' }) ∧
      Settled rt.targetId at_
        (settled (lookup known w.bronze.log) entry (w.store.find rt.targetId at_)) w.store s' := by
  have hsettled := settled_ensureRun (lookup known w.bronze.log) entry w.store rt.targetId at_
    .reconciled now
  have hwf : WellFormed (w.store.ensureRun rt.targetId at_ .captured .reconciled
      (some entry.captureId) now).2 := hw.exec (c := .ensureRun ..) rfl
  have hfind := find_ensureRun hw rt.targetId at_ .captured .reconciled (some entry.captureId) now
  have htable := ensureRun_invalidationTable w.store rt.targetId at_ .captured .reconciled
    (some entry.captureId) now
  have hens : w.store.exec (.ensureRun rt.targetId at_ .captured .reconciled (some entry.captureId) now) =
    some (w.store.ensureRun rt.targetId at_ .captured .reconciled (some entry.captureId) now) := rfl
  generalize w.store.ensureRun rt.targetId at_ .captured .reconciled (some entry.captureId) now = e
    at hsettled hwf hfind htable hens
  obtain ⟨after, s₁⟩ := e
  obtain ⟨⟨i, hi⟩, ht, ha⟩ := find_eq_some ((hfind at_).trans (if_pos rfl))
  have hafter : s₁.runTable.get? after.id = some after := by rw [hwf.runs.id hi]; exact hi
  have hadvance := advance_run out hst known entry after now
    (w := { w with store := s₁ }) hafter
  have hkeep : Settled rt.targetId at_ after.captureId w.store s₁ :=
    ⟨hwf, htable, ⟨after, (hfind at_).trans (if_pos rfl), rfl⟩,
      fun t hne => (hfind t).trans (if_neg hne.symm)⟩
  have hstart : ∀ {r : Run} {s' : MemoryStore},
      (advance rt known entry after now).run (Local.answer out) { w with store := s₁ } =
        (.ok r, { w with store := s' }) →
      ∃ run, (reconcileInstant rt known at_ entry now).run (Local.answer out) w =
        (.ok run, { w with store := s' }) := by
    intro r s' hr
    refine ⟨if (w.store.find rt.targetId at_).all fun b =>
      b.state ≠ r.state ∨ b.captureId ≠ r.captureId then some r else none, ?_⟩
    rw [reconcileInstant, Prog.bind_eq, Runtime.getRun, hst]
    refine (Local.run_store_bind (c := .getRun rt.targetId at_) rfl _).trans ?_
    rw [Prog.bind_eq, Runtime.ensureRun, hst]
    refine (Local.run_store_bind hens _).trans ?_
    exact Prog.run_bind_ok _ hr
  cases hc : after.captureId with
  | none =>
    simp only [hc] at hadvance hsettled
    obtain ⟨run, hrun⟩ := hstart hadvance
    rw [hc] at hkeep
    rw [hsettled]
    exact ⟨run, s₁, hrun, hkeep⟩
  | some c =>
    simp only [hc] at hadvance hsettled
    rw [hsettled]
    by_cases hover : Overtakes (lookup known w.bronze.log) entry c
    · rw [if_pos hover] at hadvance ⊢
      obtain ⟨run, hrun⟩ := hstart hadvance
      have hput := find_putRun hwf hi (r := recaptured after entry.captureId now) rfl rfl rfl
        rt.targetId
      refine ⟨run, _, hrun, hwf.putRun hi rfl rfl rfl, htable,
        ⟨_, (hput at_).trans (if_pos ⟨ht, ha⟩), rfl⟩, fun t hne => ?_⟩
      exact (hput t).trans ((if_neg fun h => hne (h.2.symm.trans ha)).trans (hkeep.elsewhere t hne))
    · rw [if_neg hover] at hadvance ⊢
      obtain ⟨run, hrun⟩ := hstart hadvance
      rw [hc] at hkeep
      exact ⟨run, s₁, hrun, hkeep⟩

/-- Every instant of the list is settled, the others are left alone. -/
theorem reconcileInstants_run (known : Dict CaptureId CaptureEntry) (now : Instant)
    (l : List (Instant × CaptureEntry)) : ∀ (touched : List Run) {w : Local}, WellFormed w.store →
    (l.map Prod.fst).Nodup → ∃ runs s',
      (reconcileInstants rt known now l touched).run (Local.answer out) w =
        (.ok runs, { w with store := s' }) ∧
      WellFormed s' ∧ s'.invalidationTable = w.store.invalidationTable ∧
      (∀ t e, (t, e) ∈ l → ∃ run, s'.find rt.targetId t = some run ∧ run.captureId =
        settled (lookup known w.bronze.log) e (w.store.find rt.targetId t)) ∧
      ∀ t, t ∉ l.map Prod.fst → s'.find rt.targetId t = w.store.find rt.targetId t := by
  induction l with
  | nil =>
    intro touched w hw _
    exact ⟨touched, w.store, rfl, hw, rfl, fun t e h => absurd h List.not_mem_nil, fun t _ => rfl⟩
  | cons head rest ih =>
    obtain ⟨at_, entry⟩ := head
    intro touched w hw hnd
    rw [List.map_cons, List.nodup_cons] at hnd
    obtain ⟨run, s₁, hrun, hset⟩ := reconcileInstant_run out hst known at_ entry now hw
    obtain ⟨runs, s', hruns, hwf, htable, hhere, helse⟩ :=
      ih (touched ++ run.toList) (w := { w with store := s₁ }) hset.store hnd.2
    refine ⟨runs, s', (Prog.run_bind_ok _ hrun).trans hruns, hwf,
      htable.trans hset.invalidationTable, fun t e hmem => ?_, fun t hmem => ?_⟩
    · rcases List.mem_cons.mp hmem with heq | htail
      · obtain ⟨rfl, rfl⟩ := Prod.mk.injEq .. ▸ heq
        rw [helse t hnd.1]
        exact hset.here
      · have hne : t ≠ at_ := by
          rintro rfl
          exact hnd.1 (List.mem_map.mpr ⟨(t, e), htail, rfl⟩)
        rw [← hset.elsewhere t hne]
        exact hhere t e htail
    · rw [List.map_cons, List.mem_cons, not_or] at hmem
      exact (helse t hmem.2).trans (hset.elsewhere t hmem.1)

/-- What `reconcile` over all of Bronze makes of the ledger. -/
structure Reconciled (targetId : String) (d : DerivationId) (w w' : Local) : Prop where
  bronze : w'.bronze = w.bronze
  store : WellFormed w'.store
  invalidationTable : w'.store.invalidationTable =
    (w.store.mirrored (w.bronze.log.invalidations targetId)).invalidationTable
  some_ : ∀ t e, (w.store.mirrored (w.bronze.log.invalidations targetId)).newestValid d
      (w.bronze.log.list targetId none none) t = some e →
    ∃ run, w'.store.find targetId t = some run ∧ run.captureId =
      settled (lookup (byId (w.bronze.log.list targetId none none)) w.bronze.log) e
        (w.store.find targetId t)
  none_ : ∀ t, (w.store.mirrored (w.bronze.log.invalidations targetId)).newestValid d
      (w.bronze.log.list targetId none none) t = none →
    w'.store.find targetId t = w.store.find targetId t

theorem reconcileAt_run {d : Derivation} (hd : derivationFor rt.impl rt.manifest = some d)
    (now : Instant) {w : Local} (hw : WellFormed w.store) : ∃ runs w',
      (reconcileAt rt none now).run (Local.answer out) w = (.ok runs, w') ∧
      Reconciled rt.targetId d.derivationId w w' := by
  have hw₁ : WellFormed (w.store.mirrored (w.bronze.log.invalidations rt.targetId)) := hw.mirrored _
  have hfind : ∀ t, (w.store.mirrored (w.bronze.log.invalidations rt.targetId)).find rt.targetId t =
      w.store.find rt.targetId t := fun t => by
    rw [mirrored_frame]
    rfl
  have hlatest := fun t => latest_get? (w.store.mirrored (w.bronze.log.invalidations rt.targetId))
    d.derivationId t (w.bronze.log.list rt.targetId none none) .empty
  have hlist := latestByInstant_run out hst d.derivationId
    (w.bronze.log.list rt.targetId none none)
    { w with store := w.store.mirrored (w.bronze.log.invalidations rt.targetId) } .empty
  generalize hl : (w.store.mirrored (w.bronze.log.invalidations rt.targetId)).latest d.derivationId
    (w.bronze.log.list rt.targetId none none) .empty = latest at hlatest hlist
  obtain ⟨runs, s', hruns, hwf, htable, hhere, helse⟩ := reconcileInstants_run out hst
    (byId (w.bronze.log.list rt.targetId none none)) now latest.entries []
    (w := { w with store := w.store.mirrored (w.bronze.log.invalidations rt.targetId) }) hw₁
    latest.nodup
  refine ⟨runs, { w with store := s' }, ?_, rfl, hwf, htable, fun t e he => ?_, fun t hnone => ?_⟩
  · rw [reconcileAt, windowStart, hd]
    refine (Local.run_bronze_bind w (.invalidations rt.targetId) _).trans ?_
    refine (Prog.run_bind_ok _ (mirror_run out hst _ w)).trans ?_
    refine (Local.run_bronze_bind { w with store := _ } (.list rt.targetId none none) _).trans ?_
    exact (Prog.run_bind_ok _ hlist).trans hruns
  · rw [← hfind t]
    refine hhere t e (Dict.get?_eq_some_iff.mp ?_)
    rw [hlatest t, he]
    rfl
  · rw [← hfind t]
    refine helse t (Dict.get?_eq_none_iff.mp ?_)
    rw [hlatest t, hnone]
    rfl

theorem reconcile_run {d : Derivation} (hd : derivationFor rt.impl rt.manifest = some d)
    (now : Option Instant) {w : Local} (hw : WellFormed w.store) : ∃ runs w',
      (reconcile rt none now).run (Local.answer out) w = (.ok runs, w') ∧
      Reconciled rt.targetId d.derivationId w w' := by
  cases now with
  | some t => exact reconcileAt_run out hst hd t hw
  | none =>
    obtain ⟨runs, w', hrun, hrec⟩ := reconcileAt_run out hst hd (out.clock w.reads)
      (w := { w with reads := w.reads + 1 }) hw
    exact ⟨runs, w', hrun, hrec.bronze, hrec.store, hrec.invalidationTable, hrec.some_, hrec.none_⟩

end Run

end EnergyPlatform
