import EnergyPlatform.Store.CurrentView

/-!
# Store.AppendOnly

Silver is append-only, and committing a list of observations again changes nothing.

* `exec_kept`, `Kept.after`: no call removes or changes a version row, an occurrence or a
  derivation.
* `insertAll_covered`: the commit loop over observations that are all there already.
* `currentRows_congr`: what the current view reads.
-/

namespace EnergyPlatform

open Lib (Dict)

namespace MemoryStore

variable {s s' : MemoryStore}

/-! ## Nothing is removed or changed -/

structure Kept (s s' : MemoryStore) : Prop where
  row : ∀ {i r}, s.rowTable.get? i = some r → s'.rowTable.get? i = some r
  seen : ∀ {i f x}, (s.seen i).get? f = some x → (s'.seen i).get? f = some x
  derivation : ∀ {d x}, s.derivationTable.get? d = some x → s'.derivationTable.get? d = some x

theorem Kept.refl (s : MemoryStore) : Kept s s := ⟨fun h => h, fun h => h, fun h => h⟩

theorem Kept.trans {s'' : MemoryStore} (h : Kept s s') (h' : Kept s' s'') : Kept s s'' :=
  ⟨fun hr => h'.row (h.row hr), fun hf => h'.seen (h.seen hf), fun hd => h'.derivation (h.derivation hd)⟩

theorem Kept.of_same (hs : SameSilver s s') (hd : s'.derivationTable = s.derivationTable) :
    Kept s s' where
  row hr := by rw [hs.rowTable]; exact hr
  seen hf := by simp only [MemoryStore.seen, hs.occurrenceTable] at hf ⊢; exact hf
  derivation hx := by rw [hd]; exact hx

theorem registerDerivation_kept (s : MemoryStore) (d : Derivation) (now : Instant) :
    Kept s (s.registerDerivation d now).2 := by
  simp only [registerDerivation]
  split
  · exact .refl s
  · rename_i hnone
    refine ⟨fun h => h, fun h => h, fun {e x} hx => ?_⟩
    rw [Dict.get?_set_ne]
    · exact hx
    · rintro rfl
      rw [hnone] at hx; cases hx

theorem registerAny_kept (s : MemoryStore) (d : Option Derivation) (now : Instant) :
    Kept s (s.registerAny d now) := by
  cases d with
  | none => exact .refl s
  | some d => exact registerDerivation_kept s d now

/-- Where Silver grew, every occurrence stays with the row it was recorded for. -/
theorem Grown.seen_kept {a : Nat} {obs : List EnergyObservation} (hg : Grown s a obs s')
    (h : RowsOk s) (h' : RowsOk s') {i : Nat} {f : Instant} {x : Instant × Nat}
    (hf : (s.seen i).get? f = some x) : (s'.seen i).get? f = some x := by
  obtain ⟨r, hr⟩ := h.seenRow hf
  obtain ⟨j, q, hq, hv, hf'⟩ := hg.occurrenceKept (t := x.1) (b := x.2) ⟨i, r, hr, rfl, hf⟩
  have hij := h'.unique (hg.rowKept hr) hq hv.symm
  subst hij
  exact hf'

theorem committed_kept (h : SilverOk s) (run : Run) (att : RunAttempt) (c : Commit) (now : Instant) :
    Kept s (s.committed run att c now) := by
  obtain ⟨hok, hg⟩ := committed_silver s run att c now h
  refine ⟨hg.rowKept, hg.seen_kept h.toRowsOk hok.toRowsOk, fun hx => ?_⟩
  rw [committed_derivationTable]
  exact (registerAny_kept s c.derivation now).derivation hx

/-- No call removes or changes what is stored. -/
theorem exec_kept (h : WellFormed s) {c : StoreCall} {out : c.Ret}
    (hc : s.exec c = some (out, s')) : Kept s s' := by
  have hsame : ∀ {s' : MemoryStore}, s'.rowTable = s.rowTable → s'.occurrenceTable = s.occurrenceTable →
      s'.seq.rows = s.seq.rows → s'.derivationTable = s.derivationTable → Kept s s' :=
    fun hr ho hq hd => .of_same ⟨hr, ho, hq⟩ hd
  cases c with
  | getRun | runs | attempts | pendingRuns | isInvalidated | attemptCaptures | invalidations =>
    obtain rfl := store_of_some hc
    exact .refl _
  | runsWithDerivation | currentRows =>
    obtain ⟨rs, -, hrs⟩ := Option.map_eq_some_iff.mp hc
    obtain rfl : s = s' := congrArg Prod.snd hrs
    exact .refl _
  | ensureRun targetId at_ state origin captureId now =>
    obtain rfl := store_of_some hc
    rcases ensureRun_cases s targetId at_ state origin captureId now with
      ⟨-, run, -, -, -, -, -, -, -, -, he⟩ | ⟨old, -, ⟨-, -, -, he⟩ | ⟨-, he⟩⟩
    · rw [he]; exact hsame rfl rfl rfl rfl
    · rw [he]; exact hsame rfl rfl rfl rfl
    · rw [he]; exact .refl _
  | setState i state now =>
    obtain ⟨run, -, -, rfl⟩ := setState_cases hc
    exact hsame rfl rfl rfl rfl
  | markRecaptured i captureId now =>
    obtain ⟨run, -, -, rfl⟩ := markRecaptured_cases hc
    exact hsame rfl rfl rfl rfl
  | claim i owner ttl now =>
    obtain ⟨run, hr, ⟨-, -, rfl⟩ | ⟨-, att, -, he⟩⟩ := claim_cases hc
    · exact .refl _
    · have ho := h.opened owner ttl now hr
      rw [he] at ho
      exact hsame ho.same.rowTable ho.same.occurrenceTable ho.same.seqRows ho.same.derivationTable
  | renew c ttl now =>
    obtain ⟨run, -, ⟨-, -, rfl⟩ | ⟨-, -, rfl⟩⟩ := renew_cases hc
    · exact .refl _
    · exact hsame rfl rfl rfl rfl
  | commit c args now =>
    obtain ⟨run, att, -, -, ⟨-, -, rfl⟩ | ⟨-, -, rfl⟩⟩ := commit_cases h.attempts hc
    · split
      · exact hsame rfl rfl rfl rfl
      · exact .refl _
    · exact committed_kept h.silver run att args now
  | recordAttempt =>
    obtain rfl := store_of_some hc
    exact hsame rfl rfl rfl rfl
  | enqueueReplay i now =>
    obtain ⟨-, -, rfl⟩ | ⟨-, run, -, rfl⟩ := enqueueReplay_cases hc
    · exact .refl _
    · exact hsame rfl rfl rfl rfl
  | addInvalidation inv =>
    obtain rfl := store_of_some hc
    simp only [MemoryStore.addInvalidation]
    split
    · exact .refl _
    · exact hsame rfl rfl rfl rfl
  | registerDerivation d now =>
    obtain rfl := store_of_some hc
    exact registerDerivation_kept s d now
  | addEvents targetId events a now =>
    obtain rfl := store_of_some hc
    rw [addEvents_frame]
    exact hsame rfl rfl rfl rfl

theorem after_cons {c : StoreCall} {rest : List StoreCall} : s.after (c :: rest) = some s' ↔
    ∃ out s₁, s.exec c = some (out, s₁) ∧ s₁.after rest = some s' := by
  simp only [after, Option.bind_eq_some_iff, Prod.exists]

theorem Kept.after {calls : List StoreCall} : ∀ {s s' : MemoryStore}, WellFormed s →
    s.after calls = some s' → Kept s s' := by
  induction calls with
  | nil => intro s s' _ h; cases h; exact .refl _
  | cons c rest ih =>
    intro s s' hs h
    obtain ⟨out, s₁, he, h⟩ := after_cons.mp h
    exact (exec_kept hs he).trans (ih (hs.exec he) h)

/-! ## Committing again -/

/-- Every observation is stored already, with an occurrence of its capture. -/
def Covered (s : MemoryStore) (obs : List EnergyObservation) : Prop :=
  ∀ o ∈ obs, ∃ t b, HasOccurrence s (versionIdentity o) o.fetchedAt t b

theorem Kept.hasOccurrence (hk : Kept s s') {v : VersionIdentity} {f t : Instant} {a : Nat}
    (h : HasOccurrence s v f t a) : HasOccurrence s' v f t a := by
  obtain ⟨i, r, hr, hv, hf⟩ := h
  exact ⟨i, r, hk.row hr, hv, hk.seen hf⟩

theorem Kept.covered (hk : Kept s s') {obs : List EnergyObservation} (h : Covered s obs) :
    Covered s' obs := by
  intro o ho
  obtain ⟨t, b, hb⟩ := h o ho
  exact ⟨t, b, hk.hasOccurrence hb⟩

/-- Recording an occurrence that is there. -/
theorem addOccurrence_seen {i a : Nat} {o : EnergyObservation} {x : Instant × Nat}
    (h : (s.seen i).get? o.fetchedAt = some x) : s.addOccurrence i a o = s := by
  have htable : s.occurrenceTable.get? i = some (s.seen i) := by
    simp only [seen] at h ⊢
    cases hg : s.occurrenceTable.get? i with
    | none => simp [hg] at h
    | some d => rfl
  simp only [addOccurrence, Dict.setDefault_of_some _ h, Dict.set_get? htable]

theorem insertOne_covered {l : CommitLoop} (h : LoopOk l) (a : Nat) {o : EnergyObservation}
    {t : Instant} {b : Nat} (ho : HasOccurrence l.store (versionIdentity o) o.fetchedAt t b) :
    insertOne a l o = l := by
  obtain ⟨i, r, hr, hv, hf⟩ := ho
  have hk : l.existing.get? (versionIdentity o) = some i := h.existing.mpr ⟨r, hr, hv⟩
  have hin : (l.store.seen i).contains o.fetchedAt = true := Dict.contains_iff.mpr ⟨_, hf⟩
  simp [insertOne, hk, addOccurrence_seen hf, hin]

theorem insertAll_covered (h : SilverOk s) (a : Nat) {obs : List EnergyObservation}
    (hc : Covered s obs) : s.insertAll a obs = ⟨s, s.versionIds, 0, 0⟩ := by
  have hl : LoopOk ⟨s, s.versionIds, 0, 0⟩ := ⟨h, versionIds_spec h⟩
  simp only [insertAll]
  induction obs with
  | nil => rfl
  | cons o rest ih =>
    obtain ⟨t, b, ho⟩ := hc o (by simp)
    rw [List.foldl_cons, insertOne_covered hl a ho]
    exact ih fun o' ho' => hc o' (List.mem_cons_of_mem _ ho')

theorem registerAny_registered {d : Option Derivation} (now : Instant)
    (h : ∀ e ∈ d.map Derivation.derivationId, ∃ x, s.derivationTable.get? e = some x) :
    s.registerAny d now = s := by
  cases d with
  | none => rfl
  | some d =>
    obtain ⟨x, hx⟩ := h d.derivationId rfl
    simp only [registerAny, registerDerivation, hx]

theorem registerAny_registers (s : MemoryStore) (d : Option Derivation) (now : Instant) :
    ∀ e ∈ d.map Derivation.derivationId, ∃ x, (s.registerAny d now).derivationTable.get? e = some x := by
  intro e he
  obtain ⟨d, rfl, rfl⟩ := Option.map_eq_some_iff.mp he
  simp only [registerAny, registerDerivation]
  split
  · rename_i stored hs
    exact ⟨stored, hs⟩
  · exact ⟨_, Dict.get?_set_self ..⟩

/-! ## What the current view reads -/

theorem occurrenceValid_congr (hi : s'.invalidationTable = s.invalidationTable) (d : DerivationId)
    (c : Option CaptureId) : s'.occurrenceValid d c = s.occurrenceValid d c := by
  cases c with
  | none => rfl
  | some c => simp only [occurrenceValid, isInvalidated, hi]

/-- The tables agree wherever the current view looks: it reads of an attempt only its capture. -/
structure SameView (s s' : MemoryStore) : Prop where
  rowTable : s'.rowTable = s.rowTable
  occurrenceTable : s'.occurrenceTable = s.occurrenceTable
  derivationTable : s'.derivationTable = s.derivationTable
  invalidationTable : s'.invalidationTable = s.invalidationTable
  captureId : ∀ i, (s'.attemptTable.get? i).map RunAttempt.captureId =
    (s.attemptTable.get? i).map RunAttempt.captureId

namespace SameView

variable (h : SameView s s')

include h

theorem validAmong (d : DerivationId) (l : List (Instant × Nat)) :
    s'.validAmong d l = s.validAmong d l := by
  induction l with
  | nil => rfl
  | cons p rest ih =>
    obtain ⟨t, a⟩ := p
    have ha := h.captureId a
    simp only [MemoryStore.validAmong, ih]
    cases hg : s.attemptTable.get? a with
    | none =>
      rw [hg, Option.map_none, Option.map_eq_none_iff] at ha
      simp [ha]
    | some att =>
      rw [hg, Option.map_some, Option.map_eq_some_iff] at ha
      obtain ⟨att', ha', hc⟩ := ha
      simp [ha', hc, occurrenceValid_congr h.invalidationTable]

theorem validOccurrences (row : StoredObservation) :
    s'.validOccurrences row = s.validOccurrences row := by
  simp only [MemoryStore.validOccurrences, seen, h.occurrenceTable, h.validAmong]

theorem considerRow (reg : Registry) (q : CurrentQuery) (best : Best) (row : StoredObservation) :
    s'.considerRow reg q best row = s.considerRow reg q best row := by
  simp only [MemoryStore.considerRow, h.validOccurrences, rowRank, registeredAt, h.derivationTable]

theorem currentRows (reg : Registry) (q : CurrentQuery) :
    s'.currentRows reg q = s.currentRows reg q := by
  have hloop : s'.considerRow reg q = s.considerRow reg q :=
    funext fun best => funext fun row => h.considerRow reg q best row
  simp only [MemoryStore.currentRows, h.rowTable, hloop]

end SameView

/-! ## Append-only and idempotent -/

/-- The claim holds its run: the fence is the run's, and the attempt is there. -/
def Holding (s : MemoryStore) (cl : Claim) : Prop :=
  (∃ run, s.runTable.get? cl.run.id = some run ∧ run.fence = cl.fence) ∧
    ∃ att, s.attemptTable.get? cl.attempt.id = some att

instance (s : MemoryStore) (cl : Claim) : Decidable (Holding s cl) :=
  decidable_of_iff ((∃ run ∈ s.runTable.get? cl.run.id, run.fence = cl.fence) ∧
    ((s.attemptTable.get? cl.attempt.id).isSome = true)) (by
      simp only [Holding, Option.mem_def, Option.isSome_iff_exists])

/-- A commit that is not stale leaves its observations and its derivation behind. -/
theorem commit_covers (h : WellFormed s) {cl : Claim} {c : Commit} {now : Instant}
    {out : CommitResult} (hc : s.commit cl c now = some (out, s')) (hlost : out.lostLease = false) :
    Covered s' c.observations ∧
      ∀ e ∈ c.derivation.map Derivation.derivationId, ∃ x, s'.derivationTable.get? e = some x := by
  obtain ⟨run, att, -, -, ⟨-, rfl, -⟩ | ⟨-, -, rfl⟩⟩ := commit_cases h.attempts hc
  · cases hlost
  · refine ⟨fun o ho => (committed_silver s run att c now h.silver).2.occurrenceAll ho, ?_⟩
    rw [committed_derivationTable]
    exact registerAny_registers s c.derivation now

/-- A commit of what is there already counts nothing and changes nothing the current view reads. -/
theorem commit_covered (h : WellFormed s) {cl : Claim} {c : Commit} (hcl : Holding s cl)
    (hobs : Covered s c.observations)
    (hd : ∀ e ∈ c.derivation.map Derivation.derivationId, ∃ x, s.derivationTable.get? e = some x)
    (now : Instant) : ∃ s', s.commit cl c now = some (⟨0, false, 0⟩, s') ∧ SameView s s' := by
  obtain ⟨⟨run, hr, hf⟩, att, ha⟩ := hcl
  have hall := insertAll_covered h.silver cl.attempt.id hobs
  have hatt : (s.addEvents run.targetId c.events (some cl.attempt.id) now).2.attemptTable =
      s.attemptTable := by rw [addEvents_frame]
  refine ⟨((s.addEvents run.targetId c.events (some cl.attempt.id) now).2.putAttempt
    (closeAttempt att c now)).putRun (released run c.state now), ?_, ?_⟩
  · simp [commit, hr, hf, registerAny_registered now hd, hall, hatt, ha]
  · rw [addEvents_frame]
    refine ⟨rfl, rfl, rfl, rfl, fun i => ?_⟩
    have hid : att.id = cl.attempt.id := h.attempts.id ha
    simp only [putRun_attemptTable, putAttempt_attemptTable, closeAttempt, hid, Dict.get?_set]
    split
    · rename_i hi
      rw [hi, ha]
      rfl
    · rfl

/-- Silver is append-only and commit is idempotent. After any calls on a reachable store: version
identities are unique, no row and no occurrence was removed or changed, every row has an
occurrence, one for each `fetched_at`, recorded by an attempt of the store. And observations that
were committed under a derivation can be committed again, whatever was called in between, under any
claim that holds its run: nothing is counted, and the current view stays what it is. -/
theorem silver_append_only {calls : List StoreCall} (hs : Reachable s)
    (hcalls : s.after calls = some s') :
    (∀ i j r q, s'.rowTable.get? i = some r → s'.rowTable.get? j = some q →
      versionIdentity r.observation = versionIdentity q.observation → i = j) ∧
    (∀ i r, s.rowTable.get? i = some r → s'.rowTable.get? i = some r) ∧
    (∀ i f x, (s.seen i).get? f = some x → (s'.seen i).get? f = some x) ∧
    (∀ i r, s'.rowTable.get? i = some r → ∃ f x, (s'.seen i).get? f = some x) ∧
    (∀ v f t t' a a', HasOccurrence s' v f t a → HasOccurrence s' v f t' a' → t = t' ∧ a = a') ∧
    (∀ v f t a, HasOccurrence s' v f t a → ∃ att, s'.attemptTable.get? a = some att) ∧
    ∀ cl c now out s₁, s'.commit cl c now = some (out, s₁) → out.lostLease = false →
      ∀ between s₂, s₁.after between = some s₂ → ∀ cl' c' now', Holding s₂ cl' →
        c'.observations = c.observations →
        c'.derivation.map Derivation.derivationId = c.derivation.map Derivation.derivationId →
        ∃ s₃, s₂.commit cl' c' now' = some (⟨0, false, 0⟩, s₃) ∧
          ∀ reg q, s₃.currentRows reg q = s₂.currentRows reg q := by
  have hwf := hs.wellFormed
  have hwf' := (hs.after hcalls).wellFormed
  have hkept := Kept.after hwf hcalls
  refine ⟨fun i j r q hr hq hv => hwf'.silver.unique hr hq hv, fun i r hr => hkept.row hr,
    fun i f x hf => hkept.seen hf, ?_, ?_, fun v f t a ho => hwf'.seenAttempt ho, ?_⟩
  · intro i r hr
    exact ⟨_, hwf'.silver.rowSeen hr⟩
  · intro v f t t' a a' ho ho'
    exact hwf'.silver.occurrence_unique ho ho'
  · intro cl c now out s₁ hc hlost between s₂ hbetween cl' c' now' hcl' hobs hd
    obtain ⟨hcov, hreg⟩ := commit_covers hwf' hc hlost
    have hwf₁ : WellFormed s₁ := hwf'.exec (c := .commit cl c now) hc
    have hkept₂ := Kept.after hwf₁ hbetween
    have hreg₂ : ∀ e ∈ c'.derivation.map Derivation.derivationId,
        ∃ x, s₂.derivationTable.get? e = some x := by
      rw [hd]
      intro e he
      obtain ⟨x, hx⟩ := hreg e he
      exact ⟨x, hkept₂.derivation hx⟩
    have hwf₂ : WellFormed s₂ :=
      (Reachable.after (((hs.after hcalls).call (c := .commit cl c now)) hc) hbetween).wellFormed
    obtain ⟨s₃, he, hview⟩ := commit_covered hwf₂ hcl' (hobs ▸ hkept₂.covered hcov) hreg₂ now'
    exact ⟨s₃, he, fun reg q => hview.currentRows reg q⟩

/-- A price committed under a first claim, and again under a second claim granted a day later. -/
theorem silver_append_only_retried : ∃ s s' : MemoryStore, ∃ cl c now out s₁,
    s.commit cl c now = some (out, s₁) ∧ s₁.after [.claim 1 "worker" minute (24 * hour)] = some s' ∧
    ∃ cl' s₃, s'.commit cl' c (24 * hour) = some (⟨0, false, 0⟩, s₃) ∧
      ∀ q, s₃.currentRows dataset q = s'.currentRows dataset q := by
  let obs := [dayAheadPrice 1 .soap 0 none]
  let c : Commit := ⟨.processed, .ok, none, some dayAheadDerivation, obs, []⟩
  let calls := (commitRun 1 1 0 0 obs).take 2
  let run : Run :=
    { id := 1, targetId := "ote", scheduledFor := 0, state := .processed, fence := 2
      origin := .scheduled, leaseOwner := none, leaseUntil := none
      captureId := some (captureId "ote" 0 1), createdAt := 0, updatedAt := 0 }
  let cl : Claim := ⟨{ run with fence := 1 }, 1, processAttempt run "worker" 0 1⟩
  let cl' : Claim := ⟨run, 2, processAttempt run "worker" 0 2⟩
  obtain ⟨s, hs, h⟩ := (Option.any_eq_true _ _).mp
    (by decide : (init.after calls).any (fun s => (s.commit cl c 0).any fun p => !p.1.lostLease &&
      (p.2.after [.claim 1 "worker" minute (24 * hour)]).any fun s₂ => decide (Holding s₂ cl')) = true)
  obtain ⟨⟨out, s₁⟩, hc, h⟩ := (Option.any_eq_true _ _).mp h
  rw [Bool.and_eq_true, Bool.not_eq_true'] at h
  obtain ⟨s₂, hbetween, hold⟩ := (Option.any_eq_true _ _).mp h.2
  obtain ⟨-, -, -, -, -, -, hagain⟩ := silver_append_only Reachable.init hs
  obtain ⟨s₃, he, hview⟩ := hagain cl c 0 out s₁ hc h.1 _ s₂ hbetween cl' c (24 * hour)
    (of_decide_eq_true hold) rfl rfl
  exact ⟨s, s₂, cl, c, 0, out, s₁, hc, hbetween, cl', s₃, he, hview dataset⟩

end MemoryStore

end EnergyPlatform
