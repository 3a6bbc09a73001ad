import EnergyPlatform.Runtime.Lineage
import EnergyPlatform.Runtime.Plan

/-!
# Runtime.Steady

Captures, reconciliation and gap detection among any other verbs: what their calls are told, and
that they are lawful.

`Steady` is a program that keeps `Traced` while the others keep it, and leaves a postcondition. One
lemma for each verb.
-/

namespace EnergyPlatform

open Lib (Dict Prog)

section Steady

variable {ι : Type} (rts : ι → Runtime StoreCall.Ret)

/-- Every worker keeps `Traced`, and relies on `Later`. -/
def lineageRely : Prog.Rely Attends where
  inv := Traced rts
  rely := Later
  refl := Later.refl
  trans := Later.trans

abbrev Steady {α : Type} (Q : α → Shared → Prop) (p : Verb StoreCall.Ret α) (w : Shared) : Prop :=
  Prog.Abides (lineageRely rts) Q p w

/-- A call that is lawful whatever it is made on. -/
def Harmless : Op StoreCall → Prop
  | .bronze (.putNew _) => False
  | .ledger (.ensureRun _ _ _ _ c _) => c = none
  | .ledger (.markRecaptured ..) => False
  | .ledger (.commit _ args _) => args.observations = []
  | _ => True

variable {rts} {w w' : Shared} {α β : Type}

theorem Harmless.lawful {o : Op StoreCall} (h : Harmless o) : Lawful rts w o := by
  cases o with
  | clock => exact trivial
  | fetch ctx previous => exact trivial
  | bronze c =>
    cases c with
    | putNew e => exact absurd h id
    | _ => exact trivial
  | ledger c =>
    cases c with
    | ensureRun targetId at_ state origin captureId now =>
      intro x hx
      rw [show captureId = none from h] at hx
      cases hx
    | markRecaptured => exact absurd h id
    | commit c args now =>
      intro o ho
      rw [show args.observations = [] from h] at ho
      exact absurd ho List.not_mem_nil
    | _ => exact trivial

theorem steady_harmless {p : Verb StoreCall.Ret α} (hp : p.Only Harmless fun _ => True) :
    Steady rts (fun _ _ => True) p w :=
  Prog.Abides.of_only (R := lineageRely rts) (fun _ _ _ _ ho hi ha => attends_lawful hi ho.lawful ha) hp

theorem steady_ret {Q : α → Shared → Prop} {a : α} (h : ∀ w', Later w w' → Traced rts w' → Q a w') :
    Steady rts Q (.ret a) w := Prog.Abides.ret h

theorem steady_bind {Q : α → Shared → Prop} {Q' : β → Shared → Prop} {p : Verb StoreCall.Ret α}
    {f : α → Verb StoreCall.Ret β} (hi : Traced rts w) (hp : Steady rts Q p w)
    (hf : ∀ a w', Later w w' → Traced rts w' → Q a w' → Steady rts Q' (f a) w') :
    Steady rts Q' (p.bind f) w := Prog.Abides.bind (R := lineageRely rts) hi hp hf

/-- A call of the ledger. -/
theorem steady_store {rt : Runtime StoreCall.Ret} (hst : rt.store = memoryStore) (c : StoreCall)
    {Q : c.Ret → Shared → Prop}
    (hlaw : ∀ w₁, Later w w₁ → Traced rts w₁ → Lawful rts w₁ (.ledger c))
    (hQ : ∀ w₁ s' out, Later w w₁ → Traced rts w₁ → w₁.store.exec c = some (out, s') →
      ∀ w', Later ⟨w₁.log, s'⟩ w' → Traced rts w' → Q out w') : Steady rts Q (rt.store c) w := by
  rw [hst]
  refine Prog.Abides.call (R := lineageRely rts) (o := .ledger c) (Q := Q) fun w₁ r w₂ hl hi ha => ?_
  obtain ⟨hi₂, hl₂⟩ := attends_lawful hi (hlaw w₁ hl hi) ha
  refine ⟨hi₂, hl₂, fun out hout w' hl' hi' => ?_⟩
  obtain ⟨l', s'⟩ := w₂
  obtain ⟨rfl, ⟨out', hr, hc⟩ | ⟨⟨e, he⟩, -⟩⟩ := ha
  · rw [hout, Except.ok.injEq] at hr
    subst hr
    exact hQ w₁ s' out hl hi hc w' hl' hi'
  · rw [hout] at he
    cases he

theorem only_store {rt : Runtime StoreCall.Ret} (hst : rt.store = memoryStore) {c : StoreCall}
    (hc : Harmless (.ledger c)) : (rt.store c).Only Harmless fun _ => True := by
  rw [hst]
  exact Prog.Only.perform hc

/-- A call on Bronze: its answer is that of some Bronze with the log of the moment. -/
theorem steady_bronze (c : BronzeCall) {Q : c.Ret → Shared → Prop}
    (hlaw : ∀ e, c = .putNew e → e.captureId = e.key)
    (hQ : ∀ w₁ sha256 (b : Bronze), Later w w₁ → Traced rts w₁ → b.log = w₁.log →
      ∀ w', Later ⟨(b.exec sha256 c).2.log, w₁.store⟩ w' → Traced rts w' →
        Q (b.exec sha256 c).1 w') : Steady rts Q (bronzeCall c) w := by
  refine Prog.Abides.call (R := lineageRely rts) (o := .bronze c) (Q := Q) fun w₁ r w₂ hl hi ha => ?_
  have hlawful : Lawful rts w₁ (.bronze c) := by
    cases c with
    | putNew e => exact hlaw e rfl
    | _ => exact trivial
  obtain ⟨hi₂, hl₂⟩ := attends_lawful hi hlawful ha
  refine ⟨hi₂, hl₂, fun out hout w' hl' hi' => ?_⟩
  obtain ⟨l', s'⟩ := w₂
  obtain ⟨hs, sha256, b, hb, ⟨hr, hlog⟩ | ⟨⟨e, he⟩, -⟩⟩ := ha
  · obtain rfl : out = (b.exec sha256 c).1 := Except.ok.inj (hout.symm.trans hr)
    simp only at hs hlog
    subst hs hlog
    exact hQ w₁ sha256 b hl hi hb w' hl' hi'
  · rw [hout] at he
    cases he

theorem only_pyExcept (x : Except PyError α) :
    (pyExcept x : Verb StoreCall.Ret α).Only Harmless fun _ => True := by
  cases x with
  | ok a => exact trivial
  | error e => exact trivial

/-- A computation that makes no call. -/
theorem steady_py (x : Except PyError α) :
    Steady rts (fun a _ => x = .ok a) (pyExcept x : Verb StoreCall.Ret α) w := by
  cases x with
  | ok a => exact steady_ret fun _ _ _ => rfl
  | error e => exact Prog.Abides.raise

theorem steady_clock : Steady rts (fun _ _ => True) (clock : Verb StoreCall.Ret Instant) w :=
  steady_harmless (Prog.Only.perform trivial)

/-! ## Reading the log -/

/-- The entry is in the log, under its own id. -/
def Listed (w : Shared) (e : CaptureEntry) : Prop := w.log.entries.get? e.captureId = some e

theorem Listed.later {e : CaptureEntry} (h : Listed w e) (hl : Later w w') : Listed w' e := hl.log h

theorem Listed.names {e : CaptureEntry} (h : Listed w e) :
    w.log.Names e.captureId e.targetId e.scheduledFor := ⟨e, h, rfl, rfl⟩

theorem listed_of_mem {l : CaptureLog} {s : MemoryStore} (hk : l.Keyed) {e : CaptureEntry}
    (he : e ∈ l.entries.values) : Listed ⟨l, s⟩ e := by
  obtain ⟨k, hg⟩ := Dict.mem_values.mp he
  rw [← hk hg] at hg
  exact hg

theorem steady_list (targetId : String) (since until_ : Option Instant) :
    Steady rts (fun entries w' => ∀ e ∈ entries, Listed w' e ∧ e.targetId = targetId)
      (listEntries targetId since until_ : Verb StoreCall.Ret _) w := by
  refine steady_bronze (.list targetId since until_) (fun e he => by cases he)
    fun w₁ sha256 b _ hi hb w' hl _ e he => ?_
  change e ∈ b.log.list targetId since until_ at he
  simp only [CaptureLog.list, CaptureLog.ordered, List.mem_insertionSort, List.mem_filter,
    decide_eq_true_eq] at he
  exact ⟨(listed_of_mem (hb ▸ hi.keyed) he.1).later hl, he.2.1⟩

theorem steady_entriesFor (targetId : String) (at_ : Instant) :
    Steady rts (fun entries w' => ∀ e ∈ entries,
      Listed w' e ∧ e.targetId = targetId ∧ e.scheduledFor = at_)
      (entriesFor targetId at_ : Verb StoreCall.Ret _) w := by
  refine steady_bronze (.entriesFor targetId at_) (fun e he => by cases he)
    fun w₁ sha256 b _ hi hb w' hl _ e he => ?_
  change e ∈ b.log.entriesFor targetId at_ at he
  simp only [CaptureLog.entriesFor, CaptureLog.ordered, List.mem_insertionSort, List.mem_filter,
    decide_eq_true_eq] at he
  exact ⟨(listed_of_mem (hb ▸ hi.keyed) he.1).later hl, he.2⟩

theorem steady_getEntry (c : CaptureId) :
    Steady rts (fun r w' => ∀ e, r = some e → w'.log.entries.get? c = some e)
      (getEntry c : Verb StoreCall.Ret _) w := by
  refine steady_bronze (.get c) (fun e he => by cases he)
    fun w₁ sha256 b _ hi hb w' hl _ e he => ?_
  have hk : b.log.Keyed := hb ▸ hi.keyed
  exact hl.log (hk.get he)

/-! ## Calls that name a capture -/

theorem ensureRun_at (s : MemoryStore) (targetId : String) (at_ : Instant) (state : RunState)
    (origin : RunOrigin) (c : Option CaptureId) (now : Instant) :
    (s.ensureRun targetId at_ state origin c now).1.targetId = targetId ∧
      (s.ensureRun targetId at_ state origin c now).1.scheduledFor = at_ := by
  obtain ⟨-, run, -, ht, ha, -, -, -, -, -, he⟩ | ⟨old, hf, ⟨-, -, -, he⟩ | ⟨-, he⟩⟩ :=
    s.ensureRun_cases targetId at_ state origin c now
  · rw [he]
    exact ⟨ht, ha⟩
  · rw [he]
    exact (MemoryStore.find_eq_some hf).2
  · rw [he]
    exact (MemoryStore.find_eq_some hf).2

variable {rt : Runtime StoreCall.Ret} (hst : rt.store = memoryStore)

include hst

/-- `ensure_run` with a capture of the instant; the run it returns is of that instant. -/
theorem steady_ensureRun (at_ : Instant) (state : RunState) (origin : RunOrigin)
    {c : Option CaptureId} (now : Instant)
    (hc : ∀ x, c = some x → w.log.Names x rt.targetId at_) :
    Steady rts (fun run w' => RunAt w' run.id rt.targetId at_)
      (rt.ensureRun at_ state origin c now) w := by
  refine steady_store hst (.ensureRun rt.targetId at_ state origin c now)
    (fun w₁ hl _ x hx => (hc x hx).extends hl.log) fun w₁ s' out _ hi he w' hl _ => ?_
  obtain ⟨rfl, rfl⟩ := Prod.mk.inj (Option.some.inj he)
  exact RunAt.later ⟨_, ensureRun_stored hi.wellFormed rt.targetId at_ state origin c now,
    ensureRun_at ..⟩ hl

theorem steady_markRecaptured {i : Nat} {c : CaptureId} (now : Instant) {targetId : String}
    {at_ : Instant} (hrun : RunAt w i targetId at_) (hc : w.log.Names c targetId at_) :
    Steady rts (fun run w' => RunAt w' run.id targetId at_) (rt.markRecaptured i c now) w := by
  refine steady_store hst (.markRecaptured i c now) (fun w₁ hl _ run hr => ?_)
    fun w₁ s' out hl hi he w' hl' _ => ?_
  · obtain ⟨run', hr', ht, ha⟩ := hrun.later hl
    rw [hr, Option.some.injEq] at hr'
    rw [hr', ht, ha]
    exact hc.extends hl.log
  · obtain ⟨old, hold, rfl, rfl⟩ := MemoryStore.markRecaptured_cases he
    obtain ⟨run', hr', ht, ha⟩ := hrun.later hl
    rw [hold, Option.some.injEq] at hr'
    rw [← hr'] at ht ha
    refine RunAt.later ⟨MemoryStore.recaptured old c now, ?_, ht, ha⟩ hl'
    exact Dict.get?_set_self w₁.store.runTable _ _

end Steady

/-! ## Captures -/

section Capture

variable {ι : Type} {rts : ι → Runtime StoreCall.Ret} {w w' : Shared} {rt : Runtime StoreCall.Ret}

theorem only_storePayload (a : Bronze.CaptureArgs) (previous : Option CaptureEntry)
    (blob : Option Bronze.StoredBlob) :
    (Bronze.storePayload a previous blob : Verb StoreCall.Ret _).Only Harmless fun _ => True := by
  unfold Bronze.storePayload
  split
  · split
    · exact trivial
    · split <;> exact trivial
  · split
    · exact trivial
    · exact Prog.Only.bind (Prog.Only.perform trivial) fun _ => trivial

/-- A capture that returns names an entry of its target and instant. -/
theorem steady_captureLoop (a : Bronze.CaptureArgs) (n : Nat) : ∀ (blob : Option Bronze.StoredBlob)
    (collided : Bool) (w : Shared), Traced rts w → Steady rts (fun o w' =>
      w'.log.Names o.entry.captureId a.targetId a.scheduledFor)
      (Bronze.captureLoop a n blob collided : Verb StoreCall.Ret _) w := by
  induction n with
  | zero => exact fun _ _ _ _ => Prog.Abides.raise
  | succ n ih =>
    intro blob collided w hi
    refine steady_bind hi (steady_entriesFor a.targetId a.scheduledFor) fun existing w₁ _ hi₁ he => ?_
    split
    · rename_i last hlast
      refine steady_ret fun w₂ hl₂ _ => ?_
      have hmem : last ∈ existing := by
        split at hlast
        · cases hlast
        · exact List.mem_of_getLast? hlast
      obtain ⟨hlisted, ht, ha⟩ := he last hmem
      have hn := (hlisted.later hl₂).names
      rw [ht, ha] at hn
      exact hn
    · refine steady_bind hi₁ (steady_harmless (only_storePayload ..)) fun stored w₂ _ hi₂ _ => ?_
      obtain ⟨b, blob'⟩ := stored
      have hput : Steady rts (fun created w' => created = true → Listed w'
          (Bronze.entryOf a (Bronze.previousOf a.baseline existing) (Bronze.nextAttempt existing) b))
          (putNew (Bronze.entryOf a (Bronze.previousOf a.baseline existing)
            (Bronze.nextAttempt existing) b) : Verb StoreCall.Ret _) w₂ := by
        refine steady_bronze (.putNew _) (fun e he => by cases he; rfl)
          fun w₃ sha256 bronze _ hi₃ hb w₄ hl₄ _ hcreated => ?_
        have hk : bronze.log.Keyed := hb ▸ hi₃.keyed
        exact hl₄.log ((hk.putNew rfl).2.2 hcreated)
      refine steady_bind hi₂ hput fun created w₃ _ hi₃ hnew => ?_
      cases created with
      | true => exact steady_ret fun w₄ hl₄ _ => ((hnew rfl).later hl₄).names
      | false => exact ih blob' true w₃ hi₃

theorem only_captureBaseline (at_ : Instant) :
    (captureBaseline rt at_).Only Harmless fun _ => True := by
  refine Prog.Only.bind (only_pyExcept _) fun d => ?_
  refine Prog.Only.bind (only_pyExcept _) fun bounds => ?_
  refine Prog.Only.bind (Prog.Only.perform trivial) fun entries => ?_
  exact Prog.Only.bind (only_pyExcept _) fun _ => trivial

theorem only_fetchOutcome (ctx : FetchContext) (conditional : Option Conditional) :
    (fetchOutcome ctx conditional : Verb StoreCall.Ret _).Only Harmless fun _ => True := by
  refine Prog.Only.tryCatch (fun _ => True) (Prog.Only.bind (Prog.Only.perform trivial)
    fun _ => trivial) (fun _ _ => trivial) fun e _ => ?_
  split <;> exact trivial

theorem only_requestedDay (req : CaptureRequest) :
    (requestedDay rt req).Only Harmless fun _ => True := by
  unfold requestedDay
  split
  · exact trivial
  · exact only_pyExcept _

/-- The capture to be acknowledged is one of the request's instant. -/
def AckNamed (rt : Runtime StoreCall.Ret) (req : CaptureRequest) (w : Shared) (a : Ack) : Prop :=
  ∀ c, a.captureId = some c → w.log.Names c rt.targetId req.scheduledFor

theorem steady_bronzeOutcome (a : Bronze.CaptureArgs) (hi : Traced rts w) :
    Steady rts (fun r w' => ∀ o, r = .ok o → w'.log.Names o.entry.captureId a.targetId a.scheduledFor)
      (bronzeOutcome a : Verb StoreCall.Ret _) w := by
  refine Prog.Abides.tryCatch (R := lineageRely rts) hi ?_ fun e w₁ _ _ => ?_
  · refine steady_bind hi (steady_captureLoop a _ _ _ w hi) fun o w₁ _ _ hn => ?_
    refine steady_ret fun w₂ hl₂ _ o' ho => ?_
    cases ho
    exact hn.extends hl₂.log
  · split
    · exact steady_ret fun _ _ _ o ho => by cases ho
    · exact Prog.Abides.raise

theorem steady_captureBronze (req : CaptureRequest) (hi : Traced rts w) :
    Steady rts (fun p w' => AckNamed rt req w' p.ack) (captureBronze rt req) w := by
  have hrefused : ∀ outcome msg (w : Shared), Steady rts (fun p w' => AckNamed rt req w' p.ack)
      (.ret (refusedPlan req outcome msg)) w :=
    fun outcome msg w => steady_ret fun _ _ _ c hc => by cases hc
  refine steady_bind hi (steady_entriesFor rt.targetId req.scheduledFor)
    fun existing w₁ _ hi₁ he => ?_
  split
  · rename_i entry hlast
    refine steady_ret fun w₂ hl₂ _ c hc => ?_
    have hmem : entry ∈ existing := by
      split at hlast
      · cases hlast
      · exact List.mem_of_getLast? hlast
    obtain ⟨hlisted, ht, ha⟩ := he entry hmem
    have hn := (hlisted.later hl₂).names
    rw [ht, ha] at hn
    obtain rfl := Option.some.inj hc
    exact hn
  · refine steady_bind hi₁ (steady_harmless (only_requestedDay req)) fun d w₂ _ hi₂ _ => ?_
    refine steady_bind hi₂ (steady_harmless (only_captureBaseline _)) fun baseline w₃ _ hi₃ _ => ?_
    refine steady_bind hi₃ (steady_harmless (only_fetchOutcome _ _)) fun fetched w₄ _ hi₄ _ => ?_
    cases fetched with
    | error e => exact hrefused _ _ w₄
    | ok result =>
      refine steady_bind hi₄ (steady_bronzeOutcome _ hi₄) fun stored w₅ _ _ hn => ?_
      cases stored with
      | error e => exact hrefused _ _ w₅
      | ok o =>
        refine steady_ret fun w₆ hl₆ _ c hc => ?_
        obtain rfl := Option.some.inj hc
        exact (hn o rfl).extends hl₆.log

theorem steady_ack (hst : rt.store = memoryStore) (req : CaptureRequest) {a : Ack}
    (hi : Traced rts w) (ha : AckNamed rt req w a) :
    Steady rts (fun _ _ => True) (ack rt req a) w := by
  refine steady_bind hi steady_clock fun now w₁ hl₁ hi₁ _ => ?_
  refine Prog.Abides.tryCatch (R := lineageRely rts) hi₁ ?_ fun e w₂ _ _ => ?_
  · refine steady_bind hi₁ (steady_ensureRun hst _ _ _ now fun c hc => (ha c hc).extends hl₁.log)
      fun run w₂ hl₂ hi₂ hrun => ?_
    have hnew : Steady rts (fun _ _ => True) (newGeneration rt a run now) w₂ := by
      unfold newGeneration
      split
      · rename_i c hc
        split
        · refine (steady_markRecaptured hst now hrun ?_).imp fun _ _ _ _ _ => trivial
          exact (ha c hc).extends (hl₁.trans _ _ _ hl₂).log
        · exact steady_ret fun _ _ _ => trivial
      · exact steady_ret fun _ _ _ => trivial
    refine steady_bind hi₂ hnew fun run' w₃ _ hi₃ _ => ?_
    split
    · exact steady_ret fun _ _ _ => trivial
    · refine steady_harmless (Prog.Only.bind (only_store hst ?_) fun _ => trivial)
      exact trivial
  · split
    · exact steady_ret fun _ _ _ => trivial
    · exact Prog.Abides.raise

theorem steady_capture (hst : rt.store = memoryStore) (req : CaptureRequest) (hi : Traced rts w) :
    Steady rts (fun _ _ => True) (capture rt req) w := by
  rw [capture_eq]
  refine steady_bind hi (steady_captureBronze req hi) fun p w₁ _ hi₁ hp => ?_
  refine steady_bind hi₁ (steady_ack hst req hi₁ hp) fun updated w₂ _ _ _ => ?_
  exact steady_ret fun _ _ _ => trivial

end Capture

/-! ## Reconciliation and gaps -/

/-- The entry of an instant is one that was listed for it. -/
theorem entriesByInstant_listed {entries : List CaptureEntry} {t : Instant} {e : CaptureEntry}
    (h : (entriesByInstant entries).get? t = some e) : e ∈ entries ∧ e.scheduledFor = t := by
  have hfold : ∀ (l : List CaptureEntry) (d : Dict Instant CaptureEntry),
      (∀ t e, d.get? t = some e → e ∈ entries ∧ e.scheduledFor = t) → (∀ e ∈ l, e ∈ entries) →
      ∀ t e, (l.foldl (fun d e => d.set e.scheduledFor e) d).get? t = some e →
        e ∈ entries ∧ e.scheduledFor = t := by
    intro l
    induction l with
    | nil => exact fun d hd _ => hd
    | cons x rest ih =>
      intro d hd hl
      refine ih _ (fun t e he => ?_) fun e he => hl e (List.mem_cons_of_mem _ he)
      rw [Dict.get?_set] at he
      split at he
      · rename_i ht
        rw [Option.some.injEq] at he
        rw [← he, ht]
        exact ⟨hl x List.mem_cons_self, rfl⟩
      · exact hd t e he
  exact hfold entries .empty (fun t e h => by cases h) (fun _ he => he) t e h

section Reconcile

variable {ι : Type} {rts : ι → Runtime StoreCall.Ret} {w w' : Shared} {rt : Runtime StoreCall.Ret}
  (hst : rt.store = memoryStore)

include hst

theorem only_mirror (decisions : List Invalidation) :
    (mirror rt decisions).Only Harmless fun _ => True := by
  induction decisions with
  | nil => exact trivial
  | cons inv rest ih => exact Prog.Only.bind (only_store hst trivial) fun _ => ih

/-- What is selected for an instant was listed for it. -/
theorem steady_latestByInstant {P : Instant → CaptureEntry → Prop} (d : DerivationId)
    (entries : List CaptureEntry) : ∀ (latest : Dict Instant CaptureEntry) (w : Shared),
    Traced rts w → (∀ t e, latest.get? t = some e → P t e) → (∀ e ∈ entries, P e.scheduledFor e) →
    Steady rts (fun latest' _ => ∀ t e, latest'.get? t = some e → P t e)
      (latestByInstant rt d entries latest) w := by
  induction entries with
  | nil => exact fun latest w _ hl _ => steady_ret fun _ _ _ => hl
  | cons e rest ih =>
    intro latest w hi hl he
    have hrest : ∀ e ∈ rest, P e.scheduledFor e := fun x hx => he x (List.mem_cons_of_mem _ hx)
    refine steady_bind hi (steady_harmless (only_store hst trivial)) fun void w₁ _ hi₁ _ => ?_
    split
    · exact ih latest w₁ hi₁ hl hrest
    · refine ih _ w₁ hi₁ (fun t x hx => ?_) hrest
      rw [Dict.get?_set] at hx
      split at hx
      · rename_i ht
        rw [Option.some.injEq] at hx
        rw [← hx, ht]
        exact he e List.mem_cons_self
      · exact hl t x hx

theorem steady_advance (known : Dict CaptureId CaptureEntry) (entry : CaptureEntry) (after : Run)
    (now : Instant) {at_ : Instant} (hi : Traced rts w) (hrun : RunAt w after.id rt.targetId at_)
    (hn : w.log.Names entry.captureId rt.targetId at_) :
    Steady rts (fun _ _ => True) (advance rt known entry after now) w := by
  unfold advance
  split
  · exact steady_ret fun _ _ _ => trivial
  · split
    · have hknown : ∀ c, (knownEntry known c : Verb StoreCall.Ret _).Only Harmless fun _ => True := by
        intro c
        unfold knownEntry
        split
        · exact trivial
        · exact Prog.Only.perform trivial
      refine steady_bind hi (steady_harmless (hknown _)) fun old w₁ hl₁ _ _ => ?_
      split
      · exact (steady_markRecaptured hst now (hrun.later hl₁) (hn.extends hl₁.log)).imp
          fun _ _ _ _ _ => trivial
      · exact steady_ret fun _ _ _ => trivial
    · exact steady_ret fun _ _ _ => trivial

theorem steady_reconcileInstants (known : Dict CaptureId CaptureEntry) (now : Instant)
    (instants : List (Instant × CaptureEntry)) : ∀ (touched : List Run) (w : Shared), Traced rts w →
    (∀ p ∈ instants, w.log.Names p.2.captureId rt.targetId p.1) →
    Steady rts (fun _ _ => True) (reconcileInstants rt known now instants touched) w := by
  induction instants with
  | nil => exact fun _ _ _ _ => steady_ret fun _ _ _ => trivial
  | cons p rest ih =>
    intro touched w hi hn
    obtain ⟨at_, entry⟩ := p
    have hentry : w.log.Names entry.captureId rt.targetId at_ := hn _ List.mem_cons_self
    have hone : Steady rts (fun _ _ => True) (reconcileInstant rt known at_ entry now) w := by
      refine steady_bind hi (steady_harmless (only_store hst trivial)) fun before w₁ hl₁ hi₁ _ => ?_
      have hentry₁ := hentry.extends hl₁.log
      refine steady_bind hi₁ (steady_ensureRun hst at_ .captured .reconciled now
        fun c hc => by cases hc; exact hentry₁) fun after w₂ hl₂ hi₂ hrun => ?_
      refine steady_bind hi₂ (steady_advance hst known entry after now hi₂ hrun
        (hentry₁.extends hl₂.log)) fun after' w₃ _ _ _ => ?_
      exact steady_ret fun _ _ _ => trivial
    refine steady_bind hi hone fun run w₁ hl₁ hi₁ _ => ?_
    exact ih _ w₁ hi₁ fun p hp => (hn p (List.mem_cons_of_mem _ hp)).extends hl₁.log

theorem steady_reconcileAt (window : Option Duration) (now : Instant) (hi : Traced rts w) :
    Steady rts (fun _ _ => True) (reconcileAt rt window now) w := by
  refine steady_bind hi (steady_py _) fun since w₁ _ hi₁ _ => ?_
  refine steady_bind hi₁ (steady_harmless (Prog.Only.perform trivial)) fun decisions w₂ _ hi₂ _ => ?_
  refine steady_bind hi₂ (steady_harmless (only_mirror hst _)) fun _ w₃ _ hi₃ _ => ?_
  split
  · exact Prog.Abides.raise
  · rename_i d _
    refine steady_bind hi₃ (steady_list rt.targetId since none) fun entries w₄ _ hi₄ he => ?_
    refine steady_bind hi₄ (steady_latestByInstant hst
      (P := fun t e => e ∈ entries ∧ e.scheduledFor = t) d.derivationId entries .empty w₄ hi₄
      (fun t e h => by cases h) fun e h => ⟨h, rfl⟩) fun latest w₅ hl₅ hi₅ hlatest => ?_
    refine steady_reconcileInstants hst _ now _ _ w₅ hi₅ fun p hp => ?_
    obtain ⟨hmem, ht⟩ := hlatest p.1 p.2 (Dict.get?_eq_some_iff.mpr hp)
    obtain ⟨hlisted, htarget⟩ := he p.2 hmem
    have hn := (hlisted.later hl₅).names
    rw [htarget, ht] at hn
    exact hn

theorem steady_reconcile (window : Option Duration) (now : Option Instant) (hi : Traced rts w) :
    Steady rts (fun _ _ => True) (reconcile rt window now) w := by
  cases now with
  | some t => exact steady_reconcileAt hst window t hi
  | none =>
    exact steady_bind hi steady_clock fun now w₁ _ hi₁ _ => steady_reconcileAt hst window now hi₁

/-- An instant with an entry: the run gets the capture listed for it. -/
theorem steady_capturedInstant (entry : CaptureEntry) (run : Option Run) (t now : Instant)
    (hi : Traced rts w) (hn : w.log.Names entry.captureId rt.targetId t) :
    Steady rts (fun _ _ => True) (capturedInstant rt entry run t now) w := by
  have hensure : Steady rts (fun _ _ => True)
      (rt.ensureRun t .captured .reconciled (some entry.captureId) now) w :=
    (steady_ensureRun hst t .captured .reconciled now fun c hc => by cases hc; exact hn).imp
      fun _ _ _ _ _ => trivial
  have hfirst : ∀ p : Verb StoreCall.Ret Run, Steady rts (fun _ _ => True) p w →
      Steady rts (fun _ _ => True) (p.bind fun run => (.ret (if run.state ≠ .processed then
        some (⟨t, .unprocessedCapture, "replay: the next process run claims it"⟩ : Gap) else none) :
          Verb StoreCall.Ret (Option Gap))) w :=
    fun p hp => steady_bind hi hp fun _ _ _ _ _ => steady_ret fun _ _ _ => trivial
  unfold capturedInstant
  cases run with
  | none => exact hfirst _ hensure
  | some r =>
    simp only
    split
    · exact hfirst _ hensure
    · exact hfirst _ (steady_ret fun _ _ _ => trivial)

theorem only_missingInstant (run : Option Run) (t now : Instant) :
    (missingInstant rt run t now).Only Harmless fun _ => True := by
  unfold missingInstant
  split
  · exact Prog.Only.bind (only_store hst rfl) fun _ => trivial
  · split
    · exact Prog.Only.bind (only_store hst trivial) fun _ => trivial
    · exact trivial

theorem only_lostInstant (run : Option Run) (t now : Instant) :
    (lostInstant rt run t now).Only Harmless fun _ => True := by
  have halert : (alert rt t now).Only Harmless fun _ => True :=
    Prog.Only.bind (only_store hst trivial) fun _ => trivial
  unfold lostInstant
  split
  · exact Prog.Only.bind (only_store hst rfl) fun _ => Prog.Only.bind halert fun _ => trivial
  · split
    · exact Prog.Only.bind (only_store hst trivial) fun _ => Prog.Only.bind halert fun _ => trivial
    · exact trivial

theorem steady_expectedInstants (x : Expected) (instants : List Instant) : ∀ w : Shared,
    Traced rts w → (∀ t e, x.entries.get? t = some e → w.log.Names e.captureId rt.targetId t) →
    Steady rts (fun _ _ => True) (expectedInstants rt x instants) w := by
  induction instants with
  | nil => exact fun _ _ _ => steady_ret fun _ _ _ => trivial
  | cons t rest ih =>
    intro w hi hn
    have hone : Steady rts (fun _ _ => True) (expectedInstant rt x t) w := by
      unfold expectedInstant
      split
      · exact steady_ret fun _ _ _ => trivial
      · split
        · rename_i entry he
          exact steady_capturedInstant hst entry _ t x.now hi (hn t entry he)
        · split
          · exact steady_harmless (only_missingInstant hst _ _ _)
          · exact steady_harmless (only_lostInstant hst _ _ _)
    refine steady_bind hi hone fun gap w₁ hl₁ hi₁ _ => ?_
    refine steady_bind hi₁ (ih w₁ hi₁ fun t e he => (hn t e he).extends hl₁.log)
      fun gaps w₂ _ _ _ => ?_
    exact steady_ret fun _ _ _ => trivial

theorem steady_detectGaps (lookback : Option Duration) (now : Option Instant) (hi : Traced rts w) :
    Steady rts (fun _ _ => True) (detectGaps rt lookback now) w := by
  have hat : ∀ now w, Traced rts w →
      Steady rts (fun _ _ => True) (detectAt rt lookback now) w := by
    intro now w hi
    refine steady_bind hi (steady_py _) fun smallest w₁ _ hi₁ _ => ?_
    refine steady_bind hi₁ (steady_py _) fun cutoff w₂ _ hi₂ _ => ?_
    refine steady_bind hi₂ (steady_py _) fun start w₃ _ hi₃ _ => ?_
    refine steady_bind hi₃ (steady_list rt.targetId (some start) none) fun entries w₄ _ hi₄ he => ?_
    refine steady_bind hi₄ (steady_harmless (only_store hst trivial)) fun runs w₅ hl₅ hi₅ _ => ?_
    refine steady_bind hi₅ (steady_py _) fun instants w₆ hl₆ hi₆ _ => ?_
    refine steady_expectedInstants hst _ instants w₆ hi₆ fun t e hget => ?_
    obtain ⟨hmem, ht⟩ := entriesByInstant_listed hget
    obtain ⟨hlisted, htarget⟩ := he e hmem
    have hn := (hlisted.later (hl₅.trans _ _ _ hl₆)).names
    rw [htarget, ht] at hn
    exact hn
  cases now with
  | some t => exact hat t w hi
  | none => exact steady_bind hi steady_clock fun now w₁ _ hi₁ _ => hat now w₁ hi₁

end Reconcile

end EnergyPlatform
