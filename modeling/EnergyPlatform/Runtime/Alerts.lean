import EnergyPlatform.Lib.Cuts
import EnergyPlatform.Mapping.Targets
import EnergyPlatform.Runtime.Gaps
import EnergyPlatform.Runtime.Reconcile

/-!
# Runtime.Alerts

Passes of the gap detector, each of which may be cut short between two calls.

`alerted_once`: if no pass was cut between marking an instant unrecoverable and its alert, every
unrecoverable run of an instant has exactly one. `alert_lost`: cut there, it never gets one.
-/

namespace EnergyPlatform

open Lib (Dict Prog)

/-- A pass, and the number of calls after which it was cut. -/
structure Pass where
  lookback : Option Duration
  now : Option Instant
  cut : Option Nat

section Alerts

variable (rt : Runtime StoreCall.Ret) (out : Outside)

def Pass.program (p : Pass) : Verb StoreCall.Ret (List Gap) := detectGaps rt p.lookback p.now

/-- The worker after a pass. -/
def Pass.after (p : Pass) (w : Local) : Local :=
  match p.cut with
  | none => ((p.program rt).run (Local.answer out) w).2
  | some n => ((p.program rt).cut (Local.answer out) n w).2

def passes (ps : List Pass) (w : Local) : Local := ps.foldl (fun w p => p.after rt out w) w

/-- The call that records an event. -/
def Op.isAlert : Op StoreCall → Bool
  | .ledger (.addEvents ..) => true
  | _ => false

/-- A call a pass must not be cut before. -/
abbrev Risky (o : Op StoreCall) : Prop := o.isAlert = true

/-- The pass was not cut with its alert next. -/
def Pass.CutWell (p : Pass) (w : Local) : Prop :=
  ∀ n, p.cut = some n → ∀ o, ((p.program rt).cut (Local.answer out) n w).1.next = some o →
    ¬ Risky o

def CutWell : List Pass → Local → Prop
  | [], _ => True
  | p :: rest, w => p.CutWell rt out w ∧ CutWell rest (p.after rt out w)

/-- The alerts of an instant. -/
def alertsOf (s : MemoryStore) (t : Instant) : List StoredEvent :=
  s.eventTable.values.filter fun e =>
    e.targetId = rt.targetId ∧ e.event = gapEvent rt.manifest.maxAge t

/-- A whole minute of the calendar. -/
structure WholeMinute (t : Instant) : Prop where
  whole : t % minute = 0
  inside : datetimeMin ≤ t ∧ t ≤ datetimeMax

/-- The run of an instant is unrecoverable. -/
def Lost (s : MemoryStore) (targetId : String) (t : Instant) : Prop :=
  ∃ run, s.find targetId t = some run ∧ run.state = .unrecoverable

/-- The instant has an entry in the capture log. -/
def HasEntry (b : Bronze) (targetId : String) (t : Instant) : Prop :=
  ∃ e ∈ b.log.entries.values, e.targetId = targetId ∧ e.scheduledFor = t

/-- Event ids are handed out in order. -/
def EventsOk (s : MemoryStore) : Prop := ∀ {i e}, s.eventTable.get? i = some e → i ≤ s.seq.events

/-- Every lost instant has exactly one alert, and the others have none, unless they were captured
since. -/
structure Alerted (w : Local) : Prop where
  store : w.store.WellFormed
  events : EventsOk w.store
  once : ∀ t, WholeMinute t → Lost w.store rt.targetId t → (alertsOf rt w.store t).length = 1
  quiet : ∀ t, WholeMinute t → ¬ Lost w.store rt.targetId t → ¬ HasEntry w.bronze rt.targetId t →
    alertsOf rt w.store t = []

variable {rt out} {w : Local} {s₁ : MemoryStore} {t : Instant}

/-- A change of the run of one instant that does not make it lost. -/
theorem Alerted.step (h : Alerted rt w) (hwf : s₁.WellFormed)
    (he : s₁.eventTable = w.store.eventTable) (hq : s₁.seq.events = w.store.seq.events)
    (helse : ∀ u, u ≠ t → s₁.find rt.targetId u = w.store.find rt.targetId u)
    (hlost : Lost s₁ rt.targetId t → Lost w.store rt.targetId t)
    (hquiet : ¬ Lost s₁ rt.targetId t → ¬ HasEntry w.bronze rt.targetId t →
      ¬ Lost w.store rt.targetId t) : Alerted rt { w with store := s₁ } := by
  have halerts : ∀ u, alertsOf rt s₁ u = alertsOf rt w.store u := fun u => by
    unfold alertsOf
    rw [he]
  have hsame : ∀ u, u ≠ t → (Lost s₁ rt.targetId u ↔ Lost w.store rt.targetId u) := fun u hu => by
    unfold Lost
    rw [helse u hu]
  refine ⟨hwf, fun hi => ?_, fun u hu hl => ?_, fun u hu hl hno => ?_⟩
  · rw [hq]
    rw [he] at hi
    exact h.events hi
  · rw [halerts]
    by_cases hut : u = t
    · exact h.once u hu (hut ▸ hlost (hut ▸ hl))
    · exact h.once u hu ((hsame u hut).mp hl)
  · rw [halerts]
    refine h.quiet u hu ?_ hno
    by_cases hut : u = t
    · exact hut ▸ hquiet (hut ▸ hl) (hut ▸ hno)
    · exact fun hl' => hl ((hsame u hut).mpr hl')

theorem alertsOf_addEvents (hev : EventsOk s₁) (u now : Instant) :
    alertsOf rt (s₁.addEvents rt.targetId [gapEvent rt.manifest.maxAge t] none now).2 u =
      alertsOf rt s₁ u ++ if gapEvent rt.manifest.maxAge t = gapEvent rt.manifest.maxAge u then
        [⟨s₁.seq.events + 1, rt.targetId, none, gapEvent rt.manifest.maxAge t, now⟩] else [] := by
  have hfresh : s₁.eventTable.get? (s₁.seq.events + 1) = none := by
    cases hg : s₁.eventTable.get? (s₁.seq.events + 1) with
    | none => rfl
    | some e => exact absurd (hev hg) (by omega)
  unfold alertsOf
  generalize gapEvent rt.manifest.maxAge t = lost
  generalize gapEvent rt.manifest.maxAge u = asked
  have hvalues : (s₁.addEvents rt.targetId [lost] none now).2.eventTable.values =
      s₁.eventTable.values ++ [⟨s₁.seq.events + 1, rt.targetId, none, lost, now⟩] :=
    Dict.values_set_of_none _ hfresh
  rw [hvalues, List.filter_append]
  congr 1
  by_cases heq : lost = asked
  · rw [if_pos heq, List.filter_cons_of_pos (by simp [heq]), List.filter_nil]
  · rw [if_neg heq, List.filter_cons_of_neg (by simp [heq]), List.filter_nil]

/-- The texts of the alerts of two instants differ. -/
theorem gapEvent_inj {maxAge : String} {t u : Instant} (ht : WholeMinute t) (hu : WholeMinute u)
    (h : gapEvent maxAge t = gapEvent maxAge u) : t = u := by
  have hmessage := congrArg QualityEvent.message h
  unfold gapEvent at hmessage
  refine minuteText_inj ht.inside hu.inside ht.whole hu.whole ?_
  have hlen : (minuteText t).toList.length = (minuteText u).toList.length :=
    (minuteText_length ht.inside).trans (minuteText_length hu.inside).symm
  simp only [String.append_assoc] at hmessage
  exact (append_parts hlen hmessage).1

/-- A run that was marked lost, and then alerted. -/
theorem Alerted.alert (h : Alerted rt w) (hwf : s₁.WellFormed)
    (he : s₁.eventTable = w.store.eventTable) (hq : s₁.seq.events = w.store.seq.events)
    (helse : ∀ u, u ≠ t → s₁.find rt.targetId u = w.store.find rt.targetId u)
    (ht : WholeMinute t) (hlost : Lost s₁ rt.targetId t) (hnew : ¬ Lost w.store rt.targetId t)
    (hno : ¬ HasEntry w.bronze rt.targetId t) (now : Instant) :
    Alerted rt { w with
      store := (s₁.addEvents rt.targetId [gapEvent rt.manifest.maxAge t] none now).2 } := by
  have hev : EventsOk s₁ := fun hi => by
    rw [hq]
    rw [he] at hi
    exact h.events hi
  have hbefore : ∀ u, alertsOf rt s₁ u = alertsOf rt w.store u := fun u => by
    unfold alertsOf
    rw [he]
  have hfind : ∀ u, (s₁.addEvents rt.targetId [gapEvent rt.manifest.maxAge t] none now).2.find
      rt.targetId u = s₁.find rt.targetId u := fun u => rfl
  refine ⟨?_, fun hi => ?_, fun u hu hl => ?_, fun u hu hl hno' => ?_⟩
  · exact hwf.exec (c := .addEvents rt.targetId [gapEvent rt.manifest.maxAge t] none now) rfl
  · simp only [MemoryStore.addEvents, List.foldl_cons, List.foldl_nil, MemoryStore.addEvent] at hi ⊢
    rw [Dict.get?_set] at hi
    split at hi
    · rename_i hid
      exact hid.le
    · exact (hev hi).trans (Nat.le_succ _)
  · rw [alertsOf_addEvents hev, hbefore]
    by_cases hut : u = t
    · rw [hut, if_pos rfl, h.quiet t ht hnew hno]
      rfl
    · have hl' : Lost w.store rt.targetId u := by
        unfold Lost at hl ⊢
        rw [hfind, helse u hut] at hl
        exact hl
      rw [if_neg fun hg => hut (gapEvent_inj ht hu hg).symm, List.append_nil]
      exact h.once u hu hl'
  · have hut : u ≠ t := fun hut => hl (hut ▸ hlost)
    rw [alertsOf_addEvents hev, hbefore, if_neg fun hg => hut (gapEvent_inj ht hu hg).symm,
      List.append_nil]
    refine h.quiet u hu (fun hl' => hl ?_) hno'
    unfold Lost at hl' ⊢
    rw [hfind, helse u hut]
    exact hl'

/-! ## One instant -/

/-- The runs of the other instants, and Bronze, are left alone. -/
structure Elsewhere (rt : Runtime StoreCall.Ret) (t : Instant) (w w' : Local) : Prop where
  bronze : w'.bronze = w.bronze
  find : ∀ u, u ≠ t → w'.store.find rt.targetId u = w.store.find rt.targetId u

/-- What looking at an instant must leave. -/
def Examined (rt : Runtime StoreCall.Ret) (t : Instant) (w w' : Local) : Prop :=
  Alerted rt w' ∧ Elsewhere rt t w w'

theorem keeps_store {α : Type} {I : Local → Prop} {Q : α → Local → Prop} (hst : rt.store = memoryStore)
    {c : StoreCall} {r : c.Ret} {f : c.Ret → Verb StoreCall.Ret α}
    (hexec : w.store.exec c = some (r, s₁)) (h : ¬ Risky (.ledger c) → I w)
    (hf : (f r).Keeps (Local.answer out) Risky I Q { w with store := s₁ }) :
    ((rt.store c).bind f).Keeps (Local.answer out) Risky I Q w := by
  have hans : Local.answer out w (.ledger c) = (.ok r, { w with store := s₁ }) := by
    simp only [Local.answer, hexec]
  rw [hst]
  exact Prog.Keeps.perform_bind hans h hf

theorem exec_ensureRun (s : MemoryStore) (targetId : String) (at_ : Instant) (state : RunState)
    (origin : RunOrigin) (c : Option CaptureId) (now : Instant) :
    s.exec (.ensureRun targetId at_ state origin c now) =
      some ((s.ensureRun targetId at_ state origin c now).1,
        (s.ensureRun targetId at_ state origin c now).2) := rfl

theorem exec_addEvents (s : MemoryStore) (targetId : String) (events : List QualityEvent)
    (a : Option Nat) (now : Instant) : s.exec (.addEvents targetId events a now) =
      some ((s.addEvents targetId events a now).1, (s.addEvents targetId events a now).2) := rfl

/-- Marking an instant that is not lost, so that it is not lost. -/
theorem marked (h : Alerted rt w) (hwf : s₁.WellFormed)
    (he : s₁.eventTable = w.store.eventTable) (hq : s₁.seq.events = w.store.seq.events)
    (helse : ∀ u, u ≠ t → s₁.find rt.targetId u = w.store.find rt.targetId u)
    (hlost : Lost s₁ rt.targetId t ↔ Lost w.store rt.targetId t) :
    Examined rt t w { w with store := s₁ } :=
  ⟨h.step hwf he hq helse hlost.mp fun hn _ => hn ∘ hlost.mpr, rfl, helse⟩

theorem ensureRun_events (s : MemoryStore) (targetId : String) (at_ : Instant) (state : RunState)
    (origin : RunOrigin) (c : Option CaptureId) (now : Instant) :
    (s.ensureRun targetId at_ state origin c now).2.eventTable = s.eventTable ∧
      (s.ensureRun targetId at_ state origin c now).2.seq.events = s.seq.events := by
  rcases MemoryStore.ensureRun_cases s targetId at_ state origin c now with
    ⟨-, r, -, -, -, -, -, -, -, -, he⟩ | ⟨old, -, ⟨-, -, -, he⟩ | ⟨-, he⟩⟩
  all_goals rw [he]
  all_goals exact ⟨rfl, rfl⟩

/-- The run an instant has, under another state. -/
theorem setState_run {s : MemoryStore} (h : s.WellFormed) {targetId : String} {r : Run}
    (hf : s.find targetId t = some r) (state : RunState) (now : Instant) :
    s.exec (.setState r.id state now) = some ({ r with state, updatedAt := now },
        s.putRun { r with state, updatedAt := now }) ∧
      (s.putRun { r with state, updatedAt := now }).WellFormed ∧
      ∀ u, (s.putRun { r with state, updatedAt := now }).find targetId u =
        if u = t then some { r with state, updatedAt := now } else s.find targetId u := by
  obtain ⟨⟨i, hi⟩, hr, hat⟩ := MemoryStore.find_eq_some hf
  have hid : s.runTable.get? r.id = some r := by rw [h.runs.id hi]; exact hi
  have hexec : s.exec (.setState r.id state now) = some ({ r with state, updatedAt := now },
      s.putRun { r with state, updatedAt := now }) := by
    simp only [MemoryStore.exec, MemoryStore.setState, hid, Option.bind_eq_bind, Option.bind_some]
    rfl
  refine ⟨hexec, h.exec hexec, fun u => ?_⟩
  refine (MemoryStore.find_putRun h hi (r := { r with state, updatedAt := now }) rfl rfl rfl
    targetId u).trans ?_
  by_cases hu : u = t
  · rw [if_pos ⟨hr, hat.trans hu.symm⟩, if_pos hu]
  · rw [if_neg fun hc => hu (hc.2.symm.trans hat), if_neg hu]

theorem lost_iff {s : MemoryStore} {targetId : String} {r : Run}
    (h : s.find targetId t = some r) : Lost s targetId t ↔ r.state = .unrecoverable := by
  unfold Lost
  rw [h]
  exact ⟨fun ⟨q, hq, hs⟩ => Option.some.inj hq ▸ hs, fun hs => ⟨r, rfl, hs⟩⟩

theorem not_lost_of_none {s : MemoryStore} {targetId : String} (h : s.find targetId t = none) :
    ¬ Lost s targetId t := by
  rintro ⟨q, hq, -⟩
  cases h.symm.trans hq

section Instant

variable {now : Instant} {run : Option Run}

theorem examined_self (h : Alerted rt w) : Examined rt t w w := ⟨h, rfl, fun _ _ => rfl⟩

theorem ensureRun_elsewhere {s : MemoryStore} (h : s.WellFormed) (targetId : String)
    (state : RunState) (origin : RunOrigin) (c : Option CaptureId) (now : Instant) :
    (s.ensureRun targetId t state origin c now).2.WellFormed ∧
      ∀ u, u ≠ t → (s.ensureRun targetId t state origin c now).2.find targetId u =
        s.find targetId u := by
  refine ⟨h.exec (c := .ensureRun targetId t state origin c now) rfl, fun u hu => ?_⟩
  rw [MemoryStore.find_ensureRun h, if_neg fun hut => hu hut.symm]

/-- A run that is created has the state it is created with. -/
theorem ensureRun_created {s : MemoryStore} (h : s.WellFormed) {targetId : String}
    (hf : s.find targetId t = none) (state : RunState) (origin : RunOrigin)
    (c : Option CaptureId) (now : Instant) :
    Lost (s.ensureRun targetId t state origin c now).2 targetId t ↔ state = .unrecoverable := by
  have hfind : (s.ensureRun targetId t state origin c now).2.find targetId t =
      some (s.ensureRun targetId t state origin c now).1 := by
    rw [MemoryStore.find_ensureRun h, if_pos rfl]
  rw [lost_iff hfind]
  rcases MemoryStore.ensureRun_cases s targetId t state origin c now with
    ⟨-, r, -, -, -, hs, -, -, -, -, he⟩ | ⟨old, ho, -⟩
  · rw [he, hs]
  · cases hf.symm.trans ho

theorem ensureCaptured (h : Alerted rt w)
    (hentry : HasEntry w.bronze rt.targetId t) (c : Option CaptureId) :
    Examined rt t w
      { w with store := (w.store.ensureRun rt.targetId t .captured .reconciled c now).2 } := by
  obtain ⟨hwf, helse⟩ := ensureRun_elsewhere (t := t) h.store rt.targetId .captured .reconciled c now
  obtain ⟨he, hq⟩ := ensureRun_events w.store rt.targetId t .captured .reconciled c now
  refine ⟨h.step hwf he hq helse (fun hl => ?_) fun _ hno => absurd hentry hno, rfl, helse⟩
  have hfind : (w.store.ensureRun rt.targetId t .captured .reconciled c now).2.find rt.targetId t =
      some (w.store.ensureRun rt.targetId t .captured .reconciled c now).1 := by
    rw [MemoryStore.find_ensureRun h.store, if_pos rfl]
  rw [lost_iff hfind] at hl
  rcases MemoryStore.ensureRun_cases w.store rt.targetId t .captured .reconciled c now with
    ⟨-, r, -, -, -, hs, -, -, -, -, he⟩ | ⟨old, ho, ⟨-, -, -, he⟩ | ⟨-, he⟩⟩
  · rw [he] at hl
    cases hs.symm.trans hl
  · rw [he] at hl
    cases hl
  · rw [he] at hl
    exact ⟨old, ho, hl⟩

theorem capturedInstant_keeps (hst : rt.store = memoryStore) (h : Alerted rt w)
    (hentry : HasEntry w.bronze rt.targetId t) (entry : CaptureEntry) :
    (capturedInstant rt entry run t now).Keeps (Local.answer out) Risky (Alerted rt)
      (fun _ => Examined rt t w) w := by
  unfold capturedInstant
  cases run with
  | none =>
    exact keeps_store hst (exec_ensureRun ..) (fun _ => h) (ensureCaptured h hentry _)
  | some r =>
    by_cases hc : r.captureId = none
    · simp only [if_pos hc]
      exact keeps_store hst (exec_ensureRun ..) (fun _ => h) (ensureCaptured h hentry _)
    · simp only [if_neg hc]
      exact examined_self h

theorem missingInstant_keeps (hst : rt.store = memoryStore) (h : Alerted rt w)
    (hrun : run = w.store.find rt.targetId t) :
    (missingInstant rt run t now).Keeps (Local.answer out) Risky (Alerted rt)
      (fun _ => Examined rt t w) w := by
  unfold missingInstant
  cases run with
  | none =>
    obtain ⟨hwf, helse⟩ := ensureRun_elsewhere (t := t) h.store rt.targetId .missingCapture
      .backfill none now
    obtain ⟨he, hq⟩ := ensureRun_events w.store rt.targetId t .missingCapture .backfill none now
    refine keeps_store hst (exec_ensureRun ..) (fun _ => h) (marked h hwf he hq helse ?_)
    rw [ensureRun_created h.store hrun.symm]
    exact ⟨nofun, fun hl => absurd hl (not_lost_of_none hrun.symm)⟩
  | some r =>
    by_cases hs : r.state = .scheduled ∨ r.state = .failed
    · obtain ⟨hexec, hwf, hfind⟩ := setState_run h.store hrun.symm .missingCapture now
      simp only [if_pos hs]
      refine keeps_store hst hexec (fun _ => h)
        (marked h hwf rfl rfl (fun u hu => (hfind u).trans (if_neg hu)) ?_)
      rw [lost_iff ((hfind t).trans (if_pos rfl)), lost_iff hrun.symm]
      exact ⟨nofun, fun hl => by rcases hs with hs | hs <;> cases hs.symm.trans hl⟩
    · simp only [if_neg hs]
      exact examined_self h

/-- The alert that follows a mark. -/
theorem alert_keeps (hst : rt.store = memoryStore) {gap : Option Gap}
    (h : ∀ now, Examined rt t w { w with
      store := (s₁.addEvents rt.targetId [gapEvent rt.manifest.maxAge t] none now).2 }) :
    ((alert rt t now).bind fun _ => .ret gap).Keeps (Local.answer out) Risky (Alerted rt)
      (fun _ => Examined rt t w) { w with store := s₁ } := by
  have hassoc : (alert rt t now).bind (fun _ => .ret gap) =
      (rt.store (.addEvents rt.targetId [gapEvent rt.manifest.maxAge t] none now)).bind
        fun _ => .ret gap := Prog.bind_assoc _ (fun _ => .ret ()) _
  rw [hassoc]
  exact keeps_store hst (exec_addEvents ..) (fun hno => absurd rfl hno) (h now)

theorem lostInstant_keeps (hst : rt.store = memoryStore) (h : Alerted rt w) (ht : WholeMinute t)
    (hrun : run = w.store.find rt.targetId t) (hno : ¬ HasEntry w.bronze rt.targetId t) :
    (lostInstant rt run t now).Keeps (Local.answer out) Risky (Alerted rt)
      (fun _ => Examined rt t w) w := by
  unfold lostInstant
  cases run with
  | none =>
    obtain ⟨hwf, helse⟩ := ensureRun_elsewhere (t := t) h.store rt.targetId .unrecoverable
      .backfill none now
    obtain ⟨he, hq⟩ := ensureRun_events w.store rt.targetId t .unrecoverable .backfill none now
    have hlost := (ensureRun_created h.store hrun.symm .unrecoverable .backfill none now).mpr rfl
    refine keeps_store hst (exec_ensureRun ..) (fun _ => h) (alert_keeps hst fun at_ => ⟨?_, rfl, helse⟩)
    exact h.alert hwf he hq helse ht hlost (not_lost_of_none hrun.symm) hno at_
  | some r =>
    by_cases hs : r.state ≠ .unrecoverable
    · obtain ⟨hexec, hwf, hfind⟩ := setState_run h.store hrun.symm .unrecoverable now
      have helse : ∀ u, u ≠ t → _ = _ := fun u hu => (hfind u).trans (if_neg hu)
      have hlost := (lost_iff ((hfind t).trans (if_pos rfl))).mpr rfl
      simp only [if_pos hs]
      refine keeps_store hst hexec (fun _ => h) (alert_keeps hst fun at_ => ⟨?_, rfl, helse⟩)
      exact h.alert hwf rfl rfl helse ht hlost (fun hl => hs ((lost_iff hrun.symm).mp hl)) hno at_
    · simp only [if_neg hs]
      exact examined_self h

/-- What a pass has read about an instant is so. -/
structure Read (rt : Runtime StoreCall.Ret) (x : Expected) (w : Local) (t : Instant) : Prop where
  run : x.runs.get? t = w.store.find rt.targetId t
  entry : (∃ e, x.entries.get? t = some e) ↔ HasEntry w.bronze rt.targetId t

theorem expectedInstant_keeps (hst : rt.store = memoryStore) (h : Alerted rt w) (ht : WholeMinute t)
    {x : Expected} (hread : Read rt x w t) :
    (expectedInstant rt x t).Keeps (Local.answer out) Risky (Alerted rt)
      (fun _ => Examined rt t w) w := by
  unfold expectedInstant
  split
  · exact examined_self h
  · cases hentry : x.entries.get? t with
    | some entry => exact capturedInstant_keeps hst h (hread.entry.mp ⟨entry, hentry⟩) entry
    | none =>
      have hno : ¬ HasEntry w.bronze rt.targetId t := fun he => by
        obtain ⟨e, he⟩ := hread.entry.mpr he
        cases hentry.symm.trans he
      simp only
      split
      · exact missingInstant_keeps hst h hread.run
      · exact lostInstant_keeps hst h ht hread.run hno

/-- The instants of a pass, each of which was read before any of them was looked at. -/
theorem expectedInstants_keeps (hst : rt.store = memoryStore) {x : Expected} {l : List Instant} :
    ∀ {w : Local}, Alerted rt w → l.Nodup → (∀ t ∈ l, WholeMinute t) → (∀ t ∈ l, Read rt x w t) →
      (expectedInstants rt x l).Keeps (Local.answer out) Risky (Alerted rt)
        (fun _ => Alerted rt) w := by
  induction l with
  | nil => exact fun h _ _ _ => h
  | cons t rest ih =>
    intro w h hnodup hwhole hread
    obtain ⟨hnew, hnodup⟩ := List.nodup_cons.mp hnodup
    unfold expectedInstants
    refine Prog.Keeps.bind (expectedInstant_keeps hst h (hwhole t List.mem_cons_self)
      (hread t List.mem_cons_self)) fun gap w' ⟨h', helse⟩ => ?_
    refine Prog.Keeps.bind (ih h' hnodup (fun u hu => hwhole u (List.mem_cons_of_mem t hu))
      fun u hu => ?_) fun gaps w'' h'' => h''
    have hut : u ≠ t := fun hut => hnew (hut ▸ hu)
    obtain ⟨hr, he⟩ := hread u (List.mem_cons_of_mem t hu)
    exact ⟨hr.trans (helse.find u hut).symm, by rw [helse.bronze]; exact he⟩

/-! ## A pass -/

theorem keeps_pyExcept {α β : Type} {I : Local → Prop} {Q : β → Local → Prop} {x : Except PyError α}
    {f : α → Verb StoreCall.Ret β} (h : I w)
    (hf : ∀ a, x = .ok a → (f a).Keeps (Local.answer out) Risky I Q w) :
    ((pyExcept x).bind f).Keeps (Local.answer out) Risky I Q w := by
  cases x with
  | error e => exact h
  | ok a => exact hf a rfl

/-- The instants a pass looks at. -/
theorem cronInstants_wholeMinute {txt : TextPrims} {zone : Zone} {expression : String}
    {start stop : Instant} {l : List Instant}
    (hl : cronInstants txt zone expression start stop = .ok l) :
    l.Nodup ∧ ∀ t ∈ l, WholeMinute t ∧ start < t := by
  obtain ⟨cron, hparse, h⟩ := bind_eq_ok.mp hl
  obtain ⟨start', hstart, h⟩ := bind_eq_ok.mp h
  obtain ⟨next, -, h⟩ := bind_eq_ok.mp h
  obtain ⟨stop', hstop, -⟩ := bind_eq_ok.mp h
  refine ⟨(cronInstants_sorted hparse hl).imp ne_of_lt, fun t ht => ?_⟩
  obtain ⟨⟨h₁, h₂⟩, hf⟩ := (mem_cronInstants hparse hl).mp ht
  exact ⟨⟨hf.whole, (checkedInstant_range hstart).1.trans h₁.le,
    h₂.trans (checkedInstant_range hstop).2⟩, h₁⟩

theorem read_runs {s : MemoryStore} (h : s.WellFormed) {targetId : String} {start : Instant}
    (hafter : start < t) :
    (runsByInstant (s.runs targetId (some start) none)).get? t = s.find targetId t := by
  have hsame : ∀ r ∈ s.runs targetId (some start) none, ∀ q ∈ s.runs targetId (some start) none,
      r.scheduledFor = q.scheduledFor → r = q := by
    intro r hr q hq hrq
    obtain ⟨⟨i, hi⟩, hrt, -⟩ := MemoryStore.mem_runs.mp hr
    obtain ⟨⟨j, hj⟩, hqt, -⟩ := MemoryStore.mem_runs.mp hq
    rw [h.runs.unique hi hj (hrt.trans hqt.symm) hrq, hj] at hi
    exact (Option.some.inj hi).symm
  refine Option.ext fun r => ?_
  refine (Dict.get?_foldl_set Run.scheduledFor id _ hsame .empty).trans ?_
  rw [MemoryStore.find_iff h.runs]
  constructor
  · rintro (⟨q, hq, hat, rfl⟩ | ⟨hr, -⟩)
    · obtain ⟨hi, ht, -⟩ := MemoryStore.mem_runs.mp hq
      exact ⟨hi, ht, hat⟩
    · cases hr
  · rintro ⟨hi, ht, hat⟩
    refine .inl ⟨r, MemoryStore.mem_runs.mpr ⟨hi, ht, fun u hu => ?_, fun u hu => ?_⟩, hat, rfl⟩
    · obtain rfl := Option.some.inj hu
      exact hat ▸ hafter.le
    · cases hu

theorem read_entries {b : Bronze} {targetId : String} {start : Instant} (hafter : start < t) :
    (∃ e, (entriesByInstant (b.log.list targetId (some start) none)).get? t = some e) ↔
      HasEntry b targetId t := by
  refine (Dict.written_foldl_set CaptureEntry.scheduledFor id _ .empty).trans ?_
  unfold HasEntry
  simp only [CaptureLog.list, CaptureLog.ordered, List.mem_insertionSort, List.mem_filter,
    Option.mem_def, decide_eq_true_eq, Dict.get?_empty]
  constructor
  · rintro (⟨e, ⟨he, ht, -⟩, hat⟩ | ⟨e, he⟩)
    · exact ⟨e, he, ht, hat⟩
    · cases he
  · rintro ⟨e, he, ht, hat⟩
    refine .inl ⟨e, ⟨he, ht, fun u hu => ?_, fun u hu => ?_⟩, hat⟩
    · obtain rfl := Option.some.inj hu
      exact hat ▸ hafter.le
    · cases hu

theorem detectFrom_keeps (hst : rt.store = memoryStore) (h : Alerted rt w) (tolerance : Duration)
    (cutoff : Option Instant) (lookback : Duration) :
    (detectFrom rt tolerance cutoff lookback now).Keeps (Local.answer out) Risky (Alerted rt)
      (fun _ => Alerted rt) w := by
  unfold detectFrom
  refine keeps_pyExcept h fun start hstart => ?_
  have hans : Local.answer out w (.bronze (.list rt.targetId (some start) none)) =
      (.ok (w.bronze.log.list rt.targetId (some start) none), w) := rfl
  refine Prog.Keeps.perform_bind hans (fun _ => h) ?_
  have hexec : w.store.exec (.runs rt.targetId (some start) none) =
      some (w.store.runs rt.targetId (some start) none, w.store) := rfl
  refine keeps_store hst hexec (fun _ => h) ?_
  refine keeps_pyExcept h fun instants hinstants => ?_
  obtain ⟨hnodup, hwhole⟩ := cronInstants_wholeMinute hinstants
  exact expectedInstants_keeps hst h hnodup (fun t ht => (hwhole t ht).1) fun t ht =>
    ⟨read_runs h.store (hwhole t ht).2, read_entries (hwhole t ht).2⟩

theorem detectGaps_keeps (hst : rt.store = memoryStore) (h : Alerted rt w)
    (lookback : Option Duration) (at_ : Option Instant) :
    (detectGaps rt lookback at_).Keeps (Local.answer out) Risky (Alerted rt)
      (fun _ => Alerted rt) w := by
  have hat : ∀ {w : Local} (now : Instant), Alerted rt w →
      (detectAt rt lookback now).Keeps (Local.answer out) Risky (Alerted rt)
        (fun _ => Alerted rt) w :=
    fun now h => keeps_pyExcept h fun _ _ => keeps_pyExcept h fun _ _ => detectFrom_keeps hst h ..
  cases at_ with
  | some now => exact hat now h
  | none =>
    have hans : Local.answer out w .clock =
        (.ok (out.clock w.reads), { w with reads := w.reads + 1 }) := rfl
    exact Prog.Keeps.perform_bind hans (fun _ => h)
      (hat _ ⟨h.store, h.events, h.once, h.quiet⟩)

end Instant

theorem passes_cut {p : Pass} {n : Nat} (h : p.cut = some n) :
    passes rt out [p] w = ((p.program rt).cut (Local.answer out) n w).2 := by
  simp only [passes, List.foldl_cons, List.foldl_nil, Pass.after, h]

/-- A pass that was not cut with its alert next. -/
theorem Alerted.pass (hst : rt.store = memoryStore) (h : Alerted rt w) {p : Pass}
    (hcut : p.CutWell rt out w) : Alerted rt (p.after rt out w) := by
  have hkeeps : (p.program rt).Keeps (Local.answer out) Risky (Alerted rt)
      (fun _ => Alerted rt) w := detectGaps_keeps hst h p.lookback p.now
  unfold Pass.after
  cases hp : p.cut with
  | none => exact hkeeps.run_keeps fun _ _ h => h
  | some n => exact hkeeps.cut (fun _ _ h => h) n (hcut n hp)

theorem Alerted.passes (hst : rt.store = memoryStore) {ps : List Pass} :
    ∀ {w : Local}, Alerted rt w → CutWell rt out ps w → Alerted rt (passes rt out ps w) := by
  induction ps with
  | nil => exact fun h _ => h
  | cons p rest ih => exact fun h hcut => ih (h.pass hst hcut.1) hcut.2

theorem Alerted.init (b : Bronze) (reads fetches : Nat) : Alerted rt ⟨b, .init, reads, fetches⟩ where
  store := .init
  events hi := by cases hi
  once := by
    rintro t - ⟨run, hrun, -⟩
    cases hrun
  quiet := fun _ _ _ _ => rfl

/-- Every unrecoverable gap is alerted exactly once, as long as no pass was cut between marking the
run and its alert: after any sequence of passes, cut anywhere else, a pass that completes leaves
every unrecoverable run of a whole minute with exactly one alert. -/
theorem alerted_once (hst : rt.store = memoryStore) (out : Outside) (h : Alerted rt w)
    {ps : List Pass} (hcut : CutWell rt out ps w) {lookback : Option Duration}
    {now : Option Instant} {gaps : List Gap} {w' : Local}
    (hrun : (detectGaps rt lookback now).run (Local.answer out) (passes rt out ps w) =
      (.ok gaps, w')) :
    ∀ t run, WholeMinute t → w'.store.find rt.targetId t = some run → run.state = .unrecoverable →
      (alertsOf rt w'.store t).length = 1 := by
  intro t run ht hfind hs
  have hkeeps : (detectGaps rt lookback now).Keeps (Local.answer out) Risky (Alerted rt)
      (fun _ => Alerted rt) (passes rt out ps w) :=
    detectGaps_keeps hst (h.passes hst hcut) lookback now
  exact (hkeeps.run hrun).once t ht ⟨run, hfind, hs⟩

end Alerts

/-! ## A pass that is cut before its alert -/

/-- A source that is not there. -/
def silentSource : Outside where
  sha256 := hexAddress
  clock n := n * minute
  fetch _ _ _ := .error (.unavailable "no answer")
  faults _ := none
  serverVersion := 160000

/-- A target captured every minute whose source serves no history. -/
def minutelyWorker : Runtime StoreCall.Ret where
  manifest := { oteIntradayMarket with
    cadence := ⟨"* * * * *", "Europe/Prague", none⟩
    maxAge := "none" }
  impl := asciiImplementation .refusing fun _ => 0
  store := memoryStore
  owner := "worker"
  leaseTtl := 5 * minute
  reconcileWindow := 48 * hour

def everyMinute : CronExpression where
  minutes := CronExpression.steps 0 59 1
  hours := CronExpression.steps 0 23 1
  days := CronExpression.steps 1 31 1
  months := CronExpression.steps 1 12 1
  weekdays := (CronExpression.steps 0 7 1).map fun d => if d = 7 then 0 else d
  dayRestricted := false
  weekdayRestricted := false

/-- 2026-09-29T12:00:00Z. -/
def noon : Instant := 1790683200 * second

/-- A pass over the last three minutes. -/
def shortPass (now : Instant) (cut : Option Nat) : Pass := ⟨some (3 * minute), some now, cut⟩

theorem fixed_hour_offsetOk : (Zone.fixed hour).OffsetOk := by
  refine ⟨fun t => ⟨?_, ?_⟩, fun t => ⟨?_, ?_⟩⟩
  · exact Int.lt_of_lt_of_le (Int.sub_lt_self t (by decide)) (Int.le_add_of_nonneg_right (by decide))
  · exact Int.add_lt_add_left (by decide) t
  · exact Int.sub_lt_sub_left (by decide) t
  · exact Int.lt_of_le_of_lt (Int.sub_le_self t (by decide)) (Int.lt_add_of_pos_right t (by decide))

theorem minutely_cadence : cadenceOf minutelyWorker.env.txt
    (minutelyWorker.env.zones minutelyWorker.manifest.cadence.timezone)
    minutelyWorker.manifest.cadence.cron noon = .ok minute := by
  have hparse : CronExpression.parse minutelyWorker.env.txt minutelyWorker.manifest.cadence.cron =
      .ok everyMinute := by decide +kernel
  exact cadenceOf_minute (a := noon) hparse fixed_hour_offsetOk ⟨by decide, by decide⟩
    ⟨by decide, by decide⟩ ⟨by decide, by decide +kernel⟩ ⟨by decide, by decide +kernel⟩ (by decide)
    (by decide)

theorem shortPass_program : detectGaps minutelyWorker (some (3 * minute)) (some noon) =
    detectFrom minutelyWorker (2 * minute) none (3 * minute) noon := by
  have hm : maxAgeCutoff minutelyWorker.env.txt minutelyWorker.zone noon
      minutelyWorker.manifest.maxAge = .ok none := if_pos rfl
  have hne : ¬ (3 * minute = 0) := by decide
  have hl : lookbackOf minutelyWorker (some (3 * minute)) = 3 * minute := by
    rw [lookbackOf, if_neg hne]
  rw [detectGaps_of_bounds minutely_cadence hm, hl]

/-- A new worker with nothing in Bronze. -/
def fresh : Local := ⟨⟨.empty, none, .empty⟩, .init, 0, 0⟩

/-- The worker after a pass that was cut after `n` calls. -/
theorem cut_pass (n : Nat) : passes minutelyWorker silentSource [shortPass noon (some n)] fresh =
    ((detectFrom minutelyWorker (2 * minute) none (3 * minute) noon).cut
      (Local.answer silentSource) n fresh).2 := by
  rw [← shortPass_program]
  exact passes_cut rfl

/-- The second of two passes, the first of which was cut after `n` calls. -/
def afterCut (n : Nat) : Except Exn (List Gap) × Local :=
  (detectFrom minutelyWorker (2 * minute) none (3 * minute) noon).run (Local.answer silentSource)
    ((detectFrom minutelyWorker (2 * minute) none (3 * minute) noon).cut
      (Local.answer silentSource) n fresh).2

theorem afterCut_run {n : Nat} (h : (afterCut n).1.isOk = true) : ∃ gaps,
    (detectGaps minutelyWorker (some (3 * minute)) (some noon)).run (Local.answer silentSource)
      (passes minutelyWorker silentSource [shortPass noon (some n)] fresh) =
        (.ok gaps, (afterCut n).2) := by
  rw [cut_pass, shortPass_program]
  change ∃ gaps, afterCut n = (.ok gaps, (afterCut n).2)
  generalize afterCut n = final at h ⊢
  obtain ⟨r, w'⟩ := final
  cases r with
  | error e => cases h
  | ok gaps => exact ⟨gaps, rfl⟩

/-- A pass is cut between marking an instant and its alert. The next pass finds the instant marked
and says nothing. -/
theorem alert_lost : ∃ gaps w',
    (detectGaps minutelyWorker (some (3 * minute)) (some noon)).run (Local.answer silentSource)
      (passes minutelyWorker silentSource [shortPass noon (some 3)] fresh) = (.ok gaps, w') ∧
    ∃ t run, WholeMinute t ∧ w'.store.find minutelyWorker.targetId t = some run ∧
      run.state = .unrecoverable ∧ (alertsOf minutelyWorker w'.store t).length = 0 := by
  obtain ⟨gaps, hrun⟩ := afterCut_run (n := 3) (by decide +kernel)
  have hstate : ((afterCut 3).2.store.find minutelyWorker.targetId (noon - 2 * minute)).map
      Run.state = some .unrecoverable := by decide +kernel
  obtain ⟨run, hfind, hs⟩ := Option.map_eq_some_iff.mp hstate
  exact ⟨gaps, _, hrun, noon - 2 * minute, run, ⟨by decide, by decide, by decide⟩, hfind, hs,
    by decide +kernel⟩

/-- Cut before the mark instead, the pass is made up for. -/
theorem alerted_once_after_cut : ∃ gaps w',
    (detectGaps minutelyWorker (some (3 * minute)) (some noon)).run (Local.answer silentSource)
      (passes minutelyWorker silentSource [shortPass noon (some 2)] fresh) = (.ok gaps, w') ∧
    ∀ t run, WholeMinute t → w'.store.find minutelyWorker.targetId t = some run →
      run.state = .unrecoverable → (alertsOf minutelyWorker w'.store t).length = 1 := by
  obtain ⟨gaps, hrun⟩ := afterCut_run (n := 2) (by decide +kernel)
  have hnext : (((detectFrom minutelyWorker (2 * minute) none (3 * minute) noon).cut
      (Local.answer silentSource) 2 fresh).1.next.any Op.isAlert) = false := by decide +kernel
  have hcut : (shortPass noon (some 2)).CutWell minutelyWorker silentSource fresh := by
    intro n hn o ho
    obtain rfl := Option.some.inj hn
    rw [← shortPass_program] at hnext
    rw [Pass.program, shortPass] at ho
    rw [ho] at hnext
    exact Bool.eq_false_iff.mp hnext
  have hcuts : CutWell minutelyWorker silentSource [shortPass noon (some 2)] fresh := ⟨hcut, trivial⟩
  exact ⟨gaps, _, hrun, alerted_once rfl silentSource (Alerted.init _ 0 0) hcuts hrun⟩

end EnergyPlatform
