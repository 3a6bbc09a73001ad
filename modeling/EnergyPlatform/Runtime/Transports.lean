import EnergyPlatform.Contracts.DayTiling
import EnergyPlatform.Contracts.DecimalText
import EnergyPlatform.Contracts.Exact
import EnergyPlatform.Contracts.Numerals
import EnergyPlatform.Mapping.Completeness
import EnergyPlatform.Mapping.Emitted
import EnergyPlatform.Store.CurrentView

/-!
# Runtime.Transports

The comparison of a processed document with the current rows of the other transports.

The rows of all other transports are gathered in one dictionary, keyed by the identity without the
transport, so for each identity one row decides: that of the last other transport which has one
(`get?_otherTransportRows`). `reconciles_iff`: exactly when that row stands for all of them.
-/

namespace EnergyPlatform

open Lib (Dict)

def windowOf : List EnergyObservation → Option (Instant × Instant)
  | [] => none
  | o :: rest =>
    some (rest.foldl (fun t p => min t p.deliveryStartUtc) o.deliveryStartUtc,
      rest.foldl (fun t p => max t p.deliveryEndUtc) o.deliveryEndUtc)

/-- One pass of the loop of `_other_transport_rows`. -/
def addTransport (s : MemoryStore) (datasetId : String) (start stop : Instant)
    (out : OtherCurrent) (other : Transport) : Option OtherCurrent := do
  let rows ← s.currentRows dataset ⟨datasetId, some start, some stop, none, some other⟩
  some (rows.foldl
    (fun out row => out.set (observationIdentity row.observation) (other, row.observation.value))
    out)

/-- `_other_transport_rows` for a target of transport `mine`. -/
def otherTransportRows (s : MemoryStore) (mine : Transport) (datasetId : String)
    (observations : List EnergyObservation) : Option OtherCurrent :=
  match windowOf observations, dataset datasetId with
  | some (start, stop), some contract =>
    if contract.metrics.any fun m => m.ownerTransport.isSome then
      (Transport.all.filter fun t => t ≠ mine).foldlM
        (addTransport s contract.datasetId start stop) .empty
    else some .empty
  | _, _ => some .empty

/-! ## What a comparison should say -/

section Rows

variable (s : MemoryStore) (mine : Transport) (o : EnergyObservation)

/-- The current rows of one transport of a dataset. -/
def transportView (datasetId : String) (t : Transport) : List CurrentRow :=
  (s.currentRows dataset ⟨datasetId, none, none, none, some t⟩).getD []

/-- The current row of a transport for an identity, as its value. -/
def currentValue (datasetId : String) (k : ObservationIdentity) (t : Transport) :
    Option (Transport × Option Decimal) :=
  ((transportView s datasetId t).find? fun c => observationIdentity c.observation = k).map
    fun c => (t, c.observation.value)

/-- The current rows of the other transports for the identity of `o`, in the order of
`Transport`. -/
def otherRows : List (Transport × Option Decimal) :=
  (Transport.all.filter fun t => t ≠ mine).filterMap
    (currentValue s o.datasetId (observationIdentity o))

/-- Two finite values differ by more than the unit's tolerance. -/
def Differs (unit : String) (v w : Decimal) : Prop :=
  v.isFinite ∧ w.isFinite ∧ (tolerance unit).toRat < |v.toRat - w.toRat|

/-- Some other transport's current value differs. -/
def Contested (v : Decimal) : Prop := ∃ t w, (t, some w) ∈ otherRows s mine o ∧ Differs o.unit v w

/-- The owner's value for the identity of `o`. -/
def ownerValue (owner : Transport) : Option Decimal :=
  if o.sourceTransport = owner then o.value
  else ((otherRows s mine o).find? fun p => p.1 = owner).bind Prod.snd

/-- The events an observation should raise: one that records the owner's value when some other
transport's row differs, none otherwise. -/
structure Flagged (owner : Transport) (v : Decimal) (events : List QualityEvent) : Prop where
  mismatch : Contested s mine o v → ∃ a b, mismatchEvent o owner a b ∈ events ∧
    ownerValue s mine o owner = some (if o.sourceTransport = owner then a else b)
  agreement : ¬ Contested s mine o v → events = []

/-- The comparison of `reconcile_transports`. -/
def exceeds (unit : String) (v w : Decimal) : Except PyError Bool := do
  let difference ← v.sub w
  let size ← difference.abs
  size.gt (tolerance unit)

/-- The row that decides, that of the last other transport which has one, differs exactly when
some row does, and then shows the owner's value. -/
def LastDecides (owner : Transport) (v : Decimal) : Prop :=
  match (otherRows s mine o).getLast? with
  | some (_, some w) => ∃ large, exceeds o.unit v w = .ok large ∧
      (large = true ↔ Contested s mine o v) ∧
      (large = true → o.sourceTransport = owner ∨
        ∃ u, ownerValue s mine o owner = some u ∧ u.toText = w.toText)
  | _ => ¬ Contested s mine o v

end Rows

/-- The observations come from a document of this target, as `map_records` builds them. -/
def DocumentOf (mine : Transport) (datasetId : String) (observations : List EnergyObservation) :
    Prop :=
  ∀ o ∈ observations, o.sourceTransport = mine ∧ o.datasetId = datasetId

section Documents

variable {env : Env} {manifest : Manifest} {contract : DatasetContract} {ctx : MappingContext}

theorem foldlM_keeps {ε σ α : Type} {I : σ → Prop} {f : σ → α → Except ε σ}
    (hstep : ∀ a b b', I b → f b a = .ok b' → I b') : ∀ (l : List α) {b b' : σ}, I b →
      l.foldlM f b = .ok b' → I b' := by
  intro l
  induction l with
  | nil =>
    intro b b' hb h
    cases h
    exact hb
  | cons a l ih =>
    intro b b' hb h
    obtain ⟨mid, hmid, h⟩ := bind_eq_ok.mp h
    exact ih (hstep a b mid hb hmid) h

theorem mapMetric_document {record : SourceRecord} {e : Envelope} {name : String}
    {mm : MetricMapping} {o : EnergyObservation} {events : List QualityEvent}
    (h : mapMetric env manifest contract record ctx e name mm = .ok (o, events)) :
    o.sourceTransport = manifest.contract.sourceTransport ∧ o.datasetId = contract.datasetId := by
  unfold mapMetric at h
  split at h
  · cases h
  · obtain ⟨value, -, h⟩ := bind_eq_ok.mp h
    obtain ⟨isNegative, -, h⟩ := bind_eq_ok.mp h
    split at h
    · cases h
    · obtain ⟨o', ho', h⟩ := bind_eq_ok.mp h
      obtain ⟨rfl, -⟩ := validated_ok ho'
      obtain ⟨rfl, -⟩ := Prod.mk.inj (Except.ok.inj h)
      exact ⟨rfl, rfl⟩

theorem noteObservation_document {locator : String} {seen seen' : Seen} {o : EnergyObservation}
    {mine : Transport} {datasetId : String} (hseen : DocumentOf mine datasetId seen.values)
    (ho : o.sourceTransport = mine ∧ o.datasetId = datasetId)
    (h : noteObservation locator seen o = .ok seen') : DocumentOf mine datasetId seen'.values := by
  unfold noteObservation at h
  split at h
  · cases h
    intro p hp
    obtain ⟨k, hk⟩ := Dict.mem_values.mp hp
    rw [Dict.get?_set] at hk
    split at hk
    · cases hk
      exact ho
    · exact hseen p (Dict.mem_values.mpr ⟨k, hk⟩)
  · split at h
    · cases h
      exact hseen
    · cases h

theorem mapRecords_document {records : List SourceRecord} {result : MappingResult}
    (h : mapRecords env manifest records ctx = .ok result) :
    DocumentOf manifest.contract.sourceTransport manifest.contract.datasetId
      result.observations := by
  unfold mapRecords at h
  cases hd : dataset manifest.contract.datasetId with
  | none =>
    rw [hd] at h
    cases h
  | some contract =>
    rw [hd] at h
    obtain ⟨last, hlast, h⟩ := bind_eq_ok.mp h
    cases h
    have hid : contract.datasetId = manifest.contract.datasetId := by
      simpa using List.find?_some hd
    rw [← hid]
    refine foldlM_keeps (I := fun s : MapState => DocumentOf manifest.contract.sourceTransport
      contract.datasetId s.seen.values) (fun record s s' hs h => ?_) records (fun _ hp => ?_) hlast
    · obtain ⟨e, -, h⟩ := bind_eq_ok.mp h
      refine foldlM_keeps (I := fun s : MapState => DocumentOf manifest.contract.sourceTransport
        contract.datasetId s.seen.values) (fun p s s' hs h => ?_) _ ?_ h
      · obtain ⟨⟨o, events⟩, ho, h⟩ := bind_eq_ok.mp h
        obtain ⟨seen, hseen, h⟩ := bind_eq_ok.mp h
        cases h
        exact noteObservation_document hs (mapMetric_document ho) hseen
      · exact hs
    · cases hp

end Documents

/-- Every observation of an owned metric raises the events it should. `lists` has those of each
observation; `reconcileTransports` joins them. -/
def Reconciles (s : MemoryStore) (mine : Transport) (datasetId : String)
    (observations : List EnergyObservation) : Prop :=
  ∃ others lists, otherTransportRows s mine datasetId observations = some others ∧
    observations.mapM (reconcileOne dataset others) = .ok lists ∧
    List.Forall₂ (fun o events => ∀ owner v, ownerTransportOf dataset o = some owner →
      o.value = some v → Flagged s mine o owner v events) observations lists

/-! ## The dictionary of the other rows -/

section Dictionary

variable {s : MemoryStore} {mine : Transport} {observations : List EnergyObservation}

theorem windowOf_spans {start stop : Instant} (h : windowOf observations = some (start, stop))
    {o : EnergyObservation} (ho : o ∈ observations) :
    start ≤ o.deliveryStartUtc ∧ o.deliveryStartUtc < stop := by
  have hmin : ∀ (l : List EnergyObservation) (t : Instant),
      l.foldl (fun t p => min t p.deliveryStartUtc) t ≤ t ∧
        ∀ p ∈ l, l.foldl (fun t p => min t p.deliveryStartUtc) t ≤ p.deliveryStartUtc := by
    intro l
    induction l with
    | nil => exact fun t => ⟨le_refl t, fun _ hp => nomatch hp⟩
    | cons q l ih =>
      intro t
      obtain ⟨hacc, hall⟩ := ih (min t q.deliveryStartUtc)
      refine ⟨le_trans hacc (min_le_left _ _), fun p hp => ?_⟩
      rcases List.mem_cons.mp hp with rfl | hp
      · exact le_trans hacc (min_le_right _ _)
      · exact hall p hp
  have hmax : ∀ (l : List EnergyObservation) (t : Instant),
      t ≤ l.foldl (fun t p => max t p.deliveryEndUtc) t ∧
        ∀ p ∈ l, p.deliveryEndUtc ≤ l.foldl (fun t p => max t p.deliveryEndUtc) t := by
    intro l
    induction l with
    | nil => exact fun t => ⟨le_refl t, fun _ hp => nomatch hp⟩
    | cons q l ih =>
      intro t
      obtain ⟨hacc, hall⟩ := ih (max t q.deliveryEndUtc)
      refine ⟨le_trans (le_max_left _ _) hacc, fun p hp => ?_⟩
      rcases List.mem_cons.mp hp with rfl | hp
      · exact le_trans (le_max_right _ _) hacc
      · exact hall p hp
  cases observations with
  | nil => cases h
  | cons q rest =>
    obtain ⟨rfl, rfl⟩ := Prod.mk.inj (Option.some.inj h)
    have hne : o.deliveryStartUtc < o.deliveryEndUtc := o.deliveryInterval.nonempty
    rcases List.mem_cons.mp ho with rfl | ho
    · exact ⟨(hmin rest _).1, lt_of_lt_of_le hne (hmax rest _).1⟩
    · exact ⟨(hmin rest _).2 o ho, lt_of_lt_of_le hne ((hmax rest _).2 o ho)⟩

/-- The view of a transport: one row for an identity, and a window of it is a filter. -/
theorem transportView_window (hs : MemoryStore.Reachable s) (hreg : MemoryStore.Registered s)
    (datasetId : String) (t : Transport) (start stop : Instant) :
    ((transportView s datasetId t).map fun c => observationIdentity c.observation).Nodup ∧
      s.currentRows dataset ⟨datasetId, some start, some stop, none, some t⟩ =
        some ((transportView s datasetId t).filter fun c =>
          decide (start ≤ c.observation.deliveryStartUtc ∧
            c.observation.deliveryStartUtc < stop)) := by
  have hr := hs.wellFormed.readable
  obtain ⟨view, hview, hrows⟩ := MemoryStore.currentRows_within dataset hr hreg
    ⟨datasetId, some start, some stop, none, some t⟩
  have hall : s.currentRows dataset ⟨datasetId, none, none, none, some t⟩ = some view := hview
  have hunrestricted : transportView s datasetId t = view := by
    rw [transportView, hall]
    rfl
  rw [hunrestricted]
  refine ⟨?_, ?_⟩
  · refine List.Nodup.of_map (fun k => (k, some t)) ?_
    have hkeys : (view.map fun c => observationIdentity c.observation).map (fun k => (k, some t)) =
        view.map fun c => MemoryStore.CurrentQuery.key ⟨datasetId, none, none, none, some t⟩ c.observation := by
      rw [List.map_map]
      refine List.map_congr_left fun c hc => ?_
      obtain ⟨row, ⟨hrow, -⟩, rfl⟩ := (MemoryStore.mem_currentRows dataset hr hreg hall).mp hc
      have htransport := (of_decide_eq_true hrow.1).2.2.2 t rfl
      change (observationIdentity row.observation, some t) =
        (observationIdentity row.observation, some row.observation.sourceTransport)
      rw [htransport]
    rw [hkeys]
    exact MemoryStore.currentRows_keys_nodup dataset hr hreg hall
  · rw [hrows]
    refine congrArg some (List.filter_congr fun c _ => ?_)
    simp [MemoryStore.CurrentQuery.within]

theorem get?_addTransport (hs : MemoryStore.Reachable s) (hreg : MemoryStore.Registered s)
    (datasetId : String) {start stop : Instant} (out : OtherCurrent) (t : Transport)
    {k : ObservationIdentity} (hk : start ≤ k.deliveryStartUtc ∧ k.deliveryStartUtc < stop) :
    ∃ out', addTransport s datasetId start stop out t = some out' ∧
      out'.get? k = (currentValue s datasetId k t).or (out.get? k) := by
  obtain ⟨hnodup, hrows⟩ := transportView_window hs hreg datasetId t start stop
  refine ⟨_, by rw [addTransport, hrows]; rfl, ?_⟩
  unfold currentValue
  generalize transportView s datasetId t = view at hnodup
  induction view generalizing out with
  | nil => rfl
  | cons c rest ih =>
    obtain ⟨hnot, hrest⟩ := List.nodup_cons.mp (List.map_cons ▸ hnodup)
    by_cases hc : observationIdentity c.observation = k
    · have hin : decide (start ≤ c.observation.deliveryStartUtc ∧
          c.observation.deliveryStartUtc < stop) = true := by
        rw [← hc] at hk
        exact decide_eq_true hk
      have hnone : (rest.find? fun c => observationIdentity c.observation = k) = none := by
        refine List.find?_eq_none.mpr fun c' hc' hk' => hnot ?_
        rw [hc]
        exact List.mem_map.mpr ⟨c', hc', of_decide_eq_true hk'⟩
      rw [List.filter_cons, if_pos hin, List.foldl_cons, ih _ hrest, hnone,
        List.find?_cons_of_pos (by simpa using hc), ← hc]
      simp
    · rw [List.find?_cons_of_neg (by simpa using hc)]
      by_cases hin : decide (start ≤ c.observation.deliveryStartUtc ∧
          c.observation.deliveryStartUtc < stop) = true
      · rw [List.filter_cons, if_pos hin, List.foldl_cons, ih _ hrest,
          Dict.get?_set_ne _ _ (Ne.symm hc)]
      · rw [List.filter_cons, if_neg hin, ih _ hrest]

theorem get?_addTransports (hs : MemoryStore.Reachable s) (hreg : MemoryStore.Registered s)
    (datasetId : String) {start stop : Instant} (k : ObservationIdentity)
    (hk : start ≤ k.deliveryStartUtc ∧ k.deliveryStartUtc < stop) (l : List Transport) :
    ∀ out : OtherCurrent, ∃ out', l.foldlM (addTransport s datasetId start stop) out = some out' ∧
      out'.get? k = ((l.filterMap (currentValue s datasetId k)).getLast?).or (out.get? k) := by
  induction l with
  | nil => exact fun out => ⟨out, rfl, rfl⟩
  | cons t l ih =>
    intro out
    obtain ⟨mid, hmid, hget⟩ := get?_addTransport hs hreg datasetId out t hk
    obtain ⟨out', hout, hlast⟩ := ih mid
    refine ⟨out', by rw [List.foldlM_cons, hmid]; exact hout, ?_⟩
    rw [hlast, hget]
    cases hv : currentValue s datasetId k t with
    | none => rw [List.filterMap_cons_none hv, Option.none_or]
    | some p =>
      rw [List.filterMap_cons_some hv, Option.some_or]
      cases hrest : (l.filterMap (currentValue s datasetId k)).getLast? with
      | none =>
        rw [List.getLast?_eq_none_iff.mp hrest]
        rfl
      | some q =>
        rw [List.getLast?_cons, hrest]
        rfl

/-- An owned metric of a document has an owner in the contract the loop looks at. -/
theorem owned_of_ownerTransport {o : EnergyObservation} {owner : Transport}
    (h : ownerTransportOf dataset o = some owner) : ∃ contract, dataset o.datasetId = some contract ∧
      (contract.metrics.any fun m => m.ownerTransport.isSome) = true := by
  obtain ⟨contract, hcontract, h⟩ := Option.bind_eq_some_iff.mp h
  obtain ⟨spec, hspec, h⟩ := Option.bind_eq_some_iff.mp h
  refine ⟨contract, hcontract, List.any_eq_true.mpr ⟨spec, List.mem_of_find?_eq_some hspec, ?_⟩⟩
  rw [h]
  rfl

/-- For each identity of the document the dictionary has the last of the other rows. -/
theorem get?_otherTransportRows (hs : MemoryStore.Reachable s) (hreg : MemoryStore.Registered s)
    {datasetId : String} (hdoc : DocumentOf mine datasetId observations) :
    ∃ others, otherTransportRows s mine datasetId observations = some others ∧
      ∀ o ∈ observations, ∀ owner, ownerTransportOf dataset o = some owner →
        others.get? (observationIdentity o) = (otherRows s mine o).getLast? := by
  unfold otherTransportRows
  cases hw : windowOf observations with
  | none =>
    refine ⟨.empty, rfl, fun o ho => ?_⟩
    cases observations with
    | nil => cases ho
    | cons q rest => cases hw
  | some window =>
    obtain ⟨start, stop⟩ := window
    cases hd : dataset datasetId with
    | none =>
      refine ⟨.empty, rfl, fun o ho owner howner => ?_⟩
      obtain ⟨contract, hcontract, -⟩ := owned_of_ownerTransport howner
      rw [(hdoc o ho).2, hd] at hcontract
      cases hcontract
    | some contract =>
      by_cases hany : (contract.metrics.any fun m => m.ownerTransport.isSome) = true
      · simp only [hany, if_true]
        have hid : contract.datasetId = datasetId := by
          simpa using List.find?_some hd
        cases observations with
        | nil => cases hw
        | cons q rest =>
          have hspan := fun o ho => windowOf_spans (o := o) hw ho
          have hsome : ∃ others, (Transport.all.filter fun t => t ≠ mine).foldlM
              (addTransport s contract.datasetId start stop) .empty = some others := by
            obtain ⟨others, h, -⟩ := get?_addTransports hs hreg contract.datasetId
              (observationIdentity q) (hspan q List.mem_cons_self)
              (Transport.all.filter fun t => t ≠ mine) .empty
            exact ⟨others, h⟩
          obtain ⟨others, hothers⟩ := hsome
          refine ⟨others, hothers, fun o ho owner howner => ?_⟩
          obtain ⟨others', h', hget⟩ := get?_addTransports hs hreg
            contract.datasetId (observationIdentity o) (hspan o ho)
            (Transport.all.filter fun t => t ≠ mine) .empty
          rw [hothers] at h'
          cases h'
          rw [hget, hid, otherRows, (hdoc o ho).2, Dict.get?_empty, Option.or_none]
      · simp only [hany]
        refine ⟨.empty, rfl, fun o ho owner howner => ?_⟩
        obtain ⟨contract', hcontract, hany'⟩ := owned_of_ownerTransport howner
        rw [(hdoc o ho).2, hd] at hcontract
        cases hcontract
        exact absurd hany' hany

end Dictionary

/-! ## The text of an event -/

theorem record_of_mismatchEvent {o : EnergyObservation} {owner : Transport} {a b v w : Decimal}
    (hown : ¬ o.sourceTransport = owner)
    (h : mismatchEvent o owner a b = mismatchEvent o owner v w) : b.toText = w.toText := by
  have hmessage := congrArg (fun e : QualityEvent => e.message.toList) h
  have hcopy : " vs copy=".toList = ' ' :: "vs copy=".toList := rfl
  simp only [mismatchEvent, hown, if_false, String.toList_append, List.append_assoc,
    List.append_cancel_left_eq, hcopy, List.cons_append] at hmessage
  exact String.toList_inj.mp
    (split_first b.space_not_mem_toText w.space_not_mem_toText hmessage).1

/-! ## One observation -/

section One

variable {s : MemoryStore} {mine : Transport} {o : EnergyObservation} {others : OtherCurrent}

theorem reconcileOne_unowned (h : ownerTransportOf dataset o = none ∨ o.value = none) :
    reconcileOne dataset others o = .ok [] := by
  unfold reconcileOne
  rcases h with h | h
  · rw [h]
  · rw [h]
    cases ownerTransportOf dataset o with
    | none => rfl
    | some owner =>
      cases others.get? (observationIdentity o) with
      | none => rfl
      | some p =>
        obtain ⟨t, _ | w⟩ := p
        · rfl
        · rfl

theorem reconcileOne_alone {owner : Transport} (howner : ownerTransportOf dataset o = some owner)
    (h : others.get? (observationIdentity o) = none ∨
      ∃ t, others.get? (observationIdentity o) = some (t, none)) :
    reconcileOne dataset others o = .ok [] := by
  unfold reconcileOne
  rw [howner]
  rcases h with h | ⟨t, h⟩
  · rw [h]
  · rw [h]

theorem reconcileOne_compared {owner t : Transport} {v w : Decimal}
    (howner : ownerTransportOf dataset o = some owner) (hv : o.value = some v)
    (ht : ¬ t = o.sourceTransport)
    (h : others.get? (observationIdentity o) = some (t, some w)) :
    reconcileOne dataset others o = (exceeds o.unit v w).map fun large =>
      if large then [mismatchEvent o owner v w] else [] := by
  unfold reconcileOne exceeds
  rw [howner, h, hv]
  simp only [if_neg ht]
  cases v.sub w with
  | error e => rfl
  | ok difference =>
    simp only [bind, Except.bind]
    cases difference.abs with
    | error e => rfl
    | ok size =>
      simp only []
      cases size.gt (tolerance o.unit) with
      | error e => rfl
      | ok large => rfl

theorem transport_of_mem_otherRows {p : Transport × Option Decimal}
    (h : p ∈ otherRows s mine o) : p.1 ≠ mine := by
  obtain ⟨t, ht, hp⟩ := List.mem_filterMap.mp h
  obtain ⟨c, -, rfl⟩ := Option.map_eq_some_iff.mp hp
  exact of_decide_eq_true (List.mem_filter.mp ht).2

/-- The events of an observation are right exactly when the row that decides stands for all. -/
theorem flagged_iff {owner : Transport} {v : Decimal} (hmine : o.sourceTransport = mine)
    (howner : ownerTransportOf dataset o = some owner) (hv : o.value = some v)
    (hget : others.get? (observationIdentity o) = (otherRows s mine o).getLast?) :
    (∃ events, reconcileOne dataset others o = .ok events ∧ Flagged s mine o owner v events) ↔
      LastDecides s mine o owner v := by
  unfold LastDecides
  cases hlast : (otherRows s mine o).getLast? with
  | none =>
    rw [reconcileOne_alone howner (.inl (hget.trans hlast))]
    constructor
    · rintro ⟨events, hevents, hflag⟩ hc
      cases hevents
      obtain ⟨a, b, hmem, -⟩ := hflag.mismatch hc
      cases hmem
    · exact fun hc => ⟨[], rfl, fun h => absurd h hc, fun _ => rfl⟩
  | some p =>
    obtain ⟨t, _ | w⟩ := p
    · rw [reconcileOne_alone howner (.inr ⟨t, hget.trans hlast⟩)]
      constructor
      · rintro ⟨events, hevents, hflag⟩ hc
        cases hevents
        obtain ⟨a, b, hmem, -⟩ := hflag.mismatch hc
        cases hmem
      · exact fun hc => ⟨[], rfl, fun h => absurd h hc, fun _ => rfl⟩
    · have ht : ¬ t = o.sourceTransport := by
        rw [hmine]
        exact transport_of_mem_otherRows (List.mem_of_getLast? hlast)
      rw [reconcileOne_compared howner hv ht (hget.trans hlast)]
      dsimp only
      cases hx : exceeds o.unit v w with
      | error e =>
        constructor
        · rintro ⟨events, hevents, -⟩
          cases hevents
        · rintro ⟨large, hlarge, -⟩
          cases hlarge
      | ok large =>
        cases large with
        | false =>
          constructor
          · rintro ⟨events, hevents, hflag⟩
            cases hevents
            refine ⟨false, rfl, ⟨fun h => (nomatch h), fun hc => ?_⟩, fun h => (nomatch h)⟩
            obtain ⟨a, b, hmem, -⟩ := hflag.mismatch hc
            cases hmem
          · rintro ⟨large, hlarge, hiff, -⟩
            cases hlarge
            exact ⟨[], rfl, fun hc => (nomatch hiff.mpr hc), fun _ => rfl⟩
        | true =>
          constructor
          · rintro ⟨events, hevents, hflag⟩
            cases hevents
            have hc : Contested s mine o v := by
              by_contra hc
              cases hflag.agreement hc
            refine ⟨true, rfl, ⟨fun _ => hc, fun _ => rfl⟩, fun _ => ?_⟩
            obtain ⟨a, b, hmem, hrecord⟩ := hflag.mismatch hc
            by_cases hown : o.sourceTransport = owner
            · exact .inl hown
            · rw [if_neg hown] at hrecord
              exact .inr ⟨b, hrecord, record_of_mismatchEvent hown (List.mem_singleton.mp hmem)⟩
          · rintro ⟨large, hlarge, hiff, hrecord⟩
            cases hlarge
            refine ⟨_, rfl, fun hc => ?_, fun hc => absurd (hiff.mp rfl) hc⟩
            rcases hrecord rfl with hown | ⟨u, hu, htext⟩
            · refine ⟨v, w, List.mem_singleton.mpr rfl, ?_⟩
              rw [if_pos hown, ownerValue, if_pos hown, hv]
            · by_cases hown : o.sourceTransport = owner
              · refine ⟨v, w, List.mem_singleton.mpr rfl, ?_⟩
                rw [if_pos hown, ownerValue, if_pos hown, hv]
              · refine ⟨v, u, List.mem_singleton.mpr ?_, by rw [if_neg hown, hu]⟩
                simp only [mismatchEvent, hown, if_false, htext]

end One

/-! ## A document -/

section Document

variable {s : MemoryStore} {mine : Transport} {datasetId : String}
  {observations : List EnergyObservation}

theorem forall₂_of_forall {α β : Type} {R : α → β → Prop} {l : List α}
    (h : ∀ a ∈ l, ∃ b, R a b) : ∃ l', List.Forall₂ R l l' := by
  induction l with
  | nil => exact ⟨[], .nil⟩
  | cons a l ih =>
    obtain ⟨b, hb⟩ := h a List.mem_cons_self
    obtain ⟨l', hl'⟩ := ih fun a ha => h a (List.mem_cons_of_mem _ ha)
    exact ⟨b :: l', .cons hb hl'⟩

theorem both_of_forall₂ {α β : Type} {R S : α → β → Prop} {l : List α} {l' : List β}
    (h : List.Forall₂ R l l') : List.Forall₂ S l l' → ∀ a ∈ l, ∃ b, R a b ∧ S a b := by
  induction h with
  | nil => exact fun _ _ ha => nomatch ha
  | cons hab _ ih =>
    intro h' a ha
    cases h' with
    | cons hab' hrest =>
      rcases List.mem_cons.mp ha with rfl | ha
      · exact ⟨_, hab, hab'⟩
      · exact ih hrest a ha

/-- In every reachable store whose rows' derivations are registered, and for every document: each
observation of an owned metric raises the events it should exactly when, for each of them, the row
of the last other transport that has one differs if any does and then shows the owner's value. -/
theorem reconciles_iff (hs : MemoryStore.Reachable s) (hreg : MemoryStore.Registered s)
    (hdoc : DocumentOf mine datasetId observations) :
    Reconciles s mine datasetId observations ↔
      ∀ o ∈ observations, ∀ owner v, ownerTransportOf dataset o = some owner → o.value = some v →
        LastDecides s mine o owner v := by
  obtain ⟨others, hothers, hget⟩ := get?_otherTransportRows hs hreg hdoc
  constructor
  · rintro ⟨others', lists, hothers', hlists, hflags⟩ o ho owner v howner hv
    rw [hothers] at hothers'
    cases hothers'
    obtain ⟨events, hevents, hflag⟩ := both_of_forall₂ (mapM_ok_iff.mp hlists) hflags o ho
    exact (flagged_iff (hdoc o ho).1 howner hv (hget o ho owner howner)).mp
      ⟨events, hevents, hflag owner v howner hv⟩
  · intro h
    have hone : ∀ o ∈ observations, ∃ events, reconcileOne dataset others o = .ok events ∧
        ∀ owner v, ownerTransportOf dataset o = some owner → o.value = some v →
          Flagged s mine o owner v events := by
      intro o ho
      cases howner : ownerTransportOf dataset o with
      | none => exact ⟨[], reconcileOne_unowned (.inl howner), fun _ _ h => (nomatch h)⟩
      | some owner =>
        cases hv : o.value with
        | none => exact ⟨[], reconcileOne_unowned (.inr hv), fun _ _ _ h => (nomatch h)⟩
        | some v =>
          obtain ⟨events, hevents, hflag⟩ :=
            (flagged_iff (hdoc o ho).1 howner hv (hget o ho owner howner)).mpr
              (h o ho owner v howner hv)
          refine ⟨events, hevents, fun owner' v' howner' hv' => ?_⟩
          cases howner'
          cases hv'
          exact hflag
    obtain ⟨lists, hlists⟩ := forall₂_of_forall hone
    refine ⟨others, lists, hothers, mapM_ok_iff.mpr ?_, ?_⟩
    · exact hlists.imp fun _ _ h => h.1
    · exact hlists.imp fun _ _ h => h.2

end Document

/-! ## Three transports -/

def ownerPrice : List StoreCall :=
  MemoryStore.commitRun 1 1 0 0
    [{ MemoryStore.dayAheadPrice 1 .soap 0 none with value := some (.ofInt 50) }]

def threeTransports : List StoreCall :=
  ownerPrice ++ MemoryStore.commitRun 2 2 hour hour [MemoryStore.dayAheadPrice 2 .xlsx hour none]

def htmlPrice : EnergyObservation := MemoryStore.dayAheadPrice 3 .html (2 * hour) none

theorem html_document : DocumentOf .html "ote.dam" [htmlPrice] := by
  intro o ho
  rw [List.mem_singleton.mp ho]
  exact ⟨rfl, rfl⟩

theorem price_differs : Differs htmlPrice.unit (.ofInt 42) (.ofInt 50) := by
  refine ⟨rfl, rfl, ?_⟩
  change (Decimal.finite false 1 (-2)).toRat <
    |(Decimal.finite false 42 0).toRat - (Decimal.finite false 50 0).toRat|
  norm_num [Decimal.toRat]

/-- The owner's row alone: what an html document says otherwise is recorded with the owner's value. -/
theorem owner_mismatch_recorded : ∃ s, MemoryStore.init.after ownerPrice = some s ∧
    Contested s .html htmlPrice (.ofInt 42) ∧ Reconciles s .html "ote.dam" [htmlPrice] := by
  obtain ⟨s, hs, hcheck⟩ := (Option.any_eq_true _ _).mp
    (by decide +kernel : (MemoryStore.init.after ownerPrice).any (fun s =>
      decide (MemoryStore.Registered s) &&
      decide (otherRows s .html htmlPrice = [(.soap, some (.ofInt 50))])) = true)
  rw [Bool.and_eq_true, decide_eq_true_eq, decide_eq_true_eq] at hcheck
  obtain ⟨hreg, hrows⟩ := hcheck
  have hcontested : Contested s .html htmlPrice (.ofInt 42) :=
    ⟨.soap, _, hrows ▸ List.mem_singleton.mpr rfl, price_differs⟩
  refine ⟨s, hs, hcontested, (reconciles_iff (MemoryStore.Reachable.init.after hs) hreg
    html_document).mpr fun o ho owner v howner hv => ?_⟩
  obtain rfl := List.mem_singleton.mp ho
  obtain rfl : Transport.soap = owner := Option.some.inj howner
  obtain rfl : Decimal.ofInt 42 = v := Option.some.inj hv
  have howned : ownerValue s .html htmlPrice .soap = some (.ofInt 50) := by
    rw [ownerValue, hrows]
    rfl
  unfold LastDecides
  rw [hrows]
  exact ⟨true, by decide +kernel, iff_of_true rfl hcontested,
    fun _ => .inr ⟨_, howned, rfl⟩⟩

/-- The spreadsheet's row agrees with the page's and hides that the owner's does not. -/
theorem owner_mismatch_hidden :
    ¬ ∀ (s : MemoryStore) (mine : Transport) (datasetId : String)
      (observations : List EnergyObservation), MemoryStore.Reachable s →
      MemoryStore.Registered s → DocumentOf mine datasetId observations →
      Reconciles s mine datasetId observations := by
  intro h
  obtain ⟨s, hs, hcheck⟩ := (Option.any_eq_true _ _).mp
    (by decide +kernel : (MemoryStore.init.after threeTransports).any (fun s =>
      decide (MemoryStore.Registered s) &&
      decide ((.soap, some (.ofInt 50)) ∈ otherRows s .html htmlPrice) &&
      (otherTransportRows s .html "ote.dam" [htmlPrice]).any fun others =>
        decide (reconcileOne dataset others htmlPrice = .ok [])) = true)
  simp only [Bool.and_eq_true, decide_eq_true_eq] at hcheck
  obtain ⟨⟨hreg, hrow⟩, hothers⟩ := hcheck
  obtain ⟨others, hothers, hnone⟩ := (Option.any_eq_true _ _).mp hothers
  obtain ⟨others', lists, hothers', hlists, hflags⟩ := h s .html "ote.dam" [htmlPrice]
    (MemoryStore.Reachable.init.after hs) hreg html_document
  rw [hothers] at hothers'
  cases hothers'
  obtain ⟨events, hevents, hflag⟩ := both_of_forall₂ (mapM_ok_iff.mp hlists) hflags htmlPrice
    (List.mem_singleton.mpr rfl)
  rw [of_decide_eq_true hnone] at hevents
  cases hevents
  obtain ⟨a, b, hmem, -⟩ := (hflag .soap (.ofInt 42) rfl rfl).mismatch ⟨.soap, _, hrow, price_differs⟩
  cases hmem

end EnergyPlatform
