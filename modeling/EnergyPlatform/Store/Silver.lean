import EnergyPlatform.Store.Tables

/-!
# Store.Silver

Version rows and their occurrences, and what the loop of `commit` does to them.

`HasOccurrence s v f t a` is Silver as a relation: some row of version identity `v` has, for the
capture fetched at `f`, the occurrence with ordering instant `t` recorded by attempt `a`.
`insertAll_spec` says what committing a list of observations makes of it: nothing is lost, only the
given observations are added under the committing attempt, and every one of them is there
afterwards.
-/

namespace EnergyPlatform

open Lib (Dict)

namespace MemoryStore

variable {s s' : MemoryStore}

/-- Version rows are filed under their own ids in the order they were inserted, one a version
identity, and only rows have occurrences. -/
structure RowsOk (s : MemoryStore) : Prop where
  id : ∀ {i r}, s.rowTable.get? i = some r → r.id = i
  bound : ∀ {i r}, s.rowTable.get? i = some r → i ≤ s.seq.rows
  unique : ∀ {i j r q}, s.rowTable.get? i = some r → s.rowTable.get? j = some q →
    versionIdentity r.observation = versionIdentity q.observation → i = j
  order : s.rowTable.keys.Pairwise (· < ·)
  seenRow : ∀ {i f x}, (s.seen i).get? f = some x → ∃ r, s.rowTable.get? i = some r

/-- Moreover every row has at least the occurrence of the capture that inserted it. -/
structure SilverOk (s : MemoryStore) : Prop extends RowsOk s where
  rowSeen : ∀ {i r}, s.rowTable.get? i = some r →
    ∃ x, (s.seen i).get? r.observation.fetchedAt = some x

def HasOccurrence (s : MemoryStore) (v : VersionIdentity) (f t : Instant) (a : Nat) : Prop :=
  ∃ i r, s.rowTable.get? i = some r ∧ versionIdentity r.observation = v ∧
    (s.seen i).get? f = some (t, a)

theorem SilverOk.occurrence_unique (h : SilverOk s) {v : VersionIdentity} {f t t' : Instant}
    {a a' : Nat} (ho : HasOccurrence s v f t a) (ho' : HasOccurrence s v f t' a') :
    t = t' ∧ a = a' := by
  obtain ⟨i, r, hr, hv, hf⟩ := ho
  obtain ⟨j, q, hq, hv', hf'⟩ := ho'
  have hij := h.unique hr hq (hv.trans hv'.symm)
  subst hij
  rw [hf, Option.some.injEq, Prod.mk.injEq] at hf'
  exact hf'

theorem SilverOk.fresh (h : SilverOk s) : s.rowTable.get? (s.seq.rows + 1) = none := by
  cases hg : s.rowTable.get? (s.seq.rows + 1) with
  | none => rfl
  | some r => have := h.bound hg; omega

theorem SilverOk.of_same (h : SilverOk s) (hs : SameSilver s s') : SilverOk s' := by
  have hseen : ∀ i, s'.seen i = s.seen i := fun i => by simp only [seen, hs.occurrenceTable]
  refine ⟨⟨?_, ?_, ?_, ?_, ?_⟩, ?_⟩
  · intro i r; rw [hs.rowTable]; exact h.id
  · intro i r; rw [hs.rowTable, hs.seqRows]; exact h.bound
  · intro i j r q; rw [hs.rowTable]; exact h.unique
  · rw [hs.rowTable]; exact h.order
  · intro i f x; rw [hs.rowTable, hseen]; exact h.seenRow
  · intro i r; rw [hs.rowTable, hseen]; exact h.rowSeen

theorem SameSilver.hasOccurrence (hs : SameSilver s s') {v : VersionIdentity} {f t : Instant}
    {a : Nat} : HasOccurrence s' v f t a ↔ HasOccurrence s v f t a := by
  simp only [HasOccurrence, seen, hs.rowTable, hs.occurrenceTable]

/-! ## The commit loop -/

theorem versionIds_spec (h : SilverOk s) {key : VersionIdentity} {i : Nat} :
    s.versionIds.get? key = some i ↔
      ∃ r, s.rowTable.get? i = some r ∧ versionIdentity r.observation = key := by
  have hinj : ∀ x ∈ s.rowTable.entries, ∀ y ∈ s.rowTable.entries,
      versionIdentity x.2.observation = versionIdentity y.2.observation → x.1 = y.1 := by
    intro x hx y hy hxy
    exact h.unique (Dict.get?_eq_some_iff.mpr hx) (Dict.get?_eq_some_iff.mpr hy) hxy
  rw [versionIds, Dict.get?_foldl_set (fun p : Nat × StoredObservation => versionIdentity p.2.observation)
    Prod.fst _ hinj]
  constructor
  · rintro (⟨⟨j, r⟩, hm, hk, rfl⟩ | ⟨h0, -⟩)
    · exact ⟨r, Dict.get?_eq_some_iff.mpr hm, hk⟩
    · cases h0
  · rintro ⟨r, hr, hk⟩
    exact .inl ⟨(i, r), Dict.get?_eq_some_iff.mp hr, hk, rfl⟩

/-- `existing` names exactly the stored versions. -/
structure LoopOk (l : CommitLoop) : Prop where
  silver : SilverOk l.store
  existing : ∀ {key i}, l.existing.get? key = some i ↔
    ∃ r, l.store.rowTable.get? i = some r ∧ versionIdentity r.observation = key

/-- What committing `obs` under attempt `a` makes of Silver. -/
structure Grown (s : MemoryStore) (a : Nat) (obs : List EnergyObservation) (s' : MemoryStore) :
    Prop where
  rowKept : ∀ {i r}, s.rowTable.get? i = some r → s'.rowTable.get? i = some r
  rowNew : ∀ {i r}, s'.rowTable.get? i = some r → s.rowTable.get? i = some r ∨
    (r.runAttemptId = a ∧ r.observation ∈ obs ∧ ∀ {j q}, s.rowTable.get? j = some q →
      versionIdentity q.observation ≠ versionIdentity r.observation)
  occurrenceKept : ∀ {v f t b}, HasOccurrence s v f t b → HasOccurrence s' v f t b
  occurrenceNew : ∀ {v f t b}, HasOccurrence s' v f t b → HasOccurrence s v f t b ∨
    (b = a ∧ (∀ {t' b'}, ¬ HasOccurrence s v f t' b') ∧
      ∃ o ∈ obs, v = versionIdentity o ∧ f = o.fetchedAt ∧ t = orderingInstant o)
  occurrenceAll : ∀ {o}, o ∈ obs → ∃ t b, HasOccurrence s' (versionIdentity o) o.fetchedAt t b

theorem Grown.nil (s : MemoryStore) (a : Nat) : Grown s a [] s where
  rowKept h := h
  rowNew h := .inl h
  occurrenceKept h := h
  occurrenceNew h := .inl h
  occurrenceAll h := by cases h

theorem Grown.append {s s' s'' : MemoryStore} {a : Nat} {l l' : List EnergyObservation}
    (h : Grown s a l s') (h' : Grown s' a l' s'') : Grown s a (l ++ l') s'' where
  rowKept hr := h'.rowKept (h.rowKept hr)
  rowNew {i r} hr := by
    rcases h'.rowNew hr with hr | ⟨ha, hm, hno⟩
    · rcases h.rowNew hr with hr | ⟨ha, hm, hno⟩
      · exact .inl hr
      · exact .inr ⟨ha, List.mem_append_left _ hm, hno⟩
    · exact .inr ⟨ha, List.mem_append_right _ hm, fun hq => hno (h.rowKept hq)⟩
  occurrenceKept ho := h'.occurrenceKept (h.occurrenceKept ho)
  occurrenceNew {v f t b} ho := by
    rcases h'.occurrenceNew ho with ho | ⟨hb, hno, o, hm, hv⟩
    · rcases h.occurrenceNew ho with ho | ⟨hb, hno, o, hm, hv⟩
      · exact .inl ho
      · exact .inr ⟨hb, hno, o, List.mem_append_left _ hm, hv⟩
    · exact .inr ⟨hb, fun ho' => hno (h.occurrenceKept ho'), o, List.mem_append_right _ hm, hv⟩
  occurrenceAll {o} hm := by
    rcases List.mem_append.mp hm with hm | hm
    · obtain ⟨t, b, ho⟩ := h.occurrenceAll hm
      exact ⟨t, b, h'.occurrenceKept ho⟩
    · exact h'.occurrenceAll hm

/-- Growing between stores that only differ from the given ones outside Silver. -/
theorem Grown.of_same {s s₁ s₂ s' : MemoryStore} {a : Nat} {obs : List EnergyObservation}
    (h : Grown s₁ a obs s₂) (hs : SameSilver s s₁) (hs' : SameSilver s₂ s') :
    Grown s a obs s' where
  rowKept {i r} hr := by
    rw [hs'.rowTable]
    exact h.rowKept (hs.rowTable ▸ hr)
  rowNew {i r} hr := by
    rw [hs'.rowTable] at hr
    rw [← hs.rowTable]
    exact h.rowNew hr
  occurrenceKept ho := hs'.hasOccurrence.mpr (h.occurrenceKept (hs.hasOccurrence.mpr ho))
  occurrenceNew ho := by
    rcases h.occurrenceNew (hs'.hasOccurrence.mp ho) with ho | ⟨hb, hno, ho⟩
    · exact .inl (hs.hasOccurrence.mp ho)
    · exact .inr ⟨hb, fun ho' => hno (hs.hasOccurrence.mpr ho'), ho⟩
  occurrenceAll hm := by
    obtain ⟨t, b, ho⟩ := h.occurrenceAll hm
    exact ⟨t, b, hs'.hasOccurrence.mpr ho⟩

theorem seen_addOccurrence (s : MemoryStore) (i j a : Nat) (o : EnergyObservation) :
    (s.addOccurrence i a o).seen j =
      if j = i then (s.seen i).setDefault o.fetchedAt (orderingInstant o, a) else s.seen j := by
  simp only [addOccurrence, seen, Dict.get?_set]
  split <;> rfl

theorem addRow_seen (s : MemoryStore) (a : Nat) (o : EnergyObservation) (j : Nat) :
    (s.addRow a o).2.seen j = s.seen j := rfl

/-- One more occurrence of a stored version, unless the capture already has one. -/
theorem hasOccurrence_addOccurrence (h : RowsOk s) {i a : Nat} {o : EnergyObservation}
    {r : StoredObservation} (hr : s.rowTable.get? i = some r)
    (hv : versionIdentity r.observation = versionIdentity o) {v : VersionIdentity} {f t : Instant}
    {b : Nat} : HasOccurrence (s.addOccurrence i a o) v f t b ↔ HasOccurrence s v f t b ∨
      (v = versionIdentity o ∧ f = o.fetchedAt ∧ t = orderingInstant o ∧ b = a ∧
        ∀ t' b', ¬ HasOccurrence s v f t' b') := by
  have hrows : (s.addOccurrence i a o).rowTable = s.rowTable := rfl
  constructor
  · rintro ⟨j, q, hq, hqv, hf⟩
    rw [hrows] at hq
    rw [seen_addOccurrence] at hf
    split at hf
    · rename_i hji
      subst hji
      rw [hr, Option.some.injEq] at hq
      subst hq
      rcases Dict.get?_setDefault.mp hf with hf | ⟨rfl, hx, hnone⟩
      · exact .inl ⟨j, r, hr, hqv, hf⟩
      · rw [Prod.mk.injEq] at hx
        refine .inr ⟨hqv.symm.trans hv, rfl, hx.1, hx.2, ?_⟩
        rintro t' b' ⟨j', q', hq', hv', hf'⟩
        have hjj := h.unique hq' hr (hv'.trans hqv.symm)
        subst hjj
        rw [hnone] at hf'; cases hf'
    · exact .inl ⟨j, q, hq, hqv, hf⟩
  · rintro (⟨j, q, hq, hqv, hf⟩ | ⟨rfl, rfl, rfl, rfl, hno⟩)
    · refine ⟨j, q, hq, hqv, ?_⟩
      rw [seen_addOccurrence]
      split
      · rename_i hji
        subst hji
        exact Dict.get?_setDefault.mpr (.inl hf)
      · exact hf
    · refine ⟨i, r, hr, hv, ?_⟩
      rw [seen_addOccurrence, if_pos rfl]
      refine Dict.get?_setDefault.mpr (.inr ⟨rfl, rfl, ?_⟩)
      cases hn : (s.seen i).get? o.fetchedAt with
      | none => rfl
      | some x => exact absurd ⟨i, r, hr, hv, hn⟩ (hno x.1 x.2)

theorem addOccurrence_has (h : RowsOk s) {i : Nat} (a : Nat) {o : EnergyObservation}
    {r : StoredObservation} (hr : s.rowTable.get? i = some r)
    (hv : versionIdentity r.observation = versionIdentity o) :
    ∃ t b, HasOccurrence (s.addOccurrence i a o) (versionIdentity o) o.fetchedAt t b := by
  by_cases hex : ∃ t b, HasOccurrence s (versionIdentity o) o.fetchedAt t b
  · obtain ⟨t, b, ho⟩ := hex
    exact ⟨t, b, (hasOccurrence_addOccurrence h hr hv).mpr (.inl ho)⟩
  · exact ⟨_, _, (hasOccurrence_addOccurrence h hr hv).mpr
      (.inr ⟨rfl, rfl, rfl, rfl, fun t b ho => hex ⟨t, b, ho⟩⟩)⟩

theorem addOccurrence_ok (h : RowsOk s) {i a : Nat} {o : EnergyObservation} {r : StoredObservation}
    (hr : s.rowTable.get? i = some r)
    (hseen : ∀ {j q}, s.rowTable.get? j = some q →
      (∃ x, (s.seen j).get? q.observation.fetchedAt = some x) ∨ (j = i ∧ q.observation = o)) :
    SilverOk (s.addOccurrence i a o) where
  id := h.id
  bound := h.bound
  unique := h.unique
  order := h.order
  seenRow {j f x} hf := by
    rw [seen_addOccurrence] at hf
    split at hf
    · rename_i hji
      exact ⟨r, hji ▸ hr⟩
    · exact h.seenRow hf
  rowSeen {j q} hq := by
    rw [seen_addOccurrence]
    rcases hseen hq with ⟨x, hx⟩ | ⟨hji, hqo⟩
    · split
      · rename_i hji
        exact ⟨x, Dict.get?_setDefault.mpr (.inl (hji ▸ hx))⟩
      · exact ⟨x, hx⟩
    · rw [if_pos hji, hqo]
      cases hn : (s.seen i).get? o.fetchedAt with
      | none => exact ⟨_, Dict.get?_setDefault.mpr (.inr ⟨rfl, rfl, hn⟩)⟩
      | some x => exact ⟨x, Dict.get?_setDefault.mpr (.inl hn)⟩

theorem addRow_get? (s : MemoryStore) (a i : Nat) (o : EnergyObservation) :
    (s.addRow a o).2.rowTable.get? i =
      if i = s.seq.rows + 1 then some ⟨s.seq.rows + 1, a, o⟩ else s.rowTable.get? i :=
  Dict.get?_set ..

theorem addRow_ok (h : SilverOk s) (a : Nat) {o : EnergyObservation}
    (hnew : ∀ {i r}, s.rowTable.get? i = some r → versionIdentity r.observation ≠ versionIdentity o) :
    RowsOk (s.addRow a o).2 where
  id {i r} hr := by
    rw [addRow_get?] at hr
    split at hr
    · rename_i hi
      rw [← Option.some.inj hr, hi]
    · exact h.id hr
  bound {i r} hr := by
    rw [addRow_get?] at hr
    simp only [addRow]
    split at hr
    · omega
    · have := h.bound hr; omega
  unique {i j r q} hr hq hv := by
    rw [addRow_get?] at hr hq
    split at hr <;> split at hq
    · rename_i hi hj
      rw [hi, hj]
    · rw [← Option.some.inj hr] at hv
      exact absurd hv.symm (hnew hq)
    · rw [← Option.some.inj hq] at hv
      exact absurd hv (hnew hr)
    · exact h.unique hr hq hv
  order := by
    have hnew : s.seq.rows + 1 ∉ s.rowTable.keys := Dict.get?_eq_none_iff.mp h.fresh
    have hkeys : (s.addRow a o).2.rowTable.keys = s.rowTable.keys ++ [s.seq.rows + 1] := by
      simp only [addRow, Dict.keys_set, hnew, if_false]
    rw [hkeys]
    refine List.pairwise_append.mpr ⟨h.order, List.pairwise_singleton _ _, fun i hi j hj => ?_⟩
    obtain ⟨r, hr⟩ := Dict.mem_keys.mp hi
    rw [List.mem_singleton.mp hj]
    exact Nat.lt_succ_of_le (h.bound hr)
  seenRow {i f x} hf := by
    rw [addRow_get?]
    split
    · exact ⟨_, rfl⟩
    · exact h.seenRow hf

theorem hasOccurrence_addRow (h : SilverOk s) (a : Nat) (o : EnergyObservation)
    {v : VersionIdentity} {f t : Instant} {b : Nat} :
    HasOccurrence (s.addRow a o).2 v f t b ↔ HasOccurrence s v f t b := by
  constructor
  · rintro ⟨i, r, hr, hv, hf⟩
    rw [addRow_seen] at hf
    obtain ⟨q, hq⟩ := h.seenRow hf
    rw [addRow_get?] at hr
    split at hr
    · rename_i hi
      have := h.bound hq; omega
    · exact ⟨i, r, hr, hv, hf⟩
  · rintro ⟨i, r, hr, hv, hf⟩
    refine ⟨i, r, ?_, hv, hf⟩
    rw [addRow_get?, if_neg]
    · exact hr
    · have := h.bound hr; omega

/-- The loop body on a version that is stored: at most one occurrence more. -/
theorem insertOne_known {l : CommitLoop} (h : LoopOk l) (a : Nat) {o : EnergyObservation} {i : Nat}
    (hk : l.existing.get? (versionIdentity o) = some i) :
    LoopOk (insertOne a l o) ∧ Grown l.store a [o] (insertOne a l o).store := by
  obtain ⟨r, hr, hv⟩ := h.existing.mp hk
  have hrows := h.silver.toRowsOk
  simp only [insertOne, hk]
  refine ⟨⟨addOccurrence_ok hrows hr fun hq => .inl (h.silver.rowSeen hq), h.existing⟩, ?_⟩
  constructor
  case rowKept => exact fun h => h
  case rowNew => exact fun h => .inl h
  case occurrenceKept => exact fun ho => (hasOccurrence_addOccurrence hrows hr hv).mpr (.inl ho)
  case occurrenceNew =>
    intro v f t b ho
    rcases (hasOccurrence_addOccurrence hrows hr hv).mp ho with ho | ⟨h1, h2, h3, h4, h5⟩
    · exact .inl ho
    · exact .inr ⟨h4, h5 _ _, o, by simp, h1, h2, h3⟩
  case occurrenceAll =>
    intro o' ho'
    rw [List.mem_singleton] at ho'
    subst ho'
    exact addOccurrence_has hrows a hr hv

/-- The loop body on a new version: its row, with one occurrence. -/
theorem insertOne_new {l : CommitLoop} (h : LoopOk l) (a : Nat) {o : EnergyObservation}
    (hk : l.existing.get? (versionIdentity o) = none) :
    LoopOk (insertOne a l o) ∧ Grown l.store a [o] (insertOne a l o).store := by
  have hnew : ∀ {i r}, l.store.rowTable.get? i = some r →
      versionIdentity r.observation ≠ versionIdentity o := by
    intro i r hr hv
    rw [h.existing.mpr ⟨r, hr, hv⟩] at hk; cases hk
  have hkept : ∀ {i r}, l.store.rowTable.get? i = some r →
      (l.store.addRow a o).2.rowTable.get? i = some r := by
    intro i r hr
    rw [addRow_get?, if_neg]
    · exact hr
    · have := h.silver.bound hr; omega
  have hrows := addRow_ok h.silver a hnew
  have hself : (l.store.addRow a o).2.rowTable.get? (l.store.seq.rows + 1) =
      some ⟨l.store.seq.rows + 1, a, o⟩ := by rw [addRow_get?, if_pos rfl]
  have hcases : ∀ {i r}, (l.store.addRow a o).2.rowTable.get? i = some r →
      (i = l.store.seq.rows + 1 ∧ r = ⟨l.store.seq.rows + 1, a, o⟩) ∨
        l.store.rowTable.get? i = some r := by
    intro i r hr
    rw [addRow_get?] at hr
    split at hr
    · rename_i hi
      exact .inl ⟨hi, (Option.some.inj hr).symm⟩
    · exact .inr hr
  simp only [insertOne, hk]
  refine ⟨⟨addOccurrence_ok hrows hself ?_, ?_⟩, ?_⟩
  · intro j q hq
    rcases hcases hq with ⟨hj, hq⟩ | hq
    · exact .inr ⟨hj, by rw [hq]⟩
    · exact .inl (h.silver.rowSeen hq)
  · intro key i
    show (l.existing.set (versionIdentity o) (l.store.seq.rows + 1)).get? key = some i ↔
      ∃ r, (l.store.addRow a o).2.rowTable.get? i = some r ∧ versionIdentity r.observation = key
    rw [Dict.get?_set]
    by_cases hkey : key = versionIdentity o
    · rw [if_pos hkey, Option.some.injEq]
      constructor
      · rintro rfl
        exact ⟨_, hself, hkey.symm⟩
      · rintro ⟨r, hr, hv⟩
        rcases hcases hr with ⟨hi, -⟩ | hr
        · exact hi.symm
        · exact absurd (hv.trans hkey) (hnew hr)
    · rw [if_neg hkey, h.existing]
      constructor
      · rintro ⟨r, hr, hv⟩
        exact ⟨r, hkept hr, hv⟩
      · rintro ⟨r, hr, hv⟩
        rcases hcases hr with ⟨-, rfl⟩ | hr
        · exact absurd hv.symm hkey
        · exact ⟨r, hr, hv⟩
  · constructor
    case rowKept => exact fun hr => hkept hr
    case rowNew =>
      intro i r hr
      rcases hcases hr with ⟨-, rfl⟩ | hr
      · exact .inr ⟨rfl, by simp, hnew⟩
      · exact .inl hr
    case occurrenceKept =>
      exact fun ho => (hasOccurrence_addOccurrence hrows hself rfl).mpr
        (.inl ((hasOccurrence_addRow h.silver a o).mpr ho))
    case occurrenceNew =>
      intro v f t b ho
      rcases (hasOccurrence_addOccurrence hrows hself rfl).mp ho with ho | ⟨h1, h2, h3, h4, h5⟩
      · exact .inl ((hasOccurrence_addRow h.silver a o).mp ho)
      · exact .inr ⟨h4, fun ho => h5 _ _ ((hasOccurrence_addRow h.silver a o).mpr ho), o,
          by simp, h1, h2, h3⟩
    case occurrenceAll =>
      intro o' ho'
      rw [List.mem_singleton] at ho'
      subst ho'
      exact addOccurrence_has hrows a hself rfl

/-- The loop body keeps `existing` exact and adds at most the given observation. -/
theorem insertOne_spec {l : CommitLoop} (h : LoopOk l) (a : Nat) (o : EnergyObservation) :
    LoopOk (insertOne a l o) ∧ Grown l.store a [o] (insertOne a l o).store := by
  cases hk : l.existing.get? (versionIdentity o) with
  | some i => exact insertOne_known h a hk
  | none => exact insertOne_new h a hk

theorem foldl_insertOne_spec (a : Nat) (obs : List EnergyObservation) :
    ∀ l : CommitLoop, LoopOk l →
      LoopOk (obs.foldl (insertOne a) l) ∧ Grown l.store a obs (obs.foldl (insertOne a) l).store := by
  induction obs with
  | nil => exact fun l h => ⟨h, .nil _ a⟩
  | cons o obs ih =>
    intro l h
    obtain ⟨hl, h1⟩ := insertOne_spec h a o
    obtain ⟨hl', h2⟩ := ih _ hl
    exact ⟨hl', h1.append h2⟩

theorem foldl_insertOne_frame (a : Nat) (obs : List EnergyObservation) : ∀ l : CommitLoop,
    (obs.foldl (insertOne a) l).store = { l.store with
      rowTable := (obs.foldl (insertOne a) l).store.rowTable
      occurrenceTable := (obs.foldl (insertOne a) l).store.occurrenceTable
      seq := { l.store.seq with rows := (obs.foldl (insertOne a) l).store.seq.rows } } := by
  induction obs with
  | nil => exact fun l => rfl
  | cons o obs ih =>
    intro l
    rw [List.foldl_cons, ih]
    simp only [insertOne]
    split <;> rfl

theorem insertAll_frame (s : MemoryStore) (a : Nat) (obs : List EnergyObservation) :
    (s.insertAll a obs).store = { s with
      rowTable := (s.insertAll a obs).store.rowTable
      occurrenceTable := (s.insertAll a obs).store.occurrenceTable
      seq := { s.seq with rows := (s.insertAll a obs).store.seq.rows } } :=
  foldl_insertOne_frame a obs _

/-- Committing observations: Silver stays in order, and grows by exactly these observations. -/
theorem insertAll_spec (h : SilverOk s) (a : Nat) (obs : List EnergyObservation) :
    SilverOk (s.insertAll a obs).store ∧ Grown s a obs (s.insertAll a obs).store := by
  obtain ⟨hl, hi⟩ := foldl_insertOne_spec a obs ⟨s, s.versionIds, 0, 0⟩ ⟨h, versionIds_spec h⟩
  exact ⟨hl.silver, hi⟩

end MemoryStore

end EnergyPlatform
