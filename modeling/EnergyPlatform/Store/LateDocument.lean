import EnergyPlatform.Store.AppendOnly

/-!
# Store.LateDocument

What a commit can make current: `late_document`. The row current for a transport stays current, or
gives way to a row this commit inserted or gave an occurrence, never to one of lower rank; and
where all the commit brings for it is older than the newest occurrence of the current row, it stays.

`Advance` collects what a commit does to the occurrences; the results about winners follow from it
and unfold no operation.
-/

namespace EnergyPlatform

open Lib (Dict FirstMax)

namespace MemoryStore

variable {s s' : MemoryStore} {reg : Registry} {q : CurrentQuery}

/-! ## What a commit does to the occurrences -/

/-- The row is new, or has an occurrence it did not have. -/
def Touched (s s' : MemoryStore) (row : StoredObservation) : Prop :=
  row ∉ s.rowTable.values ∨
    ∃ f x, (s.seen row.id).get? f = none ∧ (s'.seen row.id).get? f = some x

/-- One of the observations is of this version, and `t` is its ordering instant. -/
def Brings (obs : List EnergyObservation) (row : StoredObservation) (t : Instant) : Prop :=
  ∃ o ∈ obs, versionIdentity o = versionIdentity row.observation ∧ t = orderingInstant o

structure Advance (s : MemoryStore) (obs : List EnergyObservation) (s' : MemoryStore) : Prop where
  readable : Readable s
  readable' : Readable s'
  order : s.rowTable.keys.Pairwise (· < ·)
  order' : s'.rowTable.keys.Pairwise (· < ·)
  kept : Kept s s'
  stored : ∀ {row f x}, s'.rowTable.get? row.id = some row → (s.seen row.id).get? f = some x →
    row ∈ s.rowTable.values
  valid : ∀ {row t}, ValidInstant s row t → ValidInstant s' row t
  fresh : ∀ {row t}, row ∈ s'.rowTable.values → ValidInstant s' row t →
    ValidInstant s row t ∨ (Brings obs row t ∧ Touched s s' row)

/-- An attempt that is closed keeps its capture. -/
theorem committed_captureId (h : AttemptsOk s) (run : Run) {att : RunAttempt} {j : Nat}
    (ha : s.attemptTable.get? j = some att) (c : Commit) (now : Instant) (i : Nat) :
    ((s.committed run att c now).attemptTable.get? i).map RunAttempt.captureId =
      (s.attemptTable.get? i).map RunAttempt.captureId := by
  have hid := h.id ha
  rw [committed_attemptTable, Dict.get?_set, hid]
  split
  · rename_i hi
    rw [hi, ha]
    rfl
  · rfl

theorem validInstant_of {row : StoredObservation} {t : Instant} {f : Instant} {a : Nat}
    (hf : (s'.seen row.id).get? f = some (t, a))
    (hc : (s'.attemptTable.get? a).map RunAttempt.captureId =
      (s.attemptTable.get? a).map RunAttempt.captureId)
    (hi : s'.invalidationTable = s.invalidationTable) {att : RunAttempt}
    (ha : s.attemptTable.get? a = some att)
    (hv : s.occurrenceValid row.observation.derivationId att.captureId = true) :
    ValidInstant s' row t := by
  rw [ha, Option.map_some, Option.map_eq_some_iff] at hc
  obtain ⟨att', ha', hcap⟩ := hc
  exact ⟨f, a, att', hf, ha', by rw [hcap, occurrenceValid_congr hi]; exact hv⟩

theorem commit_advance (h : WellFormed s) {cl : Claim} {c : Commit} {now : Instant}
    {out : CommitResult} (hc : s.commit cl c now = some (out, s')) (hlost : out.lostLease = false) :
    Advance s c.observations s' := by
  have hkept : Kept s s' := exec_kept h (c := .commit cl c now) hc
  have h' : WellFormed s' := h.exec (c := .commit cl c now) hc
  obtain ⟨run, att, hr, ha, ⟨-, rfl, -⟩ | ⟨-, -, rfl⟩⟩ := commit_cases h.attempts hc
  · cases hlost
  have hcap := committed_captureId h.attempts run ha c now
  have hinv := committed_invalidationTable s run att c now
  have hg := (committed_silver s run att c now h.silver).2
  refine ⟨h.readable, h'.readable, h.silver.order, h'.silver.order, hkept, ?_, ?_, ?_⟩
  · intro row f x hi hf
    obtain ⟨r, hr⟩ := h.silver.seenRow hf
    have := hkept.row hr
    rw [hi, Option.some.injEq] at this
    exact Dict.mem_values.mpr ⟨row.id, by rw [hr, this]⟩
  · rintro row t ⟨f, a, b, hf, hb, hv⟩
    exact validInstant_of (hkept.seen hf) (hcap a) hinv hb hv
  · rintro row t hrow ⟨f, a, b, hf, hb, hv⟩
    obtain ⟨i, hi⟩ := Dict.mem_values.mp hrow
    have hid := h'.silver.id hi
    subst hid
    cases hold : (s.seen row.id).get? f with
    | some x =>
      have hx := hkept.seen hold
      rw [hf, Option.some.injEq] at hx
      subst hx
      obtain ⟨b', hb', hcb⟩ : ∃ b', s.attemptTable.get? a = some b' ∧ b'.captureId = b.captureId := by
        have := hcap a
        rw [hb, Option.map_some, eq_comm, Option.map_eq_some_iff] at this
        exact this
      rw [occurrenceValid_congr hinv] at hv
      exact .inl ⟨f, a, b', hold, hb', by rw [hcb]; exact hv⟩
    | none =>
      refine .inr ⟨?_, .inr ⟨f, _, hold, hf⟩⟩
      rcases hg.occurrenceNew ⟨row.id, row, hi, rfl, hf⟩ with ho | ⟨-, -, o, ho, hv', -, ht⟩
      · obtain ⟨j, r, hrj, hvr, hfj⟩ := ho
        have hij : j = row.id := h'.silver.unique (hkept.row hrj) hi hvr
        rw [hij, hold] at hfj
        cases hfj
      · exact ⟨o, ho, hv'.symm, ht⟩

/-! ## Winners -/

theorem exists_newest (h : Readable s) {row : StoredObservation} (he : Eligible s row) :
    ∃ n, IsGreatest {t | ValidInstant s row t} n ∧ newest (s.validOf row) = some n := by
  obtain ⟨n, hn, hg⟩ := newest_spec ((eligible_iff h).mp he)
  have hset : {t | t ∈ s.validOf row} = {t | ValidInstant s row t} := by
    ext t; exact mem_validOf h
  exact ⟨n, hset ▸ hg, hn⟩

theorem rankOf_eq (h : Readable s) {row : StoredObservation} {t n : Instant}
    (ht : s.registeredAt row.observation.derivationId = some t)
    (hn : IsGreatest {t | ValidInstant s row t} n) :
    s.rankOf reg row = rank reg row.observation t n := by
  obtain ⟨n', hn', he⟩ := exists_newest h ⟨n, hn.1⟩
  simp [rankOf, ht, he, hn'.unique hn]

theorem rank_mono (reg : Registry) (o : EnergyObservation) (t : Instant) {n n' : Instant} (h : n ≤ n') :
    rank reg o t n ≤ rank reg o t n' := by
  rcases h.lt_or_eq with h | rfl
  · exact Prod.Lex.toLex_le_toLex.mpr (.inr ⟨rfl, Prod.Lex.toLex_le_toLex.mpr (.inl h)⟩)
  · exact le_rfl

/-- Below the owner the newest occurrence decides. -/
theorem newest_le_of_rank_le {o o' : EnergyObservation} {t n t' n' : Instant}
    (ho : ownerRank reg o = ownerRank reg o') (h : rank reg o t n ≤ rank reg o' t' n') : n ≤ n' := by
  rw [rank, rank, Prod.Lex.toLex_le_toLex, ho] at h
  rcases h with h | ⟨-, h⟩
  · exact absurd h (lt_irrefl _)
  · rcases Prod.Lex.toLex_le_toLex.mp h with h | h
    · exact h.le
    · exact h.1.le

theorem rows_pairwise (h : Readable s) (ho : s.rowTable.keys.Pairwise (· < ·)) :
    s.rowTable.values.Pairwise fun a b => a.id < b.id := by
  have hid : s.rowTable.values.map StoredObservation.id = s.rowTable.keys := by
    simp only [Dict.values, Dict.keys, List.map_map]
    exact List.map_congr_left fun e he => h.rowId (Dict.get?_eq_some_iff.mpr he)
  rw [← hid] at ho
  exact List.pairwise_map.mp ho

/-- The winner comes first among the candidates of its key with its rank. -/
theorem Wins.first (h : Readable s) (ho : s.rowTable.keys.Pairwise (· < ·)) {r row : StoredObservation}
    (hw : Wins reg s q r) (hrow : row ∈ s.rowTable.values) (he : Eligible s row)
    (hk : q.key row.observation = q.key r.observation) (hle : s.rankOf reg r ≤ s.rankOf reg row) :
    r.id ≤ row.id := by
  refine FirstMax.first hw (((rows_pairwise h ho).filter _).filter _) ?_ hle
  have ha := CurrentQuery.admits_of_key (hw.candidate reg h).2.1 hk
  simp [hrow, (isCandidate_iff h).mpr ⟨ha, he⟩, hk]

/-- Two candidates of one key are registered. -/
theorem Wins.registered (h : Readable s) (hc : Comparable s q) {r row : StoredObservation}
    (hw : Wins reg s q r) (hrow : row ∈ s.rowTable.values) (he : Eligible s row)
    (hk : q.key row.observation = q.key r.observation) (hne : row ≠ r) :
    (∃ t, s.registeredAt r.observation.derivationId = some t) ∧
      ∃ t, s.registeredAt row.observation.derivationId = some t := by
  obtain ⟨hr, ha, her⟩ := hw.candidate reg h
  have hcand := (isCandidate_iff h).mpr ⟨ha, her⟩
  have hcand' := (isCandidate_iff h).mpr ⟨CurrentQuery.admits_of_key ha hk, he⟩
  exact ⟨hc r hr row hrow hcand hcand' hk.symm hne.symm, hc row hrow r hr hcand' hcand hk hne⟩

namespace Advance

variable {obs : List EnergyObservation} (h : Advance s obs s')

include h

theorem registered {d : DerivationId} {t : Instant} (ht : s.registeredAt d = some t) :
    s'.registeredAt d = some t := by
  obtain ⟨x, hx, hxt⟩ := Option.bind_eq_some_iff.mp ht
  exact Option.bind_eq_some_iff.mpr ⟨x, h.kept.derivation hx, hxt⟩

theorem mem {row : StoredObservation} (hrow : row ∈ s.rowTable.values) : row ∈ s'.rowTable.values := by
  obtain ⟨i, hi⟩ := Dict.mem_values.mp hrow
  exact Dict.mem_values.mpr ⟨i, h.kept.row hi⟩

theorem eligible {row : StoredObservation} (he : Eligible s row) : Eligible s' row := by
  obtain ⟨t, ht⟩ := he
  exact ⟨t, h.valid ht⟩

theorem newest_le {row : StoredObservation} {n n' : Instant}
    (hn : IsGreatest {t | ValidInstant s row t} n) (hn' : IsGreatest {t | ValidInstant s' row t} n') :
    n ≤ n' := hn'.2 (h.valid hn.1)

/-- A row no commit touched, or only with older occurrences, does not overtake the winner. -/
theorem wins_eq (hc : Comparable s q) {r r' : StoredObservation} (hw : Wins reg s q r)
    (hw' : Wins reg s' q r') (hk : q.key r'.observation = q.key r.observation)
    (hr' : r' ∈ s.rowTable.values) {n : Instant} (hn : IsGreatest {t | ValidInstant s r' t} n)
    (hn' : IsGreatest {t | ValidInstant s' r' t} n) : r' = r := by
  by_contra hne
  obtain ⟨hr, ha, he⟩ := hw.candidate reg h.readable
  obtain ⟨⟨t, ht⟩, t', ht'⟩ := hw.registered h.readable hc hr' ⟨n, hn.1⟩ hk hne
  obtain ⟨m, hm, -⟩ := exists_newest h.readable he
  obtain ⟨m', hm', -⟩ := exists_newest h.readable' (h.eligible he)
  have hsame : s'.rankOf reg r' = s.rankOf reg r' := by
    rw [rankOf_eq h.readable ht' hn, rankOf_eq h.readable' (h.registered ht') hn']
  have hup : s.rankOf reg r ≤ s'.rankOf reg r := by
    rw [rankOf_eq h.readable ht hm, rankOf_eq h.readable' (h.registered ht) hm']
    exact rank_mono _ _ _ (h.newest_le hm hm')
  have hle := hw.max reg h.readable hr' ⟨n, hn.1⟩ hk
  have hle' := hw'.max reg h.readable' (h.mem hr) (h.eligible he) hk.symm
  have hfirst := hw.first h.readable h.order hr' ⟨n, hn.1⟩ hk (hup.trans (hle'.trans hsame.le))
  have hfirst' := hw'.first h.readable' h.order' (h.mem hr) (h.eligible he) hk.symm
    (hsame.le.trans (hle.trans hup))
  obtain ⟨i, hi⟩ := Dict.mem_values.mp hr
  obtain ⟨j, hj⟩ := Dict.mem_values.mp hr'
  have hij : j = i := by
    rw [← h.readable.rowId hi, ← h.readable.rowId hj]
    omega
  rw [hij, hi] at hj
  exact hne (Option.some.inj hj).symm

end Advance

/-! ## The current row -/

/-- `current_rows` returns the row. -/
def Current (reg : Registry) (s : MemoryStore) (q : CurrentQuery) (r : StoredObservation) : Prop :=
  r ∈ s.rowTable.values ∧ ∃ rows, s.currentRows reg q = some rows ∧ currentRow r ∈ rows

/-- The version of the observation is stored as a row of the transport. -/
def StoredUnder (s : MemoryStore) (o : EnergyObservation) (transport : Transport) : Prop :=
  ∃ row ∈ s.rowTable.values, versionIdentity row.observation = versionIdentity o ∧
    row.observation.sourceTransport = transport

theorem comparable_of_isSome (h : Readable s) (hv : (s.currentRows reg q).isSome = true) :
    Comparable s q := by
  by_contra hc
  rw [currentRows_eq_none reg h q hc] at hv
  cases hv

theorem current_iff (h : WellFormed s) (hc : Comparable s q) {r : StoredObservation} :
    Current reg s q r ↔ q.Satisfies r.observation ∧ Wins reg s q r := by
  have hrows := currentRows_eq reg h.readable q hc
  have hmem : ∀ {c rows}, s.currentRows reg q = some rows →
      (c ∈ rows ↔ ∃ r, (q.Satisfies r.observation ∧ Wins reg s q r) ∧ currentRow r = c) := by
    intro c rows he
    rw [hrows, Option.some.injEq] at he
    rw [← he, (List.perm_insertionSort _ _).mem_iff, List.mem_map]
    simp only [mem_kept reg h.readable q]
  constructor
  · rintro ⟨hr, rows, he, hin⟩
    obtain ⟨r₂, hsel, hcr⟩ := (hmem he).mp hin
    obtain ⟨i, hi⟩ := Dict.mem_values.mp hr
    obtain ⟨j, hj⟩ := Dict.mem_values.mp (hsel.2.candidate reg h.readable).1
    have hij : j = i := h.silver.unique hj hi
      (congrArg versionIdentity (congrArg CurrentRow.observation hcr))
    rw [hij, hi, Option.some.injEq] at hj
    rw [hj]
    exact hsel
  · intro hsel
    exact ⟨(hsel.2.candidate reg h.readable).1, _, hrows, (hmem hrows).mpr ⟨r, hsel, rfl⟩⟩

theorem ownerRank_of_key {T : Transport} (hq : q.transport = some T) {o o' : EnergyObservation}
    (hk : q.key o' = q.key o) : ownerRank reg o' = ownerRank reg o := by
  simp only [CurrentQuery.key, hq, Option.map_some, Prod.mk.injEq, Option.some.injEq] at hk
  simp only [ownerRank, ownerTransportOf_congr reg hk.1, hk.2]

/-- Where nothing newer is brought for the winner's key, nothing overtakes it. -/
theorem Advance.stays {obs : List EnergyObservation} (h : Advance s obs s') (hc : Comparable s q)
    (hc' : Comparable s' q) {T : Transport} (hq : q.transport = some T) {r r' : StoredObservation}
    (hw : Wins reg s q r) (hw' : Wins reg s' q r')
    (hk : q.key r'.observation = q.key r.observation) {n : Instant}
    (hn : IsGreatest {t | ValidInstant s r t} n)
    (hold : ∀ t, Brings obs r' t → t < n) : r' = r := by
  by_contra hne
  obtain ⟨hr, ha, he⟩ := hw.candidate reg h.readable
  obtain ⟨hr', -, he'⟩ := hw'.candidate reg h.readable'
  obtain ⟨⟨t', ht'⟩, t, ht⟩ := hw'.registered h.readable' hc' (h.mem hr) (h.eligible he) hk.symm
    (Ne.symm hne)
  obtain ⟨m, hm, -⟩ := exists_newest h.readable' (h.eligible he)
  obtain ⟨m', hm', -⟩ := exists_newest h.readable' he'
  have hle := hw'.max reg h.readable' (h.mem hr) (h.eligible he) hk.symm
  rw [rankOf_eq h.readable' ht hm, rankOf_eq h.readable' ht' hm'] at hle
  have hnm : n ≤ m' :=
    (h.newest_le hn hm).trans (newest_le_of_rank_le (ownerRank_of_key hq hk.symm) hle)
  rcases h.fresh hr' hm'.1 with hv | ⟨hb, -⟩
  · have hin : r' ∈ s.rowTable.values := by
      obtain ⟨f, a, b, hf, -, -⟩ := hv
      obtain ⟨i, hi⟩ := Dict.mem_values.mp hr'
      have hid := h.readable'.rowId hi
      subst hid
      exact h.stored hi hf
    exact hne (h.wins_eq hc hw hw' hk hin ⟨hv, fun t ht => hm'.2 (h.valid ht)⟩ hm')
  · have := hold m' hb
    exact absurd (lt_of_lt_of_le this hnm) (lt_irrefl _)

/-- What a commit can make current. On a reachable store, where the view of a transport can be read
before and after a commit that is not stale: a row current afterwards was current before or was
inserted or given an occurrence by the commit; each row current before has one row current for its
key afterwards, itself or one the commit inserted or gave an occurrence, of no lower rank; and it is
itself where every observation of its identity whose version is stored under the transport is older
than its newest valid occurrence. -/
theorem late_document (hs : Reachable s) {cl : Claim} {c : Commit} {now : Instant}
    {out : CommitResult} (hc : s.commit cl c now = some (out, s')) (hlost : out.lostLease = false)
    (reg : Registry) {q : CurrentQuery} {T : Transport} (hq : q.transport = some T)
    (hv : (s.currentRows reg q).isSome = true) (hv' : (s'.currentRows reg q).isSome = true) :
    (∀ r', Current reg s' q r' → Current reg s q r' ∨ Touched s s' r') ∧
    ∀ r, Current reg s q r →
      (∃ r', Current reg s' q r' ∧ q.key r'.observation = q.key r.observation) ∧
      ∀ r', Current reg s' q r' → q.key r'.observation = q.key r.observation →
        (r' = r ∨ Touched s s' r') ∧
        (∀ ρ, Ranked reg s r ρ → ∃ ρ', Ranked reg s' r' ρ' ∧ ρ ≤ ρ') ∧
        ∀ n, IsGreatest {t | ValidInstant s r t} n →
          (∀ o ∈ c.observations, observationIdentity o = observationIdentity r.observation →
            StoredUnder s' o T → orderingInstant o < n) → r' = r := by
  have hwf := hs.wellFormed
  have hwf' : WellFormed s' := hwf.exec (c := .commit cl c now) hc
  have h := commit_advance hwf hc hlost
  have hcomp := comparable_of_isSome h.readable hv
  have hcomp' := comparable_of_isSome h.readable' hv'
  simp only [current_iff hwf hcomp, current_iff hwf' hcomp']
  -- a row the commit did not touch is as eligible as before, and does not overtake the winner
  have huntouched : ∀ {r r'}, Wins reg s q r → Wins reg s' q r' →
      q.key r'.observation = q.key r.observation → r' = r ∨ Touched s s' r' := by
    intro r r' hw hw' hk
    by_cases ht : Touched s s' r'
    · exact .inr ht
    · obtain ⟨hr', -, he'⟩ := hw'.candidate reg h.readable'
      obtain ⟨m, hm, -⟩ := exists_newest h.readable' he'
      have hin : r' ∈ s.rowTable.values := not_not.mp fun hno => ht (.inl hno)
      have hval : ValidInstant s r' m := (h.fresh hr' hm.1).resolve_right fun hb => ht hb.2
      exact .inl (h.wins_eq hcomp hw hw' hk hin ⟨hval, fun t ht => hm.2 (h.valid ht)⟩ hm)
  constructor
  · rintro r' ⟨hsat, hw'⟩
    by_cases ht : Touched s s' r'
    · exact .inr ht
    · obtain ⟨hr', ha, he'⟩ := hw'.candidate reg h.readable'
      obtain ⟨m, hm⟩ := he'
      have hin : r' ∈ s.rowTable.values := not_not.mp fun hno => ht (.inl hno)
      have hval : ValidInstant s r' m := (h.fresh hr' hm).resolve_right fun hb => ht hb.2
      obtain ⟨r, hw, hk, -⟩ := exists_wins reg h.readable hin ha ⟨m, hval⟩
      rcases huntouched hw hw' hk.symm with rfl | ht'
      · exact .inl ⟨hsat, hw⟩
      · exact absurd ht' ht
  · rintro r ⟨hsat, hw⟩
    obtain ⟨hr, ha, he⟩ := hw.candidate reg h.readable
    refine ⟨?_, ?_⟩
    · obtain ⟨r', hw', hk, -⟩ := exists_wins reg h.readable' (h.mem hr) ha (h.eligible he)
      exact ⟨r', ⟨q.satisfies_of_key hsat hk, hw'⟩, hk⟩
    · rintro r' ⟨-, hw'⟩ hk
      refine ⟨huntouched hw hw' hk, ?_, ?_⟩
      · rintro ρ ⟨t, m, ht, hm, rfl⟩
        obtain ⟨m', hm', -⟩ := exists_newest h.readable' (h.eligible he)
        have hup : rank reg r.observation t m ≤ s'.rankOf reg r := by
          rw [rankOf_eq h.readable' (h.registered ht) hm']
          exact rank_mono _ _ _ (h.newest_le hm hm')
        by_cases hne : r' = r
        · subst hne
          exact ⟨_, ⟨t, m', h.registered ht, hm', rfl⟩, rank_mono _ _ _ (h.newest_le hm hm')⟩
        · obtain ⟨hr', -, he'⟩ := hw'.candidate reg h.readable'
          obtain ⟨⟨u, hu⟩, -⟩ := hw'.registered h.readable' hcomp' (h.mem hr) (h.eligible he)
            hk.symm (Ne.symm hne)
          obtain ⟨n, hn, -⟩ := exists_newest h.readable' he'
          refine ⟨_, ⟨u, n, hu, hn, rfl⟩, ?_⟩
          rw [← rankOf_eq h.readable' hu hn]
          exact hup.trans (hw'.max reg h.readable' (h.mem hr) (h.eligible he) hk.symm)
      · intro n hn hold
        refine h.stays hcomp hcomp' hq hw hw' hk hn ?_
        rintro t ⟨o, ho, hov, rfl⟩
        have hr' := (hw'.candidate reg h.readable').1
        simp only [CurrentQuery.key, hq, Option.map_some, Prod.mk.injEq, Option.some.injEq] at hk
        have hT : r.observation.sourceTransport = T := by
          simp only [CurrentQuery.admits, hq, decide_eq_true_eq, Option.mem_def,
            Option.some.injEq, forall_eq'] at ha
          exact ha.2.2.2
        refine hold o ho ((versionIdentity_eq_iff.mp hov).1.trans hk.1) ⟨r', hr', hov.symm, ?_⟩
        exact hk.2.trans hT

/-! ## A version given by another transport

The version identity leaves the transport out: a document of another transport with the same bytes
and derivation gives an occurrence to the row of the first one. -/

/-- What the view returns of a row, as a test. -/
def returns (s : MemoryStore) (q : CurrentQuery) (r : StoredObservation) : Bool :=
  decide (r ∈ s.rowTable.values) &&
    (s.currentRows dataset q).any fun rows => decide (currentRow r ∈ rows)

theorem current_of_returns {r : StoredObservation} (h : s.returns q r = true) :
    Current dataset s q r := by
  simp only [returns, Bool.and_eq_true, decide_eq_true_eq, Option.any_eq_true] at h
  exact h

/-- A claim on the third run of a store that `corrected` left. -/
def thirdClaim : Claim :=
  let run : Run :=
    { id := 3, targetId := "ote", scheduledFor := 2 * hour, state := .captured, fence := 1
      origin := .scheduled, leaseOwner := some "worker", leaseUntil := some (2 * hour + minute)
      captureId := some (captureId "ote" (2 * hour) 1), createdAt := 2 * hour
      updatedAt := 2 * hour }
  ⟨run, 1, processAttempt run "worker" (2 * hour) 3⟩

def thirdRun : List StoreCall := corrected ++ (commitRun 3 3 (2 * hour) (2 * hour) []).take 2

def thirdCommit (obs : List EnergyObservation) : Commit :=
  ⟨.processed, .ok, none, some dayAheadDerivation, obs, []⟩

/-- The commit brings nothing for the transport, and yet its current row gives way to the old one. -/
theorem other_transport_supersedes : ∃ s cl c now out s' r r',
    Reachable s ∧ s.commit cl c now = some (out, s') ∧ out.lostLease = false ∧
    Current dataset s (dayAheadQuery (some .soap)) r ∧
    (∀ n, IsGreatest {t | ValidInstant s r t} n → ∀ o ∈ c.observations,
      observationIdentity o = observationIdentity r.observation → o.sourceTransport = .soap →
        orderingInstant o < n) ∧
    Current dataset s' (dayAheadQuery (some .soap)) r' ∧
    observationIdentity r'.observation = observationIdentity r.observation ∧ r' ≠ r := by
  let q := dayAheadQuery (some .soap)
  let c := thirdCommit [dayAheadPrice 1 .rest (2 * hour) none]
  let r : StoredObservation := ⟨2, 2, dayAheadPrice 2 .soap hour none⟩
  let r' : StoredObservation := ⟨1, 1, dayAheadPrice 1 .soap 0 none⟩
  obtain ⟨s, hs, h⟩ := (Option.any_eq_true _ _).mp
    (by decide : (init.after thirdRun).any (fun s => s.returns q r &&
      (s.commit thirdClaim c (2 * hour)).any fun p => !p.1.lostLease && p.2.returns q r') = true)
  rw [Bool.and_eq_true] at h
  obtain ⟨⟨out, s'⟩, hc, h'⟩ := (Option.any_eq_true _ _).mp h.2
  rw [Bool.and_eq_true, Bool.not_eq_true'] at h'
  refine ⟨s, thirdClaim, c, 2 * hour, out, s', r, r', Reachable.init.after hs, hc, h'.1,
    current_of_returns h.1, ?_, current_of_returns h'.2, by decide, by decide⟩
  intro n _ o ho _ hT
  obtain rfl := List.mem_singleton.mp ho
  cases hT

/-- A third payload, older than the current price: the row stays, or the commit touched the new
one. -/
theorem late_document_older : ∃ s c now out s' r, s.commit thirdClaim c now = some (out, s') ∧
    Current dataset s (dayAheadQuery (some .soap)) r ∧
    ∀ r', Current dataset s' (dayAheadQuery (some .soap)) r' →
      (dayAheadQuery (some .soap)).key r'.observation =
        (dayAheadQuery (some .soap)).key r.observation → r' = r ∨ Touched s s' r' := by
  let q := dayAheadQuery (some .soap)
  let c := thirdCommit [dayAheadPrice 3 .soap 0 none]
  let r : StoredObservation := ⟨2, 2, dayAheadPrice 2 .soap hour none⟩
  obtain ⟨s, hs, h⟩ := (Option.any_eq_true _ _).mp
    (by decide : (init.after thirdRun).any (fun s => s.returns q r &&
      (s.currentRows dataset q).isSome && (s.commit thirdClaim c (2 * hour)).any fun p =>
        !p.1.lostLease && (p.2.currentRows dataset q).isSome) = true)
  rw [Bool.and_eq_true, Bool.and_eq_true] at h
  obtain ⟨⟨out, s'⟩, hc, h'⟩ := (Option.any_eq_true _ _).mp h.2
  rw [Bool.and_eq_true, Bool.not_eq_true'] at h'
  obtain ⟨-, hrow⟩ := late_document (Reachable.init.after hs) hc h'.1 dataset rfl h.1.2 h'.2
  refine ⟨s, c, 2 * hour, out, s', r, hc, current_of_returns h.1.1, fun r' hr' hk => ?_⟩
  exact ((hrow r (current_of_returns h.1.1)).2 r' hr' hk).1

end MemoryStore

end EnergyPlatform
