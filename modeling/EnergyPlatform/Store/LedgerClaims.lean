import EnergyPlatform.Store.LedgerSimulation

/-!
# Store.LedgerClaims

`claim` on the memory store and on the tables: abandoned replay attempts are closed, the first
unheld one is adopted or one is opened, and both sides work under the same attempt.
-/

namespace EnergyPlatform

open Lib

namespace MemoryStore

variable {s s' : MemoryStore}

/-! ## Attempts in the order of their ids -/

theorem Scoped.init : Scoped init := ⟨List.Pairwise.nil, nofun, nofun, nofun⟩

/-- Changing runs and attempts only. -/
theorem Scoped.of_attempts (h : Scoped s)
    (hruns : ∀ {i r}, s.runTable.get? i = some r → ∃ q, s'.runTable.get? i = some q)
    (horder : s'.attemptTable.keys.Pairwise (· < ·))
    (hattempt : ∀ {i a}, s'.attemptTable.get? i = some a → ∃ r, s.runTable.get? a.runId = some r)
    (hkept : AttemptsKept s s') (he : s'.eventTable = s.eventTable)
    (hq : s'.seq.events = s.seq.events) : Scoped s' where
  attemptOrder := horder
  attemptRun ha := by
    obtain ⟨r, hr⟩ := hattempt ha
    exact hruns hr
  eventId hi := by
    rw [he] at hi
    rw [hq]
    exact h.eventId hi
  eventAttempt hi ha := by
    rw [he] at hi
    obtain ⟨x, hx⟩ := h.eventAttempt hi ha
    exact hkept _ _ hx

theorem Scoped.putRun (h : Scoped s) (r : Run) : Scoped (s.putRun r) := by
  refine h.of_attempts (fun {i q} hq => ?_) h.attemptOrder h.attemptRun (fun _ a ha => ⟨a, ha⟩) rfl
    rfl
  rw [putRun_runTable, Dict.get?_set]
  split
  · exact ⟨r, rfl⟩
  · exact ⟨q, hq⟩

theorem keys_set_of_some {ν : Type} {d : Dict Nat ν} {k : Nat} {v : ν} (hv : d.get? k = some v)
    (w : ν) : (d.set k w).keys = d.keys := by
  rw [Dict.keys_set, if_pos (Dict.mem_keys.mpr ⟨v, hv⟩)]

theorem Scoped.putAttempt (h : Scoped s) {a old : RunAttempt}
    (hold : s.attemptTable.get? a.id = some old) (hrun : a.runId = old.runId) :
    Scoped (s.putAttempt a) := by
  refine h.of_attempts (fun {i q} hq => ⟨q, hq⟩) ?_ (fun {i b} hb => ?_) (attemptsKept_set rfl) rfl
    rfl
  · rw [putAttempt_attemptTable, keys_set_of_some hold]
    exact h.attemptOrder
  · rw [putAttempt_attemptTable, Dict.get?_set] at hb
    split at hb
    · rw [← Option.some.inj hb, hrun]
      exact h.attemptRun hold
    · exact h.attemptRun hb

theorem Scoped.newAttempt (h : Scoped s) (hw : WellFormed s) {mk : Nat → RunAttempt}
    (hid : ∀ n, (mk n).id = n) {k : Nat} {r : Run} (hr : s.runTable.get? k = some r)
    (hrun : ∀ n, (mk n).runId = k) : Scoped (s.newAttempt mk).2 := by
  refine h.of_attempts (fun {i q} hq => ⟨q, hq⟩) ?_ (fun {i b} hb => ?_) (attemptsKept_set rfl) rfl
    rfl
  · have hfresh : s.seq.attempts + 1 ∉ s.attemptTable.keys :=
      Dict.get?_eq_none_iff.mp hw.attempts.fresh
    simp only [MemoryStore.newAttempt, putAttempt_attemptTable, hid]
    rw [Dict.keys_set, if_neg hfresh]
    refine List.pairwise_append.mpr ⟨h.attemptOrder, List.pairwise_singleton _ _, ?_⟩
    intro i hi j hj
    obtain ⟨a, ha⟩ := Dict.mem_keys.mp hi
    rw [List.mem_singleton.mp hj]
    exact Nat.lt_succ_of_le (hw.attempts.bound ha)
  · simp only [MemoryStore.newAttempt, putAttempt_attemptTable, hid, Dict.get?_set] at hb
    split at hb
    · rw [← Option.some.inj hb, hrun]
      exact ⟨r, hr⟩
    · exact h.attemptRun hb

theorem closeExpired_keys (now : Instant) (l : List RunAttempt) : ∀ s : MemoryStore,
    (∀ a ∈ l, ∃ b, s.attemptTable.get? a.id = some b) →
      (closeExpired now s l).attemptTable.keys = s.attemptTable.keys := by
  induction l with
  | nil => exact fun _ _ => rfl
  | cons head rest ih =>
    intro s hl
    obtain ⟨b, hb⟩ := hl head List.mem_cons_self
    have hrest : ∀ a ∈ rest, ∃ b, s.attemptTable.get? a.id = some b :=
      fun a ha => hl a (List.mem_cons_of_mem _ ha)
    simp only [closeExpired]
    split
    · rw [ih _ fun a ha => (hrest a ha).elim fun c hc => attemptsKept_set rfl _ _ hc]
      exact keys_set_of_some hb _
    · exact ih s hrest

section Swept

variable (hw : WellFormed s) (run : Run) (now : Instant)

include hw

theorem swept_get? {i : Nat} {a : RunAttempt} (ha : s.attemptTable.get? i = some a) :
    (s.swept run now).attemptTable.get? i =
      some (if decide (a.runId = run.id) && expiredReplay now a then closed now a else a) := by
  by_cases hc : a.runId = run.id ∧ expiredReplay now a = true
  · rw [if_pos (by simp [hc]), swept_closes hw.attempts run now ha hc.1 hc.2]
  · rw [if_neg (by simpa using hc)]
    rcases swept_others hw.attempts run now i with hs | ⟨dead, hd, hr, hexp, -⟩
    · rw [hs, ha]
    · rw [ha, Option.some.injEq] at hd
      subst hd
      exact absurd ⟨hr, hexp⟩ hc

theorem swept_keys : (s.swept run now).attemptTable.keys = s.attemptTable.keys :=
  closeExpired_keys now _ s fun _ ha => ⟨_, (attempts_filed hw.attempts run ha).1⟩

/-- Closing the abandoned replays of a run is one update of the attempts. -/
theorem swept_values : (s.swept run now).attemptTable.values =
    Sql.update (fun a => decide (a.runId = run.id) && expiredReplay now a) (closed now)
      s.attemptTable.values :=
  Dict.values_eq_map (swept_keys hw run now) fun _ _ ha => swept_get? hw run now ha

theorem swept_kept : AttemptsKept s (s.swept run now) :=
  fun _ _ ha => ⟨_, swept_get? hw run now ha⟩

theorem WellFormed.swept : WellFormed (s.swept run now) := by
  obtain ⟨hok, hseq⟩ := swept_ok hw.attempts run now
  have hsame := SameButAttempts.closeExpired now (s.attempts run.id) s
  exact hw.of_same (hw.runs.of_eq hsame.runTable hsame.seqRuns) hok (swept_kept hw run now)
    hsame.silver hsame.derivationTable hsame.invalidationTable

theorem Scoped.swept (h : Scoped s) : Scoped (s.swept run now) := by
  have hsame := SameButAttempts.closeExpired now (s.attempts run.id) s
  refine h.of_attempts (fun {i r} hr => ⟨r, hsame.runTable ▸ hr⟩) ?_ (fun {i a} ha => ?_)
    (swept_kept hw run now) hsame.eventTable hsame.seqEvents
  · rw [swept_keys hw run now]
    exact h.attemptOrder
  · rcases swept_others hw.attempts run now i with hs | ⟨dead, hd, -, -, hs⟩
    · exact h.attemptRun (hs ▸ ha)
    · rw [ha, Option.some.injEq] at hs
      subst hs
      obtain ⟨r, hr⟩ := h.attemptRun hd
      exact ⟨r, hr⟩

end Swept

theorem Scoped.openAttempt (h : Scoped s) (hw : WellFormed s) {run : Run}
    (hr : s.runTable.get? run.id = some run) (owner : String) (now : Instant) :
    Scoped (s.openAttempt run owner now).2 := by
  have hwS := WellFormed.swept hw run now
  have hscS := Scoped.swept hw run now h
  have hrS : (s.swept run now).runTable.get? run.id = some run := by
    rw [(SameButAttempts.closeExpired now (s.attempts run.id) s).runTable]
    exact hr
  simp only [MemoryStore.openAttempt]
  split
  · rename_i p hp
    obtain ⟨hfiled, -⟩ := attempts_filed hwS.attempts run (List.mem_of_find?_eq_some hp)
    exact hscS.putAttempt hfiled rfl
  · split
    · exact hscS.newAttempt hwS (fun _ => rfl) hrS fun _ => rfl
    · exact hscS.newAttempt hwS (fun _ => rfl) hrS fun _ => rfl

end MemoryStore

namespace Simulates

open MemoryStore

variable {reg : Registry} {ρ : Renaming} {s : MemoryStore} {t : Postgres.Tables}

/-! ## The statements of `claim` -/

theorem closeAbandoned (h : Simulates reg ρ s t) (hw : WellFormed s) (run : Run) (now : Instant) :
    (t.closeAbandoned (ρ.runs run.id) now).1 = (s.attempts run.id).any (expiredReplay now) ∧
      Simulates reg ρ (s.swept run now) (t.closeAbandoned (ρ.runs run.id) now).2 := by
  have hsame := SameButAttempts.closeExpired now (s.attempts run.id) s
  have hseq := (swept_ok hw.attempts run now).2
  constructor
  · rw [Postgres.Tables.closeAbandoned, h.any_attempts, MemoryStore.attempts, List.any_filter]
    simp only [abandoned_attempt]
  · refine { h with
      runs := ?_, attempts := ?_, derivations := ?_, observations := ?_, occurrences := ?_
      occurrenceIds := ?_, events := ?_, seqRuns := ?_, seqAttempts := ?_, seqRows := ?_
      seqEvents := ?_ }
    · rw [hsame.runTable]; exact h.runs
    · rw [swept_values hw run now, Postgres.Tables.closeAbandoned, h.attempts]
      exact Sql.update_map (fun a _ => abandoned_attempt run.id now a) fun _ _ _ => rfl
    · rw [hsame.derivationTable]; exact h.derivations
    · rw [hsame.rowTable]; exact h.observations
    · simp only [seen, hsame.occurrenceTable]; exact h.occurrences
    · simp only [seen, hsame.occurrenceTable]; exact h.occurrenceIds
    · rw [hsame.eventTable]; exact h.events
    · rw [hsame.seqRuns]; exact h.seqRuns
    · rw [hseq]; exact h.seqAttempts
    · rw [hsame.seqRows]; exact h.seqRows
    · rw [hsame.seqEvents]; exact h.seqEvents

theorem attempt_ids (h : Simulates reg ρ s t) (hw : WellFormed s) (hsc : Scoped s) :
    (t.attempts.map RunAttempt.id).Pairwise (· < ·) := by
  have hkeys : s.attemptTable.values.map RunAttempt.id = s.attemptTable.keys := by
    rw [Dict.values, Dict.keys, List.map_map]
    refine List.map_congr_left fun p hp => ?_
    exact hw.attempts.id (Dict.get?_eq_some_iff.mpr hp)
  have hids : t.attempts.map RunAttempt.id =
      (s.attemptTable.values.map RunAttempt.id).map ρ.attempts := by
    rw [h.attempts, List.map_map, List.map_map]
    rfl
  rw [hids, hkeys]
  exact List.Pairwise.map _ (fun _ _ hij => ρ.attemptsMono hij) hsc.attemptOrder

/-- The least id of an unheld replay attempt is that of the first one in the memory store. -/
theorem first_unheld (h : Simulates reg ρ s t) (hw : WellFormed s) (hsc : Scoped s) (k : Nat) :
    ((t.attempts.filter (Postgres.Tables.unheld (ρ.runs k))).map RunAttempt.id).min? =
      ((s.attempts k).find? pendingReplay).map fun p => ρ.attempts p.id := by
  have hc : (Postgres.Tables.unheld (ρ.runs k) ∘ ρ.attempt) =
      fun a => decide (a.runId = k) && pendingReplay a := funext fun a => unheld_attempt k a
  rw [Sql.least_eq_find? (h.attempt_ids hw hsc), h.attempts, List.find?_map, hc,
    MemoryStore.attempts, List.find?_filter, Option.map_map]
  simp only [Bool.decide_and, Bool.decide_eq_true]
  rfl

theorem adoptReplay_some (h : Simulates reg ρ s t) (hw : WellFormed s) (hsc : Scoped s) {run : Run}
    {p : RunAttempt} (hp : (s.attempts run.id).find? pendingReplay = some p) (owner : String)
    (now : Instant) : t.adoptReplay (ρ.run run) owner now =
      (some (ρ.attempt (leased run owner now p)),
        { t with
          attempts := (s.attemptTable.set p.id (leased run owner now p)).values.map ρ.attempt }) := by
  have hfirst := h.first_unheld hw hsc run.id
  rw [hp, Option.map_some] at hfirst
  obtain ⟨hfiled, -⟩ := attempts_filed hw.attempts run (List.mem_of_find?_eq_some hp)
  obtain ⟨hrow, hrows⟩ := update_one hw.attempts.id hfiled ρ.attempt
    (fun a => some (ρ.attempts p.id) = some a.id)
    (fun a => { a with
      leaseOwner := some owner, leaseUntil := (ρ.run run).leaseUntil
      fence := some (ρ.run run).fence, captureId := (ρ.run run).captureId, startedAt := now })
    (leased run owner now)
    (fun a _ => by
      rw [decide_eq_decide, Option.some.injEq, eq_comm]
      exact Renaming.attempts_inj) rfl
  rw [Postgres.Tables.adoptReplay]
  simp only [show (ρ.run run).id = ρ.runs run.id from rfl, hfirst]
  rw [h.attempts, hrow, hrows]

theorem adoptReplay_none (h : Simulates reg ρ s t) (hw : WellFormed s) (hsc : Scoped s) {run : Run}
    (hnone : (s.attempts run.id).find? pendingReplay = none) (owner : String) (now : Instant) :
    t.adoptReplay (ρ.run run) owner now = (none, t) := by
  have hfirst := h.first_unheld hw hsc run.id
  rw [hnone, Option.map_none] at hfirst
  rw [Postgres.Tables.adoptReplay]
  simp only [show (ρ.run run).id = ρ.runs run.id from rfl, hfirst]
  obtain ⟨hrow, hrows⟩ := update_none (c := fun a => (none : Option Nat) = some a.id)
    (fun a => { a with
      leaseOwner := some owner, leaseUntil := (ρ.run run).leaseUntil
      fence := some (ρ.run run).fence, captureId := (ρ.run run).captureId, startedAt := now })
    (show ∀ a ∈ t.attempts, _ = false from fun _ _ => rfl)
  rw [hrow, hrows]
  rfl

/-- An adopted attempt of the memory store is the row the update returns. -/
theorem adopted (h : Simulates reg ρ s t) (hw : WellFormed s) (hsc : Scoped s) {run : Run}
    {p : RunAttempt} (hp : (s.attempts run.id).find? pendingReplay = some p) (owner : String)
    (now : Instant) : ∃ t', t.adoptReplay (ρ.run run) owner now =
      (some (ρ.attempt (leased run owner now p)), t') ∧
        Simulates reg ρ (s.putAttempt (leased run owner now p)) t' :=
  ⟨_, h.adoptReplay_some hw hsc hp owner now, h.putAttempt (leased run owner now p)⟩

theorem replayAttempt_id (k : Nat) (captureId : Option CaptureId) (now : Instant) (n : Nat) :
    (replayAttempt k captureId now n).id = n := rfl

/-- Inserting an attempt and updating it is inserting the updated one. -/
theorem putAttempt_newAttempt (s : MemoryStore) (mk : Nat → RunAttempt) (f : RunAttempt → RunAttempt)
    (hf : ∀ a, (f a).id = a.id) :
    (s.newAttempt mk).2.putAttempt (f (mk (s.seq.attempts + 1))) =
      (s.newAttempt fun n => f (mk n)).2 := by
  simp only [MemoryStore.newAttempt, MemoryStore.putAttempt, hf, Dict.set_set]

theorem find_newAttempt (hw : WellFormed s) {mk : Nat → RunAttempt} (hid : ∀ n, (mk n).id = n)
    {k : Nat} (hk : ∀ n, (mk n).runId = k) (hpend : ∀ n, pendingReplay (mk n) = true)
    (hnone : (s.attempts k).find? pendingReplay = none) :
    ((s.newAttempt mk).2.attempts k).find? pendingReplay = some (mk (s.seq.attempts + 1)) := by
  have hfresh : s.attemptTable.get? (mk (s.seq.attempts + 1)).id = none := by
    rw [hid]
    exact hw.attempts.fresh
  have hattempts : (s.newAttempt mk).2.attempts k = s.attempts k ++ [mk (s.seq.attempts + 1)] := by
    simp only [MemoryStore.attempts, MemoryStore.newAttempt, putAttempt_attemptTable]
    rw [Dict.values_set_of_none _ hfresh, List.filter_append, List.filter_cons_of_pos (by simp [hk])]
    rfl
  rw [hattempts, List.find?_append, hnone, Option.none_or, List.find?_cons_of_pos (hpend _)]

/-- The attempt a granted claim works under is the same on both sides. -/
theorem openAttempt (h : Simulates reg ρ s t) (hw : WellFormed s) (hsc : Scoped s) {run : Run}
    (hr : s.runTable.get? run.id = some run) (owner : String) (now : Instant) :
    ∃ ρ', Extends s.seq ρ ρ' ∧ ρ'.runs = ρ.runs ∧
      (t.openAttempt (ρ.run run) owner now).1 = ρ'.attempt (s.openAttempt run owner now).1 ∧
      Simulates reg ρ' (s.openAttempt run owner now).2 (t.openAttempt (ρ.run run) owner now).2 := by
  obtain ⟨hdead, hclosed⟩ := h.closeAbandoned hw run now
  have hwS := WellFormed.swept hw run now
  have hscS := Scoped.swept hw run now hsc
  have hseq := (swept_ok hw.attempts run now).2
  have hrun : (s.swept run now).runTable.get? run.id = some run := by
    rw [(SameButAttempts.closeExpired now (s.attempts run.id) s).runTable]
    exact hr
  simp only [Postgres.Tables.openAttempt, MemoryStore.openAttempt]
  generalize hS : s.swept run now = S at *
  simp only [show closeExpired now s (s.attempts run.id) = S from hS,
    show (ρ.run run).id = ρ.runs run.id from rfl, hdead]
  generalize (t.closeAbandoned (ρ.runs run.id) now).2 = T at *
  cases hp : (S.attempts run.id).find? pendingReplay with
  | some p =>
    have hany : (S.attempts run.id).any pendingReplay = true :=
      List.any_eq_true.mpr ⟨p, List.mem_of_find?_eq_some hp, List.find?_some hp⟩
    have hins : T.insertReplay (ρ.runs run.id) (ρ.run run).captureId now = (none, T) := by
      rw [Postgres.Tables.insertReplay, hclosed.any_unheld, hany, if_pos rfl]
    obtain ⟨T', hadopt, hsim⟩ := hclosed.adopted hwS hscS hp owner now
    simp only [hins, ite_self, hadopt]
    exact ⟨ρ, Extends.refl _ _, rfl, rfl, hsim⟩
  | none =>
    have hany : (S.attempts run.id).any pendingReplay = false := by
      rw [List.any_eq_false]
      exact List.find?_eq_none.mp hp
    cases hreopened : (s.attempts run.id).any (expiredReplay now) with
    | false =>
      obtain ⟨ρ', he, hruns, hout, hsim⟩ := hclosed.newAttempt hwS hscS
        (processAttempt run owner now) (Postgres.Tables.processRow (ρ.run run) owner now)
        (fun _ => rfl) (fun _ _ => rfl)
      simp only [Bool.false_eq_true, if_false, hclosed.adoptReplay_none hwS hscS hp]
      exact ⟨ρ', hseq ▸ he, hruns, hout, hsim⟩
    | true =>
      -- a replay attempt is inserted and adopted at once
      obtain ⟨ρ', he, hruns, -, hsim⟩ := hclosed.insertReplay hwS hscS run.id run.captureId now hany
      have hwN := hwS.newAttempt (fun n => replayAttempt_id run.id run.captureId now n)
      have hscN := hscS.newAttempt hwS (replayAttempt_id run.id run.captureId now) hrun fun _ => rfl
      have hfind := find_newAttempt hwS (replayAttempt_id run.id run.captureId now)
        (fun _ => rfl) (fun _ => rfl) hp
      obtain ⟨T', hadopt, hsim'⟩ := hsim.adopted hwN hscN hfind owner now
      have hsame : ρ'.run run = ρ.run run := by rw [Renaming.run, hruns]; rfl
      rw [hsame] at hadopt
      simp only [if_true, show (ρ.run run).captureId = run.captureId from rfl, hadopt]
      refine ⟨ρ', hseq ▸ he, hruns, rfl, ?_⟩
      rw [putAttempt_newAttempt S _ (leased run owner now) fun _ => rfl] at hsim'
      exact hsim'

theorem claim (h : Simulates reg ρ s t) (hw : WellFormed s) (hsc : Scoped s) {k : Nat}
    {owner : String} {ttl : Duration} {now : Instant} {out : Option Claim} {s' : MemoryStore}
    (hs : s.claim k owner ttl now = some (out, s')) : ∃ ρ' t', Extends s.seq ρ ρ' ∧
      t.claim (ρ.runs k) owner ttl now = (out.map ρ'.claim, t') ∧ Simulates reg ρ' s' t' := by
  obtain ⟨old, hold, hcase⟩ := claim_cases hs
  have hid := hw.runs.id hold
  have hcond : ∀ r, s.runTable.get? r.id = some r →
      (decide ((ρ.run r).id = ρ.runs k) &&
        ((ρ.run r).leaseUntil.isNone || (ρ.run r).leaseUntil.any (· < now))) =
      (decide (r.id = k) && decide (Free r now)) := by
    intro r _
    have hfree : (r.leaseUntil.isNone || r.leaseUntil.any (· < now)) = decide (Free r now) := by
      rw [Bool.eq_iff_iff, decide_eq_true_iff, Free]
      cases r.leaseUntil <;> simp
    rw [← hfree]
    simp only [Renaming.run, Renaming.runs_inj]
  rcases hcase with ⟨hbusy, rfl, rfl⟩ | ⟨hfree, att, rfl, ho⟩
  · have hupdate := h.updateRun_none hw
      (fun r => decide (r.id = ρ.runs k) && (r.leaseUntil.isNone || r.leaseUntil.any (· < now)))
      (fun r => { r with
        fence := r.fence + 1, leaseOwner := some owner, leaseUntil := some (now + ttl)
        updatedAt := now }) fun r hr => by
          rw [hcond r hr]
          by_cases hk : r.id = k
          · rw [hk, hold, Option.some.injEq] at hr
            simp [← hr, hbusy]
          · simp [hk]
    refine ⟨ρ, t, Extends.refl _ _, ?_, h⟩
    rw [Postgres.Tables.claim, hupdate]
    rfl
  · have hupdate := h.updateRun_some hw hold
      (fun r => decide (r.id = ρ.runs k) && (r.leaseUntil.isNone || r.leaseUntil.any (· < now)))
      (fun r => { r with
        fence := r.fence + 1, leaseOwner := some owner, leaseUntil := some (now + ttl)
        updatedAt := now })
      (fun r => granted r owner ttl now) (fun r hr => by
        rw [hcond r hr]
        by_cases hk : r.id = k
        · rw [hk, hold, Option.some.injEq] at hr
          simp [← hr, hfree, hid]
        · simp [hk]) rfl
    have hput := h.putRun (granted old owner ttl now)
    rw [show (granted old owner ttl now).id = k from hid] at hput
    have hwP := hw.putRun (r := granted old owner ttl now) hold rfl rfl rfl
    have hself : (s.putRun (granted old owner ttl now)).runTable.get? (granted old owner ttl now).id =
        some (granted old owner ttl now) := Dict.get?_set_self ..
    obtain ⟨ρ', he, hruns, hout, hsim⟩ := hput.openAttempt hwP (hsc.putRun _) hself owner now
    rw [ho] at hout hsim
    refine ⟨ρ', _, he, ?_, hsim⟩
    have hrun : ρ'.run (granted old owner ttl now) = ρ.run (granted old owner ttl now) := by
      rw [Renaming.run, hruns]
      rfl
    rw [Postgres.Tables.claim, hupdate, Option.map_some, Renaming.claim, hrun, ← hout]
    rfl

end Simulates

end EnergyPlatform
