import EnergyPlatform.Store.WellFormed

/-!
# Store.Fencing

Fencing over whole histories: workers call the store in any order at any clock values, and a
worker renews or commits only under a claim it was granted.

`exec_fence`: no call lowers a fence, and a granted claim or a recapture of the run raises it.
`FencesOk.step` carries this through a history; `fencing` reads the guarantees off it.
-/

namespace EnergyPlatform

open Lib (Dict)
open MemoryStore

/-- A store together with the claims it has granted so far, oldest first. -/
structure History where
  store : MemoryStore
  granted : List Claim

namespace History

def init : History := ⟨MemoryStore.init, []⟩

/-- A worker renews and commits under claims that were granted. -/
def Holds (h : History) : StoreCall → Prop
  | .renew c .. | .commit c .. => c ∈ h.granted
  | _ => True

instance (h : History) (c : StoreCall) : Decidable (h.Holds c) := by
  cases c <;> simp only [Holds] <;> infer_instance

def newClaims : (c : StoreCall) → c.Ret → List Claim
  | .claim .., some c => [c]
  | _, _ => []

def step (h : History) (c : StoreCall) : Option (c.Ret × History) :=
  if h.Holds c then
    (h.store.exec c).map fun p => (p.1, ⟨p.2, h.granted ++ newClaims c p.1⟩)
  else none

def run (h : History) : List StoreCall → Option History
  | [] => some h
  | c :: rest => (h.step c).bind fun p => run p.2 rest

theorem step_cases {h h' : History} {c : StoreCall} {out : c.Ret}
    (hs : h.step c = some (out, h')) : h.Holds c ∧
      h.store.exec c = some (out, h'.store) ∧ h'.granted = h.granted ++ newClaims c out := by
  simp only [step] at hs
  split at hs
  · rename_i hh
    obtain ⟨⟨o, s⟩, he, hp⟩ := Option.map_eq_some_iff.mp hs
    rw [Prod.mk.injEq] at hp
    obtain ⟨rfl, rfl⟩ := hp
    exact ⟨hh, he, rfl⟩
  · cases hs

end History

/-- The call takes run `i` away from whoever holds it: a claim on it is granted, or it is
recaptured. -/
def Supersedes (i : Nat) : (c : StoreCall) → c.Ret → Prop
  | .claim j .., some _ => j = i
  | .markRecaptured j .., _ => j = i
  | _, _ => False

/-- Nothing changed but attempt `i`, and that only if it was open. -/
structure OnlyOwnAttempt (i : Nat) (s s' : MemoryStore) : Prop extends SameButAttempts s s' where
  attempts : ∀ {j a}, s.attemptTable.get? j = some a → j ≠ i ∨ a.outcome ≠ none →
    s'.attemptTable.get? j = some a
  noNew : ∀ {j}, s.attemptTable.get? j = none → s'.attemptTable.get? j = none

namespace MemoryStore

variable {s s' : MemoryStore}

theorem putRun_fence (h : WellFormed s) {i j : Nat} {old r run : Run}
    (hold : s.runTable.get? j = some old) (hid : r.id = old.id) (hf : old.fence ≤ r.fence)
    (hr : s.runTable.get? i = some run) :
    ∃ run', (s.putRun r).runTable.get? i = some run' ∧ run.fence ≤ run'.fence ∧
      (j = i → run' = r ∧ run = old) := by
  rw [putRun_runTable, hid, h.runs.id hold, Dict.get?_set]
  by_cases hi : i = j
  · subst hi
    rw [hr, Option.some.injEq] at hold
    subst hold
    exact ⟨r, by rw [if_pos rfl], hf, fun _ => ⟨rfl, rfl⟩⟩
  · exact ⟨run, by rw [if_neg hi]; exact hr, le_rfl, fun e => absurd e.symm hi⟩

/-- What holds of every call: no attempt is forgotten, no fence lowered, and the fence of a run
raised when its holder is superseded. -/
structure Onward (s : MemoryStore) (c : StoreCall) (out : c.Ret) (s' : MemoryStore) : Prop where
  attempts : AttemptsKept s s'
  fence : ∀ {i run}, s.runTable.get? i = some run → ∃ run', s'.runTable.get? i = some run' ∧
    run.fence ≤ run'.fence ∧ (Supersedes i c out → run.fence < run'.fence)

variable {c : StoreCall} {out : c.Ret}

theorem Onward.of_runTable (ha : AttemptsKept s s') (hr : s'.runTable = s.runTable)
    (hno : ∀ i, ¬ Supersedes i c out) : Onward s c out s' :=
  ⟨ha, fun {i run} hi => ⟨run, hr ▸ hi, le_rfl, fun hsup => absurd hsup (hno i)⟩⟩

theorem Onward.of_same (ha : s'.attemptTable = s.attemptTable) (hr : s'.runTable = s.runTable)
    (hno : ∀ i, ¬ Supersedes i c out) : Onward s c out s' :=
  .of_runTable (fun _ _ h => ⟨_, ha ▸ h⟩) hr hno

theorem Onward.of_putRun (h : WellFormed s) {j : Nat} {old r : Run}
    (ha : AttemptsKept s s') (hr : s'.runTable = (s.putRun r).runTable)
    (hold : s.runTable.get? j = some old) (hid : r.id = old.id) (hle : old.fence ≤ r.fence)
    (hsup : ∀ i, Supersedes i c out → j = i ∧ old.fence < r.fence) : Onward s c out s' where
  attempts := ha
  fence {i run} hi := by
    obtain ⟨run', hr', hf, hji⟩ := putRun_fence h hold hid hle hi
    refine ⟨run', hr ▸ hr', hf, fun hs => ?_⟩
    obtain ⟨hj, hlt⟩ := hsup i hs
    obtain ⟨rfl, rfl⟩ := hji hj
    exact hlt

theorem exec_onward (h : WellFormed s) (hc : s.exec c = some (out, s')) : Onward s c out s' := by
  have hrefl : AttemptsKept s s := fun _ _ ha => ⟨_, ha⟩
  cases c with
  | getRun | runs | attempts | pendingRuns | isInvalidated | attemptCaptures | invalidations =>
    obtain rfl := store_of_some hc
    exact .of_same rfl rfl fun _ => id
  | runsWithDerivation | currentRows =>
    obtain ⟨rs, -, hrs⟩ := Option.map_eq_some_iff.mp hc
    obtain rfl : s = s' := congrArg Prod.snd hrs
    exact .of_same rfl rfl fun _ => id
  | ensureRun targetId at_ state origin captureId now =>
    obtain rfl := store_of_some hc
    rcases ensureRun_cases s targetId at_ state origin captureId now with
      ⟨-, r, hid, -, -, -, -, -, -, -, he⟩ | ⟨old, hf, ⟨-, -, -, he⟩ | ⟨-, he⟩⟩
    · rw [he]
      refine ⟨hrefl, fun {i run} hi => ⟨run, ?_, le_rfl, False.elim⟩⟩
      have hne : i ≠ r.id := by
        have := h.runs.bound hi; omega
      exact (Dict.get?_set_ne _ _ hne).trans hi
    · obtain ⟨⟨j, hj⟩, -⟩ := find_eq_some hf
      rw [he]
      exact .of_putRun h hrefl rfl hj rfl le_rfl (fun _ => False.elim)
    · rw [he]
      exact .of_same rfl rfl (fun _ => False.elim)
  | setState j state now =>
    obtain ⟨old, hj, rfl, rfl⟩ := setState_cases hc
    exact .of_putRun h hrefl rfl hj rfl le_rfl (fun _ => False.elim)
  | markRecaptured j captureId now =>
    obtain ⟨old, hj, rfl, rfl⟩ := markRecaptured_cases hc
    exact .of_putRun h hrefl rfl hj rfl (Nat.le_succ _) fun _ hi => ⟨hi, Nat.lt_succ_self _⟩
  | claim j owner ttl now =>
    obtain ⟨old, hj, ⟨-, rfl, rfl⟩ | ⟨-, att, rfl, he⟩⟩ := claim_cases hc
    · exact .of_same rfl rfl (fun _ => False.elim)
    · have ho := h.opened owner ttl now hj
      rw [he] at ho
      exact .of_putRun h ho.kept ho.same.runTable hj rfl (Nat.le_succ _)
        fun _ hi => ⟨hi, Nat.lt_succ_self _⟩
  | renew c ttl now =>
    obtain ⟨old, hj, ⟨-, -, rfl⟩ | ⟨-, -, rfl⟩⟩ := renew_cases hc
    · exact .of_same rfl rfl (fun _ => False.elim)
    · exact .of_putRun h hrefl rfl hj rfl le_rfl (fun _ => False.elim)
  | commit c args now =>
    obtain ⟨old, att, hj, -, ⟨-, -, rfl⟩ | ⟨-, -, rfl⟩⟩ := commit_cases h.attempts hc
    · split
      · exact .of_runTable (attemptsKept_set rfl) rfl (fun _ => False.elim)
      · exact .of_same rfl rfl (fun _ => False.elim)
    · exact .of_putRun h (r := released old args.state now)
        (attemptsKept_set (committed_attemptTable ..)) (committed_runTable ..) hj rfl le_rfl (fun _ => False.elim)
  | recordAttempt =>
    obtain rfl := store_of_some hc
    exact .of_runTable (attemptsKept_set (putAttempt_attemptTable ..)) rfl (fun _ => False.elim)
  | enqueueReplay j now =>
    obtain ⟨-, -, rfl⟩ | ⟨-, _, -, rfl⟩ := enqueueReplay_cases hc
    · exact .of_same rfl rfl (fun _ => False.elim)
    · exact .of_runTable (attemptsKept_set (putAttempt_attemptTable ..)) rfl (fun _ => False.elim)
  | addInvalidation inv =>
    obtain rfl := store_of_some hc
    simp only [MemoryStore.addInvalidation]
    split <;> exact .of_same rfl rfl (fun _ => False.elim)
  | registerDerivation d now =>
    obtain rfl := store_of_some hc
    change Onward s _ _ (s.registerAny (some d) now)
    rw [registerAny_frame]
    exact .of_same rfl rfl (fun _ => False.elim)
  | addEvents targetId events a now =>
    obtain rfl := store_of_some hc
    rw [addEvents_frame]
    exact .of_same rfl rfl (fun _ => False.elim)

/-- A run keeps its target and its instant. -/
def RunsKept (s s' : MemoryStore) : Prop :=
  ∀ i run, s.runTable.get? i = some run → ∃ run', s'.runTable.get? i = some run' ∧
    run'.targetId = run.targetId ∧ run'.scheduledFor = run.scheduledFor

theorem RunsKept.of_same (hr : s'.runTable = s.runTable) : RunsKept s s' :=
  fun _ run hi => ⟨run, hr ▸ hi, rfl, rfl⟩

theorem RunsKept.of_putRun (h : WellFormed s) {j : Nat} {old r : Run}
    (hr : s'.runTable = (s.putRun r).runTable) (hold : s.runTable.get? j = some old)
    (hid : r.id = old.id) (ht : r.targetId = old.targetId)
    (ha : r.scheduledFor = old.scheduledFor) : RunsKept s s' := by
  intro i run hi
  rw [hr, putRun_runTable, hid, h.runs.id hold, Dict.get?_set]
  by_cases hij : i = j
  · rw [hij, hold, Option.some.injEq] at hi
    rw [if_pos hij, ← hi]
    exact ⟨r, rfl, ht, ha⟩
  · rw [if_neg hij]
    exact ⟨run, hi, rfl, rfl⟩

theorem exec_runsKept (h : WellFormed s) (hc : s.exec c = some (out, s')) : RunsKept s s' := by
  cases c with
  | getRun | runs | attempts | pendingRuns | isInvalidated | attemptCaptures | invalidations
  | recordAttempt =>
    obtain rfl := store_of_some hc
    exact .of_same rfl
  | runsWithDerivation | currentRows =>
    obtain ⟨rs, -, hrs⟩ := Option.map_eq_some_iff.mp hc
    obtain rfl : s = s' := congrArg Prod.snd hrs
    exact .of_same rfl
  | ensureRun targetId at_ state origin captureId now =>
    obtain rfl := store_of_some hc
    rcases ensureRun_cases s targetId at_ state origin captureId now with
      ⟨-, r, hid, -, -, -, -, -, -, -, he⟩ | ⟨old, hf, ⟨-, -, -, he⟩ | ⟨-, he⟩⟩
    · rw [he]
      intro i run hi
      have hne : i ≠ r.id := by
        have := h.runs.bound hi; omega
      exact ⟨run, (Dict.get?_set_ne _ _ hne).trans hi, rfl, rfl⟩
    · obtain ⟨⟨j, hj⟩, -⟩ := find_eq_some hf
      rw [he]
      exact .of_putRun h rfl hj rfl rfl rfl
    · rw [he]
      exact .of_same rfl
  | setState =>
    obtain ⟨old, hj, rfl, rfl⟩ := setState_cases hc
    exact .of_putRun h rfl hj rfl rfl rfl
  | markRecaptured =>
    obtain ⟨old, hj, rfl, rfl⟩ := markRecaptured_cases hc
    exact .of_putRun h rfl hj rfl rfl rfl
  | claim j owner ttl now =>
    obtain ⟨old, hj, ⟨-, rfl, rfl⟩ | ⟨-, att, rfl, he⟩⟩ := claim_cases hc
    · exact .of_same rfl
    · have ho := h.opened owner ttl now hj
      rw [he] at ho
      exact .of_putRun h ho.same.runTable hj rfl rfl rfl
  | renew =>
    obtain ⟨old, hj, ⟨-, -, rfl⟩ | ⟨-, -, rfl⟩⟩ := renew_cases hc
    · exact .of_same rfl
    · exact .of_putRun h rfl hj rfl rfl rfl
  | commit c args now =>
    obtain ⟨old, att, hj, -, ⟨-, -, rfl⟩ | ⟨-, -, rfl⟩⟩ := commit_cases h.attempts hc
    · split <;> exact .of_same rfl
    · exact .of_putRun h (r := released old args.state now) (committed_runTable ..) hj rfl rfl rfl
  | enqueueReplay =>
    obtain ⟨-, -, rfl⟩ | ⟨-, _, -, rfl⟩ := enqueueReplay_cases hc
    · exact .of_same rfl
    · exact .of_same rfl
  | addInvalidation inv =>
    obtain rfl := store_of_some hc
    simp only [MemoryStore.addInvalidation]
    split <;> exact .of_same rfl
  | registerDerivation d now =>
    obtain rfl := store_of_some hc
    change RunsKept s (s.registerAny (some d) now)
    rw [registerAny_frame]
    exact .of_same rfl
  | addEvents targetId events a now =>
    obtain rfl := store_of_some hc
    rw [addEvents_frame]
    exact .of_same rfl

end MemoryStore

/-! ## Histories -/

/-- A granted claim names a run and an attempt of the store, under a fence the run has reached. -/
structure Backed (s : MemoryStore) (c : Claim) : Prop where
  run : ∃ run, s.runTable.get? c.run.id = some run ∧ c.fence ≤ run.fence
  attempt : ∃ a, s.attemptTable.get? c.attempt.id = some a

/-- The fences of the claims granted on run `i`, in the order they were granted. -/
def History.fences (h : History) (i : Nat) : List Nat :=
  (h.granted.filter fun c => c.run.id = i).map Claim.fence

structure FencesOk (h : History) : Prop where
  store : WellFormed h.store
  backed : ∀ c ∈ h.granted, Backed h.store c
  increasing : ∀ i, (h.fences i).Pairwise (· < ·)

theorem FencesOk.init : FencesOk .init where
  store := WellFormed.init
  backed _ h := by cases h
  increasing _ := List.Pairwise.nil

theorem Backed.step {s s' : MemoryStore} {cl : Claim} (h : Backed s cl) {c : StoreCall}
    {out : c.Ret} (ho : Onward s c out s') : Backed s' cl := by
  obtain ⟨run, hr, hle⟩ := h.run
  obtain ⟨a, ha⟩ := h.attempt
  obtain ⟨run', hr', hle', -⟩ := ho.fence hr
  exact ⟨⟨run', hr', hle.trans hle'⟩, ho.attempts _ _ ha⟩

/-- A claim is granted on a free run, under a fence one beyond the run's. -/
theorem claim_granted {s s' : MemoryStore} (h : WellFormed s) {i : Nat} {owner : String}
    {ttl : Duration} {now : Instant} {cl : Claim} (hc : s.claim i owner ttl now = some (some cl, s')) :
    ∃ run, s.runTable.get? i = some run ∧ Free run now ∧ cl.run.id = i ∧
      cl.fence = run.fence + 1 ∧ Backed s' cl := by
  obtain ⟨run, hr, ⟨-, hn, -⟩ | ⟨hfree, att, he, ho⟩⟩ := claim_cases hc
  · cases hn
  · obtain rfl := Option.some.inj he
    have hop := h.opened owner ttl now hr
    rw [ho] at hop
    have hid : run.id = i := h.runs.id hr
    refine ⟨run, hr, hfree, hid, rfl, ⟨granted run owner ttl now, ?_, le_rfl⟩,
      ⟨att, hop.filed⟩⟩
    rw [hop.same.runTable]
    exact Dict.get?_set_self ..

/-- A call that is not a granted claim leaves the granted claims as they were. -/
theorem newClaims_cases (c : StoreCall) (out : c.Ret) : History.newClaims c out = [] ∨
    ∃ i owner ttl now cl, c = .claim i owner ttl now ∧ History.newClaims c out = [cl] ∧
      HEq out (some cl : Option Claim) := by
  cases c
  case claim i owner ttl now =>
    match out with
    | none => exact .inl rfl
    | some cl => exact .inr ⟨i, owner, ttl, now, cl, rfl, rfl, HEq.rfl⟩
  all_goals exact .inl rfl

theorem FencesOk.step {h h' : History} (hok : FencesOk h) {c : StoreCall} {out : c.Ret}
    (hs : h.step c = some (out, h')) : FencesOk h' := by
  obtain ⟨-, he, hg⟩ := History.step_cases hs
  have ho := exec_onward hok.store he
  have hkept : ∀ cl ∈ h.granted, Backed h'.store cl := fun cl hcl => (hok.backed cl hcl).step ho
  rcases newClaims_cases c out with hnil | ⟨i, owner, ttl, now, cl, rfl, hcl, hout⟩
  · rw [hnil, List.append_nil] at hg
    exact ⟨hok.store.exec he, hg ▸ hkept, fun i => by rw [History.fences, hg]; exact hok.increasing i⟩
  · obtain rfl := eq_of_heq hout
    obtain ⟨run, hr, -, hid, hf, hb⟩ := claim_granted hok.store he
    rw [hcl] at hg
    refine ⟨hok.store.exec he, ?_, fun j => ?_⟩
    · intro cl' hcl'
      rw [hg, List.mem_append, List.mem_singleton] at hcl'
      rcases hcl' with hcl' | rfl
      · exact hkept cl' hcl'
      · exact hb
    · rw [History.fences, hg, List.filter_append, List.map_append]
      refine List.pairwise_append.mpr ⟨hok.increasing j, ?_, ?_⟩
      · by_cases hj : cl.run.id = j <;> simp [hj]
      · intro f hf₁ f' hf₂
        obtain ⟨old, hold, rfl⟩ := List.mem_map.mp hf₁
        obtain ⟨new, hnew, rfl⟩ := List.mem_map.mp hf₂
        rw [List.mem_filter, decide_eq_true_eq] at hold hnew
        obtain rfl := List.mem_singleton.mp hnew.1
        obtain ⟨run', hr', hle⟩ := (hok.backed old hold.1).run
        rw [hold.2, ← hnew.2, hid, hr, Option.some.injEq] at hr'
        subst hr'
        omega

theorem History.run_cons {h h' : History} {c : StoreCall} {rest : List StoreCall} :
    h.run (c :: rest) = some h' ↔ ∃ out h₁, h.step c = some (out, h₁) ∧ h₁.run rest = some h' := by
  simp only [History.run, Option.bind_eq_some_iff, Prod.exists]

theorem FencesOk.run {calls : List StoreCall} : ∀ {h h' : History}, FencesOk h →
    h.run calls = some h' → FencesOk h' := by
  induction calls with
  | nil => intro h h' hok hr; cases hr; exact hok
  | cons c rest ih =>
    intro h h' hok hr
    obtain ⟨out, h₁, hs, hr⟩ := History.run_cons.mp hr
    exact ih (hok.step hs) hr

/-- A claim whose fence the run has passed stays stale. -/
theorem stale_run {calls : List StoreCall} {i f : Nat} : ∀ {h h' : History}, FencesOk h →
    h.run calls = some h' → (∃ run, h.store.runTable.get? i = some run ∧ f < run.fence) →
    ∃ run, h'.store.runTable.get? i = some run ∧ f < run.fence := by
  induction calls with
  | nil => intro h h' _ hr hf; cases hr; exact hf
  | cons c rest ih =>
    intro h h' hok hr ⟨run, hrun, hlt⟩
    obtain ⟨out, h₁, hs, hr⟩ := History.run_cons.mp hr
    obtain ⟨-, he, -⟩ := History.step_cases hs
    obtain ⟨run', hrun', hle, -⟩ := (exec_onward hok.store he).fence hrun
    exact ih (hok.step hs) hr ⟨run', hrun', by omega⟩

theorem granted_run {calls : List StoreCall} {cl : Claim} : ∀ {h h' : History},
    h.run calls = some h' → cl ∈ h.granted → cl ∈ h'.granted := by
  induction calls with
  | nil => intro h h' hr hm; cases hr; exact hm
  | cons c rest ih =>
    intro h h' hr hm
    obtain ⟨out, h₁, hs, hr⟩ := History.run_cons.mp hr
    obtain ⟨-, -, hg⟩ := History.step_cases hs
    exact ih hr (by rw [hg]; exact List.mem_append_left _ hm)

/-- Under a stale fence a commit reports the lost lease and closes at most its own open attempt. -/
theorem commit_stale {s : MemoryStore} (h : WellFormed s) {cl : Claim} {run : Run} {a : RunAttempt}
    (hr : s.runTable.get? cl.run.id = some run) (hf : cl.fence < run.fence)
    (ha : s.attemptTable.get? cl.attempt.id = some a) (args : Commit) (now : Instant) :
    ∃ s', s.commit cl args now = some (⟨0, true, 0⟩, s') ∧
      OnlyOwnAttempt cl.attempt.id s s' := by
  have hne : run.fence ≠ cl.fence := by omega
  refine ⟨if a.outcome = none then s.putAttempt (closed now a) else s, ?_, ?_⟩
  · simp [commit, hr, hne, ha]
  · have hid := h.attempts.id ha
    split
    · rename_i hopen
      refine ⟨.putAttempt s _, ?_, ?_⟩
      · intro j b hb hor
        rw [putAttempt_attemptTable, closed_id, hid]
        by_cases hj : j = cl.attempt.id
        · subst hj
          rw [ha, Option.some.injEq] at hb
          exact absurd (hb ▸ hopen) (hor.resolve_left fun e => e rfl)
        · exact (Dict.get?_set_ne _ _ hj).trans hb
      · intro j hj
        rw [putAttempt_attemptTable, closed_id, hid]
        refine (Dict.get?_set_ne _ _ ?_).trans hj
        rintro rfl
        rw [ha] at hj; cases hj
    · exact ⟨.refl s, fun hb _ => hb, fun hj => hj⟩

theorem renew_stale {s : MemoryStore} {cl : Claim} {run : Run}
    (hr : s.runTable.get? cl.run.id = some run) (hf : cl.fence < run.fence) (ttl : Duration)
    (now : Instant) : s.renew cl ttl now = some (false, s) := by
  have hne : run.fence ≠ cl.fence := by omega
  simp [renew, hr, hne]

/-- Fencing, over every history of calls. Once a claim is superseded, its commits lose and change
at most its own open attempt, and its renewals fail and change nothing; claims are granted on free
runs only; the fences granted on a run increase; and a commit that does not lose was made under
the highest of them. -/
theorem fencing {calls : List StoreCall} {h : History} (hrun : History.init.run calls = some h) :
    (∀ cl ∈ h.granted, ∀ (call : StoreCall) (out : call.Ret) (h₁ : History),
      h.step call = some (out, h₁) → Supersedes cl.run.id call out →
      ∀ (more : List StoreCall) (h₂ : History), h₁.run more = some h₂ →
        (∀ args now, ∃ s', h₂.store.commit cl args now = some (⟨0, true, 0⟩, s') ∧
          OnlyOwnAttempt cl.attempt.id h₂.store s') ∧
        ∀ ttl now, h₂.store.renew cl ttl now = some (false, h₂.store)) ∧
    (∀ i owner ttl now cl s', h.store.claim i owner ttl now = some (some cl, s') →
      ∃ run, h.store.runTable.get? i = some run ∧ ∀ t ∈ run.leaseUntil, t < now) ∧
    (∀ i, (h.fences i).Pairwise (· < ·)) ∧
    ∀ cl ∈ h.granted, ∀ args now res s', h.store.commit cl args now = some (res, s') →
      res.lostLease = false → ∀ f ∈ h.fences cl.run.id, f ≤ cl.fence := by
  have hok := FencesOk.init.run hrun
  refine ⟨?_, ?_, hok.increasing, ?_⟩
  · intro cl hcl call out h₁ hs hsup more h₂ hmore
    obtain ⟨run, hr, hle⟩ := (hok.backed cl hcl).run
    obtain ⟨-, he, hg⟩ := History.step_cases hs
    obtain ⟨run₁, hr₁, -, hlt⟩ := (exec_onward hok.store he).fence hr
    have hlt := hlt hsup
    have hok₁ := hok.step hs
    have hok₂ := hok₁.run hmore
    obtain ⟨run₂, hr₂, hlt₂⟩ := stale_run hok₁ hmore ⟨run₁, hr₁, hle.trans_lt hlt⟩
    have hcl₂ := granted_run hmore (by rw [hg]; exact List.mem_append_left _ hcl)
    obtain ⟨a, ha⟩ := (hok₂.backed cl hcl₂).attempt
    exact ⟨fun args now => commit_stale hok₂.store hr₂ hlt₂ ha args now,
      fun ttl now => renew_stale hr₂ hlt₂ ttl now⟩
  · intro i owner ttl now cl s' hc
    obtain ⟨run, hr, hfree, -⟩ := claim_granted hok.store hc
    exact ⟨run, hr, hfree⟩
  · intro cl _ args now res s' hc hlost f hf
    obtain ⟨c', hc', rfl⟩ := List.mem_map.mp hf
    rw [List.mem_filter, decide_eq_true_eq] at hc'
    obtain ⟨run, hr, hle⟩ := (hok.backed c' hc'.1).run
    obtain ⟨run', att, hr', -, ⟨-, rfl, -⟩ | ⟨hfe, -, -⟩⟩ := commit_cases hok.store.attempts hc
    · cases hlost
    · rw [hc'.2, hr', Option.some.injEq] at hr
      rw [← hfe, hr]
      exact hle

/-- Worker `a` claims run 1, its lease runs out, worker `b` claims it. -/
def twoClaims : List StoreCall :=
  [.ensureRun "ote" 0 .captured .scheduled (some (captureId "ote" 0 1)) 0,
   .claim 1 "a" 10 0, .claim 1 "b" 10 20]

theorem fencing_twoClaims : ∃ h, History.init.run twoClaims = some h ∧ h.fences 1 = [1, 2] ∧
    (h.fences 1).Pairwise (· < ·) := by
  have hrun : ∃ h, History.init.run twoClaims = some h := ⟨_, rfl⟩
  obtain ⟨h, hh⟩ := hrun
  exact ⟨h, hh, by cases hh; decide, (fencing hh).2.2.1 1⟩

end EnergyPlatform
