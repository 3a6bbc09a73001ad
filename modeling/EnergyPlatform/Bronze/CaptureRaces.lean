import EnergyPlatform.Bronze.Bronze
import EnergyPlatform.Lib.Interleave
import Mathlib.Data.List.Sort
import Mathlib.Data.List.Range

/-!
# Bronze.CaptureRaces

Concurrent captures: any number of them, their listings, blob writes and creations of entries
interleaved in any order, each of these an atomic step that may also fail without effect.

`LogOk` is the invariant of the log: entries are filed under their keys, and the attempts of each
instant are exactly `1..n`. A capture that lists attempts `1..m` and later finds the key of attempt
`m + 1` free creates it when the log still holds `1..m`, whatever was created in between.
-/

namespace EnergyPlatform

open Lib (Dict Prog)

namespace CaptureLog

variable {l : CaptureLog}

/-- The entries of one instant, in the order they were created. -/
def ofInstant (l : CaptureLog) (targetId : String) (at_ : Instant) : List CaptureEntry :=
  l.entries.values.filter fun e => e.targetId = targetId ∧ e.scheduledFor = at_

structure LogOk (l : CaptureLog) : Prop where
  filed : ∀ {k e}, l.entries.get? k = some e → e.key = k
  numbered : ∀ targetId at_, ∃ n,
    ((l.ofInstant targetId at_).map CaptureEntry.attempt).Perm (List.range' 1 n)

theorem LogOk.empty : LogOk CaptureLog.empty where
  filed h := by cases h
  numbered _ _ := ⟨0, List.Perm.nil⟩

theorem before_total : Std.Total before := by
  refine ⟨fun a b => ?_⟩
  rcases lt_trichotomy a.scheduledFor b.scheduledFor with h | h | h
  · exact .inl (.inl h)
  · rcases le_total a.attempt b.attempt with h' | h'
    · exact .inl (.inr ⟨h, h'⟩)
    · exact .inr (.inr ⟨h.symm, h'⟩)
  · exact .inr (.inl h)

theorem before_trans : IsTrans CaptureEntry before := by
  refine ⟨fun a b c hab hbc => ?_⟩
  rcases hab with hab | ⟨hab, ha⟩
  · rcases hbc with hbc | ⟨hbc, -⟩
    · exact .inl (hab.trans hbc)
    · exact .inl (hbc ▸ hab)
  · rcases hbc with hbc | ⟨hbc, hb⟩
    · exact .inl (hab ▸ hbc)
    · exact .inr ⟨hab.trans hbc, ha.trans hb⟩

/-- The last entry of an ordered list comes after every other. -/
theorem ordered_last {S : List CaptureEntry} {p : CaptureEntry}
    (h : (ordered S).getLast? = some p) : p ∈ S ∧ ∀ x ∈ S, before x p := by
  have := before_total
  have := before_trans
  have hmem : ∀ {x}, x ∈ ordered S ↔ x ∈ S := List.mem_insertionSort before
  obtain ⟨rest, hrest⟩ := List.getLast?_eq_some_iff.mp h
  have hsorted := List.pairwise_insertionSort before S
  rw [← ordered, hrest, List.pairwise_append] at hsorted
  refine ⟨hmem.mp (List.mem_of_getLast? h), fun x hx => ?_⟩
  rw [← hmem, hrest, List.mem_append, List.mem_singleton] at hx
  rcases hx with hx | rfl
  · exact hsorted.2.2 x hx p (List.mem_singleton_self p)
  · exact Or.inr ⟨rfl, le_refl _⟩

/-- Two orders of the same entries are sorted alike, when no two tie. -/
theorem ordered_perm {S T : List CaptureEntry} (hp : S.Perm T)
    (hties : ∀ a ∈ S, ∀ b ∈ S, before a b → before b a → a = b) : ordered S = ordered T := by
  have := before_total
  have := before_trans
  have hS := List.perm_insertionSort before S
  have hT := List.perm_insertionSort before T
  refine List.Perm.eq_of_pairwise (fun a b ha hb => ?_)
    (List.pairwise_insertionSort before S) (List.pairwise_insertionSort before T)
    ((hS.trans hp).trans hT.symm)
  exact hties a (hS.subset ha) b (hp.symm.subset (hT.subset hb))

theorem mem_entriesFor {targetId : String} {at_ : Instant} {e : CaptureEntry} :
    e ∈ l.entriesFor targetId at_ ↔ (∃ k, l.entries.get? k = some e) ∧ e.targetId = targetId ∧
      e.scheduledFor = at_ := by
  simp only [entriesFor, ordered, List.mem_insertionSort, List.mem_filter, Dict.mem_values,
    decide_eq_true_eq]

/-- The listing of an instant shows its attempts in order. -/
theorem entriesFor_attempts {targetId : String} {at_ : Instant} {n : Nat}
    (h : ((l.ofInstant targetId at_).map CaptureEntry.attempt).Perm (List.range' 1 n)) :
    (l.entriesFor targetId at_).map CaptureEntry.attempt = List.range' 1 n := by
  have := before_total
  have := before_trans
  have hsorted := List.pairwise_insertionSort before (l.ofInstant targetId at_)
  have hle : ((l.entriesFor targetId at_).map CaptureEntry.attempt).Pairwise (· ≤ ·) := by
    refine List.pairwise_map.mpr (hsorted.imp_of_mem fun ha hb hab => ?_)
    have hat : ∀ {e}, e ∈ l.entriesFor targetId at_ → e.scheduledFor = at_ :=
      fun he => (mem_entriesFor.mp he).2.2
    have h1 := hat ha
    have h2 := hat hb
    rcases hab with hab | hab
    · rw [h1, h2] at hab; exact absurd hab (lt_irrefl _)
    · exact hab.2
  have hperm : ((l.entriesFor targetId at_).map CaptureEntry.attempt).Perm (List.range' 1 n) :=
    ((List.perm_insertionSort before (l.ofInstant targetId at_)).map _).trans h
  exact hperm.eq_of_pairwise (fun _ _ _ _ => le_antisymm) hle
    List.pairwise_le_range'

theorem nextAttempt_eq {existing : List CaptureEntry} {n : Nat}
    (h : existing.map CaptureEntry.attempt = List.range' 1 n) :
    Bronze.nextAttempt existing = n + 1 := by
  rw [Bronze.nextAttempt, h]
  have hmax : ∀ k m, (List.range' (m + 1) k).foldl max m = m + k := by
    intro k
    induction k with
    | zero => intro m; rfl
    | succ k ih =>
      intro m
      rw [List.range'_succ, List.foldl_cons, max_eq_right (Nat.le_succ m), ih (m + 1)]
      omega
  rw [hmax n 0]
  omega

/-- The attempt that is created continues the numbering, because its key was free: whatever was
created since the listing is listed now. -/
theorem LogOk.putNew (h : LogOk l) {e : CaptureEntry} {m : Nat} (hm : e.attempt = m + 1)
    (hlisted : ∀ j, j < m → ∃ k e', l.entries.get? k = some e' ∧ e'.targetId = e.targetId ∧
      e'.scheduledFor = e.scheduledFor ∧ e'.attempt = j + 1)
    (hfree : l.entries.get? e.key = none) :
    LogOk { l with entries := l.entries.set e.key e } := by
  have hvalues := Dict.values_set_of_none e hfree
  constructor
  · intro k e' he'
    rw [Dict.get?_set] at he'
    split at he'
    · rename_i hk
      rw [← Option.some.inj he', hk]
    · exact h.filed he'
  · intro targetId at_
    obtain ⟨n, hn⟩ := h.numbered targetId at_
    by_cases hin : e.targetId = targetId ∧ e.scheduledFor = at_
    · obtain ⟨rfl, rfl⟩ := hin
      have hmem : ∀ j, j ∈ List.range' 1 n ↔ ∃ k e', l.entries.get? k = some e' ∧
          e'.targetId = e.targetId ∧ e'.scheduledFor = e.scheduledFor ∧ e'.attempt = j := by
        intro j
        rw [← hn.mem_iff, List.mem_map]
        simp only [ofInstant, List.mem_filter, Dict.mem_values, decide_eq_true_eq]
        constructor
        · rintro ⟨e', ⟨⟨k, hk⟩, ht, ha⟩, hj⟩
          exact ⟨k, e', hk, ht, ha, hj⟩
        · rintro ⟨k, e', hk, ht, ha, hj⟩
          exact ⟨e', ⟨⟨k, hk⟩, ht, ha⟩, hj⟩
      have hnot : m + 1 ∉ List.range' 1 n := by
        intro hcon
        obtain ⟨k, e', hk, ht, ha, hj⟩ := (hmem _).mp hcon
        have hkey : e'.key = e.key := by simp only [CaptureEntry.key, ht, ha, hj, hm]
        rw [h.filed hk] at hkey
        rw [hkey, hfree] at hk
        cases hk
      have hle : m ≤ n := by
        by_contra hlt
        have hj := (hmem (n + 1)).mpr (hlisted n (by omega))
        rw [List.mem_range'_1] at hj
        omega
      have hnm : n = m := by
        rw [List.mem_range'_1] at hnot
        omega
      refine ⟨n + 1, ?_⟩
      simp only [ofInstant, hvalues, List.filter_append, List.map_append] at hn ⊢
      rw [List.range'_concat]
      refine hn.append ?_
      simp [hm, hnm, Nat.add_comm]
    · refine ⟨n, ?_⟩
      simp only [ofInstant, hvalues, List.filter_append, List.map_append] at hn ⊢
      simpa [hin] using hn

end CaptureLog

namespace Bronze

variable {L : Type} {LRet : L → Type} (sha256 : Bytes → Sha256)

/-- A call on Bronze is one atomic step, or fails without effect. -/
def Answers : Bronze → (o : Op L) → Except Exn (o.Ret LRet) → Bronze → Prop
  | b, .bronze c, r, b' =>
    (r = .ok (b.exec sha256 c).1 ∧ b' = (b.exec sha256 c).2) ∨ ((∃ e, r = .error e) ∧ b' = b)
  | b, _, _, b' => b' = b

/-- Bronze when nothing fails and no other call is made. -/
def answer (b : Bronze) : (o : Op L) → Except Exn (o.Ret LRet) × Bronze
  | .bronze c => (.ok (b.exec sha256 c).1, (b.exec sha256 c).2)
  | _ => (.error (.bronzeError "not a call on Bronze"), b)

/-- No entry of `b` is missing from `b'` or different there. -/
def EntriesKept (b b' : Bronze) : Prop :=
  ∀ k e, b.log.entries.get? k = some e → b'.log.entries.get? k = some e

/-- No call of the list changed the log. -/
def Silent (mine : List (Bronze × Bronze)) : Prop :=
  ∀ p ∈ mine, p.2.log.entries = p.1.log.entries

/-- The first call of the list found no entry of the instant, unless the capture was forced. -/
def Began (a : CaptureArgs) (mine : List (Bronze × Bronze)) : Prop :=
  a.force = true ∨ ∃ b b' rest, mine = (b, b') :: rest ∧
    b.log.entriesFor a.targetId a.scheduledFor = []

/-- The entry carries what the capture fetched: for a 304, the payload of its baseline. -/
def CarriesOwn (a : CaptureArgs) (b : Bronze) (e : CaptureEntry) : Prop :=
  e.targetId = a.targetId ∧ e.scheduledFor = a.scheduledFor ∧ e.fetchedAt = a.result.fetchedAt ∧
    if a.result.notModified = true then
      ∃ p, (a.baseline = .given (some p) ∨ a.baseline = .sameRun ∧
          b.log.entries.get? p.key = some p ∧ p.targetId = a.targetId ∧
          p.scheduledFor = a.scheduledFor ∧ p.attempt + 1 = e.attempt) ∧
        e.payloadSha256 = p.payloadSha256
    else e.payloadSha256 = sha256 a.result.body

/-- How a capture ends: with an entry its last call created, or without having changed the log. -/
def Ended (a : CaptureArgs) (mine : List (Bronze × Bronze)) :
    Except Exn CaptureOutcome → Bronze → Prop
  | .ok ⟨e, true⟩, b => b.log.entries.get? e.key = some e ∧ CarriesOwn sha256 a b e ∧ Began a mine ∧
      ∃ before p, mine = before ++ [p] ∧ p.1.log.entries.get? e.key = none ∧
        p.2.log.entries.get? e.key = some e
  | _, _ => Silent mine

theorem EntriesKept.refl (b : Bronze) : EntriesKept b b := fun _ _ h => h

theorem EntriesKept.trans (b b' b'' : Bronze) (h : EntriesKept b b') (h' : EntriesKept b' b'') :
    EntriesKept b b'' := fun k e hk => h' k e (h k e hk)

theorem Silent.snoc {mine : List (Bronze × Bronze)} (h : Silent mine) {b b' : Bronze}
    (hb : b'.log.entries = b.log.entries) : Silent (mine ++ [(b, b')]) := by
  intro p hp
  rcases List.mem_append.mp hp with hp | hp
  · exact h p hp
  · obtain rfl := List.mem_singleton.mp hp
    exact hb

theorem Began.snoc {a : CaptureArgs} {mine : List (Bronze × Bronze)} (h : Began a mine)
    (p : Bronze × Bronze) : Began a (mine ++ [p]) := by
  rcases h with h | ⟨b, b', rest, rfl, h⟩
  · exact .inl h
  · exact .inr ⟨b, b', rest ++ [p], rfl, h⟩

theorem EntriesKept.of_eq {b b' : Bronze} (h : b'.log.entries = b.log.entries) : EntriesKept b b' :=
  fun k e hk => by rw [h]; exact hk

/-- The invariant of the races. -/
abbrev Numbered (b : Bronze) : Prop := b.log.LogOk

theorem Numbered.of_eq {b b' : Bronze} (h : Numbered b) (he : b'.log.entries = b.log.entries) :
    Numbered b' where
  filed := by rw [he]; exact h.filed
  numbered := by
    simp only [CaptureLog.ofInstant, he]
    exact h.numbered

section Loop

variable {sha256} {a : CaptureArgs}

/-- What one capture does among others. -/
abbrev SafeCapture {α : Type} (sha256 : Bytes → Sha256)
    (Q : List (Bronze × Bronze) → Except Exn α → Bronze → Prop)
    (p : Verb LRet α) (mine : List (Bronze × Bronze)) (b : Bronze) : Prop :=
  Prog.Safe (Answers sha256) Numbered EntriesKept Silent Q p mine b

/-- A call that reads changes nothing, a blob write does not change the log. -/
theorem answers_silent {c : BronzeCall} (hc : ∀ b : Bronze, (b.exec sha256 c).2.log.entries =
      b.log.entries) {b b' : Bronze} {r : Except Exn (Op.Ret LRet (.bronze c))}
    (ha : Answers sha256 b (.bronze c) r b') : b'.log.entries = b.log.entries := by
  rcases ha with ⟨-, rfl⟩ | ⟨-, rfl⟩
  · exact hc b
  · rfl

/-- The blob the loop carries is that of the fetched body. -/
def BlobOk (sha256 : Bytes → Sha256) (a : CaptureArgs) (blob : Option StoredBlob) : Prop :=
  ∀ s ∈ blob, s.1 = sha256 a.result.body

/-- The payload an entry is given: the fetched one, or the baseline's. -/
def PayloadOf (sha256 : Bytes → Sha256) (a : CaptureArgs) (previous : Option CaptureEntry)
    (s : StoredBlob) : Prop :=
  if a.result.notModified = true then ∃ p, previous = some p ∧ s.1 = p.payloadSha256
  else s.1 = sha256 a.result.body

theorem storePayload_safe {previous : Option CaptureEntry} {blob : Option StoredBlob}
    (hblob : BlobOk sha256 a blob) {b₀ b : Bronze} {mine : List (Bronze × Bronze)}
    (hr : EntriesKept b₀ b) (hs : Silent mine) (hb : Began a mine) :
    SafeCapture sha256 (fun mine r b => match r with
      | .ok (s, blob) => PayloadOf sha256 a previous s ∧ BlobOk sha256 a blob ∧ EntriesKept b₀ b ∧
          Silent mine ∧ Began a mine
      | .error _ => Silent mine) (storePayload a previous blob : Verb LRet _) mine b := by
  simp only [storePayload]
  split
  · rename_i hnm
    cases hp : previous with
    | none => exact fun _ _ _ => hs
    | some p =>
      simp only
      split
      · exact fun _ _ _ => hs
      · intro b' hr' _
        exact ⟨by rw [PayloadOf, if_pos hnm]; exact ⟨p, rfl, rfl⟩, hblob, hr.trans _ _ _ hr', hs, hb⟩
  · rename_i hnm
    cases hbl : blob with
    | some s =>
      intro b' hr' _
      exact ⟨by rw [PayloadOf, if_neg hnm]; exact hblob s hbl, hbl ▸ hblob, hr.trans _ _ _ hr', hs, hb⟩
    | none =>
      refine Prog.Safe.step hs fun b₁ r b₂ hr₁ hi ha => ?_
      have hsame := answers_silent (c := .putBlob a.result.body) (fun _ => rfl) ha
      refine ⟨hi.of_eq hsame, .of_eq hsame, fun sha hsha b' hr' _ => ?_, fun e he b' _ _ => ?_⟩
      · have hval : sha = sha256 a.result.body := by
          rcases ha with ⟨rfl, -⟩ | ⟨⟨e, rfl⟩, -⟩
          · exact (Except.ok.inj hsha).symm
          · cases hsha
        refine ⟨by rw [PayloadOf, if_neg hnm]; exact hval, fun s hs => ?_,
          ((hr.trans _ _ _ hr₁).trans _ _ _ (.of_eq hsame)).trans _ _ _ hr', hs.snoc hsame, hb.snoc _⟩
        obtain rfl := Option.some.inj hs
        exact hval
      · exact hs.snoc hsame

/-- What a listing shows stays in the log, under the numbers listed. -/
theorem listed_of_kept {b b' : Bronze} (hk : EntriesKept b b') {targetId : String} {at_ : Instant}
    {n : Nat} (hn : (b.log.entriesFor targetId at_).map CaptureEntry.attempt = List.range' 1 n) :
    ∀ j, j < n → ∃ k e, b'.log.entries.get? k = some e ∧ e.targetId = targetId ∧
      e.scheduledFor = at_ ∧ e.attempt = j + 1 := by
  intro j hj
  have hin : j + 1 ∈ (b.log.entriesFor targetId at_).map CaptureEntry.attempt := by
    rw [hn, List.mem_range'_1]
    omega
  obtain ⟨e, he, hje⟩ := List.mem_map.mp hin
  obtain ⟨⟨k, hke⟩, ht, ha⟩ := CaptureLog.mem_entriesFor.mp he
  exact ⟨k, e, hk k e hke, ht, ha, hje⟩

/-- The last entry a listing shows has the greatest attempt. -/
theorem getLast_attempt {l : List CaptureEntry} {n : Nat} {p : CaptureEntry}
    (hn : l.map CaptureEntry.attempt = List.range' 1 n) (hp : l.getLast? = some p) :
    p.attempt = n := by
  have hl : (l.map CaptureEntry.attempt).getLast? = some p.attempt := by
    rw [List.getLast?_map, hp, Option.map_some]
  rw [hn] at hl
  cases n with
  | zero => cases hl
  | succ n =>
    rw [List.range'_1_concat, List.getLast?_concat, Option.some.injEq] at hl
    omega

/-- The entry that was built from the listing, in any log that still shows what was listed. -/
theorem carriesOwn_entryOf {b₁ b : Bronze} (hi : Numbered b₁) (hk : EntriesKept b₁ b) {n : Nat}
    (hn : (b₁.log.entriesFor a.targetId a.scheduledFor).map CaptureEntry.attempt = List.range' 1 n)
    {s : StoredBlob}
    (hs : PayloadOf sha256 a
      (previousOf a.baseline (b₁.log.entriesFor a.targetId a.scheduledFor)) s) :
    CarriesOwn sha256 a b (entryOf a
      (previousOf a.baseline (b₁.log.entriesFor a.targetId a.scheduledFor)) (n + 1) s) := by
  refine ⟨rfl, rfl, rfl, ?_⟩
  simp only [PayloadOf] at hs
  split
  · rename_i hnm
    rw [if_pos hnm] at hs
    obtain ⟨p, hp, hsp⟩ := hs
    refine ⟨p, ?_, hsp⟩
    cases hb : a.baseline with
    | given e =>
      rw [hb] at hp
      exact .inl (congrArg Baseline.given hp)
    | sameRun =>
      rw [hb] at hp
      obtain ⟨⟨k, hkp⟩, ht, ha⟩ := CaptureLog.mem_entriesFor.mp (List.mem_of_getLast? hp)
      refine .inr ⟨rfl, ?_, ht, ha, ?_⟩
      · rw [hi.filed hkp]
        exact hk k p hkp
      · rw [getLast_attempt hn hp]
        rfl
  · rename_i hnm
    rw [if_neg hnm] at hs
    exact hs

/-- Creating the entry after the listed ones: it continues the numbering, or changes nothing. -/
theorem putNew_answers {e : CaptureEntry} {m : Nat} (hm : e.attempt = m + 1) {b b' : Bronze}
    (hi : Numbered b) (hlisted : ∀ j, j < m → ∃ k e', b.log.entries.get? k = some e' ∧
      e'.targetId = e.targetId ∧ e'.scheduledFor = e.scheduledFor ∧ e'.attempt = j + 1)
    {r : Except Exn (Op.Ret LRet (.bronze (.putNew e)))}
    (ha : Answers sha256 b (.bronze (.putNew e)) r b') : Numbered b' ∧ EntriesKept b b' ∧
      ((r = .ok true ∧ b.log.entries.get? e.key = none ∧ b'.log.entries.get? e.key = some e) ∨
        (r ≠ .ok true ∧ b'.log.entries = b.log.entries)) := by
  have hno : ∀ {x}, (Except.error x : Except Exn Bool) ≠ .ok true := fun h => by cases h
  have hfalse : (Except.ok false : Except Exn Bool) ≠ .ok true := fun h => by cases h
  rcases ha with ⟨rfl, rfl⟩ | ⟨⟨x, rfl⟩, rfl⟩
  · cases hg : b.log.entries.get? e.key with
    | some x =>
      have hput : b.exec sha256 (.putNew e) = (false, b) := by
        simp [exec, CaptureLog.putNew, Dict.contains, hg]
        rfl
      rw [hput]
      exact ⟨hi, .refl b, .inr ⟨hfalse, rfl⟩⟩
    | none =>
      have hput : b.exec sha256 (.putNew e) =
          (true, { b with log := { b.log with entries := b.log.entries.set e.key e } }) := by
        simp [exec, CaptureLog.putNew, Dict.contains, hg]
        rfl
      rw [hput]
      refine ⟨hi.putNew hm hlisted hg, fun k x hk => ?_, .inl ⟨rfl, rfl, Dict.get?_set_self ..⟩⟩
      refine (Dict.get?_set_ne _ _ ?_).trans hk
      rintro rfl
      rw [hg] at hk
      cases hk
  · exact ⟨hi, .refl _, .inr ⟨hno, rfl⟩⟩

theorem captureLoop_safe (n : Nat) : ∀ (blob : Option StoredBlob) (collided : Bool) (b : Bronze)
    (mine : List (Bronze × Bronze)), BlobOk sha256 a blob → Silent mine →
    (collided = false → mine = []) → (collided = true → Began a mine) →
    SafeCapture sha256 (Ended sha256 a) (captureLoop a n blob collided : Verb LRet _) mine b := by
  induction n with
  | zero => exact fun _ _ _ _ _ hs _ _ _ _ _ => hs
  | succ n ih =>
    intro blob collided b mine hblob hs hfirst hlater
    refine Prog.Safe.step hs fun b₁ r b₁' _ hi₁ ha₁ => ?_
    have hsame₁ := answers_silent (c := .entriesFor a.targetId a.scheduledFor) (fun _ => rfl) ha₁
    have hs₁ := hs.snoc hsame₁
    refine ⟨hi₁.of_eq hsame₁, .of_eq hsame₁, fun existing hex => ?_, fun _ _ _ _ _ => hs₁⟩
    obtain ⟨rfl, rfl⟩ : b₁.log.entriesFor a.targetId a.scheduledFor = existing ∧ b₁' = b₁ := by
      rcases ha₁ with ⟨rfl, rfl⟩ | ⟨⟨e, rfl⟩, -⟩
      · exact ⟨Except.ok.inj hex, rfl⟩
      · cases hex
    obtain ⟨m, hm⟩ := hi₁.numbered a.targetId a.scheduledFor
    have hlisted := CaptureLog.entriesFor_attempts hm
    have hattempt := CaptureLog.nextAttempt_eq hlisted
    split
    · exact fun _ _ _ => hs₁
    · rename_i hgo
      -- the capture goes on: it was forced, collided before, or the listing is empty
      have hbegan : Began a (mine ++ [(b₁', b₁')]) := by
        cases hc : collided with
        | true => exact (hlater hc).snoc _
        | false =>
          rw [hfirst hc]
          by_cases hforce : a.force = true
          · exact .inl hforce
          · simp only [hforce, hc, Bool.false_eq_true, or_self, if_false,
              List.getLast?_eq_none_iff] at hgo
            exact .inr ⟨_, _, [], rfl, hgo⟩
      refine Prog.Safe.bind EntriesKept.refl hi₁ ?_
      refine Prog.Safe.mono ?_ (storePayload_safe hblob (EntriesKept.refl b₁') hs₁ hbegan)
      rintro mine' (e | ⟨stored, blob'⟩) b₂ hi₂ hpost
      · exact hpost
      obtain ⟨hpay, hblob', hkept, hs₂, hb₂⟩ := hpost
      simp only [hattempt]
      refine Prog.Safe.step hs₂ fun b₃ r b₃' hr₃ hi₃ ha₃ => ?_
      have hkept₃ := hkept.trans _ _ _ hr₃
      obtain ⟨hi', hk', hcases⟩ := putNew_answers rfl hi₃ (listed_of_kept hkept₃ hlisted) ha₃
      refine ⟨hi', hk', fun created hr => ?_, fun e he _ _ _ => ?_⟩
      · rcases hcases with ⟨rfl, hnone, hsome⟩ | ⟨hne, hsame⟩
        · obtain rfl := Except.ok.inj hr
          intro b₄ hr₄ hi₄
          exact ⟨hr₄ _ _ hsome, carriesOwn_entryOf hi₁ ((hkept₃.trans _ _ _ hk').trans _ _ _ hr₄) hlisted hpay,
            hb₂.snoc _, mine', (b₃, b₃'), rfl, hnone, hsome⟩
        · have hc : created = false := by
            cases created with
            | false => rfl
            | true => exact absurd hr hne
          rw [hc]
          exact ih blob' true b₃' _ hblob' (hs₂.snoc hsame) (fun h => by cases h) fun _ => hb₂.snoc _
      · rcases hcases with ⟨rfl, -, -⟩ | ⟨-, hsame⟩
        · cases he
        · exact hs₂.snoc hsame

end Loop

/-! ## Any number of captures -/

variable {ι : Type} [DecidableEq ι]

/-- The captures about to start over one Bronze. -/
abbrev racing (LRet : L → Type) (args : ι → CaptureArgs) (b : Bronze) :
    Prog.System ι Bronze (Op.Ret LRet) Exn CaptureOutcome :=
  ⟨b, fun i => capture (args i)⟩

theorem racing_together {args : ι → CaptureArgs} {b : Bronze} (hb : b.log.LogOk)
    {es : List (Prog.Event ι Bronze)} {c : Prog.System ι Bronze (Op.Ret LRet) Exn CaptureOutcome}
    (hrun : Prog.Run (Answers sha256) (racing LRet args b) es c) :
    Prog.Together (Answers sha256) Numbered EntriesKept (fun _ => Silent)
      (fun i => Ended sha256 (args i)) es c := by
  refine Prog.Run.safe EntriesKept.refl EntriesKept.trans hb (fun i => ?_) hrun
  exact captureLoop_safe maxEntryCollisions none false b [] (fun _ h => by cases h)
    (fun _ h => by cases h) (fun _ => rfl) fun h => by cases h

/-- The first call of a program heads the list of its calls. -/
theorem own_of_first {i : ι} {pre post : List (Prog.Event ι Bronze)} {e : Prog.Event ι Bronze}
    (hi : e.thread = i) (hpre : ∀ e' ∈ pre, e'.thread ≠ i) :
    Prog.own i (pre ++ e :: post) = (e.before, e.after) :: Prog.own i post := by
  have hnil : pre.filter (fun e' => decide (e'.thread = i)) = [] := by
    rw [List.filter_eq_nil_iff]
    intro e' he'
    simpa using hpre e' he'
  simp [Prog.own, List.filter_append, hnil, hi]

/-- Bronze under races. Any number of captures of any targets and instants run at once over a log
whose attempts are numbered `1..n` at each instant, their listings, blob writes and creations
interleaved in any order. No entry is ever overwritten or removed; the attempts of each instant
stay exactly `1..n`; a capture that returned `created` owns an entry that carries what it fetched,
from then on, and no two own the same; a capture that raised created nothing; and neither did an
unforced one that found an entry when it started. -/
theorem capture_races {args : ι → CaptureArgs} {b : Bronze} (hb : b.log.LogOk)
    {es : List (Prog.Event ι Bronze)} {c : Prog.System ι Bronze (Op.Ret LRet) Exn CaptureOutcome}
    (hrun : Prog.Run (Answers sha256) (racing LRet args b) es c) :
    (∀ e ∈ es, ∀ k x, e.before.log.entries.get? k = some x → e.after.log.entries.get? k = some x) ∧
    (∀ targetId at_, ∃ n,
      (c.world.log.entriesFor targetId at_).map CaptureEntry.attempt = List.range' 1 n) ∧
    (∀ i x, c.threads i = .ret ⟨x, true⟩ → c.world.log.entries.get? x.key = some x ∧
      CarriesOwn sha256 (args i) c.world x) ∧
    (∀ i j x y, i ≠ j → c.threads i = .ret ⟨x, true⟩ → c.threads j = .ret ⟨y, true⟩ →
      x.key ≠ y.key) ∧
    (∀ i err, c.threads i = .raise err → ∀ e ∈ es, e.thread = i →
      e.after.log.entries = e.before.log.entries) ∧
    ∀ i pre e post, (args i).force = false → es = pre ++ e :: post → e.thread = i →
      (∀ e' ∈ pre, e'.thread ≠ i) →
      e.before.log.entriesFor (args i).targetId (args i).scheduledFor ≠ [] →
      ∀ e' ∈ es, e'.thread = i → e'.after.log.entries = e'.before.log.entries := by
  have h := racing_together sha256 hb hrun
  have hsilent : ∀ {i}, Silent (Prog.own i es) → ∀ e ∈ es, e.thread = i →
      e.after.log.entries = e.before.log.entries :=
    fun hs e he hi => hs _ (Prog.mem_own.mpr ⟨e, he, hi, rfl⟩)
  refine ⟨fun e he => (h.since e he).1, fun targetId at_ => ?_, fun i x hi => ?_, ?_,
    fun i err hi => hsilent (h.raised EntriesKept.refl hi), ?_⟩
  · obtain ⟨n, hn⟩ := h.invariant.numbered targetId at_
    exact ⟨n, CaptureLog.entriesFor_attempts hn⟩
  · obtain ⟨hx, hown, -⟩ := h.returned EntriesKept.refl hi
    exact ⟨hx, hown⟩
  · intro i j x y hij hi hj hkey
    obtain ⟨-, -, -, p, ⟨q, r⟩, hp, hnone, hsome⟩ := h.returned EntriesKept.refl hi
    obtain ⟨-, -, -, p', ⟨q', r'⟩, hp', hnone', hsome'⟩ := h.returned EntriesKept.refl hj
    obtain ⟨e, he, hei, heq⟩ := Prog.mem_own.mp (hp ▸ List.mem_append_right p (List.mem_singleton_self _))
    obtain ⟨e', he', hej, heq'⟩ :=
      Prog.mem_own.mp (hp' ▸ List.mem_append_right p' (List.mem_singleton_self _))
    rw [Prod.mk.injEq] at heq heq'
    obtain ⟨rfl, rfl⟩ := heq
    obtain ⟨rfl, rfl⟩ := heq'
    rcases h.either he he' (by rw [hei, hej]; exact hij) with hk | hk
    · have := hk _ _ hsome
      rw [hkey, hnone'] at this
      cases this
    · have := hk _ _ hsome'
      rw [← hkey, hnone] at this
      cases this
  · intro i pre e post hforce hes hi hpre hne
    apply hsilent
    have hown : Prog.own i es = (e.before, e.after) :: Prog.own i post := by
      rw [hes]; exact own_of_first hi hpre
    have hnot : ¬ Began (args i) (Prog.own i es) := by
      rintro (hf | ⟨b₁, b₂, rest, hb₁, hnil⟩)
      · rw [hforce] at hf; cases hf
      · rw [hown, List.cons.injEq, Prod.mk.injEq] at hb₁
        exact hne (hb₁.1.1 ▸ hnil)
    cases hth : c.threads i with
    | raise err => exact h.raised EntriesKept.refl hth
    | call o k => exact h.running hth
    | ret out =>
      obtain ⟨x, created⟩ := out
      have hend := h.returned EntriesKept.refl hth
      cases created with
      | false => exact hend
      | true => exact absurd hend.2.2.1 hnot

/-- Two writers of one instant that both find it empty: the second creates attempt 2. -/
def twoWriters (second : Bool) : CaptureArgs where
  targetId := "ote"
  scheduledFor := 0
  result := ⟨"https://www.ote-cr.cz/", 200, [if second then 2 else 1], none, 0, none, none, false, []⟩
  transport := .rest
  force := false
  baseline := .given none

/-- The two, listing and writing in step, the first one creating its entry first. -/
def twoWritersRace : List (Prog.Event Bool Bronze) ×
    Prog.System Bool Bronze (Op.Ret StoreCall.Ret) Exn CaptureOutcome :=
  Prog.schedule (answer fun _ => 0) (racing StoreCall.Ret twoWriters ⟨.empty, none, .empty⟩)
    [true, true, true, false, true, false, true, false]

theorem capture_races_two : ∃ x y, twoWritersRace.2.threads false = .ret ⟨x, true⟩ ∧
    twoWritersRace.2.threads true = .ret ⟨y, true⟩ ∧ x.attempt = 1 ∧ y.attempt = 2 ∧ x.key ≠ y.key ∧
    twoWritersRace.2.world.log.entries.get? y.key = some y := by
  have hrun : Prog.Run (Answers fun _ => 0) (racing StoreCall.Ret twoWriters ⟨.empty, none, .empty⟩)
      twoWritersRace.1 twoWritersRace.2 := by
    refine Prog.schedule_run _ (fun s o => ?_) _ _
    cases o with
    | bronze c => exact .inl ⟨rfl, rfl⟩
    | _ => rfl
  obtain ⟨-, -, hown, hne, -, -⟩ := capture_races (fun _ => 0) CaptureLog.LogOk.empty hrun
  exact ⟨_, _, rfl, rfl, rfl, rfl, hne false true _ _ (by decide) rfl rfl, (hown true _ rfl).1⟩

end Bronze

end EnergyPlatform
