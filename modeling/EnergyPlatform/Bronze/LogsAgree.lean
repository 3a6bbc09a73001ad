import EnergyPlatform.Bronze.Logs
import EnergyPlatform.Runtime.Cron

/-!
# Bronze.LogsAgree

When the three capture logs are one.

All three hold the same entries under the same keys after every sequence of calls (`after_stored`).
The log of files answers as the one in memory does (`file_answer`). The log of the bucket does so at
a call exactly when the call is `Clean`: it tells no stored instant from its stamp
(`s3_answer_iff`). `same_log` puts them together over a whole sequence.
-/

namespace EnergyPlatform

open Lib (Dict)

/-- An entry of the target of a manifest at an instant of the calendar, under its computed id. -/
structure CaptureEntry.Valid (e : CaptureEntry) : Prop where
  computed : e.captureId = e.key
  target : validTarget e.targetId = true
  instant : datetimeMin ≤ e.scheduledFor ∧ e.scheduledFor ≤ datetimeMax

theorem stamp_in_calendar {t : Instant} (h : datetimeMin ≤ t ∧ t ≤ datetimeMax) :
    datetimeMin ≤ t / second * second ∧ t / second * second ≤ datetimeMax := by
  unfold datetimeMin datetimeMax second at *
  unfold Instant Duration at *
  omega

theorem captureId_valid {target : String} {t : Instant} {attempt : Nat}
    (ht : validTarget target = true) (h : datetimeMin ≤ t ∧ t ≤ datetimeMax) :
    (captureId target t attempt).Valid := ⟨ht, stamp_in_calendar h⟩

theorem CaptureEntry.Valid.key {e : CaptureEntry} (h : e.Valid) : e.key.Valid :=
  captureId_valid h.target h.instant

/-! ## What is stored -/

/-- Each entry under its key. -/
structure Filed (d : Dict String CaptureEntry) : Prop where
  path : ∀ {k e}, d.get? k = some e → e.path = k
  valid : ∀ {k e}, d.get? k = some e → e.Valid

namespace Filed

variable {d : Dict String CaptureEntry}

theorem empty : Filed .empty where
  path h := by cases h
  valid h := by cases h

theorem set {e : CaptureEntry} (h : Filed d) (he : e.Valid) : Filed (d.set e.path e) := by
  have hcases : ∀ {k e'}, (d.set e.path e).get? k = some e' →
      (k = e.path ∧ e' = e) ∨ d.get? k = some e' := fun {k e'} hk => by
    rw [Dict.get?_set] at hk
    split at hk
    · rename_i hkey
      exact .inl ⟨hkey, (Option.some.inj hk).symm⟩
    · exact .inr hk
  refine ⟨fun hk => ?_, fun hk => ?_⟩
  · rcases hcases hk with ⟨rfl, rfl⟩ | hold
    · rfl
    · exact h.path hold
  · rcases hcases hk with ⟨-, rfl⟩ | hold
    · exact he
    · exact h.valid hold

theorem mem_values (h : Filed d) {e : CaptureEntry} : e ∈ d.values ↔ d.get? e.path = some e := by
  rw [Dict.mem_values]
  constructor
  · rintro ⟨k, hk⟩
    rw [h.path hk]
    exact hk
  · exact fun hk => ⟨e.path, hk⟩

theorem valid_of_mem (h : Filed d) {e : CaptureEntry} (he : e ∈ d.values) : e.Valid :=
  h.valid (h.mem_values.mp he)

/-- An entry is the one stored under its key. -/
theorem unique (h : Filed d) {e e' : CaptureEntry} (he : e ∈ d.values) (he' : e' ∈ d.values)
    (hkey : e.key = e'.key) : e = e' := by
  have hpath : e.path = e'.path := congrArg CaptureId.entryKey hkey
  have hget := h.mem_values.mp he
  rw [hpath, h.mem_values.mp he'] at hget
  exact (Option.some.inj hget).symm

/-- No two entries of a target tie. -/
theorem no_ties (h : Filed d) {t : String} {e e' : CaptureEntry} (he : e ∈ d.values)
    (he' : e' ∈ d.values) (ht : e.targetId = t) (ht' : e'.targetId = t)
    (hb : CaptureLog.before e e') (hb' : CaptureLog.before e' e) : e = e' := by
  refine h.unique he he' ?_
  have hinstant : e.scheduledFor = e'.scheduledFor ∧ e.attempt = e'.attempt := by
    unfold CaptureLog.before at hb hb'
    unfold Instant at *
    omega
  unfold CaptureEntry.key
  rw [ht, ht', hinstant.1, hinstant.2]

theorem values_nodup (h : Filed d) : d.values.Nodup := by
  have hkeys : d.values.map CaptureEntry.path = d.keys := by
    unfold Dict.values Dict.keys
    rw [List.map_map]
    refine List.map_congr_left fun p hp => ?_
    exact h.path (Dict.get?_eq_some_iff.mpr hp)
  have hnd : (d.values.map CaptureEntry.path).Nodup := by
    rw [hkeys]
    exact d.nodup
  exact hnd.of_map

/-- The entries read at some keys are those that a test picks, when the keys are. -/
theorem read_perm (h : Filed d) {keys : List String} {p : CaptureEntry → Bool} (hnd : keys.Nodup)
    (hkeys : ∀ k, k ∈ keys ↔ ∃ e, d.get? k = some e ∧ p e = true) :
    (keys.filterMap d.get?).Perm (d.values.filter p) := by
  refine (List.perm_ext_iff_of_nodup ?_ (h.values_nodup.filter p)).mpr fun e => ?_
  · refine hnd.filterMap fun k k' e hk hk' => ?_
    rw [← h.path hk, ← h.path hk']
  · rw [List.mem_filterMap, List.mem_filter, h.mem_values]
    constructor
    · rintro ⟨k, hmem, hk⟩
      obtain ⟨e', hk', hp⟩ := (hkeys k).mp hmem
      rw [hk] at hk'
      obtain rfl := Option.some.inj hk'
      rw [h.path hk]
      exact ⟨hk, hp⟩
    · rintro ⟨hk, hp⟩
      exact ⟨e.path, (hkeys e.path).mpr ⟨e, hk, hp⟩, hk⟩

end Filed

/-! ## What a query finds -/

/-- The one element that passes a test is the first that does. -/
theorem find?_eq_some_iff_mem {α : Type} {l : List α} {p : α → Bool}
    (h : ∀ a ∈ l, ∀ b ∈ l, p a = true → p b = true → a = b) {a : α} :
    l.find? p = some a ↔ a ∈ l ∧ p a = true := by
  constructor
  · exact fun hf => ⟨List.mem_of_find?_eq_some hf, List.find?_some hf⟩
  · rintro ⟨ha, hp⟩
    obtain ⟨b, hb⟩ := Option.isSome_iff_exists.mp (List.find?_isSome.mpr ⟨a, ha, hp⟩)
    rw [hb, h b (List.mem_of_find?_eq_some hb) a ha (List.find?_some hb) hp]

section Queries

variable {d : Dict String CaptureEntry} {c : CaptureId} {t : String}

/-- The entry of a capture id, among some that hold it when it is stored. -/
theorem find_captureId (h : Filed d) (hc : c.Valid) {l : List CaptureEntry}
    (hl : ∀ e ∈ l, e ∈ d.values) (hin : ∀ e ∈ d.values, e.key = c → e ∈ l) :
    l.find? (fun e => e.captureId.text = c.text) = d.get? c.entryKey := by
  have hcaptured : ∀ e ∈ l, e.captureId.text = c.text → e.key = c := fun e he htext => by
    have hvalid := h.valid_of_mem (hl e he)
    rw [hvalid.computed] at htext
    exact CaptureId.text_inj hvalid.key hc htext
  refine Option.ext fun e => ?_
  rw [find?_eq_some_iff_mem fun a ha b hb hpa hpb => h.unique (hl a ha) (hl b hb)
    ((hcaptured a ha (of_decide_eq_true hpa)).trans (hcaptured b hb (of_decide_eq_true hpb)).symm)]
  constructor
  · rintro ⟨he, htext⟩
    rw [← hcaptured e he (of_decide_eq_true htext)]
    exact h.mem_values.mp (hl e he)
  · intro hget
    have hkey : e.key = c :=
      CaptureId.entryKey_inj (h.valid hget).key hc (h.path hget)
    have hmem : e ∈ d.values := Dict.mem_values.mpr ⟨_, hget⟩
    refine ⟨hin e hmem hkey, decide_eq_true ?_⟩
    rw [(h.valid hget).computed, hkey]

theorem memory_get (h : Filed d) (hc : c.Valid) :
    MemoryCaptureLog.get ⟨d⟩ c.text = d.get? c.entryKey :=
  find_captureId h hc (fun _ he => he) fun _ he _ => he

theorem s3_get (hc : c.Valid) : S3CaptureLog.get ⟨d⟩ c.text = d.get? c.entryKey := by
  unfold S3CaptureLog.get
  rw [CaptureId.ofText_text hc]
  rfl

variable {walk : List CaptureEntry → List CaptureEntry}

/-- A walk of a target's directory shows its entries. -/
theorem file_all (hwalk : ∀ l, (walk l).Perm l) (h : Filed d) (ht : validTarget t = true) :
    (FileCaptureLog.all walk ⟨d⟩ t).Perm (d.values.filter fun e => e.targetId = t) := by
  refine (hwalk _).trans (List.Perm.of_eq ?_)
  unfold Dict.values
  rw [List.filter_map]
  refine congrArg _ (List.filter_congr fun p hp => ?_)
  have hget : d.get? p.1 = some p.2 := Dict.get?_eq_some_iff.mpr hp
  have hvalid := (h.valid hget).key
  have hpath : p.1 = p.2.key.entryKey := (h.path hget).symm
  have hjson : (jsonStem (afterLast '/' p.1.toList)).isSome = true := by
    have hkey := keyInstant_key hvalid
    rw [← hpath] at hkey
    unfold keyInstant at hkey
    cases hstem : jsonStem (afterLast '/' p.1.toList) with
    | none => simp [hstem] at hkey
    | some stem => rfl
  have hunder := CaptureId.target_prefix hvalid ht
  rw [← hpath] at hunder
  simp only [hunder, hjson, and_true, Function.comp_apply]
  rfl

theorem file_get (hwalk : ∀ l, (walk l).Perm l) (h : Filed d) (hc : c.Valid) :
    FileCaptureLog.get walk ⟨d⟩ c.text = d.get? c.entryKey := by
  have hall : ∀ e, e ∈ FileCaptureLog.all walk ⟨d⟩ c.target ↔ e ∈ d.values ∧ e.targetId = c.target :=
    fun e => by
      rw [(file_all hwalk h hc.target).mem_iff, List.mem_filter, decide_eq_true_eq]
  unfold FileCaptureLog.get
  rw [targetOfText_text hc]
  refine find_captureId h hc (fun e he => ((hall e).mp he).1) fun e he hkey => ?_
  exact (hall e).mpr ⟨he, congrArg CaptureId.target hkey⟩

/-- The files that pass a test, in order, are the entries in memory that do. -/
theorem file_filter (hwalk : ∀ l, (walk l).Perm l) (h : Filed d) (ht : validTarget t = true)
    (p : CaptureEntry → Prop) [DecidablePred p] :
    CaptureLog.ordered ((FileCaptureLog.all walk ⟨d⟩ t).filter fun e => p e) =
      CaptureLog.ordered (d.values.filter fun e => e.targetId = t ∧ p e) := by
  have hperm : ((FileCaptureLog.all walk ⟨d⟩ t).filter fun e => p e).Perm
      (d.values.filter fun e => e.targetId = t ∧ p e) := by
    refine ((file_all hwalk h ht).filter _).trans (List.Perm.of_eq ?_)
    rw [List.filter_filter]
    refine List.filter_congr fun e _ => ?_
    rw [Bool.decide_and, Bool.and_comm]
  refine CaptureLog.ordered_perm hperm fun a ha b hb hab hba => ?_
  have hmem : ∀ e, e ∈ (FileCaptureLog.all walk ⟨d⟩ t).filter (fun e => p e) →
      e ∈ d.values ∧ e.targetId = t := fun e he => by
    have := List.mem_filter.mp (hperm.subset he)
    exact ⟨this.1, (of_decide_eq_true this.2).1⟩
  exact h.no_ties (hmem a ha).1 (hmem b hb).1 (hmem a ha).2 (hmem b hb).2 hab hba

/-! ## What a listing finds -/

variable {front : String} {since until_ : Option ZonedTime}

/-- A listed key with the stamp and the attempt of its entry. -/
theorem mem_instants (h : Filed d) {p : String × (Instant × Nat)} :
    p ∈ S3CaptureLog.instants ⟨d⟩ front ↔ startsWith front p.1 = true ∧
      ∃ e, d.get? p.1 = some e ∧ p.2 = (e.key.stamp * second, e.attempt) := by
  unfold S3CaptureLog.instants S3CaptureLog.listing
  rw [List.mem_filterMap]
  constructor
  · rintro ⟨key, hkey, hp⟩
    rw [List.mem_insertionSort, List.mem_filter] at hkey
    obtain ⟨e, he⟩ := Dict.mem_keys.mp hkey.1
    have hparsed := keyInstant_key (h.valid he).key
    rw [show e.key.entryKey = key from h.path he] at hparsed
    rw [hparsed, Option.map_some] at hp
    obtain rfl := Option.some.inj hp
    exact ⟨hkey.2, e, he, rfl⟩
  · rintro ⟨hfront, e, he, hp⟩
    refine ⟨p.1, ?_, ?_⟩
    · rw [List.mem_insertionSort, List.mem_filter]
      exact ⟨Dict.mem_keys.mpr ⟨e, he⟩, hfront⟩
    · have hparsed := keyInstant_key (h.valid he).key
      rw [show e.key.entryKey = p.1 from h.path he] at hparsed
      rw [hparsed, Option.map_some]
      exact congrArg some (Prod.ext rfl hp.symm)

theorem instants_nodup (h : Filed d) :
    ((S3CaptureLog.instants ⟨d⟩ front).map Prod.fst).Nodup := by
  have hkeys : (S3CaptureLog.listing ⟨d⟩ front).Nodup := by
    unfold S3CaptureLog.listing
    exact (List.perm_insertionSort _ _).nodup_iff.mpr (d.nodup.filter _)
  have hinj : ∀ a b c, c ∈ (keyInstant a).map (fun i => (a, i)) →
      c ∈ (keyInstant b).map (fun i => (b, i)) → a = b := fun a b c ha hb => by
    obtain ⟨i, -, rfl⟩ := Option.map_eq_some_iff.mp ha
    obtain ⟨j, -, hj⟩ := Option.map_eq_some_iff.mp hb
    exact (congrArg Prod.fst hj).symm
  refine List.Nodup.map_on (fun p hp q hq hpq => ?_) (hkeys.filterMap hinj)
  obtain ⟨-, e, he, hpe⟩ := (mem_instants h).mp hp
  obtain ⟨-, e', he', hqe⟩ := (mem_instants h).mp hq
  rw [hpq, he'] at he
  obtain rfl := Option.some.inj he
  exact Prod.ext hpq (hpe.trans hqe.symm)

/-- The entries under a prefix whose parsed keys pass a test, in order. -/
theorem s3_entriesOf (h : Filed d) {under : CaptureEntry → Prop} [DecidablePred under]
    {q : Instant → Bool}
    (hfront : ∀ e ∈ d.values, startsWith front e.path = true ↔ under e)
    (hone : ∀ e e', under e → under e' → e.targetId = e'.targetId) :
    S3CaptureLog.entriesOf ⟨d⟩
        (((S3CaptureLog.instants ⟨d⟩ front).filter fun p => q p.2.1).map Prod.fst) =
      CaptureLog.ordered
        (d.values.filter fun e => under e ∧ q (e.key.stamp * second) = true) := by
  have hnd : (((S3CaptureLog.instants ⟨d⟩ front).filter fun p => q p.2.1).map Prod.fst).Nodup :=
    (instants_nodup h).sublist (List.filter_sublist.map _)
  have hperm := h.read_perm (p := fun e => under e ∧ q (e.key.stamp * second) = true) hnd
    fun k => by
      rw [List.mem_map]
      constructor
      · rintro ⟨p, hp, rfl⟩
        obtain ⟨hp, hq⟩ := List.mem_filter.mp hp
        obtain ⟨hstart, e, he, hinstant⟩ := (mem_instants h).mp hp
        rw [hinstant] at hq
        have hpath := h.path he
        rw [← hpath] at hstart
        exact ⟨e, he, decide_eq_true ⟨(hfront e (Dict.mem_values.mpr ⟨_, he⟩)).mp hstart, hq⟩⟩
      · rintro ⟨e, he, hpick⟩
        obtain ⟨hunder, hq⟩ := of_decide_eq_true hpick
        have hstart := (hfront e (Dict.mem_values.mpr ⟨_, he⟩)).mpr hunder
        rw [h.path he] at hstart
        exact ⟨(k, (e.key.stamp * second, e.attempt)),
          List.mem_filter.mpr ⟨(mem_instants h).mpr ⟨hstart, e, he, rfl⟩, hq⟩, rfl⟩
  refine CaptureLog.ordered_perm hperm fun a ha b hb hab hba => ?_
  have hmem : ∀ e, e ∈ ((((S3CaptureLog.instants ⟨d⟩ front).filter fun p => q p.2.1).map
      Prod.fst).filterMap d.get?) → e ∈ d.values ∧ under e := fun e he => by
    have hpick := List.mem_filter.mp (hperm.subset he)
    exact ⟨hpick.1, (of_decide_eq_true hpick.2).1⟩
  exact h.no_ties (hmem a ha).1 (hmem b hb).1 rfl (hone b a (hmem b hb).2 (hmem a ha).2) hab hba

theorem s3_list (h : Filed d) (ht : validTarget t = true) :
    S3CaptureLog.list ⟨d⟩ t since until_ = CaptureLog.ordered (d.values.filter fun e =>
      e.targetId = t ∧ inWindow (e.key.stamp * second) since until_ = true) :=
  @s3_entriesOf d (CaptureId.targetPrefix t) h (fun e => e.targetId = t) _
    (fun i => inWindow i since until_)
    (fun _ he => CaptureId.target_prefix (h.valid_of_mem he).key ht)
    fun _ _ he he' => he.trans he'.symm

/-- The bucket answers from the stamp of the instant. -/
theorem s3_entriesFor (h : Filed d) (ht : validTarget t = true) {z : ZonedTime} {utc : Instant}
    (hz : z.utc = .ok utc) :
    S3CaptureLog.entriesFor ⟨d⟩ t z = .ok (CaptureLog.ordered (d.values.filter fun e =>
      e.targetId = t ∧ e.key.stamp = utc / second)) := by
  have hs := stamp_in_calendar (checkedInstant_range hz)
  rw [← checkedInstant_eq hz] at hs
  have hall := @s3_entriesOf d (CaptureId.stampPrefix t (utc / second)) h
    (fun e => e.targetId = t ∧ e.key.stamp = utc / second) _ (fun _ => true)
    (fun _ he => CaptureId.stamp_prefix (h.valid_of_mem he).key ht hs)
    fun _ _ he he' => he.1.trans he'.1.symm
  simp only [List.filter_true, and_true] at hall
  unfold S3CaptureLog.entriesFor
  rw [hz]
  exact congrArg Except.ok hall

/-- Two selections in order are one when they pick the same entries. -/
theorem ordered_filter_iff {p q : CaptureEntry → Prop} [DecidablePred p] [DecidablePred q] :
    CaptureLog.ordered (d.values.filter fun e => p e) =
        CaptureLog.ordered (d.values.filter fun e => q e) ↔ ∀ e ∈ d.values, p e ↔ q e := by
  constructor
  · intro heq e he
    have hmem := congrArg (e ∈ ·) heq
    simp only [CaptureLog.ordered, List.mem_insertionSort, List.mem_filter, he, true_and,
      decide_eq_true_eq, eq_iff_iff] at hmem
    exact hmem
  · intro hpq
    rw [List.filter_congr fun e he => decide_eq_decide.mpr (hpq e he)]

/-! ## The latest entry -/

/-- The entry of a target that comes after every other. -/
def NewestEntry (d : Dict String CaptureEntry) (t : String) (e : CaptureEntry) : Prop :=
  e ∈ d.values ∧ e.targetId = t ∧
    ∀ e' ∈ d.values, e'.targetId = t → CaptureLog.before e' e

/-- The entry of a target whose key comes after every other. -/
def NewestKey (d : Dict String CaptureEntry) (t : String) (e : CaptureEntry) : Prop :=
  e ∈ d.values ∧ e.targetId = t ∧ ∀ e' ∈ d.values, e'.targetId = t →
    e'.key.stamp < e.key.stamp ∨ e'.key.stamp = e.key.stamp ∧ e'.attempt ≤ e.attempt

theorem memory_latest (h : Filed d) {e : CaptureEntry} :
    MemoryCaptureLog.latest ⟨d⟩ t = some e ↔ NewestEntry d t e := by
  have hmem : ∀ e, e ∈ (d.values.filter fun e => e.targetId = t ∧
      inWindow e.scheduledFor none none) ↔ e ∈ d.values ∧ e.targetId = t := fun e => by
    simp [List.mem_filter, inWindow]
  have hlast : ∀ {e}, MemoryCaptureLog.latest ⟨d⟩ t = some e → NewestEntry d t e := fun {e} hl => by
    obtain ⟨he, hmax⟩ := CaptureLog.ordered_last hl
    obtain ⟨hin, ht⟩ := (hmem e).mp he
    exact ⟨hin, ht, fun e' he' ht' => hmax e' ((hmem e').mpr ⟨he', ht'⟩)⟩
  refine ⟨hlast, fun hnew => ?_⟩
  cases hl : MemoryCaptureLog.latest ⟨d⟩ t with
  | none =>
    have hnil := List.getLast?_eq_none_iff.mp hl
    have hin := (List.mem_insertionSort CaptureLog.before).mpr ((hmem e).mpr ⟨hnew.1, hnew.2.1⟩)
    unfold MemoryCaptureLog.list CaptureLog.ordered at hnil
    rw [hnil] at hin
    cases hin
  | some e' =>
    obtain ⟨hin', ht', hmax'⟩ := hlast hl
    exact congrArg some (h.no_ties hin' hnew.1 ht' hnew.2.1 (hnew.2.2 e' hin' ht')
      (hmax' e hnew.1 hnew.2.1))

theorem not_later_self (a : Instant × Nat) : ¬ S3CaptureLog.later a a := by
  unfold S3CaptureLog.later Instant
  omega

theorem later_asymm {a b : Instant × Nat} (h : S3CaptureLog.later a b) :
    ¬ S3CaptureLog.later b a := by
  unfold S3CaptureLog.later Instant at *
  omega

theorem not_later_trans {a b c : Instant × Nat} (hab : ¬ S3CaptureLog.later a b)
    (hbc : ¬ S3CaptureLog.later b c) : ¬ S3CaptureLog.later a c := by
  unfold S3CaptureLog.later Instant at *
  omega

theorem newest_spec {l : List (String × (Instant × Nat))} {p : String × (Instant × Nat)}
    (h : S3CaptureLog.newest l = some p) :
    p ∈ l ∧ ∀ q ∈ l, ¬ S3CaptureLog.later q.2 p.2 := by
  cases l with
  | nil => cases h
  | cons best rest =>
    obtain rfl := Option.some.inj h
    clear h
    induction rest generalizing best with
    | nil =>
      refine ⟨List.mem_cons_self, fun q hq => ?_⟩
      rw [List.mem_singleton.mp hq]
      exact not_later_self _
    | cons q rest ih =>
      rw [List.foldl_cons]
      by_cases hlater : S3CaptureLog.later q.2 best.2
      · rw [if_pos hlater]
        obtain ⟨hin, hmax⟩ := ih q
        refine ⟨List.mem_cons_of_mem _ hin, fun x hx => ?_⟩
        rcases List.mem_cons.mp hx with rfl | hx
        · exact not_later_trans (later_asymm hlater) (hmax q List.mem_cons_self)
        · exact hmax x hx
      · rw [if_neg hlater]
        obtain ⟨hin, hmax⟩ := ih best
        refine ⟨?_, fun x hx => ?_⟩
        · rcases List.mem_cons.mp hin with hr | hr
          · rw [hr]
            exact List.mem_cons_self
          · exact List.mem_cons_of_mem _ (List.mem_cons_of_mem _ hr)
        · rcases List.mem_cons.mp hx with rfl | hx
          · exact hmax x List.mem_cons_self
          · rcases List.mem_cons.mp hx with rfl | hx
            · exact not_later_trans hlater (hmax best List.mem_cons_self)
            · exact hmax x (List.mem_cons_of_mem _ hx)

theorem s3_latest (h : Filed d) (ht : validTarget t = true) {e : CaptureEntry} :
    S3CaptureLog.latest ⟨d⟩ t = some e ↔ NewestKey d t e := by
  have hlisted : ∀ e ∈ d.values, e.targetId = t →
      (e.path, (e.key.stamp * second, e.attempt)) ∈
        S3CaptureLog.instants ⟨d⟩ (CaptureId.targetPrefix t) := fun e he hte => by
    refine (mem_instants h).mpr ⟨?_, e, h.mem_values.mp he, rfl⟩
    exact (CaptureId.target_prefix (h.valid_of_mem he).key ht).mpr hte
  have hlast : ∀ {e}, S3CaptureLog.latest ⟨d⟩ t = some e → NewestKey d t e := fun {e} hl => by
    unfold S3CaptureLog.latest at hl
    obtain ⟨p, hp, hget⟩ := Option.bind_eq_some_iff.mp hl
    obtain ⟨hin, hmax⟩ := newest_spec hp
    obtain ⟨hstart, e', he', hinstant⟩ := (mem_instants h).mp hin
    obtain rfl : e' = e := Option.some.inj (he'.symm.trans hget)
    have hmem : e' ∈ d.values := Dict.mem_values.mpr ⟨_, he'⟩
    rw [← h.path he'] at hstart
    refine ⟨hmem, (CaptureId.target_prefix (h.valid_of_mem hmem).key ht).mp hstart,
      fun x hx htx => ?_⟩
    have hnot := hmax _ (hlisted x hx htx)
    rw [hinstant] at hnot
    unfold S3CaptureLog.later second at hnot
    unfold Instant Duration at *
    simp only at hnot
    omega
  refine ⟨hlast, fun hnew => ?_⟩
  cases hl : S3CaptureLog.latest ⟨d⟩ t with
  | none =>
    have hin := hlisted e hnew.1 hnew.2.1
    unfold S3CaptureLog.latest at hl
    cases hinst : S3CaptureLog.instants ⟨d⟩ (CaptureId.targetPrefix t) with
    | nil =>
      rw [hinst] at hin
      cases hin
    | cons p rest =>
      obtain ⟨q, hq⟩ : ∃ q, S3CaptureLog.newest (p :: rest) = some q := ⟨_, rfl⟩
      have hq' := (newest_spec hq).1
      rw [← hinst] at hq'
      obtain ⟨-, x, hx, -⟩ := (mem_instants h).mp hq'
      rw [hinst, hq] at hl
      simp only [Option.bind_eq_bind, Option.bind_some] at hl
      rw [hx] at hl
      cases hl
  | some e' =>
    obtain ⟨hin', ht', hmax'⟩ := hlast hl
    refine congrArg some (h.unique hin' hnew.1 ?_)
    have h₁ := hmax' e hnew.1 hnew.2.1
    have h₂ := hnew.2.2 e' hin' ht'
    have hstamp : e'.key.stamp = e.key.stamp := by omega
    have hattempt : e'.attempt = e.attempt := by omega
    exact CaptureId.mk.injEq .. ▸ ⟨ht'.trans hnew.2.1.symm, hstamp, hattempt⟩

end Queries

/-! ## Calls -/

/-- A call about the target of a manifest, with the entries of such a target. -/
def LogCall.Valid : LogCall → Prop
  | .put e | .putNew e => e.Valid
  | .get t _ _ | .entriesFor t _ | .list t _ _ | .latest t => validTarget t = true

/-- What the logs hold after a call. -/
def LogCall.stored (d : Dict String CaptureEntry) : LogCall → Dict String CaptureEntry
  | .put e => d.set e.path e
  | .putNew e => if d.contains e.path then d else d.set e.path e
  | _ => d

/-- What the logs hold after a sequence of calls. -/
def storedAfter (calls : List LogCall) : Dict String CaptureEntry :=
  calls.foldl LogCall.stored .empty

/-- The key that an entry is written under holds no entry of another instant. -/
def LogCall.OwnKey (d : Dict String CaptureEntry) : LogCall → Prop
  | .put e | .putNew e => ∀ e', d.get? e.path = some e' → e'.scheduledFor = e.scheduledFor
  | _ => True

/-- The query tells no stored instant from its stamp: no other instant of the second asked for is
stored; the window holds each stored instant together with its second; no entry of the second of
the newest has a higher attempt. -/
def LogCall.ByStamp (d : Dict String CaptureEntry) : LogCall → Prop
  | .entriesFor t z => ∀ e ∈ d.values, e.targetId = t → e.key.stamp = z.instant / second →
      e.scheduledFor = z.instant
  | .list t since until_ => ∀ e ∈ d.values, e.targetId = t →
      inWindow (e.key.stamp * second) since until_ = inWindow e.scheduledFor since until_
  | .latest t => ∀ e, NewestEntry d t e → ∀ e' ∈ d.values, e'.targetId = t →
      e'.key.stamp = e.key.stamp → e'.attempt ≤ e.attempt
  | _ => True

structure LogCall.Clean (d : Dict String CaptureEntry) (c : LogCall) : Prop where
  ownKey : c.OwnKey d
  byStamp : c.ByStamp d

section Steps

variable {d : Dict String CaptureEntry} {c : LogCall}
  {walk : List CaptureEntry → List CaptureEntry}

theorem Filed.stored (h : Filed d) (hc : c.Valid) : Filed (c.stored d) := by
  cases c with
  | put e => exact h.set hc
  | putNew e =>
    simp only [LogCall.stored]
    split
    · exact h
    · exact h.set hc
  | get => exact h
  | entriesFor => exact h
  | list => exact h
  | latest => exact h

theorem memory_stored : (memoryLog.serve ⟨d⟩ c).2 = ⟨c.stored d⟩ := by
  cases c with
  | putNew e =>
    simp only [LogProtocol.serve, memoryLog, MemoryCaptureLog.putNew, LogCall.stored]
    split <;> rfl
  | _ => rfl

theorem file_stored : ((fileLog walk).serve ⟨d⟩ c).2 = ⟨c.stored d⟩ := by
  cases c with
  | putNew e =>
    simp only [LogProtocol.serve, fileLog, FileCaptureLog.putNew, LogCall.stored]
    split <;> rfl
  | _ => rfl

theorem s3_stored : (s3Log.serve ⟨d⟩ c).2 = ⟨c.stored d⟩ := by
  cases c with
  | putNew e =>
    simp only [LogProtocol.serve, s3Log, S3CaptureLog.putNew, LogCall.stored]
    split <;> rfl
  | _ => rfl

/-- The read-back after an accepted creation shows the entry. -/
theorem s3_putNew (e : CaptureEntry) :
    (S3CaptureLog.putNew ⟨d⟩ e).1 = (MemoryCaptureLog.putNew ⟨d⟩ e).1 := by
  unfold S3CaptureLog.putNew MemoryCaptureLog.putNew S3CaptureLog.put
  by_cases hin : d.contains e.path = true
  · simp only [hin, if_true]
  · simp only [hin, Dict.get?_set_self]
    simp

theorem file_list (hwalk : ∀ l, (walk l).Perm l) (h : Filed d) {t : String}
    (ht : validTarget t = true) {since until_ : Option ZonedTime} :
    FileCaptureLog.list walk ⟨d⟩ t since until_ = MemoryCaptureLog.list ⟨d⟩ t since until_ := by
  have hsame := file_filter hwalk h ht fun e => inWindow e.scheduledFor since until_ = true
  simp only [Bool.decide_eq_true] at hsame
  exact hsame

/-- The log of files answers as the one in memory. -/
theorem file_answer (hwalk : ∀ l, (walk l).Perm l) (h : Filed d) (hc : c.Valid) :
    ((fileLog walk).serve ⟨d⟩ c).1 = (memoryLog.serve ⟨d⟩ c).1 := by
  cases c with
  | put e => rfl
  | putNew e =>
    simp only [LogProtocol.serve, fileLog, memoryLog, FileCaptureLog.putNew,
      MemoryCaptureLog.putNew]
    split <;> rfl
  | get t z attempt =>
    simp only [LogProtocol.serve, fileLog, memoryLog, captureIdText, ZonedTime.utc]
    cases hz : checkedInstant z.instant with
    | error err => rfl
    | ok utc =>
      have hcal := checkedInstant_range hz
      rw [← checkedInstant_eq hz] at hcal
      have hid := @captureId_valid _ _ attempt hc hcal
      exact congrArg (fun r => LogAnswer.entry (.ok r))
        ((file_get hwalk h hid).trans (memory_get h hid).symm)
  | entriesFor t z =>
    simp only [LogProtocol.serve, fileLog, memoryLog, FileCaptureLog.entriesFor,
      MemoryCaptureLog.entriesFor]
    cases hz : z.utc with
    | error err => rfl
    | ok utc =>
      exact congrArg (fun r => LogAnswer.entries (.ok r))
        (file_filter hwalk h hc fun e => e.scheduledFor = utc)
  | list t since until_ =>
    exact congrArg (fun r => LogAnswer.entries (.ok r)) (file_list hwalk h hc)
  | latest t =>
    exact congrArg (fun r : List CaptureEntry => LogAnswer.entry (.ok r.getLast?))
      (file_list hwalk h hc)

theorem stamp_le_of_before {e e' : CaptureEntry} (hb : CaptureLog.before e' e) :
    e'.key.stamp ≤ e.key.stamp := by
  unfold CaptureLog.before at hb
  unfold CaptureEntry.key captureId second
  unfold Instant Duration at *
  simp only
  omega

theorem s3_latest_iff (h : Filed d) {t : String} (ht : validTarget t = true) :
    S3CaptureLog.latest ⟨d⟩ t = MemoryCaptureLog.latest ⟨d⟩ t ↔ (LogCall.latest t).ByStamp d := by
  constructor
  · intro heq e he e' he' ht' hstamp
    have hkey := (s3_latest h ht).mp (heq.trans ((memory_latest h).mpr he))
    rcases hkey.2.2 e' he' ht' with hlt | ⟨-, hle⟩
    · exact absurd hstamp hlt.ne
    · exact hle
  · intro hclean
    have hfrom : ∀ e, NewestEntry d t e → NewestKey d t e := fun e he => by
      refine ⟨he.1, he.2.1, fun e' he' ht' => ?_⟩
      rcases lt_or_eq_of_le (stamp_le_of_before (he.2.2 e' he' ht')) with hlt | heq
      · exact .inl hlt
      · exact .inr ⟨heq, hclean e he e' he' ht' heq⟩
    cases hm : MemoryCaptureLog.latest ⟨d⟩ t with
    | some e => exact (s3_latest h ht).mpr (hfrom e ((memory_latest h).mp hm))
    | none =>
      cases hs : S3CaptureLog.latest ⟨d⟩ t with
      | none => rfl
      | some e =>
        obtain ⟨hin, hte, -⟩ := (s3_latest h ht).mp hs
        have hnil := List.getLast?_eq_none_iff.mp hm
        have hlisted : e ∈ MemoryCaptureLog.list ⟨d⟩ t none none := by
          unfold MemoryCaptureLog.list CaptureLog.ordered
          rw [List.mem_insertionSort, List.mem_filter]
          exact ⟨hin, decide_eq_true ⟨hte, rfl⟩⟩
        rw [hnil] at hlisted
        cases hlisted

theorem s3_entriesFor_iff (h : Filed d) {t : String} (ht : validTarget t = true) (z : ZonedTime) :
    S3CaptureLog.entriesFor ⟨d⟩ t z = MemoryCaptureLog.entriesFor ⟨d⟩ t z ↔
      (LogCall.entriesFor t z).ByStamp d := by
  cases hz : z.utc with
  | error err =>
    have hleft : S3CaptureLog.entriesFor ⟨d⟩ t z = MemoryCaptureLog.entriesFor ⟨d⟩ t z := by
      unfold S3CaptureLog.entriesFor MemoryCaptureLog.entriesFor
      rw [hz]
      rfl
    refine iff_of_true hleft fun e he _ hstamp => ?_
    -- the second of a stored entry lies in the calendar
    obtain ⟨h₁, h₂⟩ := (h.valid_of_mem he).instant
    have hout : ¬ (datetimeMin ≤ z.instant ∧ z.instant ≤ datetimeMax) := fun hin => by
      rw [ZonedTime.utc, checkedInstant, if_pos hin] at hz
      cases hz
    unfold CaptureEntry.key captureId at hstamp
    unfold datetimeMin datetimeMax second at *
    unfold Instant Duration at *
    simp only at hstamp
    omega
  | ok utc =>
    have hutc : utc = z.instant := checkedInstant_eq hz
    rw [s3_entriesFor h ht hz, MemoryCaptureLog.entriesFor, hz]
    simp only [bind, Except.bind, Except.ok.injEq]
    rw [ordered_filter_iff, hutc]
    constructor
    · exact fun hpick e he hte hstamp => ((hpick e he).mp ⟨hte, hstamp⟩).2
    · refine fun hclean e he => ⟨fun hp => ⟨hp.1, hclean e he hp.1 hp.2⟩, fun hp => ⟨hp.1, ?_⟩⟩
      rw [← hp.2]
      rfl

theorem s3_list_iff (h : Filed d) {t : String} (ht : validTarget t = true)
    {since until_ : Option ZonedTime} :
    S3CaptureLog.list ⟨d⟩ t since until_ = MemoryCaptureLog.list ⟨d⟩ t since until_ ↔
      (LogCall.list t since until_).ByStamp d := by
  rw [s3_list h ht]
  unfold MemoryCaptureLog.list
  rw [ordered_filter_iff]
  constructor
  · intro hpick e he hte
    have hone := hpick e he
    simp only [hte, true_and] at hone
    exact Bool.eq_iff_iff.mpr hone
  · intro hclean e he
    exact and_congr_right fun hte => Bool.eq_iff_iff.mp (hclean e he hte)

/-- The bucket answers as the memory does exactly where a query goes by the stamps. -/
theorem s3_answer_iff (h : Filed d) (hc : c.Valid) :
    (s3Log.serve ⟨d⟩ c).1 = (memoryLog.serve ⟨d⟩ c).1 ↔ c.ByStamp d := by
  cases c with
  | put e => exact iff_of_true rfl trivial
  | putNew e => exact iff_of_true (congrArg LogAnswer.created (s3_putNew e)) trivial
  | get t z attempt =>
    refine iff_of_true ?_ trivial
    simp only [LogProtocol.serve, s3Log, memoryLog, captureIdText, ZonedTime.utc]
    cases hz : checkedInstant z.instant with
    | error err => rfl
    | ok utc =>
      have hcal := checkedInstant_range hz
      rw [← checkedInstant_eq hz] at hcal
      have hid := @captureId_valid _ _ attempt hc hcal
      exact congrArg (fun r => LogAnswer.entry (.ok r)) ((s3_get hid).trans (memory_get h hid).symm)
  | entriesFor t z => exact LogAnswer.entries.injEq .. ▸ s3_entriesFor_iff h hc z
  | list t since until_ =>
    have hiff := @s3_list_iff _ h _ hc since until_
    simp only [LogProtocol.serve, s3Log, memoryLog, LogAnswer.entries.injEq, Except.ok.injEq]
    exact hiff
  | latest t =>
    have hiff := s3_latest_iff h hc
    simp only [LogProtocol.serve, s3Log, memoryLog, LogAnswer.entry.injEq, Except.ok.injEq]
    exact hiff

end Steps

/-! ## Sequences of calls -/

/-- The entries that the writes of a sequence carry. -/
def writtenBy (calls : List LogCall) : List CaptureEntry :=
  calls.filterMap fun
    | .put e | .putNew e => some e
    | _ => none

/-- The three logs give one answer to every call, entries of different instants never share a key,
and an entry is found under exactly its instant. -/
structure SameLog (walk : List CaptureEntry → List CaptureEntry) (calls : List LogCall) :
    Prop where
  file : ∀ {pre c}, pre ++ [c] <+: calls → (fileLog walk).answer pre c = memoryLog.answer pre c
  s3 : ∀ {pre c}, pre ++ [c] <+: calls → s3Log.answer pre c = memoryLog.answer pre c
  keys : ∀ e ∈ writtenBy calls, ∀ e' ∈ writtenBy calls, e.path = e'.path →
    e.scheduledFor = e'.scheduledFor
  found : ∀ {pre t z l}, pre ++ [.entriesFor t z] <+: calls →
    s3Log.answer pre (.entriesFor t z) = .entries (.ok l) →
    ∀ e, e ∈ l ↔ e ∈ (memoryLog.after pre).entries.values ∧ e.targetId = t ∧
      e.scheduledFor = z.instant

section Sequences

variable {walk : List CaptureEntry → List CaptureEntry} {calls pre : List LogCall} {c : LogCall}

theorem storedAfter_snoc : storedAfter (pre ++ [c]) = c.stored (storedAfter pre) := by
  unfold storedAfter
  rw [List.foldl_append]
  rfl

theorem writtenBy_snoc : writtenBy (pre ++ [c]) = writtenBy pre ++ writtenBy [c] := by
  unfold writtenBy
  exact List.filterMap_append

/-- After every sequence the three logs hold the same. -/
theorem after_stored (pre : List LogCall) : memoryLog.after pre = ⟨storedAfter pre⟩ ∧
    (fileLog walk).after pre = ⟨storedAfter pre⟩ ∧ s3Log.after pre = ⟨storedAfter pre⟩ := by
  induction pre using List.reverseRecOn with
  | nil => exact ⟨rfl, rfl, rfl⟩
  | append_singleton pre c ih =>
    obtain ⟨hm, hf, hs⟩ := ih
    unfold LogProtocol.after at *
    simp only [List.foldl_append, List.foldl_cons, List.foldl_nil, storedAfter_snoc]
    rw [hm, hf, hs]
    exact ⟨memory_stored, file_stored, s3_stored⟩

theorem filed_after (h : ∀ c ∈ pre, c.Valid) : Filed (storedAfter pre) := by
  induction pre using List.reverseRecOn with
  | nil => exact Filed.empty
  | append_singleton pre c ih =>
    rw [storedAfter_snoc]
    exact (ih fun c hc => h c (List.mem_append_left _ hc)).stored (h c (by simp))

/-- What is stored was written. -/
theorem written_of_stored {k : String} {e : CaptureEntry}
    (h : (storedAfter pre).get? k = some e) : e ∈ writtenBy pre := by
  induction pre using List.reverseRecOn with
  | nil => cases h
  | append_singleton pre c ih =>
    rw [writtenBy_snoc, List.mem_append]
    have hset : ∀ x, ((storedAfter pre).set x.path x).get? k = some e →
        (storedAfter pre).get? k = some e ∨ e = x := fun x hx => by
      rw [Dict.get?_set] at hx
      split at hx
      · exact .inr (Option.some.inj hx).symm
      · exact .inl hx
    rw [storedAfter_snoc] at h
    cases c with
    | put x =>
      rcases hset x h with hold | rfl
      · exact .inl (ih hold)
      · exact .inr List.mem_cons_self
    | putNew x =>
      simp only [LogCall.stored] at h
      split at h
      · exact .inl (ih h)
      · rcases hset x h with hold | rfl
        · exact .inl (ih hold)
        · exact .inr List.mem_cons_self
    | _ => exact .inl (ih h)

/-- Where every write finds no other instant under its key, an entry of the instant of each one
written is stored under its key. -/
theorem stored_of_written
    (hclean : ∀ {front x}, front ++ [x] <+: pre → x.OwnKey (storedAfter front)) {e : CaptureEntry}
    (he : e ∈ writtenBy pre) :
    ∃ e', (storedAfter pre).get? e.path = some e' ∧ e'.scheduledFor = e.scheduledFor := by
  induction pre using List.reverseRecOn with
  | nil => cases he
  | append_singleton pre c ih =>
    have hlast := hclean (List.prefix_refl (pre ++ [c]))
    have hold : e ∈ writtenBy pre →
        ∃ e', (storedAfter pre).get? e.path = some e' ∧ e'.scheduledFor = e.scheduledFor :=
      ih fun hp => hclean (hp.trans (List.prefix_append _ _))
    have hset : ∀ x, (∀ e', (storedAfter pre).get? x.path = some e' →
          e'.scheduledFor = x.scheduledFor) → (e ∈ writtenBy pre ∨ e = x) →
        ∃ e', ((storedAfter pre).set x.path x).get? e.path = some e' ∧
          e'.scheduledFor = e.scheduledFor := fun x hown hcase => by
      rw [Dict.get?_set]
      rcases hcase with hin | rfl
      · obtain ⟨e', hget, hinstant⟩ := hold hin
        split
        · rename_i hpath
          exact ⟨x, rfl, (hown e' (hpath ▸ hget)).symm.trans hinstant⟩
        · exact ⟨e', hget, hinstant⟩
      · exact ⟨e, if_pos rfl, rfl⟩
    rw [writtenBy_snoc, List.mem_append] at he
    rw [storedAfter_snoc]
    cases c with
    | put x => exact hset x hlast (he.imp id fun hx => List.mem_singleton.mp hx)
    | putNew x =>
      simp only [LogCall.stored]
      split
      · rename_i hin
        rcases he with he | he
        · exact hold he
        · obtain rfl := List.mem_singleton.mp he
          obtain ⟨e', hget⟩ := Dict.contains_iff.mp hin
          exact ⟨e', hget, hlast e' hget⟩
      · exact hset x hlast (he.imp id fun hx => List.mem_singleton.mp hx)
    | _ => exact hold (he.resolve_right List.not_mem_nil)

theorem writtenBy_front (h : pre <+: calls) {e : CaptureEntry} (he : e ∈ writtenBy pre) :
    e ∈ writtenBy calls := by
  obtain ⟨rest, rfl⟩ := h
  unfold writtenBy at *
  rw [List.filterMap_append]
  exact List.mem_append_left _ he

theorem valid_of_before (hcalls : ∀ c ∈ calls, c.Valid) (h : pre ++ [c] <+: calls) :
    (∀ x ∈ pre, x.Valid) ∧ c.Valid := by
  obtain ⟨rest, rfl⟩ := h
  exact ⟨fun x hx => hcalls x (by simp [hx]), hcalls c (by simp)⟩

/-- Keys tell instants apart exactly where every write finds no other instant under its key. -/
theorem keys_iff (hcalls : ∀ c ∈ calls, c.Valid) :
    (∀ e ∈ writtenBy calls, ∀ e' ∈ writtenBy calls, e.path = e'.path →
      e.scheduledFor = e'.scheduledFor) ↔
    ∀ {pre c}, pre ++ [c] <+: calls → c.OwnKey (storedAfter pre) := by
  constructor
  · intro hkeys pre c hpre
    have hfiled := filed_after (valid_of_before hcalls hpre).1
    have hwrite : ∀ e, e ∈ writtenBy [c] → ∀ e', (storedAfter pre).get? e.path = some e' →
        e'.scheduledFor = e.scheduledFor := fun e he e' hget => by
      refine hkeys e' ?_ e ?_ (hfiled.path hget)
      · exact writtenBy_front ((List.prefix_append _ _).trans hpre) (written_of_stored hget)
      · refine writtenBy_front hpre ?_
        rw [writtenBy_snoc]
        exact List.mem_append_right _ he
    cases c with
    | put e => exact hwrite e List.mem_cons_self
    | putNew e => exact hwrite e List.mem_cons_self
    | _ => trivial
  · intro hclean e he e' he' hpath
    obtain ⟨x, hget, hinstant⟩ := stored_of_written hclean he
    obtain ⟨x', hget', hinstant'⟩ := stored_of_written hclean he'
    rw [hpath, hget'] at hget
    obtain rfl := Option.some.inj hget
    exact hinstant.symm.trans hinstant'

/-- The three capture logs are one log exactly over the sequences of clean calls. -/
theorem same_log (hwalk : ∀ l, (walk l).Perm l) (hcalls : ∀ c ∈ calls, c.Valid) :
    SameLog walk calls ↔ ∀ {pre c}, pre ++ [c] <+: calls → c.Clean (storedAfter pre) := by
  have hs3 : ∀ {pre c}, pre ++ [c] <+: calls →
      (s3Log.answer pre c = memoryLog.answer pre c ↔ c.ByStamp (storedAfter pre)) :=
    fun {pre c} hpre => by
      obtain ⟨hm, -, hs⟩ := @after_stored walk pre
      obtain ⟨hvalid, hc⟩ := valid_of_before hcalls hpre
      unfold LogProtocol.answer
      rw [hm, hs]
      exact s3_answer_iff (filed_after hvalid) hc
  constructor
  · exact fun h {_ _} hpre => ⟨(keys_iff hcalls).mp h.keys hpre, (hs3 hpre).mp (h.s3 hpre)⟩
  · intro hclean
    refine ⟨fun {pre c} hpre => ?_, fun hpre => (hs3 hpre).mpr (hclean hpre).byStamp,
      (keys_iff hcalls).mpr fun hpre => (hclean hpre).ownKey, fun {pre t z l} hpre hl e => ?_⟩
    · obtain ⟨hm, hf, -⟩ := @after_stored walk pre
      obtain ⟨hvalid, hc⟩ := valid_of_before hcalls hpre
      unfold LogProtocol.answer
      rw [hm, hf]
      exact file_answer hwalk (filed_after hvalid) hc
    · rw [(hs3 hpre).mpr (hclean hpre).byStamp] at hl
      simp only [LogProtocol.answer, LogProtocol.serve, LogAnswer.entries.injEq] at hl
      obtain ⟨utc, hz, hl⟩ := bind_eq_ok.mp hl
      obtain rfl := checkedInstant_eq hz
      rw [← Except.ok.inj hl, CaptureLog.ordered, List.mem_insertionSort, List.mem_filter,
        decide_eq_true_eq]

/-- The first capture of noon on the first of January 2026, some microseconds after it. -/
def noonEntry (micros : Duration) : CaptureEntry where
  captureId := captureId "ote_intraday_market" (1767268800 * second + micros) 1
  targetId := "ote_intraday_market"
  scheduledFor := 1767268800 * second + micros
  attempt := 1
  fetchedAt := 1767268801 * second
  sourceUrl := "https://www.ote-cr.cz/"
  httpStatus := 200
  contentType := none
  payloadSha256 := 1
  rawRef := ⟨1⟩
  size := 1
  contentChanged := true
  sourceTransport := .soap
  sourcePublishedAt := none
  tier := .hot
  etag := none
  lastModified := none
  hops := []

/-- A capture, then the captures of noon, asked for by a clock in Prague. -/
def noonCalls (micros : Duration) : List LogCall :=
  [.putNew (noonEntry micros),
    .entriesFor "ote_intraday_market" ⟨1767272400 * second, 3600 * second⟩]

theorem noonCalls_valid {micros : Duration} (h : 0 ≤ micros ∧ micros < second) :
    ∀ c ∈ noonCalls micros, c.Valid := by
  have htarget : validTarget "ote_intraday_market" = true := by decide +kernel
  intro c hc
  simp only [noonCalls, List.mem_cons, List.not_mem_nil, or_false] at hc
  rcases hc with rfl | rfl
  · refine ⟨rfl, htarget, ?_⟩
    unfold noonEntry datetimeMin datetimeMax second at *
    unfold Instant Duration at *
    simp only
    omega
  · exact htarget

theorem same_log_noon : SameLog List.reverse (noonCalls 0) := by
  refine (same_log List.reverse_perm (noonCalls_valid (by decide))).mpr ?_
  intro pre c hpre
  have hd : storedAfter [.putNew (noonEntry 0)] = Dict.empty.set (noonEntry 0).path (noonEntry 0) :=
    rfl
  rcases pre with _ | ⟨first, _ | ⟨x, rest⟩⟩
  · obtain rfl : c = .putNew (noonEntry 0) := by simpa [noonCalls] using hpre
    exact ⟨fun _ h => (by cases h), trivial⟩
  · obtain ⟨rfl, rfl⟩ : first = .putNew (noonEntry 0) ∧
        c = .entriesFor "ote_intraday_market" ⟨1767272400 * second, 3600 * second⟩ := by
      simpa [noonCalls] using hpre
    refine ⟨trivial, fun e he _ _ => ?_⟩
    rw [hd] at he
    obtain rfl : e = noonEntry 0 := List.mem_singleton.mp he
    decide
  · have hlen := hpre.length_le
    simp [noonCalls] at hlen

/-- Half a second after noon the bucket finds the capture under noon, the other two do not. -/
theorem half_second_differs : (∀ c ∈ noonCalls 500000, c.Valid) ∧
    ¬ SameLog id (noonCalls 500000) := by
  refine ⟨noonCalls_valid (by decide), fun h => ?_⟩
  have hs3 := @SameLog.s3 _ _ h [.putNew (noonEntry 500000)] _ (List.prefix_refl _)
  revert hs3
  decide +kernel

end Sequences

end EnergyPlatform
