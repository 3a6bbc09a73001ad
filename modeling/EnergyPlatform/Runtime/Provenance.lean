import EnergyPlatform.Bronze.CaptureRaces
import EnergyPlatform.Mapping.Targets
import EnergyPlatform.Runtime.Plan

/-!
# Runtime.Provenance

Every capture-log entry is readable, and honest about where its payload comes from.

The captures of a target run over a Bronze whose blobs may move between the tiers at any time and
whose calls may fail, with or without their effect; a capture that makes no further call has
crashed. `Honest` is the invariant: blobs hash to their addresses, the payload of every entry is
held by a tier, and an entry for a 304 points at an earlier entry for a 200 of the same target,
delivery day and source. It survives every call because an entry is created only for a payload that
is held already, or was taken from a listed entry.
-/

namespace EnergyPlatform

open Lib (Dict Prog)

namespace Bronze

variable {L : Type} {LRet : L → Type} (sha256 : Bytes → Sha256) (zone : Zone)

/-- A tier has a blob under this hash. -/
def Holds (b : Bronze) (sha : Sha256) : Prop :=
  (∃ d, b.hot.get? sha = some d) ∨ ∃ cold d, b.cold = some cold ∧ cold.get? sha = some d

/-- The blob is the one a tier has. -/
def HasBlob (b : Bronze) (sha : Sha256) (d : Bytes) : Prop :=
  b.hot.get? sha = some d ∨ ∃ cold, b.cold = some cold ∧ cold.get? sha = some d

/-- Blobs moved between the tiers; none left both. -/
structure Tiered (b b' : Bronze) : Prop where
  log : b'.log = b.log
  blobs : ∀ {sha d}, b'.HasBlob sha d → b.HasBlob sha d
  kept : ∀ {sha}, b.Holds sha → b'.Holds sha

/-- The two instants have one delivery day. -/
def SameDay (s t : Instant) : Prop :=
  ∃ d, deliveryDayFor zone s = .ok d ∧ deliveryDayFor zone t = .ok d

/-- `p` is the fetched payload that `e` stands for. -/
structure Origin (e p : CaptureEntry) : Prop where
  httpStatus : p.httpStatus = 200
  targetId : p.targetId = e.targetId
  sameDay : SameDay zone p.scheduledFor e.scheduledFor
  sourceUrl : p.sourceUrl = e.sourceUrl
  payloadSha256 : e.payloadSha256 = p.payloadSha256
  rawRef : e.rawRef = p.rawRef

structure Honest (b : Bronze) : Prop where
  blobs : ∀ {sha d}, b.HasBlob sha d → sha256 d = sha
  ref : ∀ e ∈ b.log.entries.values, e.rawRef = ⟨e.payloadSha256⟩
  held : ∀ e ∈ b.log.entries.values, b.Holds e.payloadSha256
  origin : ∀ pre e post, b.log.entries.values = pre ++ e :: post → e.httpStatus = 304 →
    ∃ p ∈ pre, Origin zone e p

/-- Entries were appended and no payload was lost. -/
structure Grows (b b' : Bronze) : Prop where
  entries : b.log.entries.values <+: b'.log.entries.values
  held : ∀ {sha}, b.Holds sha → b'.Holds sha

theorem Grows.refl (b : Bronze) : Grows b b := ⟨List.prefix_refl _, fun h => h⟩

theorem Grows.trans (b b' b'' : Bronze) (h : Grows b b') (h' : Grows b' b'') : Grows b b'' :=
  ⟨h.entries.trans h'.entries, fun hs => h'.held (h.held hs)⟩

theorem Grows.mem {b b' : Bronze} (h : Grows b b') {e : CaptureEntry}
    (he : e ∈ b.log.entries.values) : e ∈ b'.log.entries.values := h.entries.subset he

theorem Tiered.refl (b : Bronze) : Tiered b b := ⟨rfl, fun h => h, fun h => h⟩

theorem Tiered.grows {b b' : Bronze} (h : Tiered b b') : Grows b b' :=
  ⟨by rw [h.log], h.kept⟩

variable {sha256 zone}

theorem Tiered.honest {b b' : Bronze} (h : Tiered b b') (hb : Honest sha256 zone b) :
    Honest sha256 zone b' where
  blobs hd := hb.blobs (h.blobs hd)
  ref := by rw [h.log]; exact hb.ref
  held := by rw [h.log]; exact fun e he => h.kept (hb.held e he)
  origin := by rw [h.log]; exact hb.origin

/-- What `read` relies on: a payload that is held is found, and is what its address says. -/
theorem Honest.read_ok {b : Bronze} (h : Honest sha256 zone b) {e : CaptureEntry}
    (he : e ∈ b.log.entries.values) :
    ∃ o, (read sha256 e.rawRef : Verb LRet Object).run (answer sha256) b = (.ok o, b) ∧
      sha256 o.payload = e.payloadSha256 := by
  have href := h.ref e he
  have hhot : (getHot e.payloadSha256 : Verb LRet _).run (answer sha256) b =
      (.ok (b.hot.get? e.payloadSha256), b) := Prog.run_perform ..
  have hcold : (getCold e.payloadSha256 : Verb LRet _).run (answer sha256) b =
      (.ok (b.cold.bind fun cold => cold.get? e.payloadSha256), b) := Prog.run_perform ..
  rw [href]
  simp only [read, Prog.bind_eq]
  rw [Prog.run_bind_ok _ hhot]
  cases hg : b.hot.get? e.payloadSha256 with
  | some d =>
    have hd : sha256 d = e.payloadSha256 := h.blobs (.inl hg)
    exact ⟨⟨d, .hot⟩, by simp [verified, hd], hd⟩
  | none =>
    obtain ⟨cold, d, hc, hd⟩ : ∃ cold d, b.cold = some cold ∧ cold.get? e.payloadSha256 = some d := by
      rcases h.held e he with ⟨d, hd⟩ | hcd
      · rw [hg] at hd; cases hd
      · exact hcd
    have hsha : sha256 d = e.payloadSha256 := h.blobs (.inr ⟨cold, hc, hd⟩)
    have hcold' : (b.cold.bind fun cold => cold.get? e.payloadSha256) = some d := by
      rw [hc]; exact hd
    rw [hcold'] at hcold
    simp only [Prog.run_bind_ok _ hcold]
    exact ⟨⟨d, .cold⟩, by simp [verified, hsha], hsha⟩

/-! ## What the calls do -/

/-- What a worker is answered: blobs may have moved before the call; a call on Bronze may raise, with
or without its effect; a fetch that answers is a 304 exactly when its status says so. -/
def Serves (sha256 : Bytes → Sha256) : Bronze → (o : Op L) → Except Exn (o.Ret LRet) → Bronze → Prop
  | b, .bronze c, r, b' => ∃ b₁, Tiered b b₁ ∧ (r = .ok (b₁.exec sha256 c).1 ∧ b' = (b₁.exec sha256 c).2 ∨
      (∃ e, r = .error e) ∧ (b' = b₁ ∨ b' = (b₁.exec sha256 c).2))
  | b, .fetch _ _, r, b' => Tiered b b' ∧ ∀ f : FetchResult, r = .ok f →
      (f.notModified = true ↔ f.status = 304) ∧ (f.notModified = false → f.status = 200)
  | b, _, _, b' => Tiered b b'

/-- The entry may be appended: its payload is held, and if it is a 304 its origin is logged. -/
structure Recordable (zone : Zone) (b : Bronze) (e : CaptureEntry) : Prop where
  ref : e.rawRef = ⟨e.payloadSha256⟩
  held : b.Holds e.payloadSha256
  origin : e.httpStatus = 304 → ∃ p ∈ b.log.entries.values, Origin zone e p

/-- The call creates no entry. -/
def calm : Op L → Prop
  | .bronze (.putNew _) => False
  | _ => True

theorem Honest.putBlob {b : Bronze} (h : Honest sha256 zone b) (data : Bytes) :
    Honest sha256 zone (b.putBlob sha256 data).2 ∧ Grows b (b.putBlob sha256 data).2 ∧
      (b.putBlob sha256 data).2.Holds (sha256 data) := by
  have hkept : ∀ {sha d}, b.hot.get? sha = some d →
      (b.putBlob sha256 data).2.hot.get? sha = some d :=
    fun hd => Dict.get?_setDefault.mpr (.inl hd)
  have hheld : ∀ {sha}, b.Holds sha → (b.putBlob sha256 data).2.Holds sha := by
    rintro sha (⟨d, hd⟩ | hc)
    · exact .inl ⟨d, hkept hd⟩
    · exact .inr hc
  refine ⟨⟨?_, h.ref, fun e he => hheld (h.held e he), h.origin⟩,
    ⟨List.prefix_refl _, hheld⟩, ?_⟩
  · rintro sha d (hd | hd)
    · rcases Dict.get?_setDefault.mp hd with hd | ⟨rfl, rfl, -⟩
      · exact h.blobs (.inl hd)
      · rfl
    · exact h.blobs (.inr hd)
  · cases hg : b.hot.get? (sha256 data) with
    | some d => exact .inl ⟨d, hkept hg⟩
    | none => exact .inl ⟨data, Dict.get?_setDefault.mpr (.inr ⟨rfl, rfl, hg⟩)⟩

theorem Honest.putNew {b : Bronze} (h : Honest sha256 zone b) {e : CaptureEntry}
    (he : Recordable zone b e) :
    Honest sha256 zone { b with log := (b.log.putNew e).2 } ∧
      Grows b { b with log := (b.log.putNew e).2 } := by
  cases hg : b.log.entries.get? e.key with
  | some x =>
    have hput : (b.log.putNew e).2 = b.log := by
      simp [CaptureLog.putNew, Dict.contains, hg]
    rw [hput]
    exact ⟨h, .refl b⟩
  | none =>
    have hput : (b.log.putNew e).2.entries.values = b.log.entries.values ++ [e] := by
      simp only [CaptureLog.putNew, Dict.contains, hg, Option.isSome_none, Bool.false_eq_true,
        if_false]
      exact Dict.values_set_of_none e hg
    refine ⟨⟨h.blobs, ?_, ?_, ?_⟩, ⟨by rw [hput]; exact List.prefix_append _ _, fun hs => hs⟩⟩
    · simp only [hput]
      intro x hx
      rcases List.mem_append.mp hx with hx | hx
      · exact h.ref x hx
      · rw [List.mem_singleton.mp hx]; exact he.ref
    · simp only [hput]
      intro x hx
      rcases List.mem_append.mp hx with hx | hx
      · exact h.held x hx
      · rw [List.mem_singleton.mp hx]; exact he.held
    · simp only [hput]
      intro pre x post hx h304
      rcases List.append_eq_append_iff.mp hx with ⟨m, rfl, hm⟩ | ⟨m, hm, hpost⟩
      · -- the entry that was appended
        obtain ⟨hm, hnil⟩ : m = [] ∧ x = e := by
          cases m with
          | nil => exact ⟨rfl, by simpa using (List.cons.inj hm).1.symm⟩
          | cons y m =>
            rw [List.cons_append, List.cons.injEq] at hm
            simp at hm
        rw [hm, List.append_nil]
        exact hnil ▸ he.origin (hnil ▸ h304)
      · cases m with
        | nil =>
          rw [List.append_nil] at hm
          rw [List.nil_append, List.cons.injEq] at hpost
          obtain ⟨rfl, -⟩ := hpost
          rw [← hm]
          exact he.origin h304
        | cons y m =>
          rw [List.cons_append, List.cons.injEq] at hpost
          obtain ⟨rfl, -⟩ := hpost
          exact h.origin pre x m hm h304

/-- A call that creates no entry keeps the invariant and what was there. -/
theorem serves_calm {b b' : Bronze} {o : Op L} (hc : calm o) (h : Honest sha256 zone b)
    {r : Except Exn (o.Ret LRet)} (ha : Serves sha256 b o r b') :
    Honest sha256 zone b' ∧ Grows b b' := by
  cases o with
  | clock => exact ⟨Tiered.honest ha h, Tiered.grows ha⟩
  | ledger l => exact ⟨Tiered.honest ha h, Tiered.grows ha⟩
  | fetch ctx p => exact ⟨ha.1.honest h, ha.1.grows⟩
  | bronze c =>
    obtain ⟨b₁, ht, hb⟩ := ha
    have h₁ := ht.honest h
    have hexec : Honest sha256 zone (b₁.exec sha256 c).2 ∧ Grows b₁ (b₁.exec sha256 c).2 := by
      cases c with
      | putNew e => exact absurd hc id
      | putBlob data => exact ⟨(h₁.putBlob data).1, (h₁.putBlob data).2.1⟩
      | putInvalidation inv =>
        have hlog : (b₁.log.putInvalidation inv).2.entries = b₁.log.entries := by
          simp only [CaptureLog.putInvalidation]
          split <;> rfl
        refine ⟨⟨h₁.blobs, ?_, ?_, ?_⟩, ⟨?_, fun hs => hs⟩⟩
        · simp only [exec, hlog]; exact h₁.ref
        · simp only [exec, hlog]; exact h₁.held
        · simp only [exec, hlog]; exact h₁.origin
        · simp only [exec, hlog]; exact List.prefix_refl _
      | _ => exact ⟨h₁, .refl b₁⟩
    rcases hb with ⟨-, rfl⟩ | ⟨-, rfl | rfl⟩
    · exact ⟨hexec.1, ht.grows.trans _ _ _ hexec.2⟩
    · exact ⟨h₁, ht.grows⟩
    · exact ⟨hexec.1, ht.grows.trans _ _ _ hexec.2⟩

theorem Recordable.grows {b b' : Bronze} (h : Grows b b') {e : CaptureEntry}
    (he : Recordable zone b e) : Recordable zone b' e where
  ref := he.ref
  held := h.held he.held
  origin h304 := by
    obtain ⟨p, hp, ho⟩ := he.origin h304
    exact ⟨p, h.mem hp, ho⟩

theorem serves_putNew {b b' : Bronze} {e : CaptureEntry} (he : Recordable zone b e)
    (h : Honest sha256 zone b) {r : Except Exn (Op.Ret LRet (.bronze (.putNew e)))}
    (ha : Serves sha256 b (.bronze (.putNew e)) r b') : Honest sha256 zone b' ∧ Grows b b' := by
  obtain ⟨b₁, ht, hb⟩ := ha
  obtain ⟨hnew, hgrows⟩ := (ht.honest h).putNew (he.grows ht.grows)
  rcases hb with ⟨-, rfl⟩ | ⟨-, rfl | rfl⟩
  · exact ⟨hnew, ht.grows.trans _ _ _ hgrows⟩
  · exact ⟨ht.honest h, ht.grows⟩
  · exact ⟨hnew, ht.grows.trans _ _ _ hgrows⟩

/-! ## A capture among others -/

/-- A program that keeps `Honest`, whatever the others do meanwhile, and leaves `Q`. -/
abbrev Keeps {α : Type} (sha256 : Bytes → Sha256) (zone : Zone) (Q : Except Exn α → Bronze → Prop)
    (p : Verb LRet α) (mine : List (Bronze × Bronze)) (b : Bronze) : Prop :=
  Prog.Safe (Serves sha256) (Honest sha256 zone) Grows (fun _ => True) (fun _ => Q) p mine b

theorem keeps_calm {α : Type} {p : Verb LRet α} (hp : p.Only calm fun _ => True)
    {mine : List (Bronze × Bronze)} {b : Bronze} :
    Keeps sha256 zone (fun _ _ => True) p mine b :=
  Prog.Safe.of_only (fun _ _ _ _ hc hi ha => serves_calm hc hi ha) (fun _ => trivial)
    (fun _ _ _ => trivial) hp

/-- A baseline is a listed 200 of the same target and day. -/
structure BaselineOk (zone : Zone) (targetId : String) (at_ : Instant) (b : Bronze)
    (p : CaptureEntry) : Prop where
  listed : p ∈ b.log.entries.values
  httpStatus : p.httpStatus = 200
  targetId : p.targetId = targetId
  sameDay : SameDay zone p.scheduledFor at_

theorem BaselineOk.grows {targetId : String} {at_ : Instant} {b b' : Bronze} {p : CaptureEntry}
    (h : Grows b b') (hp : BaselineOk zone targetId at_ b p) : BaselineOk zone targetId at_ b' p :=
  ⟨h.mem hp.listed, hp.httpStatus, hp.targetId, hp.sameDay⟩

/-- The fetched payload, or the baseline's. -/
structure StoredOk (zone : Zone) (a : CaptureArgs) (baseline : Option CaptureEntry) (b : Bronze)
    (s : StoredBlob) : Prop where
  ref : s.2.1 = ⟨s.1⟩
  held : b.Holds s.1
  origin : a.result.notModified = true → ∃ p, baseline = some p ∧ p.sourceUrl = a.result.url ∧
    s.1 = p.payloadSha256 ∧ s.2.1 = p.rawRef

def HeldBlob (b : Bronze) (blob : Option StoredBlob) : Prop :=
  ∀ s ∈ blob, s.2.1 = ⟨s.1⟩ ∧ b.Holds s.1

theorem storePayload_keeps {a : CaptureArgs} {baseline : Option CaptureEntry}
    {blob : Option StoredBlob} {b₀ b : Bronze} (hr : Grows b₀ b) (hi : Honest sha256 zone b)
    (hbase : ∀ p ∈ baseline, BaselineOk zone a.targetId a.scheduledFor b p) (hblob : HeldBlob b blob)
    {mine : List (Bronze × Bronze)} :
    Keeps sha256 zone (fun r b => match r with
      | .ok (s, blob) => StoredOk zone a baseline b s ∧ HeldBlob b blob ∧ Grows b₀ b
      | .error _ => True) (storePayload a baseline blob : Verb LRet _) mine b := by
  simp only [storePayload]
  split
  · rename_i hnm
    cases hp : baseline with
    | none => exact fun _ _ _ => trivial
    | some p =>
      simp only
      split
      · exact fun _ _ _ => trivial
      · rename_i hurl
        intro b' hr' _
        have hin := (hbase p hp).listed
        exact ⟨⟨hi.ref p hin, hr'.held (hi.held p hin), fun _ => ⟨p, rfl, not_not.mp hurl, rfl, rfl⟩⟩,
          fun s hs => ⟨(hblob s hs).1, hr'.held (hblob s hs).2⟩, hr.trans _ _ _ hr'⟩
  · rename_i hnm
    cases hbl : blob with
    | some s =>
      intro b' hr' _
      obtain ⟨href, hheld⟩ := hblob s hbl
      refine ⟨⟨href, hr'.held hheld, fun h => absurd h hnm⟩, fun s' hs' => ?_, hr.trans _ _ _ hr'⟩
      obtain rfl := Option.some.inj hs'
      exact ⟨href, hr'.held hheld⟩
    | none =>
      refine Prog.Safe.step trivial fun b₁ r b₂ hr₁ hi₁ ha => ?_
      obtain ⟨hi₂, hg⟩ := serves_calm (o := .bronze (.putBlob a.result.body)) trivial hi₁ ha
      refine ⟨hi₂, hg, fun sha hsha b' hr' _ => ?_, fun _ _ _ _ _ => trivial⟩
      have hheld : b₂.Holds sha := by
        obtain ⟨b₃, ht, ⟨rfl, rfl⟩ | ⟨⟨e, rfl⟩, -⟩⟩ := ha
        · obtain rfl := Except.ok.inj hsha
          exact ((ht.honest hi₁).putBlob a.result.body).2.2
        · cases hsha
      refine ⟨⟨rfl, hr'.held hheld, fun h => absurd h hnm⟩, fun s' hs' => ?_,
        ((hr.trans _ _ _ hr₁).trans _ _ _ hg).trans _ _ _ hr'⟩
      obtain rfl := Option.some.inj hs'
      exact ⟨rfl, hr'.held hheld⟩

theorem recordable_entryOf {a : CaptureArgs} {baseline : Option CaptureEntry} {b : Bronze}
    (hf : a.result.notModified = true ↔ a.result.status = 304)
    (hbase : ∀ p ∈ baseline, BaselineOk zone a.targetId a.scheduledFor b p) {s : StoredBlob}
    (hs : StoredOk zone a baseline b s) (n : Nat) :
    Recordable zone b (entryOf a baseline n s) where
  ref := hs.ref
  held := hs.held
  origin h304 := by
    obtain ⟨p, hp, hurl, hsha, href⟩ := hs.origin (hf.mpr h304)
    have hpb := hbase p hp
    exact ⟨p, hpb.listed, hpb.httpStatus, hpb.targetId, hpb.sameDay, hurl, hsha, href⟩

theorem captureLoop_keeps {a : CaptureArgs} {baseline : Option CaptureEntry}
    (hab : a.baseline = .given baseline) (hf : a.result.notModified = true ↔ a.result.status = 304)
    (n : Nat) : ∀ (blob : Option StoredBlob) (collided : Bool) (b : Bronze)
    (mine : List (Bronze × Bronze)), (∀ p ∈ baseline, BaselineOk zone a.targetId a.scheduledFor b p) → HeldBlob b blob →
    Keeps sha256 zone (fun _ _ => True) (captureLoop a n blob collided : Verb LRet _) mine b := by
  induction n with
  | zero => exact fun _ _ _ _ _ _ _ _ _ => trivial
  | succ n ih =>
    intro blob collided b mine hbase hblob
    refine Prog.Safe.step trivial fun b₁ r b₁' hr₁ hi₁ ha₁ => ?_
    obtain ⟨hi₁', hg₁⟩ := serves_calm (o := .bronze (.entriesFor a.targetId a.scheduledFor)) trivial
      hi₁ ha₁
    refine ⟨hi₁', hg₁, fun existing _ => ?_, fun _ _ _ _ _ => trivial⟩
    have hr := hr₁.trans _ _ _ hg₁
    split
    · exact fun _ _ _ => trivial
    · have hprev : previousOf a.baseline existing = baseline := by rw [hab]; rfl
      rw [hprev]
      refine Prog.Safe.bind Grows.refl hi₁' ?_
      refine Prog.Safe.mono ?_ (storePayload_keeps (Grows.refl b₁') hi₁'
        (fun p hp => (hbase p hp).grows hr) fun s hs => ⟨(hblob s hs).1, hr.held (hblob s hs).2⟩)
      rintro mine' (e | ⟨stored, blob'⟩) b₂ hi₂ hpost
      · exact trivial
      obtain ⟨hstored, hblob', hg₂⟩ := hpost
      refine Prog.Safe.step trivial fun b₃ r b₃' hr₃ hi₃ ha₃ => ?_
      have hbase₂ : ∀ p ∈ baseline, BaselineOk zone a.targetId a.scheduledFor b₂ p :=
        fun p hp => (hbase p hp).grows (hr.trans _ _ _ hg₂)
      obtain ⟨hi₃', hg₃⟩ := serves_putNew ((recordable_entryOf hf hbase₂ hstored _).grows hr₃) hi₃ ha₃
      refine ⟨hi₃', hg₃, fun created _ => ?_, fun _ _ _ _ _ => trivial⟩
      cases created with
      | true => exact fun _ _ _ => trivial
      | false =>
        have hr₃' := hr₃.trans _ _ _ hg₃
        exact ih blob' true b₃' _ (fun p hp => (hbase₂ p hp).grows hr₃')
          fun s hs => ⟨(hblob' s hs).1, hr₃'.held (hblob' s hs).2⟩

end Bronze

section Captures

open Bronze

variable {L : Type} {LRet : L → Type} {sha256 : Bytes → Sha256} (rt : Runtime LRet)

/-- The store makes no capture-log entry. -/
def QuietStore (store : StoreImpl LRet) : Prop := ∀ c, (store c).Only calm fun _ => True

theorem filterMapM_ok {α β ε : Type} {f : α → Except ε (Option β)} {l : List α} :
    ∀ {out : List β}, l.filterMapM f = .ok out → ∀ y ∈ out, ∃ x ∈ l, f x = .ok (some y) := by
  induction l with
  | nil =>
    intro out h y hy
    cases h
    cases hy
  | cons x l ih =>
    intro out h y hy
    rw [List.filterMapM_cons] at h
    obtain ⟨o, hx, h⟩ := bind_eq_ok.mp h
    cases o with
    | none =>
      obtain ⟨z, hz, hfz⟩ := ih h y hy
      exact ⟨z, List.mem_cons_of_mem _ hz, hfz⟩
    | some v =>
      obtain ⟨rest, hrest, hout⟩ := bind_eq_ok.mp h
      obtain rfl := Except.ok.inj hout
      rcases List.mem_cons.mp hy with rfl | hy
      · exact ⟨x, by simp, hx⟩
      · obtain ⟨z, hz, hfz⟩ := ih hrest y hy
        exact ⟨z, List.mem_cons_of_mem _ hz, hfz⟩

theorem sameDayEntries_spec {zone : Zone} {d : Day} {entries kept : List CaptureEntry}
    (h : sameDayEntries zone d entries = .ok kept) : ∀ p ∈ kept, p ∈ entries ∧
      p.httpStatus = 200 ∧ deliveryDayFor zone p.scheduledFor = .ok d := by
  intro p hp
  obtain ⟨l, hl, hkept⟩ := bind_eq_ok.mp h
  obtain rfl := Except.ok.inj hkept
  obtain ⟨e, he, hf⟩ := filterMapM_ok hl p hp
  split at hf
  · rename_i hstatus
    obtain ⟨own, hown, hf⟩ := bind_eq_ok.mp hf
    split at hf
    · rename_i hd
      obtain rfl := Option.some.inj (Except.ok.inj hf)
      exact ⟨he, hstatus, hd ▸ hown⟩
    · cases Except.ok.inj hf
  · cases Except.ok.inj hf

theorem captureBaseline_keeps {at_ : Instant} {b₀ b : Bronze} (hr : Grows b₀ b)
    {mine : List (Bronze × Bronze)} :
    Keeps sha256 rt.zone (fun r b => Grows b₀ b ∧ ∀ p, r = .ok (some p) →
      BaselineOk rt.zone rt.targetId at_ b p) (captureBaseline rt at_) mine b := by
  simp only [captureBaseline, Prog.bind_eq]
  cases hd : deliveryDayFor rt.zone at_ with
  | error e => exact fun b' hr' _ => ⟨hr.trans _ _ _ hr', fun p hp => by cases hp⟩
  | ok d =>
    simp only [pyExcept, Prog.ret_bind]
    cases hbounds : deliveryDayBounds rt.zone d with
    | error e => exact fun b' hr' _ => ⟨hr.trans _ _ _ hr', fun p hp => by cases hp⟩
    | ok bounds =>
      simp only [Prog.ret_bind]
      refine Prog.Safe.step trivial fun b₁ r b₁' hr₁ hi₁ ha₁ => ?_
      obtain ⟨hi₁', hg₁⟩ := serves_calm (o := .bronze (.list rt.targetId _ _)) trivial hi₁ ha₁
      have hr' := (hr.trans _ _ _ hr₁).trans _ _ _ hg₁
      refine ⟨hi₁', hg₁, fun (entries : List CaptureEntry) hentries => ?_,
        fun e he b' hg' _ => ⟨hr'.trans _ _ _ hg', fun p hp => by cases hp⟩⟩
      have hlisted : ∀ p ∈ entries, p ∈ b₁'.log.entries.values ∧ p.targetId = rt.targetId := by
        obtain ⟨b₂, ht, ⟨rfl, rfl⟩ | ⟨⟨e, rfl⟩, -⟩⟩ := ha₁
        · obtain rfl := Except.ok.inj hentries
          intro p (hp : p ∈ b₁'.log.list rt.targetId (some bounds.1) (some bounds.2))
          simp only [CaptureLog.list, CaptureLog.ordered, List.mem_insertionSort,
            List.mem_filter, decide_eq_true_eq] at hp
          exact ⟨hp.1, hp.2.1⟩
        · cases hentries
      cases hsame : sameDayEntries rt.zone d entries with
      | error e => exact fun b' hg' _ => ⟨hr'.trans _ _ _ hg', fun p hp => by cases hp⟩
      | ok kept =>
        intro b' hg' _
        refine ⟨hr'.trans _ _ _ hg', fun p hp => ?_⟩
        have hin : p ∈ kept := List.mem_of_getLast? (Except.ok.inj hp)
        obtain ⟨hpe, hstatus, hpd⟩ := sameDayEntries_spec hsame p hin
        obtain ⟨hval, ht⟩ := hlisted p hpe
        exact ⟨hg'.mem hval, hstatus, ht, d, hpd, hd⟩

theorem fetchOutcome_keeps {zone : Zone} (ctx : FetchContext) (conditional : Option Conditional)
    {b₀ b : Bronze} (hr : Grows b₀ b) (hi : Honest sha256 zone b) {mine : List (Bronze × Bronze)} :
    Keeps sha256 zone (fun r b => ∀ f : FetchResult, r = .ok (.ok f) → Grows b₀ b ∧
      (f.notModified = true ↔ f.status = 304))
      (fetchOutcome ctx conditional : Verb LRet _) mine b := by
  refine Prog.Safe.tryCatch Grows.refl hi ?_
  refine Prog.Safe.step trivial fun b₁ r b₁' hr₁ hi₁ ha₁ => ?_
  obtain ⟨hi₁', hg₁⟩ := serves_calm (o := .fetch ctx conditional) trivial hi₁ ha₁
  have hr' := (hr.trans _ _ _ hr₁).trans _ _ _ hg₁
  refine ⟨hi₁', hg₁, fun f hf b' hg' _ f' hf' => ?_, fun e _ b' hg' _ => ?_⟩
  · obtain rfl := Except.ok.inj (Except.ok.inj hf')
    exact ⟨hr'.trans _ _ _ hg', (ha₁.2 f hf).1⟩
  · cases e with
    | fetch x =>
      cases x with
      | unavailable msg => exact fun _ _ _ _ h => by cases h
      | unbuildable msg => exact fun _ _ _ _ h => by cases h
      | other msg => exact fun _ _ _ _ h => by cases h
    | _ => exact fun _ _ _ _ h => by cases h

theorem bronzeOutcome_keeps {a : CaptureArgs} {zone : Zone} {baseline : Option CaptureEntry}
    (hab : a.baseline = .given baseline) (hf : a.result.notModified = true ↔ a.result.status = 304)
    {b : Bronze} (hi : Honest sha256 zone b)
    (hbase : ∀ p ∈ baseline, BaselineOk zone a.targetId a.scheduledFor b p)
    {mine : List (Bronze × Bronze)} :
    Keeps sha256 zone (fun _ _ => True) (bronzeOutcome a : Verb LRet _) mine b := by
  refine Prog.Safe.tryCatch Grows.refl hi (Prog.Safe.bind Grows.refl hi ?_)
  refine Prog.Safe.mono ?_
    (captureLoop_keeps hab hf maxEntryCollisions none false b mine hbase fun _ h => by cases h)
  rintro mine' (e | o) b' _ -
  · cases e with
    | _ => exact fun _ _ _ => trivial
  · exact fun _ _ _ => trivial

theorem calm_newGeneration (hstore : QuietStore rt.store) (a : Ack) (run : Run) (now : Instant) :
    (newGeneration rt a run now).Only calm fun _ => True := by
  simp only [newGeneration]
  split
  · split
    · exact hstore _
    · exact trivial
  · exact trivial

theorem calm_ack (hstore : QuietStore rt.store) (req : CaptureRequest) (a : Ack) :
    (ack rt req a).Only calm fun _ => True := by
  refine Prog.Only.bind (Prog.Only.perform trivial) fun now => ?_
  refine Prog.Only.tryCatch (fun _ => True) ?_ (fun _ _ => trivial) fun e _ => ?_
  · refine Prog.Only.bind (hstore _) fun run => ?_
    refine Prog.Only.bind (calm_newGeneration rt hstore a run now) fun run => ?_
    split
    · exact trivial
    · exact Prog.Only.bind (hstore _) fun _ => trivial
  · cases e with
    | _ => exact trivial

theorem calm_finish (hstore : QuietStore rt.store) (req : CaptureRequest) (p : Plan) :
    (finish rt req p).Only calm fun _ => True :=
  Prog.Only.bind (calm_ack rt hstore req p.ack) fun _ => trivial

theorem captureNewBronze_keeps (req : CaptureRequest) {b : Bronze}
    (hi : Honest sha256 rt.zone b) {mine : List (Bronze × Bronze)} :
    Keeps sha256 rt.zone (fun _ _ => True) (captureNewBronze rt req) mine b := by
  have hday : (requestedDay rt req).Only (calm (L := L)) fun _ => True := by
    unfold requestedDay
    cases req.deliveryDay with
    | some d => exact trivial
    | none =>
      cases hd : deliveryDayFor rt.zone req.scheduledFor with
      | ok d => exact trivial
      | error e => exact trivial
  refine Prog.Safe.bind Grows.refl hi (Prog.Safe.mono ?_ (keeps_calm hday))
  rintro mine₁ (e | d) b₁ hi₁ -
  · exact trivial
  refine Prog.Safe.bind Grows.refl hi₁
    (Prog.Safe.mono ?_ (captureBaseline_keeps rt (Grows.refl b₁)))
  rintro mine₂ (e | baseline) b₂ hi₂ ⟨-, hbase⟩
  · exact trivial
  refine Prog.Safe.bind Grows.refl hi₂
    (Prog.Safe.mono ?_ (fetchOutcome_keeps _ _ (Grows.refl b₂) hi₂))
  rintro mine₃ (e | e | f) b₃ hi₃ hfetched
  · exact trivial
  · exact fun _ _ _ => trivial
  obtain ⟨hg, hf⟩ := hfetched f rfl
  refine Prog.Safe.bind Grows.refl hi₃ (Prog.Safe.mono ?_ (bronzeOutcome_keeps rfl hf hi₃ ?_))
  · rintro mine₄ (e | e | o) b₄ hi₄ -
    · exact trivial
    · exact fun _ _ _ => trivial
    · exact fun _ _ _ => trivial
  · intro p hp
    exact (hbase p (congrArg Except.ok hp)).grows hg

theorem capture_keeps (hstore : QuietStore rt.store) (req : CaptureRequest) {b : Bronze}
    (hi : Honest sha256 rt.zone b) {mine : List (Bronze × Bronze)} :
    Keeps sha256 rt.zone (fun _ _ => True) (capture rt req) mine b := by
  rw [capture_eq]
  refine Prog.Safe.bind Grows.refl hi (Prog.Safe.step trivial fun b₁ r b₁' _ hi₁ ha₁ => ?_)
  obtain ⟨hi₁', hg₁⟩ := serves_calm
    (o := .bronze (.entriesFor rt.targetId req.scheduledFor)) trivial hi₁ ha₁
  refine ⟨hi₁', hg₁, fun existing _ => ?_, fun _ _ _ _ _ => trivial⟩
  split
  · exact fun _ _ _ => keeps_calm (calm_finish rt hstore req _)
  · refine Prog.Safe.mono ?_ (captureNewBronze_keeps rt req hi₁')
    rintro mine' (e | p) b' _ -
    · exact trivial
    · exact keeps_calm (calm_finish rt hstore req p)

theorem quiet_memoryStore : QuietStore memoryStore := fun _ => Prog.Only.perform trivial

theorem quiet_unavailableStore : QuietStore (unavailableStore : StoreImpl LRet) := fun _ => trivial

theorem quiet_postgresStore : QuietStore Postgres.store := by
  have htransaction : ∀ c, (Postgres.transaction c).Only calm fun _ => True := fun c =>
    Prog.Only.bind (Prog.Only.perform trivial) fun _ =>
      Prog.Only.bind (Prog.Only.perform trivial) fun _ => trivial
  have hrow : ∀ {α : Type} (e : Exn) (row : Option α),
      (Postgres.rowOr e row).Only calm fun _ => True := by
    intro α e row
    cases row <;> exact trivial
  have hquery : ∀ c, (Postgres.query c).Only calm fun _ => True := fun c =>
    Prog.Only.bind (Prog.Only.perform trivial) fun _ =>
      Prog.Only.bind (Prog.Only.perform trivial) fun _ => hrow _ _
  have hupdate : ∀ c, (Postgres.updateRun c).Only calm fun _ => True := fun c =>
    Prog.Only.bind (htransaction c) fun _ => hrow _ _
  intro c
  cases c with
  | ensureRun t a st o c n =>
    refine Prog.Only.bind (Prog.Only.tryCatch (fun _ => True) (htransaction _) (fun _ _ => trivial)
      fun e _ => ?_) fun _ => hrow _ _
    cases e with
    | operationalError msg => exact Prog.Only.bind (Prog.Only.perform trivial) fun _ => trivial
    | _ => exact trivial
  | recordAttempt r k o c e n => exact Prog.Only.bind (htransaction _) fun _ => hrow _ _
  | getRun | runs | attempts | pendingRuns | runsWithDerivation | invalidations | isInvalidated
  | attemptCaptures | currentRows => exact hquery _
  | _ => exact hupdate _

/-- Bronze stays readable and honest. Any captures of one target, forced or not, over a Bronze whose
blobs move between the tiers and whose calls may raise with or without effect, each capture stopped
anywhere: every entry's `raw_ref` reads to bytes that hash to its payload hash, and every entry for a
304 carries the payload hash and `raw_ref` of an earlier entry for a 200 of the same target, delivery
day and source. -/
theorem bronze_readable_honest {ι : Type} [DecidableEq ι] (hstore : QuietStore rt.store)
    (reqs : ι → CaptureRequest) {b : Bronze} (hb : Honest sha256 rt.zone b)
    {es : List (Prog.Event ι Bronze)} {c : Prog.System ι Bronze (Op.Ret LRet) Exn CaptureReport}
    (hrun : Prog.Run (Serves sha256) ⟨b, fun i => capture rt (reqs i)⟩ es c) :
    (∀ e ∈ c.world.log.entries.values, ∃ o : Object,
      (read sha256 e.rawRef : Verb LRet Object).run (answer sha256) c.world = (.ok o, c.world) ∧
        sha256 o.payload = e.payloadSha256) ∧
    ∀ pre e post, c.world.log.entries.values = pre ++ e :: post → e.httpStatus = 304 →
      ∃ p ∈ pre, p.httpStatus = 200 ∧ p.targetId = e.targetId ∧
        SameDay rt.zone p.scheduledFor e.scheduledFor ∧ p.sourceUrl = e.sourceUrl ∧
        e.payloadSha256 = p.payloadSha256 ∧ e.rawRef = p.rawRef := by
  have h := Prog.Run.safe Grows.refl Grows.trans hb
    (fun i => capture_keeps rt hstore (reqs i) hb) hrun
  refine ⟨fun e he => h.invariant.read_ok he, fun pre e post hsplit h304 => ?_⟩
  obtain ⟨p, hp, ho⟩ := h.invariant.origin pre e post hsplit h304
  exact ⟨p, hp, ho.httpStatus, ho.targetId, ho.sameDay, ho.sourceUrl, ho.payloadSha256, ho.rawRef⟩

/-- A worker of `ote_intraday_market` on an in-memory ledger. -/
def marketWorker : Runtime StoreCall.Ret where
  manifest := oteIntradayMarket
  impl := asciiImplementation .refusing fun _ => 0
  store := memoryStore
  owner := "worker"
  leaseTtl := 5 * minute
  reconcileWindow := 48 * hour

/-- The source answers 304 to a conditional request and one byte to any other; no ledger. -/
def conditionalSource (b : Bronze) : (o : Op StoreCall) → Except Exn (o.Ret StoreCall.Ret) × Bronze
  | .clock => (.ok (0 : Instant), b)
  | .fetch _ (some _) =>
    (.ok ⟨"https://www.ote-cr.cz/", 304, [], none, hour, none, none, true, []⟩, b)
  | .fetch _ none => (.ok ⟨"https://www.ote-cr.cz/", 200, [1], none, 0, none, none, false, []⟩, b)
  | .bronze c => (.ok (b.exec hexAddress c).1, (b.exec hexAddress c).2)
  | .ledger _ => (.error (.storeUnavailable "down"), b)

/-- A capture of an instant, and a forced one after it. -/
def capturedTwice : List (Prog.Event Bool Bronze) ×
    Prog.System Bool Bronze (Op.Ret StoreCall.Ret) Exn CaptureReport :=
  Prog.schedule conditionalSource
    ⟨⟨.empty, none, .empty⟩, fun forced => capture marketWorker ⟨0, none, forced, .capture⟩⟩
    (List.replicate 9 true ++ List.replicate 9 false)

/-- The entry of the first capture, or of the forced one. -/
def marketEntry (attempt : Nat) (fetchedAt : Instant) (httpStatus : Nat) (contentChanged : Bool) :
    CaptureEntry where
  captureId := captureId "ote_intraday_market" 0 attempt
  targetId := "ote_intraday_market"
  scheduledFor := 0
  attempt := attempt
  fetchedAt := fetchedAt
  sourceUrl := "https://www.ote-cr.cz/"
  httpStatus := httpStatus
  contentType := none
  payloadSha256 := 1
  rawRef := ⟨1⟩
  size := 1
  contentChanged := contentChanged
  sourceTransport := .soap
  sourcePublishedAt := none
  tier := .hot
  etag := none
  lastModified := none
  hops := []

theorem bronze_readable_honest_304 :
    capturedTwice.2.world.log.entries.values = [marketEntry 1 0 200 true, marketEntry 2 hour 304 false] ∧
    ∃ p ∈ [marketEntry 1 0 200 true], p.payloadSha256 = (marketEntry 2 hour 304 false).payloadSha256 := by
  have hempty : Honest hexAddress marketWorker.zone ⟨.empty, none, .empty⟩ := by
    refine ⟨?_, fun e he => (by cases he), fun e he => (by cases he), fun pre e post h => ?_⟩
    · rintro sha d (h | ⟨cold, h, -⟩) <;> cases h
    · cases pre <;> cases h
  have hrun : Prog.Run (Serves hexAddress) ⟨⟨.empty, none, .empty⟩, fun forced =>
      capture marketWorker ⟨0, none, forced, .capture⟩⟩ capturedTwice.1 capturedTwice.2 := by
    refine Prog.schedule_run _ (fun b o => ?_) _ _
    cases o with
    | bronze c => exact ⟨b, .refl b, .inl ⟨rfl, rfl⟩⟩
    | clock => exact Tiered.refl b
    | ledger l => exact Tiered.refl b
    | fetch ctx previous =>
      cases previous with
      | none => exact ⟨.refl b, fun f hf => by cases hf; decide⟩
      | some p => exact ⟨.refl b, fun f hf => by cases hf; decide⟩
  have hvalues : capturedTwice.2.world.log.entries.values =
      [marketEntry 1 0 200 true, marketEntry 2 hour 304 false] := by decide +kernel
  obtain ⟨-, h⟩ := bronze_readable_honest marketWorker quiet_memoryStore _ hempty hrun
  obtain ⟨p, hp, -, -, -, -, hsha, -⟩ :=
    h [marketEntry 1 0 200 true] (marketEntry 2 hour 304 false) [] hvalues rfl
  exact ⟨hvalues, p, hp, hsha.symm⟩

end Captures

end EnergyPlatform
