import EnergyPlatform.Fetch.Fetcher
import EnergyPlatform.Lib.Cuts

/-!
# Fetch.Egress

The egress policy over the history of a fetch: what was checked before every request, how many URLs
were contacted, and whose bytes were read.

`egress_kept_iff`: with the network on, the policy holds of a fetch exactly when no answer with a
status from 500 on delivered a byte of its body. `server_error_read`: such a body is read, whoever
sent it.
-/

namespace EnergyPlatform

open Lib (Prog)

/-! ## What a history says -/

/-- How far the checks for the next request have come. -/
inductive Clearance where
  | refused
  | permitted (url : List Char) (d : Destination)
  | resolved (url : List Char) (d : Destination) (addresses : List String)
  | passed (url : List Char)
deriving DecidableEq

/-- The clearance after one more step. -/
def Clearance.after (c : Clearance) : FetchEvent → Clearance
  | ⟨.checkUrl url, .ok d⟩ => .permitted url d
  | ⟨.checkUrl _, .error _⟩ => .refused
  | ⟨.resolve host port, .ok addresses⟩ =>
    match c with
    | .permitted url d =>
      if host = d.host ∧ port = d.port then .resolved url d addresses else .refused
    | _ => .refused
  | ⟨.resolve .., .error _⟩ => .refused
  | ⟨.checkAddresses host addresses, .ok _⟩ =>
    match c with
    | .resolved url d found => if host = d.host ∧ addresses = found then .passed url else .refused
    | _ => .refused
  | ⟨.checkAddresses .., .error _⟩ => .refused
  | _ => c

/-- The URL whose checks were the last to pass, and the steps that led there. -/
def clearance (h : List FetchEvent) : Clearance := h.foldl Clearance.after .refused

/-- The response that is open, and whether its peer was accepted. -/
def openAfter (o : Option (Response × Bool)) : FetchEvent → Option (Response × Bool)
  | ⟨.send _, .ok r⟩ => some (r, false)
  | ⟨.checkPeer _ peer _, .ok _⟩ => o.map fun p => (p.1, p.2 || peer = p.1.peer)
  | _ => o

def openResponse (h : List FetchEvent) : Option (Response × Bool) := h.foldl openAfter none

/-- The URLs that were checked. -/
def checkedUrl : FetchEvent → Option (List Char)
  | ⟨.checkUrl url, _⟩ => some url
  | _ => none

/-- The URLs that were contacted. -/
def sentUrl : FetchEvent → Option (List Char)
  | ⟨.send rq, _⟩ => some rq.url
  | _ => none

/-- A byte of a body was read. -/
def FetchEvent.reads : FetchEvent → Bool
  | ⟨.nextChunk, .ok (some _)⟩ => true
  | _ => false

/-- Every request was sent with its URL and the addresses of its host checked. -/
def RequestsCleared (h : List FetchEvent) : Prop :=
  ∀ pre e post url, h = pre ++ e :: post → sentUrl e = some url → clearance pre = .passed url

/-- Every byte of a body was read from a peer that had been accepted for it. -/
def BodiesAccepted (h : List FetchEvent) : Prop :=
  ∀ pre e post, h = pre ++ e :: post → e.reads = true → ∃ r, openResponse pre = some (r, true)

/-- The egress policy over a history. -/
structure EgressKept (maxRedirects : Nat) (h : List FetchEvent) : Prop where
  requests : RequestsCleared h
  contacted : (h.filterMap sentUrl).dedup.length ≤ maxRedirects + 1
  bodies : BodiesAccepted h

/-- No answer with a status from 500 on delivered a byte of its body. -/
def NoErrorBody (h : List FetchEvent) : Prop :=
  ∀ pre e post, h = pre ++ e :: post → e.reads = true →
    ∀ r accepted, openResponse pre = some (r, accepted) → r.status < 500

/-! ## The invariant -/

/-- The steps that may follow a history. -/
structure MayFollow (h : List FetchEvent) (e : FetchEvent) : Prop where
  request : ∀ url, sentUrl e = some url → clearance h = .passed url
  body : e.reads = true → ∃ r accepted, openResponse h = some (r, accepted) ∧
    (accepted = true ↔ r.status < 500)

/-- Every step of a history could follow what was before it, and at most `bound` URLs were
checked. -/
structure Guarded (bound : Nat) (h : List FetchEvent) : Prop where
  follows : ∀ pre e post, h = pre ++ e :: post → MayFollow pre e
  checked : (h.filterMap checkedUrl).length ≤ bound

section Invariant

variable {bound : Nat} {h : List FetchEvent} {e : FetchEvent}

theorem clearance_concat : clearance (h ++ [e]) = (clearance h).after e := by
  rw [clearance, List.foldl_append]
  rfl

theorem openResponse_concat : openResponse (h ++ [e]) = openAfter (openResponse h) e := by
  rw [openResponse, List.foldl_append]
  rfl

theorem Guarded.nil : Guarded bound [] where
  follows pre e post hsplit := by cases pre <;> cases hsplit
  checked := Nat.zero_le _

theorem Guarded.concat (hk : Guarded bound h) (hfollows : MayFollow h e)
    (hchecked : ((h ++ [e]).filterMap checkedUrl).length ≤ bound) : Guarded bound (h ++ [e]) where
  follows pre e' post hsplit := by
    cases List.eq_nil_or_concat post with
    | inl hnil =>
      subst hnil
      obtain ⟨rfl, he⟩ := List.append_inj' hsplit rfl
      obtain rfl := List.singleton_inj.mp he
      exact hfollows
    | inr hlast =>
      obtain ⟨init, last, rfl⟩ := hlast
      rw [List.concat_eq_append, ← List.cons_append, ← List.append_assoc] at hsplit
      exact hk.follows pre e' init (List.append_inj' hsplit rfl).1
  checked := hchecked

theorem checked_concat (hchecked : checkedUrl e = none) :
    (h ++ [e]).filterMap checkedUrl = h.filterMap checkedUrl := by
  rw [List.filterMap_append, List.filterMap_cons_none hchecked, List.filterMap_nil,
    List.append_nil]

/-- A step that checks no URL. -/
theorem Guarded.unchecked (hk : Guarded bound h) (hfollows : MayFollow h e)
    (hchecked : checkedUrl e = none) : Guarded bound (h ++ [e]) :=
  hk.concat hfollows ((congrArg List.length (checked_concat hchecked)).le.trans hk.checked)

/-- A step that sends nothing and reads nothing may come at any time. -/
theorem MayFollow.plain (hsent : sentUrl e = none) (hreads : e.reads = false) : MayFollow h e where
  request url hurl := by cases hsent.symm.trans hurl
  body hr := by cases hreads.symm.trans hr

/-- A step that checks no URL, sends nothing and reads nothing. -/
theorem Guarded.unread (hk : Guarded bound h) (hsent : sentUrl e = none)
    (hchecked : checkedUrl e = none) (hreads : e.reads = false) : Guarded bound (h ++ [e]) ∧
      (h ++ [e]).filterMap checkedUrl = h.filterMap checkedUrl :=
  ⟨hk.unchecked (.plain hsent hreads) hchecked, checked_concat hchecked⟩

/-- The URL that is being checked, or was, is among the checked ones. -/
theorem mem_checked : ∀ h : List FetchEvent, ∀ url,
    ((∃ d, clearance h = .permitted url d) ∨ (∃ d found, clearance h = .resolved url d found) ∨
      clearance h = .passed url) → url ∈ h.filterMap checkedUrl := by
  intro h
  induction h using List.reverseRecOn with
  | nil =>
    rintro url (⟨d, hd⟩ | ⟨d, found, hd⟩ | hd)
    all_goals cases hd
  | append_singleton h e ih =>
    intro url hurl
    rw [clearance_concat] at hurl
    rw [List.filterMap_append, List.mem_append]
    obtain ⟨c, r⟩ := e
    cases c
    case checkUrl u =>
      cases r with
      | error x => rcases hurl with ⟨d, hd⟩ | ⟨d, found, hd⟩ | hd <;> cases hd
      | ok d =>
        rcases hurl with ⟨d', hd⟩ | ⟨d', found, hd⟩ | hd
        · cases hd
          exact .inr (List.mem_singleton_self url)
        · cases hd
        · cases hd
    case resolve host port =>
      cases r with
      | error x => rcases hurl with ⟨d, hd⟩ | ⟨d, found, hd⟩ | hd <;> cases hd
      | ok addresses =>
        cases hc : clearance h <;> simp only [Clearance.after, hc] at hurl
        case permitted u d =>
          split_ifs at hurl
          · rcases hurl with ⟨d', hd⟩ | ⟨d', found, hd⟩ | hd
            · cases hd
            · cases hd
              exact .inl (ih url (.inl ⟨d, hc⟩))
            · cases hd
          · rcases hurl with ⟨d, hd⟩ | ⟨d, found, hd⟩ | hd <;> cases hd
        all_goals rcases hurl with ⟨d, hd⟩ | ⟨d, found, hd⟩ | hd <;> cases hd
    case checkAddresses host addresses =>
      cases r with
      | error x => rcases hurl with ⟨d, hd⟩ | ⟨d, found, hd⟩ | hd <;> cases hd
      | ok out =>
        cases hc : clearance h <;> simp only [Clearance.after, hc] at hurl
        case resolved u d found =>
          split_ifs at hurl
          · rcases hurl with ⟨d', hd⟩ | ⟨d', found', hd⟩ | hd
            · cases hd
            · cases hd
            · cases hd
              exact .inl (ih url (.inr (.inl ⟨d, found, hc⟩)))
          · rcases hurl with ⟨d, hd⟩ | ⟨d, found, hd⟩ | hd <;> cases hd
        all_goals rcases hurl with ⟨d, hd⟩ | ⟨d, found, hd⟩ | hd <;> cases hd
    all_goals exact .inl (ih url hurl)

/-- Every URL that was contacted had been checked. -/
theorem Guarded.contacted (hk : Guarded bound h) : (h.filterMap sentUrl).dedup.length ≤ bound := by
  have hsub : (h.filterMap sentUrl).dedup ⊆ h.filterMap checkedUrl := by
    intro url hurl
    obtain ⟨e, he, hsent⟩ := List.mem_filterMap.mp (List.mem_dedup.mp hurl)
    obtain ⟨pre, post, hsplit⟩ := List.append_of_mem he
    have hpassed := (hk.follows pre e post hsplit).request url hsent
    have hmem := mem_checked pre url (.inr (.inr hpassed))
    rw [hsplit, List.filterMap_append]
    exact List.mem_append_left _ hmem
  exact ((List.nodup_dedup _).subperm hsub).length_le.trans hk.checked

/-- The policy over a guarded history. -/
theorem Guarded.egress_iff {maxRedirects : Nat} (hk : Guarded (maxRedirects + 1) h) :
    EgressKept maxRedirects h ↔ NoErrorBody h := by
  constructor
  · intro hp pre e post hsplit hreads r accepted hopen
    obtain ⟨r', accepted', hopen', hiff⟩ := (hk.follows pre e post hsplit).body hreads
    obtain ⟨r'', hopen''⟩ := hp.bodies pre e post hsplit hreads
    rw [hopen] at hopen' hopen''
    obtain ⟨rfl, rfl⟩ := Prod.mk.inj (Option.some.inj hopen')
    exact hiff.mp (Prod.mk.inj (Option.some.inj hopen'')).2
  · intro hno
    refine ⟨fun pre e post url hsplit => (hk.follows pre e post hsplit).request url,
      hk.contacted, ?_⟩
    intro pre e post hsplit hreads
    obtain ⟨r, accepted, hopen, hiff⟩ := (hk.follows pre e post hsplit).body hreads
    obtain rfl := hiff.mpr (hno pre e post hsplit hreads r accepted hopen)
    exact ⟨r, hopen⟩

end Invariant

/-! ## What each part of a fetch keeps -/

namespace Fetcher

variable {F : Fetcher} {remote : Remote} {bound : Nat} {h h' h'' : List FetchEvent}

/-- A step that is no check, no request and reads nothing. -/
def Quiet : FetchCall → Bool
  | .checkUrl _ | .resolve .. | .checkAddresses .. | .send _ | .checkPeer .. | .nextChunk => false
  | _ => true

/-- More of a history that changes nothing about what was checked and is open. -/
structure Same (bound : Nat) (h h' : List FetchEvent) : Prop where
  kept : Guarded bound h'
  clearance : clearance h' = EnergyPlatform.clearance h
  opened : openResponse h' = openResponse h
  checked : h'.filterMap checkedUrl = h.filterMap checkedUrl

theorem Same.refl (hk : Guarded bound h) : Same bound h h := ⟨hk, rfl, rfl, rfl⟩

theorem Same.trans (h₁ : Same bound h h') (h₂ : Same bound h' h'') : Same bound h h'' :=
  ⟨h₂.kept, h₂.clearance.trans h₁.clearance, h₂.opened.trans h₁.opened, h₂.checked.trans h₁.checked⟩

/-- The program keeps the invariant of a history, and ends in `Q`. -/
def Holds {α : Type} (F : Fetcher) (remote : Remote) (bound : Nat) (p : Fetch α)
    (Q : α → List FetchEvent → Prop) (h : List FetchEvent) : Prop :=
  p.Keeps (F.answer remote) (fun _ => False) (Guarded bound) Q h

section Rules

variable {α β : Type} {Q : α → List FetchEvent → Prop} {R : β → List FetchEvent → Prop}

theorem Holds.bind {p : Fetch α} {f : α → Fetch β} (hp : Holds F remote bound p Q h)
    (hf : ∀ a h', Q a h' → Holds F remote bound (f a) R h') :
    Holds F remote bound (p.bind f) R h := Prog.Keeps.bind hp hf

theorem Holds.imp {p : Fetch α} {Q' : α → List FetchEvent → Prop} (hp : Holds F remote bound p Q h)
    (hq : ∀ a h', Q a h' → Q' a h') : Holds F remote bound p Q' h := Prog.Keeps.imp hp hq

theorem holds_step {c : FetchCall} {Q : c.Ret → List FetchEvent → Prop} (hk : Guarded bound h)
    (hok : ∀ r, F.reply remote h c = .ok r → Q r (h ++ [⟨c, .ok r⟩]))
    (herror : ∀ x, F.reply remote h c = .error x → Guarded bound (h ++ [⟨c, .error x⟩])) :
    Holds F remote bound (step c) Q h := by
  refine ⟨fun _ => hk, ?_⟩
  rw [answer]
  cases hr : F.reply remote h c with
  | ok r => exact hok r hr
  | error x => exact herror x hr

end Rules

/-- What a history says does not depend on its quiet steps. -/
structure Silent (e : FetchEvent) : Prop where
  sent : sentUrl e = none
  checked : checkedUrl e = none
  reads : e.reads = false
  clearance : ∀ c : Clearance, c.after e = c
  opened : ∀ o, openAfter o e = o

theorem silent_of_quiet {c : FetchCall} (hq : Quiet c = true) (r : Except FetchExc c.Ret) :
    Silent ⟨c, r⟩ := by
  cases c
  all_goals first
    | exact absurd hq Bool.false_ne_true
    | exact ⟨rfl, rfl, rfl, fun _ => rfl, fun _ => rfl⟩

theorem same_quiet {c : FetchCall} (hq : Quiet c = true) (r : Except FetchExc c.Ret)
    (hk : Guarded bound h) : Same bound h (h ++ [⟨c, r⟩]) := by
  have hs : Silent ⟨c, r⟩ := silent_of_quiet hq r
  obtain ⟨hkept, hchecked⟩ := hk.unread hs.sent hs.checked hs.reads
  refine ⟨hkept, ?_, ?_, hchecked⟩
  · rw [clearance_concat, hs.clearance]
  · rw [openResponse_concat, hs.opened]

theorem holds_quiet {c : FetchCall} (hq : Quiet c = true) (hk : Guarded bound h) :
    Holds F remote bound (step c) (fun _ h' => Same bound h h') h :=
  holds_step hk (fun r _ => same_quiet hq (.ok r) hk) fun x _ => (same_quiet hq (.error x) hk).kept

/-- A step that is taken only under a condition. -/
theorem holds_when {α : Type} {cond : Prop} [Decidable cond] {p : Fetch Unit} {k : Unit → Fetch α}
    {R : α → List FetchEvent → Prop} (hp : Holds F remote bound p (fun _ h' => Same bound h h') h)
    (hk : Guarded bound h) (hrest : ∀ h', Same bound h h' → Holds F remote bound (k ()) R h') :
    Holds F remote bound (if cond then p.bind k else (Prog.ret ()).bind k) R h := by
  split
  · exact hp.bind fun _ h' hs => hrest h' hs
  · exact hrest h (.refl hk)

/-! ### Bodies -/

/-- The open response may be read. -/
def Readable (h : List FetchEvent) : Prop :=
  ∃ r accepted, openResponse h = some (r, accepted) ∧ (accepted = true ↔ r.status < 500)

theorem Readable.congr (hr : Readable h) (hs : Same bound h h') : Readable h' := by
  unfold Readable
  rw [hs.opened]
  exact hr

theorem same_chunk (r : Except FetchExc (Option Chunk)) (hk : Guarded bound h) (hr : Readable h) :
    Same bound h (h ++ [⟨.nextChunk, r⟩]) := by
  refine ⟨hk.unchecked ⟨fun url hurl => ?_, fun _ => hr⟩ rfl, ?_, ?_, checked_concat rfl⟩
  · cases hurl
  · rw [clearance_concat]
    rfl
  · rw [openResponse_concat]
    rfl

/-- Both loops over chunks: what is done with a chunk reads only chunks. -/
theorem holds_chunk {k : Except FetchExc (FetchCall.Ret .nextChunk) → Fetch Bytes}
    (hk : Guarded bound h) (hr : Readable h) (hraise : ∀ x, k (.error x) = .raise x)
    (hnext : ∀ c h', Same bound h h' →
      Holds F remote bound (k (.ok c)) (fun _ h'' => Same bound h h'') h') :
    Holds F remote bound (.call .nextChunk k) (fun _ h' => Same bound h h') h := by
  refine ⟨fun _ => hk, ?_⟩
  rw [answer]
  cases hreply : F.reply remote h .nextChunk with
  | ok c => exact hnext c _ (same_chunk (.ok c) hk hr)
  | error x =>
    change Prog.Keeps _ _ _ _ (k (.error x)) (h ++ [⟨.nextChunk, .error x⟩])
    rw [hraise]
    exact (same_chunk (.error x) hk hr).kept

theorem errorChunks_holds (left : Nat) : ∀ {h : List FetchEvent}, Guarded bound h → Readable h →
    Holds F remote bound (errorChunks left) (fun _ h' => Same bound h h') h := by
  induction left using Nat.strong_induction_on with
  | _ left ih =>
    intro h hk hr
    rw [errorChunks]
    refine holds_chunk hk hr (fun _ => rfl) fun c h' hs => ?_
    cases c with
    | none => exact hs
    | some chunk =>
      dsimp only
      split
      · exact hs
      · rename_i hlt
        have hpos := List.length_pos_of_ne_nil chunk.property
        refine (ih (left - chunk.val.length) (by omega) hs.kept (hr.congr hs)).bind
          fun rest h'' hs' => ?_
        exact hs.trans hs'

theorem readChunks_holds (url : List Char) (left : Nat) : ∀ {h : List FetchEvent}, Guarded bound h →
    Readable h → Holds F remote bound (F.readChunks url left) (fun _ h' => Same bound h h') h := by
  induction left using Nat.strong_induction_on with
  | _ left ih =>
    intro h hk hr
    rw [readChunks]
    refine holds_chunk hk hr (fun _ => rfl) fun c h' hs => ?_
    cases c with
    | none => exact hs
    | some chunk =>
      dsimp only
      split
      · rename_i hle
        have hpos := List.length_pos_of_ne_nil chunk.property
        refine (ih (left - chunk.val.length) (by omega) hs.kept (hr.congr hs)).bind
          fun rest h'' hs' => ?_
        exact hs.trans hs'
      · exact hs.kept

theorem errorBody_holds (hk : Guarded bound h) (hr : Readable h) :
    Holds F remote bound errorBody (fun _ h' => Same bound h h') h :=
  (errorChunks_holds errorBodyBytes hk hr).bind fun _ _ hs => hs

theorem readBody_holds (r : Response) (url : List Char) (hk : Guarded bound h) (hr : Readable h) :
    Holds F remote bound (F.readBody r url) (fun _ h' => Same bound h h') h := by
  unfold readBody
  cases r.header "content-length" with
  | none => exact readChunks_holds url F.maxBodyBytes hk hr
  | some declared =>
    have hdeclared : Holds F remote bound (declaredAbove F declared)
        (fun _ h' => Same bound h h') h := by
      unfold declaredAbove
      split
      · exact (holds_quiet rfl hk).bind fun n h' hs => hs
      · exact .refl hk
    refine hdeclared.bind fun above h' hs => ?_
    cases above with
    | true => exact hs.kept
    | false =>
      rw [if_neg Bool.false_ne_true]
      exact (readChunks_holds url F.maxBodyBytes hs.kept (hr.congr hs)).imp fun _ _ => hs.trans

/-- A body that is read under `finally`. -/
theorem closing_holds {α : Type} {p : Fetch α} {Q : α → List FetchEvent → Prop}
    (hp : Holds F remote bound p Q h) (hQ : ∀ a h', Q a h' → Guarded bound h')
    (hclose : ∀ a h' h'', Q a h' → Same bound h' h'' → Q a h'') :
    Holds F remote bound (closing p) Q h := by
  have htry : Holds F remote bound
      (p.tryCatch fun e => (step .close).bind fun _ => .raise e) Q h := by
    refine Prog.Keeps.tryCatch hp fun e h' hk => ?_
    exact (holds_quiet rfl hk).bind fun _ _ hs => hs.kept
  refine htry.bind fun a h' hq => ?_
  exact (holds_quiet rfl (hQ a h' hq)).bind fun _ h'' hs => hclose a h' h'' hq hs

/-! ### Attempts -/

/-- What an attempt leaves: the checks as they were, and a response that is open or an error. -/
structure Attempted (bound : Nat) (url : List Char) (h : List FetchEvent)
    (outcome : Except FetchExc Response) (h' : List FetchEvent) : Prop where
  kept : Guarded bound h'
  clearance : clearance h' = .passed url
  checked : h'.filterMap checkedUrl = h.filterMap checkedUrl
  opened : ∀ r, outcome = .ok r → openResponse h' = some (r, false) ∧ r.status < 500

/-- A request is recorded with its answer. -/
theorem kept_send {rq : HttpRequest} (r : Except FetchExc Response) (hk : Guarded bound h)
    (hc : clearance h = .passed rq.url) : Guarded bound (h ++ [⟨.send rq, r⟩]) ∧
      clearance (h ++ [⟨.send rq, r⟩]) = .passed rq.url ∧
      (h ++ [(⟨.send rq, r⟩ : FetchEvent)]).filterMap checkedUrl = h.filterMap checkedUrl := by
  refine ⟨hk.unchecked ⟨fun url hurl => ?_, fun hreads => ?_⟩ rfl, ?_, checked_concat rfl⟩
  · obtain rfl := Option.some.inj hurl
    exact hc
  · cases hreads
  · rw [clearance_concat]
    exact hc

theorem attemptOnce_holds {rq : HttpRequest} (attempt : Nat) (hk : Guarded bound h)
    (hc : clearance h = .passed rq.url) :
    Holds F remote bound (F.attemptOnce rq attempt) (Attempted bound rq.url h) h := by
  unfold attemptOnce
  refine holds_when (p := step .acquire) (holds_quiet rfl hk) hk fun h₁ hs₁ => ?_
  have hc₁ : EnergyPlatform.clearance h₁ = .passed rq.url := hs₁.clearance.trans hc
  refine Holds.bind (Q := fun sent h' => Guarded bound h' ∧
    EnergyPlatform.clearance h' = .passed rq.url ∧
    h'.filterMap checkedUrl = h.filterMap checkedUrl ∧
    ∀ r, sent = .ok r → openResponse h' = some (r, false)) ?_ fun sent h₂ hsent => ?_
  · refine ⟨fun _ => hs₁.kept, ?_⟩
    rw [answer]
    cases hr : F.reply remote h₁ (.send rq) with
    | ok r =>
      obtain ⟨hk₂, hc₂, hchecked₂⟩ := kept_send (.ok r) hs₁.kept hc₁
      refine ⟨hk₂, hc₂, hchecked₂.trans hs₁.checked, fun r' hr' => ?_⟩
      obtain rfl := Except.ok.inj hr'
      rw [openResponse_concat]
      rfl
    | error x =>
      obtain ⟨hk₂, hc₂, hchecked₂⟩ := kept_send (.error x) hs₁.kept hc₁
      cases x with
      | transport message => exact ⟨hk₂, hc₂, hchecked₂.trans hs₁.checked, fun r hr => by cases hr⟩
      | _ => exact hk₂
  · obtain ⟨hk₂, hc₂, hchecked₂, hopen₂⟩ := hsent
    cases sent with
    | error x =>
      refine (holds_quiet rfl hk₂).bind fun _ h₃ hs₃ => ?_
      exact ⟨hs₃.kept, hs₃.clearance.trans hc₂, hs₃.checked.trans hchecked₂,
        fun r hr => by cases hr⟩
    | ok r =>
      dsimp only
      split
      · rename_i hlt
        refine ⟨hk₂, hc₂, hchecked₂, fun r' hr' => ?_⟩
        obtain rfl := Except.ok.inj hr'
        exact ⟨hopen₂ r rfl, hlt⟩
      · rename_i hge
        -- a status from 500 on: the body is read before any look at the peer
        have hreadable : Readable h₂ :=
          ⟨r, false, hopen₂ r rfl, iff_of_false Bool.false_ne_true hge⟩
        refine (closing_holds (errorBody_holds hk₂ hreadable) (fun _ _ hs => hs.kept)
          fun _ _ _ hs hs' => hs.trans hs').bind fun body h₃ hs₃ => ?_
        refine (holds_quiet rfl hs₃.kept).bind fun _ h₄ hs₄ => ?_
        exact ⟨hs₄.kept, (hs₄.clearance.trans hs₃.clearance).trans hc₂,
          (hs₄.checked.trans hs₃.checked).trans hchecked₂, fun r hr => by cases hr⟩

theorem attemptLoop_holds (rq : HttpRequest) (n : Nat) : ∀ {h : List FetchEvent} (attempt : Nat)
    (last : FetchExc), Guarded bound h → clearance h = .passed rq.url →
    Holds F remote bound (F.attemptLoop rq n attempt last) (fun r h' => Guarded bound h' ∧
      openResponse h' = some (r, false) ∧ r.status < 500 ∧
      h'.filterMap checkedUrl = h.filterMap checkedUrl) h := by
  induction n with
  | zero => exact fun _ _ hk _ => hk
  | succ n ih =>
    intro h attempt last hk hc
    refine (attemptOnce_holds (attempt + 1) hk hc).bind fun outcome h₁ h₁' => ?_
    cases outcome with
    | ok r =>
      obtain ⟨hopen, hlt⟩ := h₁'.opened r rfl
      exact ⟨h₁'.kept, hopen, hlt, h₁'.checked⟩
    | error x =>
      refine holds_when (p := step (.sleep (attempt + 1))) (holds_quiet rfl h₁'.kept) h₁'.kept
        fun h₂ hs₂ => ?_
      refine (ih (attempt + 1) x hs₂.kept (hs₂.clearance.trans h₁'.clearance)).imp
        fun r h₃ ⟨hk₃, hopen, hlt, hchecked⟩ => ?_
      exact ⟨hk₃, hopen, hlt, (hchecked.trans hs₂.checked).trans h₁'.checked⟩

/-! ### Hops -/

theorem resolve_holds {url : List Char} {d : Destination} (hon : F.offline = false)
    (hk : Guarded bound h) (hc : clearance h = .permitted url d) :
    Holds F remote bound (F.resolve d) (fun _ h' => Guarded bound h' ∧ clearance h' = .passed url ∧
      h'.filterMap checkedUrl = h.filterMap checkedUrl) h := by
  unfold resolve
  rw [if_neg (by rw [hon]; exact Bool.false_ne_true)]
  refine Holds.bind (Q := fun addresses h' => Guarded bound h' ∧
    EnergyPlatform.clearance h' = .resolved url d addresses ∧
    h'.filterMap checkedUrl = h.filterMap checkedUrl) ?_
    fun addresses h₁ ⟨hk₁, hc₁, hchecked₁⟩ => ?_
  · refine holds_step hk (fun addresses _ => ?_) fun x _ => (hk.unread rfl rfl rfl).1
    obtain ⟨hk', hchecked'⟩ := hk.unread (e := ⟨.resolve d.host d.port, .ok addresses⟩) rfl rfl rfl
    refine ⟨hk', ?_, hchecked'⟩
    rw [clearance_concat, hc]
    exact if_pos ⟨rfl, rfl⟩
  · refine holds_step hk₁ (fun out _ => ?_) fun x _ => (hk₁.unread rfl rfl rfl).1
    obtain ⟨hk', hchecked'⟩ :=
      hk₁.unread (e := ⟨.checkAddresses d.host addresses, .ok out⟩) rfl rfl rfl
    refine ⟨hk', ?_, hchecked'.trans hchecked₁⟩
    rw [clearance_concat, hc₁]
    exact if_pos ⟨rfl, rfl⟩

theorem checkPeer_holds {d : Destination} {r : Response} (resolved : List String)
    (hon : F.offline = false) (hk : Guarded bound h) (hopen : openResponse h = some (r, false)) :
    Holds F remote bound (F.checkPeer d r resolved) (fun _ h' => Guarded bound h' ∧
      openResponse h' = some (r, true) ∧ h'.filterMap checkedUrl = h.filterMap checkedUrl) h := by
  unfold checkPeer
  rw [hon]
  change Holds F remote bound (step (.checkPeer d.host r.peer resolved)) _ h
  refine holds_step hk (fun out _ => ?_) fun x _ => (hk.unread rfl rfl rfl).1
  obtain ⟨hk', hchecked'⟩ :=
    hk.unread (e := ⟨.checkPeer d.host r.peer resolved, .ok out⟩) rfl rfl rfl
  refine ⟨hk', ?_, hchecked'⟩
  rw [openResponse_concat, hopen]
  exact congrArg (fun b => some (r, b)) (decide_eq_true rfl)

theorem result_holds {r : Response} (hops : List (List Char)) (last : List Char)
    (hk : Guarded bound h) (hr : Readable h) :
    Holds F remote bound (F.result r hops last) (fun _ h' => Same bound h h') h := by
  unfold result
  split
  · have hclock : ∀ {h' : List FetchEvent}, Same bound h h' → ∀ {f : Instant → FetchResult},
        Holds F remote bound ((step .clock).bind fun now => .ret (f now))
          (fun _ h'' => Same bound h h'') h' :=
      fun hs => (holds_quiet rfl hs.kept).bind fun _ _ hs' => hs.trans hs'
    split
    · exact hclock (.refl hk)
    · exact (readBody_holds r last hk hr).bind fun _ _ hs => hclock hs
  · exact (errorBody_holds hk hr).bind fun _ _ hs => hs.kept

theorem answered_holds {d : Destination} {r : Response} (rq : FetchRequest) (hop : Hop)
    (hops : List (List Char)) (resolved : List String) (hon : F.offline = false)
    (hk : Guarded bound h) (hopen : openResponse h = some (r, false)) (hlt : r.status < 500) :
    Holds F remote bound (F.answered rq hop hops d resolved r) (fun _ h' => Guarded bound h' ∧
      h'.filterMap checkedUrl = h.filterMap checkedUrl) h := by
  unfold answered
  refine (checkPeer_holds resolved hon hk hopen).bind fun _ h₁ ⟨hk₁, hopen₁, hchecked₁⟩ => ?_
  refine (holds_quiet rfl hk₁).bind fun redacted h₂ hs₂ => ?_
  have hreadable : Readable h₂ := by
    refine Readable.congr ⟨r, true, hopen₁, iff_of_true rfl hlt⟩ hs₂
  dsimp only
  split
  · refine (holds_quiet rfl hs₂.kept).bind fun url h₃ hs₃ => ?_
    refine (holds_quiet rfl hs₃.kept).bind fun _ h₄ hs₄ => ?_
    exact ⟨hs₄.kept, ((hs₄.checked.trans hs₃.checked).trans hs₂.checked).trans hchecked₁⟩
  · refine (result_holds _ _ hs₂.kept hreadable).bind fun _ h₃ hs₃ => ?_
    exact ⟨hs₃.kept, (hs₃.checked.trans hs₂.checked).trans hchecked₁⟩

/-- A hop checks one URL. -/
theorem follow_holds (rq : FetchRequest) (hop : Hop) (hops : List (List Char))
    (hon : F.offline = false) (hk : Guarded bound h)
    (hroom : (h.filterMap checkedUrl).length + 1 ≤ bound) :
    Holds F remote bound (F.follow rq hop hops) (fun _ h' => Guarded bound h' ∧
      (h'.filterMap checkedUrl).length = (h.filterMap checkedUrl).length + 1) h := by
  have hlength : ∀ r : Except FetchExc Destination,
      ((h ++ [(⟨.checkUrl hop.url, r⟩ : FetchEvent)]).filterMap checkedUrl).length =
        (h.filterMap checkedUrl).length + 1 := by
    intro r
    rw [List.filterMap_append, List.length_append]
    rfl
  have hkept : ∀ r : Except FetchExc Destination,
      Guarded bound (h ++ [⟨.checkUrl hop.url, r⟩]) :=
    fun r => hk.concat (.plain rfl rfl) ((hlength r).le.trans hroom)
  unfold follow
  refine Holds.bind (Q := fun d h' => Guarded bound h' ∧ clearance h' = .permitted hop.url d ∧
    (h'.filterMap checkedUrl).length = (h.filterMap checkedUrl).length + 1) ?_
    fun d h₁ ⟨hk₁, hc₁, hlength₁⟩ => ?_
  · refine holds_step hk (fun d _ => ⟨hkept (.ok d), ?_, hlength (.ok d)⟩)
      fun x _ => hkept (.error x)
    rw [clearance_concat]
    rfl
  · refine (resolve_holds hon hk₁ hc₁).bind fun resolved h₂ ⟨hk₂, hc₂, hchecked₂⟩ => ?_
    refine (attemptLoop_holds ⟨hop.method, hop.url, requestHeaders rq, hop.body⟩ F.attempts 0 _ hk₂
      hc₂).bind fun r h₃ ⟨hk₃, hopen₃, hlt₃, hchecked₃⟩ => ?_
    refine (closing_holds (answered_holds rq hop hops resolved hon hk₃ hopen₃ hlt₃)
      (fun _ _ hq => hq.1) fun _ _ _ hq hs => ⟨hs.kept, hs.checked.trans hq.2⟩).imp
      fun _ h₄ ⟨hk₄, hchecked₄⟩ => ⟨hk₄, ?_⟩
    rw [hchecked₄, hchecked₃, hchecked₂, hlength₁]

theorem hopLoop_holds (rq : FetchRequest) (hon : F.offline = false) (n : Nat) :
    ∀ {h : List FetchEvent} (hop : Hop) (hops : List (List Char)), Guarded bound h →
      (h.filterMap checkedUrl).length + n ≤ bound →
      Holds F remote bound (F.hopLoop rq n hop hops) (fun _ h' => Guarded bound h') h := by
  induction n with
  | zero => exact fun _ _ hk _ => hk
  | succ n ih =>
    intro h hop hops hk hroom
    refine (follow_holds rq hop hops hon hk (by omega)).bind fun outcome h₁ ⟨hk₁, hlength₁⟩ => ?_
    cases outcome with
    | inl result => exact hk₁
    | inr next => exact ih next.1 next.2 hk₁ (by omega)

/-- With the network on, the egress policy holds of a fetch exactly when no answer with a status
from 500 on delivered a byte of its body. -/
theorem egress_kept_iff (hon : F.offline = false) (remote : Remote) (rq : FetchRequest) :
    EgressKept F.maxRedirects (F.run remote rq).2 ↔ NoErrorBody (F.run remote rq).2 := by
  have hkeeps : Holds F remote (F.maxRedirects + 1) (F.fetch rq)
      (fun _ h' => Guarded (F.maxRedirects + 1) h') [] :=
    hopLoop_holds rq hon (F.maxRedirects + 1) _ [] .nil (Nat.le_of_eq (Nat.zero_add _))
  have hkept : Guarded (F.maxRedirects + 1) (F.run remote rq).2 :=
    Prog.Keeps.run_keeps hkeeps fun _ _ hk => hk
  exact hkept.egress_iff

/-! ## A body that is read without a look at the peer -/

/-- Strings of ASCII. -/
def asciiUrls : UrlPrims where
  txt := Ascii.text
  lower l := l.map Char.toLower
  nfkc l := l
  decode l := l.map fun b => Char.ofNat b.toNat

/-- One attempt and no redirect. -/
def marketFetcher : Fetcher where
  P := asciiUrls
  allowedHosts := ["www.ote-cr.cz"]
  allowInsecure := false
  offline := false
  maxRedirects := 0
  attempts := 1
  rateLimited := false
  maxBodyBytes := 4096

/-- A server behind a private address that answers with one byte. -/
def answering (status : Nat) : Remote where
  resolve _ _ _ := .ok ["93.184.216.34"]
  send _ _ := .ok ⟨status, [], some "10.0.0.1"⟩
  chunk h := .ok (if h.any FetchEvent.reads then none else some ⟨[65], List.cons_ne_nil _ _⟩)
  now _ := 0

def marketRequest : FetchRequest where
  url := "https://www.ote-cr.cz/".toList
  method := "GET"
  headers := .empty
  body := none
  conditional := none
  redactParams := []

/-- The history of the fetch. -/
def answeredWith (status : Nat) : List FetchEvent :=
  (marketFetcher.run (answering status) marketRequest).2

/-- A peer that was never accepted answers 503, and its body is read. -/
theorem server_error_read : ∃ (F : Fetcher) (remote : Remote) (rq : FetchRequest),
    F.offline = false ∧ ¬ EgressKept F.maxRedirects (F.run remote rq).2 := by
  refine ⟨marketFetcher, answering 503, marketRequest, rfl, fun h => ?_⟩
  have hread : ((answeredWith 503).drop 4).head?.any FetchEvent.reads = true := by decide +kernel
  have hopen : (openResponse ((answeredWith 503).take 4)).map Prod.snd = some false := by
    decide +kernel
  cases he : ((answeredWith 503).drop 4).head? with
  | none =>
    rw [he] at hread
    cases hread
  | some e =>
    rw [he] at hread
    obtain ⟨post, hdrop⟩ := List.head?_eq_some_iff.mp he
    have hsplit : answeredWith 503 = (answeredWith 503).take 4 ++ e :: post := by
      rw [← hdrop, List.take_append_drop]
    obtain ⟨r, hr⟩ := h.bodies _ e post hsplit hread
    rw [hr] at hopen
    cases hopen

/-- The same server behind the address its host resolves to. -/
def resolved (status : Nat) : Remote :=
  { answering status with send _ _ := .ok ⟨status, [], some "93.184.216.34"⟩ }

/-- A history whose reads are looked at one by one. -/
theorem noErrorBody_of_all {h : List FetchEvent}
    (hall : (List.range h.length).all (fun n => !(h.drop n).head?.any FetchEvent.reads ||
      (openResponse (h.take n)).all fun p => decide (p.1.status < 500)) = true) :
    NoErrorBody h := by
  intro pre e post hsplit hread r accepted hopen
  have hlt : pre.length < h.length := by
    rw [hsplit, List.length_append, List.length_cons]
    omega
  have hn := List.all_eq_true.mp hall _ (List.mem_range.mpr hlt)
  rw [hsplit, List.drop_left, List.take_left, List.head?_cons, Option.any_some, hread, hopen] at hn
  exact of_decide_eq_true hn

/-- A page is read from a peer that was accepted for it. -/
theorem page_egress : ∃ h, h = (marketFetcher.run (resolved 404) marketRequest).2 ∧
    (∃ e ∈ h, e.reads = true) ∧ EgressKept marketFetcher.maxRedirects h := by
  refine ⟨_, rfl, List.any_eq_true.mp (by decide +kernel), ?_⟩
  exact (egress_kept_iff rfl (resolved 404) marketRequest).mpr
    (noErrorBody_of_all (by decide +kernel))

end Fetcher

end EnergyPlatform
