import EnergyPlatform.Fetch.Fetcher
import EnergyPlatform.Lib.Watch

/-!
# Fetch.Discipline

The resources of a fetch: connections, attempts, the tokens of the rate limiter and bytes.

`Watch` follows a fetch step by step and objects to a second open response, to a request to another
URL than the one that passed the last check, without an attempt left or without its token, to a wait
after the last attempt, and to a read past the cap. `fetch_disciplined`: it never objects, whatever
the servers do, every response that was opened is closed once, and each hop has its attempts at most.
-/

namespace EnergyPlatform

open Lib (Prog)

/-- What is known of a fetch: how many URLs it checked, the last one if it passed, the attempts left
for it, whether a token waits for a request, and the open response with the bytes that came of it. -/
structure Watch where
  hops : Nat
  url : Option (List Char)
  left : Nat
  token : Bool
  opened : Option (Response × Nat)

namespace Watch

variable (F : Fetcher)

def init : Watch := ⟨0, none, 0, false, none⟩

/-- One more chunk may be asked for: of a payload up to the cap, of an error while less than its head
is there, of a redirect and of `304` never. -/
def MayRead (r : Response) (read : Nat) : Prop :=
  if 200 ≤ r.status ∧ r.status < 300 then read ≤ F.maxBodyBytes
  else r.status ≠ 304 ∧ ¬ (r.status ∈ Fetcher.redirectStatuses ∧ (r.header "location").isSome = true) ∧
    read < Fetcher.errorBodyBytes

instance (r : Response) (read : Nat) : Decidable (MayRead F r read) := by
  unfold MayRead
  infer_instance

/-- The request may go out. -/
def MaySend (m : Watch) (rq : HttpRequest) : Prop :=
  m.opened = none ∧ m.url = some rq.url ∧ 0 < m.left ∧ (F.rateLimited = true → m.token = true)

instance (m : Watch) (rq : HttpRequest) : Decidable (MaySend F m rq) := by
  unfold MaySend
  infer_instance

/-- The URL that passed a check. -/
def passed (url : List Char) : Except FetchExc Destination → Option (List Char)
  | .ok _ => some url
  | .error _ => none

/-- The bytes of what `iter_bytes` yields. -/
def size : Option Chunk → Nat
  | some chunk => chunk.val.length
  | none => 0

/-- One step, or an objection. An answer below 500 ends the attempts for a URL. -/
def next (m : Watch) : (c : FetchCall) → Except FetchExc c.Ret → Option Watch
  | .checkUrl url, d =>
    if m.opened = none ∧ m.hops ≤ F.maxRedirects then
      some { m with hops := m.hops + 1, url := passed url d, left := F.attempts, token := false }
    else none
  | .acquire, _ => if m.opened = none then some { m with token := true } else none
  | .send rq, r =>
    if MaySend F m rq then
      match r with
      | .ok r => some { m with
          left := if r.status < 500 then 0 else m.left - 1, token := false, opened := some (r, 0) }
      | .error _ => some { m with left := m.left - 1, token := false }
    else none
  | .nextChunk, chunk =>
    match m.opened with
    | some (r, read) =>
      if MayRead F r read then
        match chunk with
        | .ok chunk => some { m with opened := some (r, read + size chunk) }
        | .error _ => some m
      else none
    | none => none
  | .close, _ => if m.opened.isSome then some { m with opened := none } else none
  | .sleep attempt, _ =>
    if m.opened = none ∧ 0 < m.left ∧ attempt + m.left = F.attempts then some m else none
  | _, _ => some m

/-- The monitor after a history. -/
def after (h : List FetchEvent) : Option Watch := h.foldlM (fun m e => next F m e.call e.result) init

theorem after_concat (h : List FetchEvent) (e : FetchEvent) :
    after F (h ++ [e]) = (after F h).bind fun m => next F m e.call e.result := by
  simp [after, List.foldlM_append]

/-! ## What an accepted history says -/

def isSend : FetchEvent → Bool
  | ⟨.send _, _⟩ => true
  | _ => false

/-- A response was opened. -/
def isOpening : FetchEvent → Bool
  | ⟨.send _, .ok _⟩ => true
  | _ => false

def isClosing : FetchEvent → Bool
  | ⟨.close, _⟩ => true
  | _ => false

/-- A hop: the URL that passed its check, if it did, and the requests since. -/
abbrev Sent := Option (List Char) × List HttpRequest

/-- The hops of a history, the last one first; before the first check there is one without URL. -/
def noteHop (hops : List Sent) : FetchEvent → List Sent
  | ⟨.checkUrl url, d⟩ => (passed url d, []) :: hops
  | ⟨.send rq, _⟩ => hops.modifyHead fun hop => (hop.1, rq :: hop.2)
  | _ => hops

def hopsOf (h : List FetchEvent) : List Sent := h.foldl noteHop [(none, [])]

theorem hopsOf_concat (h : List FetchEvent) (e : FetchEvent) :
    hopsOf (h ++ [e]) = noteHop (hopsOf h) e := by
  simp [hopsOf]

/-- The requests of a hop are at most `n`, and go to its URL. -/
def Kept (n : Nat) (hop : Sent) : Prop :=
  hop.2.length ≤ n ∧ ∀ rq ∈ hop.2, hop.1 = some rq.url

/-- The last hop has its attempts left, and the others kept to theirs. -/
def HopsKept (h : List FetchEvent) (m : Watch) : Prop :=
  ∃ sent rest, hopsOf h = (m.url, sent) :: rest ∧ rest.length = m.hops ∧
    Kept (F.attempts - m.left) (m.url, sent) ∧ m.left ≤ F.attempts ∧
      ∀ hop ∈ rest, Kept F.attempts hop

/-- A step that is no request and no closing leaves the counts. -/
structure Plain (e : FetchEvent) : Prop where
  send : isSend e = false
  opening : isOpening e = false
  closing : isClosing e = false

/-- Requests are paid for by hops, and closings by openings. -/
structure Counts (h : List FetchEvent) (m : Watch) : Prop where
  sends : h.countP isSend + m.left ≤ m.hops * F.attempts
  hops : m.hops ≤ F.maxRedirects + 1
  openings : h.countP isOpening = h.countP isClosing + (if m.opened.isSome then 1 else 0)

variable {F}

theorem Counts.plain {h : List FetchEvent} {e : FetchEvent} {m m' : Watch} (hc : Counts F h m)
    (he : Plain e) (hsends : m'.left + m.hops * F.attempts ≤ m.left + m'.hops * F.attempts)
    (hhops : m'.hops ≤ F.maxRedirects + 1) (hopened : m'.opened.isSome = m.opened.isSome) :
    Counts F (h ++ [e]) m' where
  sends := by
    have := hc.sends
    rw [List.countP_append, List.countP_singleton, he.send, if_neg Bool.false_ne_true]
    omega
  hops := hhops
  openings := by
    rw [List.countP_append, List.countP_append, List.countP_singleton, List.countP_singleton,
      he.opening, he.closing, if_neg Bool.false_ne_true, hopened]
    exact hc.openings

theorem Counts.step {h : List FetchEvent} {m m' : Watch} (hm : Counts F h m) {c : FetchCall}
    {r : Except FetchExc c.Ret} (hnext : next F m c r = some m') : Counts F (h ++ [⟨c, r⟩]) m' := by
  cases c
  case checkUrl url =>
    simp only [next] at hnext
    split at hnext
    · rename_i hfree
      obtain rfl := Option.some.inj hnext
      refine hm.plain ⟨rfl, rfl, rfl⟩ ?_ (Nat.succ_le_succ hfree.2) rfl
      simp only [Nat.add_mul, Nat.one_mul]
      omega
    · cases hnext
  case send rq =>
    simp only [next] at hnext
    split at hnext
    · rename_i hmay
      obtain ⟨hfree, -, hleft, -⟩ := hmay
      have hsends := hm.sends
      have hopenings := hm.openings
      rw [hfree, Option.isSome_none, if_neg Bool.false_ne_true] at hopenings
      cases r with
      | ok r =>
        obtain rfl := Option.some.inj hnext
        refine ⟨?_, hm.hops, ?_⟩
        · rw [List.countP_append]
          change h.countP isSend + 1 + (if r.status < 500 then 0 else m.left - 1) ≤ _
          split <;> (simp only; omega)
        · rw [List.countP_append, List.countP_append]
          change h.countP isOpening + 1 = h.countP isClosing + 0 + 1
          omega
      | error x =>
        obtain rfl := Option.some.inj hnext
        refine ⟨?_, hm.hops, ?_⟩
        · rw [List.countP_append]
          change h.countP isSend + 1 + (m.left - 1) ≤ m.hops * F.attempts
          omega
        · rw [List.countP_append, List.countP_append, hfree]
          change h.countP isOpening + 0 = h.countP isClosing + 0 + 0
          omega
    · cases hnext
  case nextChunk =>
    simp only [next] at hnext
    split at hnext
    · rename_i r' read hopen
      split at hnext
      · cases r with
        | ok chunk =>
          obtain rfl := Option.some.inj hnext
          exact hm.plain ⟨rfl, rfl, rfl⟩ le_rfl hm.hops (by rw [hopen]; rfl)
        | error x =>
          obtain rfl := Option.some.inj hnext
          exact hm.plain ⟨rfl, rfl, rfl⟩ le_rfl hm.hops rfl
      · cases hnext
    · cases hnext
  case close =>
    simp only [next] at hnext
    split at hnext
    · rename_i hopen
      obtain rfl := Option.some.inj hnext
      have hopenings := hm.openings
      rw [if_pos hopen] at hopenings
      refine ⟨?_, hm.hops, ?_⟩
      · rw [List.countP_append]
        exact hm.sends
      · rw [List.countP_append, List.countP_append]
        change h.countP isOpening + 0 = h.countP isClosing + 1 + 0
        omega
    · cases hnext
  case acquire =>
    simp only [next] at hnext
    split at hnext
    · obtain rfl := Option.some.inj hnext
      exact hm.plain ⟨rfl, rfl, rfl⟩ le_rfl hm.hops rfl
    · cases hnext
  case sleep attempt =>
    simp only [next] at hnext
    split at hnext
    · obtain rfl := Option.some.inj hnext
      exact hm.plain ⟨rfl, rfl, rfl⟩ le_rfl hm.hops rfl
    · cases hnext
  all_goals
    obtain rfl := Option.some.inj hnext
    exact hm.plain ⟨rfl, rfl, rfl⟩ le_rfl hm.hops rfl

/-- A step that is neither a check nor a request leaves the hops. -/
theorem HopsKept.plain {h : List FetchEvent} {m m' : Watch} (hm : HopsKept F h m) {e : FetchEvent}
    (he : ∀ hops, noteHop hops e = hops) (hhops : m'.hops = m.hops) (hurl : m'.url = m.url)
    (hleft : m'.left = m.left) : HopsKept F (h ++ [e]) m' := by
  unfold HopsKept
  rw [hopsOf_concat, he, hhops, hurl, hleft]
  exact hm

/-- A request is one of the last hop, and takes an attempt. -/
theorem HopsKept.sent {h : List FetchEvent} {m m' : Watch} (hm : HopsKept F h m)
    {rq : HttpRequest} {x : Except FetchExc Response} (hmay : MaySend F m rq)
    (hsame : m'.hops = m.hops) (hurl : m'.url = m.url) (hleft : m'.left < m.left) : HopsKept F (h ++ [⟨.send rq, x⟩]) m' := by
  obtain ⟨sent, rest, hhops, hlen, ⟨hcount, hto⟩, hle, hrest⟩ := hm
  obtain ⟨-, hpassed, -, -⟩ := hmay
  refine ⟨rq :: sent, rest, ?_, hlen.trans hsame.symm, ⟨?_, ?_⟩, by omega, hrest⟩
  · rw [hopsOf_concat, hhops, hurl]
    rfl
  · change sent.length + 1 ≤ _
    dsimp only at hcount
    omega
  · rw [hurl]
    exact List.forall_mem_cons.mpr ⟨hpassed, hto⟩

/-- A check begins a hop. -/
theorem HopsKept.checked {h : List FetchEvent} {m : Watch} (hm : HopsKept F h m) (url : List Char)
    (d : Except FetchExc Destination) : HopsKept F (h ++ [⟨.checkUrl url, d⟩])
      { m with hops := m.hops + 1, url := passed url d, left := F.attempts, token := false } := by
  obtain ⟨sent, rest, hhops, hlen, ⟨hcount, hto⟩, hle, hrest⟩ := hm
  refine ⟨[], (m.url, sent) :: rest, ?_, congrArg (· + 1) hlen, ⟨Nat.zero_le _, nofun⟩, le_rfl, ?_⟩
  · rw [hopsOf_concat, hhops]
    rfl
  · exact List.forall_mem_cons.mpr ⟨⟨hcount.trans (Nat.sub_le _ _), hto⟩, hrest⟩

theorem HopsKept.step {h : List FetchEvent} {m m' : Watch} (hm : HopsKept F h m) {c : FetchCall}
    {r : Except FetchExc c.Ret} (hnext : next F m c r = some m') :
    HopsKept F (h ++ [⟨c, r⟩]) m' := by
  cases c
  case checkUrl url =>
    simp only [next] at hnext
    split at hnext
    · obtain rfl := Option.some.inj hnext
      exact hm.checked url r
    · cases hnext
  case send rq =>
    simp only [next] at hnext
    split at hnext
    · rename_i hmay
      have hleft := hmay.2.2.1
      cases r with
      | ok r =>
        obtain rfl := Option.some.inj hnext
        refine hm.sent hmay rfl rfl ?_
        dsimp only
        split <;> omega
      | error x =>
        obtain rfl := Option.some.inj hnext
        exact hm.sent hmay rfl rfl (Nat.sub_lt hleft Nat.one_pos)
    · cases hnext
  case nextChunk =>
    simp only [next] at hnext
    split at hnext
    · split at hnext
      · cases r with
        | ok chunk =>
          obtain rfl := Option.some.inj hnext
          exact hm.plain (fun _ => rfl) rfl rfl rfl
        | error x =>
          obtain rfl := Option.some.inj hnext
          exact hm.plain (fun _ => rfl) rfl rfl rfl
      · cases hnext
    · cases hnext
  all_goals
    simp only [next] at hnext
    first
      | obtain rfl := Option.some.inj hnext
        exact hm.plain (fun _ => rfl) rfl rfl rfl
      | split at hnext
        · obtain rfl := Option.some.inj hnext
          exact hm.plain (fun _ => rfl) rfl rfl rfl
        · cases hnext

theorem hopsKept_after (h : List FetchEvent) :
    ∀ {m : Watch}, after F h = some m → HopsKept F h m := by
  induction h using List.reverseRecOn with
  | nil =>
    intro m hm
    obtain rfl : init = m := Option.some.inj hm
    exact ⟨[], [], rfl, rfl, ⟨Nat.zero_le _, nofun⟩, Nat.zero_le _, nofun⟩
  | append_singleton h e ih =>
    intro m' hm'
    rw [after_concat] at hm'
    obtain ⟨m, hm, hnext⟩ := Option.bind_eq_some_iff.mp hm'
    exact (ih hm).step hnext

theorem HopsKept.length {h : List FetchEvent} {m : Watch} (hm : HopsKept F h m) :
    (hopsOf h).length = m.hops + 1 := by
  obtain ⟨sent, rest, hhops, hlen, -⟩ := hm
  rw [hhops, List.length_cons, hlen]

/-- Every hop kept to its attempts. -/
theorem HopsKept.all {h : List FetchEvent} {m : Watch} (hm : HopsKept F h m) :
    ∀ hop ∈ hopsOf h, Kept F.attempts hop := by
  obtain ⟨sent, rest, hhops, -, hlast, -, hrest⟩ := hm
  rw [hhops]
  exact List.forall_mem_cons.mpr ⟨⟨hlast.1.trans (Nat.sub_le _ _), hlast.2⟩, hrest⟩

theorem counts_after (h : List FetchEvent) : ∀ {m : Watch}, after F h = some m → Counts F h m := by
  induction h using List.reverseRecOn with
  | nil =>
    intro m hm
    obtain rfl : init = m := Option.some.inj hm
    exact ⟨Nat.zero_le _, Nat.zero_le _, rfl⟩
  | append_singleton h e ih =>
    intro m' hm'
    rw [after_concat] at hm'
    obtain ⟨m, hm, hnext⟩ := Option.bind_eq_some_iff.mp hm'
    exact (ih hm).step hnext

end Watch

/-! ## What each part of a fetch does to the monitor -/

namespace Fetcher

open Watch (MayRead MaySend)

variable {F : Fetcher} {α β : Type} {m : Watch}

/-- The monitor does not object to the program, which ends in `Q` when it returns and in `E` when it
raises. -/
def Obeys (F : Fetcher) (p : Fetch α) (Q : α → Watch → Prop) (E : Watch → Prop) (m : Watch) : Prop :=
  p.Watched (Watch.next F) Q (fun _ => E) m

theorem Obeys.bind {p : Fetch α} {f : α → Fetch β} {Q : α → Watch → Prop} {R : β → Watch → Prop}
    {E : Watch → Prop} (hp : Obeys F p Q E m) (hf : ∀ a m', Q a m' → Obeys F (f a) R E m') :
    Obeys F (p.bind f) R E m := Prog.Watched.bind hp hf

theorem Obeys.imp {p : Fetch α} {Q Q' : α → Watch → Prop} {E E' : Watch → Prop}
    (hp : Obeys F p Q E' m) (hQ : ∀ a m, Q a m → Q' a m) (hE : ∀ m, E' m → E m) :
    Obeys F p Q' E m := Prog.Watched.imp hp hQ fun _ => hE

/-- A step the monitor does not look at. -/
def Unwatched : FetchCall → Bool
  | .resolve .. | .checkAddresses .. | .checkPeer .. | .redactQuery .. | .urljoin .. | .intOf _
  | .log _ | .clock => true
  | _ => false

theorem obeys_unwatched {c : FetchCall} (hc : Unwatched c = true) :
    Obeys F (step c) (fun _ m' => m' = m) (fun m' => m' = m) m := by
  have hnext : ∀ r, Watch.next F m c r = some m := by
    intro r
    cases c
    all_goals first
      | exact absurd hc Bool.false_ne_true
      | rfl
  exact Prog.Watched.perform (fun a => ⟨m, hnext _, rfl⟩) fun e => ⟨m, hnext _, rfl⟩

/-- Then a step the monitor does not look at. -/
theorem obeys_unwatched_bind {c : FetchCall} (hc : Unwatched c = true) {f : c.Ret → Fetch β}
    {R : β → Watch → Prop} {E : Watch → Prop} (hE : E m) (hf : ∀ a, Obeys F (f a) R E m) :
    Obeys F ((step c).bind f) R E m := by
  refine Obeys.bind (Q := fun _ m' => m' = m) ((obeys_unwatched hc).imp (fun _ _ h => h) ?_) ?_
  · rintro _ rfl
    exact hE
  · rintro a _ rfl
    exact hf a

/-! ### Bodies -/

/-- The response is still open, and more of it may have come. -/
def Holding (m : Watch) (r : Response) (m' : Watch) : Prop :=
  ∃ read, m' = { m with opened := some (r, read) }

theorem readChunks_obeys (url : List Char) (r : Response) (hr : 200 ≤ r.status ∧ r.status < 300)
    (left : Nat) : ∀ read, read + left = F.maxBodyBytes →
    Obeys F (F.readChunks url left) (fun _ => Holding m r) (Holding m r)
      { m with opened := some (r, read) } := by
  induction left using Nat.strong_induction_on with
  | _ left ih =>
    intro read hread
    have hmay : MayRead F r read := by
      rw [Watch.MayRead, if_pos hr]
      omega
    rw [readChunks]
    intro x
    cases x with
    | error e =>
      refine ⟨{ m with opened := some (r, read) }, ?_, read, rfl⟩
      simp only [Watch.next, if_pos hmay]
    | ok chunk =>
      refine ⟨{ m with opened := some (r, read + Watch.size chunk) }, ?_, ?_⟩
      · simp only [Watch.next, if_pos hmay]
      · cases chunk with
        | none => exact ⟨read + 0, rfl⟩
        | some chunk =>
          dsimp only
          split
          · rename_i hfits
            have hpos := List.length_pos_of_ne_nil chunk.property
            refine Obeys.bind (ih (left - chunk.val.length) (by omega) (read + chunk.val.length)
              (by omega)) fun rest m' hm' => hm'
          · exact ⟨read + chunk.val.length, rfl⟩

theorem declaredAbove_obeys (declared : String) :
    Obeys F (F.declaredAbove declared) (fun _ m' => m' = m) (fun m' => m' = m) m := by
  unfold declaredAbove
  split
  · exact obeys_unwatched_bind rfl rfl fun n => rfl
  · exact rfl

theorem readBody_obeys (url : List Char) (r : Response) (hr : 200 ≤ r.status ∧ r.status < 300) :
    Obeys F (F.readBody r url) (fun _ => Holding m r) (Holding m r)
      { m with opened := some (r, 0) } := by
  have hchunks : Obeys F (F.readChunks url F.maxBodyBytes) (fun _ => Holding m r) (Holding m r)
      { m with opened := some (r, 0) } := readChunks_obeys url r hr _ 0 (Nat.zero_add _)
  unfold readBody
  split
  · refine Obeys.bind ((declaredAbove_obeys _).imp (fun _ _ h => h) ?_) ?_
    · rintro _ rfl
      exact ⟨0, rfl⟩
    · rintro above _ rfl
      split
      · exact ⟨0, rfl⟩
      · exact hchunks
  · exact hchunks

/-- The answer is an error, of which the head is read. -/
structure Unwanted (r : Response) : Prop where
  refused : ¬ (200 ≤ r.status ∧ r.status < 300)
  modified : r.status ≠ 304
  stays : ¬ (r.status ∈ redirectStatuses ∧ (r.header "location").isSome = true)

theorem errorChunks_obeys (r : Response) (hr : Unwanted r) (left : Nat) : ∀ read, 0 < left →
    read + left = errorBodyBytes →
    Obeys F (errorChunks left) (fun _ => Holding m r) (Holding m r)
      { m with opened := some (r, read) } := by
  induction left using Nat.strong_induction_on with
  | _ left ih =>
    intro read hpos hread
    have hmay : MayRead F r read := by
      rw [Watch.MayRead, if_neg hr.refused]
      exact ⟨hr.modified, hr.stays, by omega⟩
    rw [errorChunks]
    intro x
    cases x with
    | error e =>
      refine ⟨{ m with opened := some (r, read) }, ?_, read, rfl⟩
      simp only [Watch.next, if_pos hmay]
    | ok chunk =>
      refine ⟨{ m with opened := some (r, read + Watch.size chunk) }, ?_, ?_⟩
      · simp only [Watch.next, if_pos hmay]
      · cases chunk with
        | none => exact ⟨read + 0, rfl⟩
        | some chunk =>
          dsimp only
          split
          · exact ⟨read + chunk.val.length, rfl⟩
          · have hchunk := List.length_pos_of_ne_nil chunk.property
            refine Obeys.bind (ih (left - chunk.val.length) (by omega) (read + chunk.val.length)
              (by omega) (by omega)) fun rest m' hm' => hm'

theorem errorBody_obeys (r : Response) (hr : Unwanted r) :
    Obeys F errorBody (fun _ => Holding m r) (Holding m r) { m with opened := some (r, 0) } :=
  Obeys.bind (errorChunks_obeys r hr errorBodyBytes 0 (by decide) (Nat.zero_add _))
    fun _ _ h => h

/-- `try: … finally: response.close()`: however the body ends, the response is closed. -/
theorem closing_obeys {p : Fetch α} {r : Response} {P : α → Prop} {m₁ : Watch}
    (hp : Obeys F p (fun a m' => P a ∧ Holding m r m') (Holding m r) m₁) :
    Obeys F (closing p) (fun a m' => P a ∧ m' = { m with opened := none })
      (fun m' => m' = { m with opened := none }) m₁ := by
  have hclose : ∀ m', Holding m r m' → ∀ x, Watch.next F m' .close x =
      some { m with opened := none } := by
    rintro m' ⟨read, rfl⟩ x
    rfl
  refine Obeys.bind (Q := fun a m' => P a ∧ Holding m r m') ?_ fun a m' ⟨ha, hm'⟩ => ?_
  · refine Prog.Watched.tryCatch hp fun e m' hm' => ?_
    intro x
    refine ⟨_, hclose m' hm' x, ?_⟩
    cases x with
    | ok _ => exact rfl
    | error _ => exact rfl
  · intro x
    refine ⟨_, hclose m' hm' x, ?_⟩
    cases x with
    | ok _ => exact ⟨ha, rfl⟩
    | error _ => exact rfl

/-! ### Attempts -/

/-- No response is open. -/
def Free (m : Watch) : Prop := m.opened = none

/-- What an attempt leaves: an open response below 500, or an error and one attempt less. -/
def Tried (url : List Char) (hops n : Nat) : Except FetchExc Response → Watch → Prop
  | .ok r, m => m.hops = hops ∧ m.opened = some (r, 0) ∧ r.status < 500
  | .error _, m => m.hops = hops ∧ Free m ∧ m.url = some url ∧ m.left = n

theorem next_send {rq : HttpRequest} (h : MaySend F m rq) (r : Response) :
    Watch.next F m (.send rq) (.ok r) = some { m with
      left := if r.status < 500 then 0 else m.left - 1, token := false, opened := some (r, 0) } := by
  simp only [Watch.next, if_pos h]

theorem next_send_error {rq : HttpRequest} (h : MaySend F m rq) (x : FetchExc) :
    Watch.next F m (.send rq) (.error x) = some { m with left := m.left - 1, token := false } := by
  simp only [Watch.next, if_pos h]

/-- What follows the token of an attempt. -/
theorem sent_obeys (rq : HttpRequest) (attempt : Nat) {n : Nat} (hleft : m.left = n + 1)
    (hmay : MaySend F m rq) :
    Obeys F (((step (.send rq) >>= fun r => .ret (Except.ok r)).tryCatch fun
        | .transport message => .ret (.error (FetchExc.transport message))
        | e => .raise e) >>= fun sent =>
      match sent with
      | .error e => do
        logLine (F.attemptText attempt rq ++ e.text)
        .ret (.error e)
      | .ok r =>
        if r.status < 500 then .ret (.ok r)
        else do
          let body ← closing errorBody
          logLine (F.attemptText attempt rq ++ "HTTP " ++ toString r.status)
          .ret (.error (.failed r.status rq.url body)))
      (Tried rq.url m.hops n) Free m := by
  have hfailed : ∀ x, Tried rq.url m.hops n (.error x)
      { m with left := m.left - 1, token := false } :=
    fun x => ⟨rfl, hmay.1, hmay.2.1, by simp only [hleft]; rfl⟩
  refine Obeys.bind (Q := fun sent m' => match sent with
    | .ok r => m' = { m with
        left := if r.status < 500 then 0 else m.left - 1, token := false, opened := some (r, 0) }
    | .error _ => m' = { m with left := m.left - 1, token := false }) ?_ fun sent m' hm' => ?_
  · intro x
    cases x with
    | ok r => exact ⟨_, next_send hmay r, rfl⟩
    | error x =>
      refine ⟨_, next_send_error hmay x, ?_⟩
      cases x with
      | transport message => exact rfl
      | _ => exact hmay.1
  · cases sent with
    | error x =>
      obtain rfl := hm'
      exact obeys_unwatched_bind rfl hmay.1 fun _ => hfailed x
    | ok r =>
      obtain rfl := hm'
      dsimp only
      split
      · rename_i hlt
        exact ⟨rfl, rfl, hlt⟩
      · rename_i hge
        have hunwanted : Unwanted r := by
          refine ⟨by omega, by omega, fun hred => ?_⟩
          have := hred.1
          simp only [redirectStatuses, List.mem_cons, List.not_mem_nil, or_false] at this
          omega
        refine Obeys.bind (Q := fun _ m' => True ∧
          m' = { ({ m with left := m.left - 1, token := false } : Watch) with opened := none })
          ((closing_obeys (P := fun _ => True) ((errorBody_obeys r hunwanted).imp
            (fun _ _ h => ⟨trivial, h⟩) fun _ h => h)).imp (fun _ _ h => h) ?_)
          fun body m' hm' => ?_
        · rintro _ rfl
          exact rfl
        · obtain ⟨-, rfl⟩ := hm'
          refine obeys_unwatched_bind rfl rfl fun _ => ?_
          exact ⟨rfl, rfl, hmay.2.1, by simp only [hleft]; rfl⟩

theorem attemptOnce_obeys (rq : HttpRequest) (attempt : Nat) {n : Nat} (hfree : Free m)
    (hurl : m.url = some rq.url) (hleft : m.left = n + 1) :
    Obeys F (F.attemptOnce rq attempt) (Tried rq.url m.hops n) Free m := by
  have hpos : 0 < m.left := by omega
  unfold attemptOnce
  split
  · refine Obeys.bind (Q := fun _ m' => m' = { m with token := true }) ?_ ?_
    · intro x
      refine ⟨{ m with token := true }, ?_, ?_⟩
      · simp only [Watch.next]
        exact if_pos hfree
      · cases x with
        | ok _ => exact rfl
        | error _ => exact hfree
    · rintro _ _ rfl
      exact sent_obeys rq attempt hleft ⟨hfree, hurl, hpos, fun _ => rfl⟩
  · rename_i hlimited
    exact sent_obeys rq attempt hleft ⟨hfree, hurl, hpos, fun h => absurd h hlimited⟩

theorem attemptLoop_obeys (rq : HttpRequest) (n : Nat) : ∀ {m : Watch} (attempt : Nat)
    (last : FetchExc), Free m → m.url = some rq.url → m.left = n → attempt + n = F.attempts →
    Obeys F (F.attemptLoop rq n attempt last) (fun r m' => m'.hops = m.hops ∧
      m'.opened = some (r, 0) ∧ r.status < 500) Free m := by
  induction n with
  | zero => exact fun _ _ hfree _ _ _ => hfree
  | succ n ih =>
    intro m attempt last hfree hurl hleft hattempts
    refine (attemptOnce_obeys rq (attempt + 1) hfree hurl hleft).bind fun outcome m₁ h₁ => ?_
    cases outcome with
    | ok r => exact h₁
    | error x =>
      obtain ⟨hhops, hfree₁, hurl₁, hleft₁⟩ := h₁
      have hrest : Obeys F (F.attemptLoop rq n (attempt + 1) x) (fun r m' => m'.hops = m.hops ∧
          m'.opened = some (r, 0) ∧ r.status < 500) Free m₁ := by
        rw [← hhops]
        exact ih (attempt + 1) x hfree₁ hurl₁ hleft₁ (by omega)
      dsimp only
      split
      · refine Obeys.bind (Q := fun _ m' => m' = m₁) ?_ ?_
        · intro y
          refine ⟨m₁, ?_, ?_⟩
          · simp only [Watch.next]
            exact if_pos ⟨hfree₁, by omega, by omega⟩
          · cases y with
            | ok _ => exact rfl
            | error _ => exact hfree₁
        · rintro _ _ rfl
          exact hrest
      · exact hrest

/-! ### Hops -/

theorem resolve_obeys (d : Destination) (hfree : Free m) :
    Obeys F (F.resolve d) (fun _ m' => m' = m) Free m := by
  unfold resolve
  split
  · exact rfl
  · refine obeys_unwatched_bind rfl hfree fun addresses => ?_
    refine (obeys_unwatched rfl).imp (fun _ _ h => h) ?_
    rintro _ rfl
    exact hfree

theorem checkPeer_obeys (d : Destination) (r : Response) (resolved : List String) :
    Obeys F (F.checkPeer d r resolved) (fun _ m' => m' = m) (fun m' => m' = m) m := by
  unfold checkPeer
  cases F.offline with
  | true =>
    change Obeys F (.ret ()) (fun _ m' => m' = m) _ m
    exact rfl
  | false =>
    change Obeys F (step (.checkPeer d.host r.peer resolved)) _ _ m
    exact obeys_unwatched rfl

theorem result_obeys (r : Response) (hops : List (List Char)) (last : List Char)
    (hr : ¬ (r.status ∈ redirectStatuses ∧ (r.header "location").isSome = true)) :
    Obeys F (F.result r hops last) (fun _ => Holding m r) (Holding m r)
      { m with opened := some (r, 0) } := by
  unfold result
  split
  · rename_i hstatus
    have hclock : ∀ {m'} (body : Bytes), Holding m r m' →
        Obeys F (step .clock >>= fun now => .ret (⟨String.ofList last, r.status, body,
          r.header "content-type", now, r.header "etag", r.header "last-modified",
          r.status = 304, hops.map String.ofList⟩ : FetchResult))
          (fun _ => Holding m r) (Holding m r) m' :=
      fun body hm' => obeys_unwatched_bind rfl hm' fun now => hm'
    split
    · exact hclock [] ⟨0, rfl⟩
    · rename_i hmodified
      have hpayload : 200 ≤ r.status ∧ r.status < 300 := hstatus.resolve_left hmodified
      exact (readBody_obeys last r hpayload).bind fun body m' hm' => hclock body hm'
  · rename_i hstatus
    rw [not_or] at hstatus
    exact (errorBody_obeys r ⟨hstatus.2, hstatus.1, hr⟩).bind fun body m' hm' => hm'

theorem answered_obeys (rq : FetchRequest) (hop : Hop) (hops : List (List Char)) (d : Destination)
    (resolved : List String) (r : Response) :
    Obeys F (F.answered rq hop hops d resolved r) (fun _ => Holding m r) (Holding m r)
      { m with opened := some (r, 0) } := by
  have hopen : Holding m r { m with opened := some (r, 0) } := ⟨0, rfl⟩
  refine Obeys.bind ((checkPeer_obeys d r resolved).imp (fun _ _ h => h) ?_) ?_
  · rintro _ rfl
    exact hopen
  rintro _ _ rfl
  refine obeys_unwatched_bind rfl hopen fun redacted => ?_
  split
  · refine obeys_unwatched_bind rfl hopen fun url => ?_
    exact obeys_unwatched_bind rfl hopen fun _ => hopen
  · rename_i hnone
    refine (result_obeys r _ _ fun hred => ?_).bind fun result m' hm' => hm'
    rw [if_pos hred.1] at hnone
    rw [hnone] at hred
    cases hred.2

theorem follow_obeys (rq : FetchRequest) (hop : Hop) (hops : List (List Char)) (hfree : Free m)
    (hbound : m.hops ≤ F.maxRedirects) :
    Obeys F (F.follow rq hop hops) (fun _ m' => Free m' ∧ m'.hops = m.hops + 1) Free m := by
  refine Obeys.bind (Q := fun _ m' => m' = { m with
    hops := m.hops + 1, url := some hop.url, left := F.attempts, token := false }) ?_ ?_
  · intro x
    refine ⟨{ m with
      hops := m.hops + 1, url := Watch.passed hop.url x, left := F.attempts, token := false }, ?_, ?_⟩
    · simp only [Watch.next]
      exact if_pos ⟨hfree, hbound⟩
    · cases x with
      | ok _ => exact rfl
      | error _ => exact hfree
  rintro d _ rfl
  have hfree' : Free { m with
    hops := m.hops + 1, url := some hop.url, left := F.attempts, token := false } := hfree
  refine (resolve_obeys d hfree').bind ?_
  rintro resolved _ rfl
  refine (attemptLoop_obeys _ _ 0 _ hfree' rfl rfl (Nat.zero_add _)).bind
    fun r m₁ ⟨hhops, hopen, _⟩ => ?_
  have hm₁ : m₁ = { m₁ with opened := some (r, 0) } := by
    rw [← hopen]
  rw [hm₁]
  refine (closing_obeys (m := m₁) (P := fun _ => True)
    ((answered_obeys rq hop hops d resolved r).imp (fun _ _ h => ⟨trivial, h⟩)
      fun _ h => h)).imp ?_ ?_
  · rintro _ _ ⟨-, rfl⟩
    exact ⟨rfl, hhops⟩
  · rintro _ rfl
    exact rfl

theorem hopLoop_obeys (rq : FetchRequest) (n : Nat) : ∀ {m : Watch} (hop : Hop)
    (hops : List (List Char)), Free m → m.hops + n ≤ F.maxRedirects + 1 →
    Obeys F (F.hopLoop rq n hop hops) (fun _ => Free) Free m := by
  induction n with
  | zero => exact fun _ _ hfree _ => hfree
  | succ n ih =>
    intro m hop hops hfree hbound
    refine (follow_obeys rq hop hops hfree (by omega)).bind fun outcome m₁ ⟨hfree₁, hhops⟩ => ?_
    cases outcome with
    | inl result => exact hfree₁
    | inr next => exact ih next.1 next.2 hfree₁ (by omega)

theorem fetch_obeys (rq : FetchRequest) :
    Obeys F (F.fetch rq) (fun _ => Free) Free Watch.init :=
  hopLoop_obeys rq _ _ _ rfl (by simp only [Watch.init]; omega)

/-- What a fetch keeps to: the monitor did not object, no response is left open and each was closed
once; beside what is before the first check there are `maxRedirects + 1` hops at most, and in each
the requests go to the URL that it checked and are at most `attempts`. -/
structure Disciplined (F : Fetcher) (h : List FetchEvent) : Prop where
  accepted : ∃ m, Watch.after F h = some m ∧ m.opened = none
  closed : h.countP Watch.isOpening = h.countP Watch.isClosing
  hops : (Watch.hopsOf h).length ≤ 1 + (F.maxRedirects + 1)
  requests : ∀ hop ∈ Watch.hopsOf h, hop.2.length ≤ F.attempts ∧
    ∀ rq ∈ hop.2, hop.1 = some rq.url
  total : h.countP Watch.isSend ≤ (F.maxRedirects + 1) * F.attempts

/-- Whatever the resolver, the servers and the network do, and however a fetch ends. -/
theorem fetch_disciplined (F : Fetcher) (remote : Remote) (rq : FetchRequest) :
    Disciplined F (F.run remote rq).2 := by
  have hwatch : ∀ h c, Watch.after F (F.answer remote h c).2 =
      (Watch.after F h).bind fun m => Watch.next F m c (F.answer remote h c).1 :=
    fun h c => Watch.after_concat F h _
  obtain ⟨m, hm, hend⟩ := Prog.Watched.run hwatch (s := []) (fetch_obeys rq) rfl
  have hfree : m.opened = none := by
    cases hr : ((F.fetch rq).run (F.answer remote) []).1 with
    | ok result =>
      rw [hr] at hend
      exact hend
    | error x =>
      rw [hr] at hend
      exact hend
  have hcounts : Watch.Counts F (F.run remote rq).2 m := Watch.counts_after _ hm
  have hkept : Watch.HopsKept F (F.run remote rq).2 m := Watch.hopsKept_after _ hm
  have hbound := hcounts.hops
  refine ⟨⟨m, hm, hfree⟩, ?_, ?_, hkept.all, ?_⟩
  · rw [hcounts.openings, hfree]
    rfl
  · rw [hkept.length]
    omega
  · have hhops := Nat.mul_le_mul_right F.attempts hcounts.hops
    have hsends := hcounts.sends
    omega

end Fetcher

end EnergyPlatform
