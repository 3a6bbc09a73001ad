import EnergyPlatform.Fetch.Fetcher
import EnergyPlatform.Lib.Watch

/-!
# Fetch.Outcome

What a fetch can end in, whatever the remote side answers.

`fetch_outcome`: a payload within the cap with its hops, or an exception that a check, the resolver or
the reading of a body raised, or one of the fetcher's own: a refusal with the head of its body, too
many redirects, a payload that is too large, or no attempt left.
-/

namespace EnergyPlatform

open Lib (Prog)

namespace Fetcher

variable {F : Fetcher} {α β : Type}

/-- The exceptions that steps raised, but for a request that did not get through. -/
def raisedBy (seen : List FetchExc) :
    (c : FetchCall) → Except FetchExc c.Ret → Option (List FetchExc)
  | .send _, .error (.transport _) => some seen
  | _, .error e => some (e :: seen)
  | _, .ok _ => some seen

/-- The exceptions of a history. -/
def raisedIn (h : List FetchEvent) : Option (List FetchExc) :=
  h.foldlM (fun seen e => raisedBy seen e.call e.result) []

theorem raisedIn_concat (h : List FetchEvent) (e : FetchEvent) :
    raisedIn (h ++ [e]) = (raisedIn h).bind fun seen => raisedBy seen e.call e.result := by
  simp [raisedIn, List.foldlM_append]

/-- A status that is answered with a result. -/
def Accepted (status : Nat) : Prop := status = 304 ∨ (200 ≤ status ∧ status < 300)

/-- What the fetcher raises of its own. -/
def Refused : FetchExc → Prop
  | .failed status _ body => ¬ Accepted status ∧ body.length ≤ errorBodyBytes
  | .egress reason _ =>
    reason = "too_many_redirects" ∨ reason = "response_too_large" ∨ reason = "fetch_error"
  | _ => False

/-- The program returns only what satisfies `Q`, and raises what a step raised or a refusal. -/
def Outcomes (p : Fetch α) (Q : α → Prop) : Prop :=
  ∀ seen, p.Watched raisedBy (fun a _ => Q a) (fun e seen' => e ∈ seen' ∨ Refused e) seen

theorem Outcomes.bind {p : Fetch α} {f : α → Fetch β} {Q : α → Prop} {R : β → Prop}
    (hp : Outcomes p Q) (hf : ∀ a, Q a → Outcomes (f a) R) : Outcomes (p.bind f) R :=
  fun seen => Prog.Watched.bind (hp seen) fun a seen' ha => hf a ha seen'

theorem Outcomes.imp {p : Fetch α} {Q Q' : α → Prop} (hp : Outcomes p Q) (hQ : ∀ a, Q a → Q' a) :
    Outcomes p Q' :=
  fun seen => Prog.Watched.imp (hp seen) (fun a _ h => hQ a h) fun _ _ h => h

theorem outcomes_ret {a : α} {Q : α → Prop} (h : Q a) : Outcomes (.ret a : Fetch α) Q := fun _ => h

theorem outcomes_refuse {e : FetchExc} {Q : α → Prop} (h : Refused e) :
    Outcomes (.raise e : Fetch α) Q := fun _ => .inr h

theorem raisedBy_ok (seen : List FetchExc) (c : FetchCall) (a : c.Ret) :
    raisedBy seen c (.ok a) = some seen := by
  cases c <;> rfl

/-- What a step raises is remembered, unless a request did not get through. -/
theorem raisedBy_error (seen : List FetchExc) {c : FetchCall} (hc : ∀ rq, c ≠ .send rq)
    (e : FetchExc) : raisedBy seen c (.error e) = some (e :: seen) := by
  cases c
  case send rq => exact absurd rfl (hc rq)
  all_goals cases e <;> rfl

/-- A step other than a request. -/
theorem outcomes_step {c : FetchCall} (hc : ∀ rq, c ≠ .send rq) :
    Outcomes (step c) fun _ => True := by
  intro seen
  refine Prog.Watched.perform (fun a => ⟨seen, raisedBy_ok seen c a, trivial⟩) fun e => ?_
  exact ⟨e :: seen, raisedBy_error seen hc e, .inl List.mem_cons_self⟩

theorem outcomes_step_bind {c : FetchCall} (hc : ∀ rq, c ≠ .send rq) {f : c.Ret → Fetch β}
    {R : β → Prop} (hf : ∀ a, Outcomes (f a) R) : Outcomes ((step c).bind f) R :=
  (outcomes_step hc).bind fun a _ => hf a

/-! ### Bodies -/

theorem readChunks_outcomes (url : List Char) (left : Nat) :
    Outcomes (F.readChunks url left) fun body => body.length ≤ left := by
  induction left using Nat.strong_induction_on with
  | _ left ih =>
    rw [readChunks]
    intro seen x
    cases x with
    | error e =>
      exact ⟨e :: seen, raisedBy_error seen (by simp) e, .inl List.mem_cons_self⟩
    | ok chunk =>
      refine ⟨seen, raisedBy_ok seen .nextChunk chunk, ?_⟩
      cases chunk with
      | none => exact Nat.zero_le _
      | some chunk =>
        dsimp only
        split
        · rename_i hfits
          have hpos := List.length_pos_of_ne_nil chunk.property
          refine (ih (left - chunk.val.length) (by omega)).bind (fun rest hrest => ?_) seen
          refine outcomes_ret ?_
          rw [List.length_append]
          omega
        · exact Or.inr (Or.inr (Or.inl rfl))

theorem readBody_outcomes (r : Response) (url : List Char) :
    Outcomes (F.readBody r url) fun body => body.length ≤ F.maxBodyBytes := by
  have hchunks := readChunks_outcomes (F := F) url F.maxBodyBytes
  unfold readBody
  split
  · rename_i declared _
    have habove : Outcomes (F.declaredAbove declared) fun _ => True := by
      unfold declaredAbove
      split
      · exact outcomes_step_bind (by simp) fun n => outcomes_ret trivial
      · exact outcomes_ret trivial
    refine habove.bind fun above _ => ?_
    split
    · exact outcomes_refuse (Or.inr (Or.inl rfl))
    · exact hchunks
  · exact hchunks

theorem errorChunks_outcomes (left : Nat) : Outcomes (errorChunks left) fun _ => True := by
  induction left using Nat.strong_induction_on with
  | _ left ih =>
    rw [errorChunks]
    intro seen x
    cases x with
    | error e =>
      exact ⟨e :: seen, raisedBy_error seen (by simp) e, .inl List.mem_cons_self⟩
    | ok chunk =>
      refine ⟨seen, raisedBy_ok seen .nextChunk chunk, ?_⟩
      cases chunk with
      | none => exact trivial
      | some chunk =>
        dsimp only
        split
        · exact trivial
        · have hpos := List.length_pos_of_ne_nil chunk.property
          exact (ih (left - chunk.val.length) (by omega)).bind (fun _ _ => outcomes_ret trivial) seen

theorem errorBody_outcomes : Outcomes errorBody fun body => body.length ≤ errorBodyBytes :=
  (errorChunks_outcomes errorBodyBytes).bind fun _ _ => outcomes_ret (List.length_take_le _ _)

theorem closing_outcomes {p : Fetch α} {Q : α → Prop} (hp : Outcomes p Q) :
    Outcomes (closing p) Q := by
  have htry : Outcomes (p.tryCatch fun e => (step .close).bind fun _ => .raise e) Q := by
    refine fun seen => Prog.Watched.tryCatch (hp seen) fun e seen' he => ?_
    intro x
    cases x with
    | ok u => exact ⟨seen', raisedBy_ok seen' .close u, he⟩
    | error e' =>
      exact ⟨e' :: seen', raisedBy_error seen' (by simp) e', .inl List.mem_cons_self⟩
  exact htry.bind fun a ha => outcomes_step_bind (by simp) fun _ => outcomes_ret ha

/-! ### Attempts -/

/-- What an attempt may leave for the next. -/
def Retried (e : FetchExc) : Prop := (∃ message, e = .transport message) ∨ Refused e

theorem refused_giveUp (rq : HttpRequest) {e : FetchExc} (h : Retried e) : Refused (giveUp rq e) := by
  cases e with
  | failed status url body =>
    rcases h with ⟨message, hm⟩ | h
    · cases hm
    · exact h
  | _ => exact Or.inr (Or.inr rfl)

/-- A step that is taken only under a condition. -/
theorem outcomes_when {cond : Prop} [Decidable cond] {p : Fetch Unit} {k : Unit → Fetch β}
    {R : β → Prop} (hp : Outcomes p fun _ => True) (hk : Outcomes (k ()) R) :
    Outcomes (if cond then p.bind k else (Prog.ret ()).bind k) R := by
  split
  · exact hp.bind fun _ _ => hk
  · exact hk

theorem attemptOnce_outcomes (rq : HttpRequest) (attempt : Nat) :
    Outcomes (F.attemptOnce rq attempt) fun outcome => ∀ e, outcome = .error e → Retried e := by
  unfold attemptOnce
  refine outcomes_when (p := step .acquire) (outcomes_step (by simp)) ?_
  refine Outcomes.bind (Q := fun sent => ∀ e, sent = .error e → ∃ message, e = .transport message)
    ?_ fun sent hfailed => ?_
  · intro seen x
    cases x with
    | ok r => exact ⟨seen, raisedBy_ok seen (.send rq) r, fun e he => by cases he⟩
    | error x =>
      cases x with
      | transport message =>
        refine ⟨seen, rfl, fun e he => ?_⟩
        cases he
        exact ⟨message, rfl⟩
      | _ => exact ⟨_, rfl, .inl List.mem_cons_self⟩
  · cases sent with
    | error e =>
      refine outcomes_step_bind (by simp) fun _ => outcomes_ret fun e' he => ?_
      cases he
      exact .inl (hfailed e rfl)
    | ok r =>
      dsimp only
      split
      · exact outcomes_ret fun e he => by cases he
      · rename_i hstatus
        refine (closing_outcomes errorBody_outcomes).bind fun body hbody => ?_
        refine outcomes_step_bind (by simp) fun _ => outcomes_ret fun e he => ?_
        cases he
        refine .inr ⟨?_, hbody⟩
        rintro (h | h) <;> omega

theorem attemptLoop_outcomes (rq : HttpRequest) (n : Nat) : ∀ (attempt : Nat) (last : FetchExc),
    Retried last → Outcomes (F.attemptLoop rq n attempt last) fun _ => True := by
  induction n with
  | zero => exact fun _ _ h => outcomes_refuse (refused_giveUp rq h)
  | succ n ih =>
    intro attempt last _
    refine (attemptOnce_outcomes rq (attempt + 1)).bind fun outcome houtcome => ?_
    cases outcome with
    | ok r => exact outcomes_ret trivial
    | error e =>
      have hnext := ih (attempt + 1) e (houtcome e rfl)
      dsimp only
      split
      · exact outcomes_step_bind (by simp) fun _ => hnext
      · exact hnext

/-! ### Hops -/

/-- A result of the response that was answered last. -/
structure Answers (F : Fetcher) (hops : List (List Char)) (last : List Char) (result : FetchResult) :
    Prop where
  status : Accepted result.status
  notModified : result.notModified = decide (result.status = 304)
  empty : result.status = 304 → result.body = []
  body : result.body.length ≤ F.maxBodyBytes
  hops : result.hops = hops.map String.ofList
  url : result.url = String.ofList last

theorem result_outcomes (r : Response) (hops : List (List Char)) (last : List Char) :
    Outcomes (F.result r hops last) (Answers F hops last) := by
  unfold result
  split
  · rename_i hstatus
    have hclock : ∀ body : Bytes, (r.status = 304 → body = []) → body.length ≤ F.maxBodyBytes →
        Outcomes (step .clock >>= fun now => .ret (⟨String.ofList last, r.status, body,
          r.header "content-type", now, r.header "etag", r.header "last-modified",
          r.status = 304, hops.map String.ofList⟩ : FetchResult)) (Answers F hops last) :=
      fun body hempty hbody => outcomes_step_bind (by simp) fun now =>
        outcomes_ret ⟨hstatus, rfl, hempty, hbody, rfl, rfl⟩
    split
    · exact hclock [] (fun _ => rfl) (Nat.zero_le _)
    · rename_i hmodified
      exact (readBody_outcomes r last).bind fun body hbody =>
        hclock body (fun h => absurd h hmodified) hbody
  · rename_i hstatus
    exact errorBody_outcomes.bind fun body hbody => outcomes_refuse ⟨hstatus, hbody⟩

/-- A hop ends in a result, or adds itself to the hops. -/
def Hopped (F : Fetcher) (hops : List (List Char)) : HopOutcome → Prop
  | .inl result => ∃ last, Answers F (hops ++ [last]) last result
  | .inr next => next.2.length = hops.length + 1

theorem answered_outcomes (rq : FetchRequest) (hop : Hop) (hops : List (List Char))
    (d : Destination) (resolved : List String) (r : Response) :
    Outcomes (F.answered rq hop hops d resolved r) (Hopped F hops) := by
  have hpeer : Outcomes (F.checkPeer d r resolved) fun _ => True := by
    unfold checkPeer
    cases F.offline with
    | true => exact outcomes_ret trivial
    | false => exact outcomes_step (by simp)
  refine hpeer.bind fun _ _ => ?_
  refine outcomes_step_bind (by simp) fun redacted => ?_
  split
  · refine outcomes_step_bind (by simp) fun url => ?_
    refine outcomes_step_bind (by simp) fun _ => outcomes_ret ?_
    exact List.length_append
  · exact (result_outcomes r _ redacted).bind fun result h => outcomes_ret ⟨redacted, h⟩

theorem follow_outcomes (rq : FetchRequest) (hop : Hop) (hops : List (List Char)) :
    Outcomes (F.follow rq hop hops) (Hopped F hops) := by
  refine outcomes_step_bind (by simp) fun d => ?_
  have hresolve : Outcomes (F.resolve d) fun _ => True := by
    unfold resolve
    split
    · exact outcomes_ret trivial
    · exact outcomes_step_bind (by simp) fun _ => outcomes_step (by simp)
  refine hresolve.bind fun resolved _ => ?_
  have hnone : Refused (.egress "fetch_error" "no attempt made") := Or.inr (Or.inr rfl)
  refine (attemptLoop_outcomes _ _ 0 _ (.inr hnone)).bind fun r _ => ?_
  exact closing_outcomes (answered_outcomes rq hop hops d resolved r)

/-- What a fetch returns: an accepted status, a body within the cap, empty where nothing changed, and
the redacted URLs it went through, the last of them as its own. -/
structure Delivered (F : Fetcher) (result : FetchResult) : Prop where
  status : Accepted result.status
  notModified : result.notModified = decide (result.status = 304)
  empty : result.status = 304 → result.body = []
  body : result.body.length ≤ F.maxBodyBytes
  hops : result.hops.length ≤ F.maxRedirects + 1
  url : result.hops.getLast? = some result.url

theorem hopLoop_outcomes (rq : FetchRequest) (n : Nat) : ∀ (hop : Hop) (hops : List (List Char)),
    hops.length + n ≤ F.maxRedirects + 1 → Outcomes (F.hopLoop rq n hop hops) (Delivered F) := by
  induction n with
  | zero => exact fun _ _ _ => outcomes_refuse (Or.inl rfl)
  | succ n ih =>
    intro hop hops hbound
    refine (follow_outcomes rq hop hops).bind fun outcome houtcome => ?_
    cases outcome with
    | inl result =>
      obtain ⟨last, h⟩ := houtcome
      refine outcomes_ret ⟨h.status, h.notModified, h.empty, h.body, ?_, ?_⟩
      · rw [h.hops, List.length_map, List.length_append, List.length_singleton]
        omega
      · rw [h.hops, h.url, List.map_append]
        exact List.getLast?_append_of_ne_nil _ (List.cons_ne_nil _ _)
    | inr next =>
      refine ih next.1 next.2 ?_
      rw [houtcome]
      omega

/-- However the remote side answers, a fetch delivers a result of that shape, or raises what one of its
steps raised (a request that did not get through is none of them) or one of its own refusals. -/
theorem fetch_outcome (F : Fetcher) (remote : Remote) (rq : FetchRequest) :
    match (F.run remote rq).1 with
    | .ok result => Delivered F result
    | .error e => Refused e ∨ ∃ seen, raisedIn (F.run remote rq).2 = some seen ∧ e ∈ seen := by
  have houtcome : Outcomes (F.fetch rq) (Delivered F) :=
    hopLoop_outcomes rq _ _ _ (by rw [List.length_nil]; omega)
  have hwatch : ∀ h c, raisedIn (F.answer remote h c).2 =
      (raisedIn h).bind fun seen => raisedBy seen c (F.answer remote h c).1 :=
    fun h c => raisedIn_concat h _
  obtain ⟨seen, hseen, hend⟩ := Prog.Watched.run hwatch (s := []) (houtcome []) rfl
  rw [run]
  cases hr : ((F.fetch rq).run (F.answer remote) []).1 with
  | ok result =>
    rw [hr] at hend
    exact hend
  | error e =>
    rw [hr] at hend
    exact hend.symm.imp id fun he => ⟨seen, hseen, he⟩

end Fetcher

end EnergyPlatform
