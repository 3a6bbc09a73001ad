import Mathlib.Data.List.Basic

/-!
# Fetch.ObjectStore

The request loop of the object-store client: a request is tried until an answer below 500 comes
back or the attempts of the retry policy are used up.

A try that fails may have reached the store first. `request_cases` says what the caller and the
store are left with: nothing done, done and reported, or done once with the first report lost.
-/

namespace EnergyPlatform

structure ObjectStoreError where
  code : String
  message : String
deriving DecidableEq

def ObjectStoreError.text (e : ObjectStoreError) : String := e.code ++ ": " ++ e.message

/-- An answer below 500. -/
inductive Reply (α : Type) where
  | ok (content : α)
  | notFound
  | preconditionFailed
deriving DecidableEq

/-- What becomes of one try. A failure is a transport error or an answer from 500 on, kept as the
exception the client raises when it was the last try. -/
inductive RequestFault where
  | answered
  /-- The store did not act. -/
  | dropped (e : ObjectStoreError)
  /-- The store acted, its answer did not arrive. -/
  | lost (e : ObjectStoreError)
deriving DecidableEq

def RequestFault.acted : RequestFault → Bool
  | answered | lost _ => true
  | dropped _ => false

namespace ObjectStore

section Request

variable {σ ρ : Type} {Ans : ρ → Type} (serve : σ → (rq : ρ) → Ans rq × σ)

/-- The tries that are left of `_request`, and the last error. -/
def requestLoop (rq : ρ) : List RequestFault → ObjectStoreError → σ →
    Except ObjectStoreError (Ans rq) × σ
  | [], last, s => (.error last, s)
  | .answered :: _, _, s => (.ok (serve s rq).1, (serve s rq).2)
  | .dropped e :: rest, _, s => requestLoop rq rest e s
  | .lost e :: rest, _, s => requestLoop rq rest e (serve s rq).2

/-- `_request`: one element of `tries` for each attempt of the retry policy. -/
def request (tries : List RequestFault) (rq : ρ) (s : σ) :
    Except ObjectStoreError (Ans rq) × σ :=
  requestLoop serve rq tries ⟨"request_failed", "no attempt made"⟩ s

/-- Some try was answered. -/
def Answered (tries : List RequestFault) : Prop := .answered ∈ tries

/-- Some try reached the store. -/
def Acted (tries : List RequestFault) : Prop := ∃ f ∈ tries, f.acted = true

/-- The first try that reached the store was not answered, a later one was. -/
def Doubtful (tries : List RequestFault) : Prop :=
  Answered tries ∧ tries.find? RequestFault.acted ≠ some .answered

instance (tries : List RequestFault) : Decidable (Answered tries) :=
  inferInstanceAs (Decidable (_ ∈ _))

instance (tries : List RequestFault) : Decidable (Acted tries) :=
  inferInstanceAs (Decidable (∃ f ∈ tries, f.acted = true))

instance (tries : List RequestFault) : Decidable (Doubtful tries) :=
  inferInstanceAs (Decidable (_ ∧ _))

variable {serve} {rq : ρ}

theorem answered_cons {f : RequestFault} {rest : List RequestFault} (hf : f ≠ .answered) :
    Answered (f :: rest) ↔ Answered rest := by
  simp only [Answered, List.mem_cons, or_iff_right (Ne.symm hf)]

/-- A request that changes nothing is answered or raises. -/
theorem requestLoop_still {s : σ} (hs : (serve s rq).2 = s) (tries : List RequestFault) : ∀ last,
    (Answered tries ∧ requestLoop serve rq tries last s = (.ok (serve s rq).1, s)) ∨
    (¬ Answered tries ∧ ∃ e, requestLoop serve rq tries last s = (.error e, s)) := by
  induction tries with
  | nil => exact fun last => .inr ⟨List.not_mem_nil, last, rfl⟩
  | cons f rest ih =>
    intro last
    cases f with
    | answered => exact .inl ⟨List.mem_cons_self, by rw [requestLoop, hs]⟩
    | dropped e =>
      rw [answered_cons (fun h => by cases h), requestLoop]
      exact ih e
    | lost e =>
      rw [answered_cons (fun h => by cases h), requestLoop, hs]
      exact ih e

variable (serve rq) in
theorem request_still {s : σ} (hs : (serve s rq).2 = s) (tries : List RequestFault) :
    (Answered tries ∧ request serve tries rq s = (.ok (serve s rq).1, s)) ∨
    (¬ Answered tries ∧ ∃ e, request serve tries rq s = (.error e, s)) :=
  requestLoop_still hs tries _

variable (serve rq) in
/-- A request that acts once: `q` is the state it leaves, and it changes nothing there. -/
theorem request_cases {s q : σ} (hs : (serve s rq).2 = q) (hq : (serve q rq).2 = q)
    (tries : List RequestFault) :
    (¬ Acted tries ∧ ∃ e, request serve tries rq s = (.error e, s)) ∨
    (Acted tries ∧ ¬ Answered tries ∧ ∃ e, request serve tries rq s = (.error e, q)) ∨
    (Answered tries ∧ ¬ Doubtful tries ∧
      request serve tries rq s = (.ok (serve s rq).1, q)) ∨
    (Doubtful tries ∧ request serve tries rq s = (.ok (serve q rq).1, q)) := by
  unfold request
  generalize (⟨"request_failed", "no attempt made"⟩ : ObjectStoreError) = last
  induction tries generalizing last with
  | nil => exact .inl ⟨by simp [Acted], last, rfl⟩
  | cons f rest ih =>
    cases f with
    | answered =>
      refine .inr (.inr (.inl ⟨by simp [Answered], ?_, by rw [requestLoop, hs]⟩))
      simp [Doubtful, RequestFault.acted]
    | dropped e =>
      have hacted : Acted (.dropped e :: rest) ↔ Acted rest := by simp [Acted, RequestFault.acted]
      have hanswered : Answered (.dropped e :: rest) ↔ Answered rest :=
        answered_cons fun h => by cases h
      have hdoubtful : Doubtful (.dropped e :: rest) ↔ Doubtful rest := by
        simp [Doubtful, hanswered, RequestFault.acted]
      rw [hacted, hanswered, hdoubtful]
      exact ih e
    | lost e =>
      have hacted : Acted (.lost e :: rest) := ⟨_, List.mem_cons_self, rfl⟩
      have hanswered : Answered (.lost e :: rest) ↔ Answered rest :=
        answered_cons fun h => by cases h
      rw [requestLoop, hs]
      rcases requestLoop_still hq rest e with ⟨ha, hloop⟩ | ⟨ha, hloop⟩
      · refine .inr (.inr (.inr ⟨⟨hanswered.mpr ha, ?_⟩, hloop⟩))
        simp [RequestFault.acted]
      · exact .inr (.inl ⟨hacted, fun h => ha (hanswered.mp h), hloop⟩)

variable (serve rq) in
/-- What the store keeps, a request keeps. -/
theorem request_keeps {I : σ → Prop} (hI : ∀ s, I s → I (serve s rq).2) (tries : List RequestFault)
    {s : σ} (hs : I s) : I (request serve tries rq s).2 := by
  unfold request
  generalize (⟨"request_failed", "no attempt made"⟩ : ObjectStoreError) = last
  induction tries generalizing last s with
  | nil => exact hs
  | cons f rest ih =>
    cases f with
    | answered => exact hI s hs
    | dropped e => exact ih hs e
    | lost e => exact ih (hI s hs) e

end Request

end ObjectStore

end EnergyPlatform
