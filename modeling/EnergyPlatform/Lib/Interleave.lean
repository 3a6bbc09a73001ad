import EnergyPlatform.Lib.Prog
import Mathlib.Data.List.Pairwise
import Mathlib.Logic.Function.Basic

/-!
# Lib.Interleave

Several programs over one world, their calls interleaved in any order. There may be any number of
programs; a call is one atomic step, answered as the relation `ans` permits.

`Safe` says of one program what it does while the others keep the rely `R` and the invariant `I`:
each of its calls keeps both, `J` holds of the calls it has made so far while it runs, and `Q` of
them and its result once it stopped. `Run.safe` puts the programs together.
-/

namespace Lib

namespace Prog

variable {Op : Type} {Ret : Op → Type} {ε α β σ ι : Type}

/-- One world and the programs left to run over it. -/
structure System (ι σ : Type) (Ret : Op → Type) (ε α : Type) where
  world : σ
  threads : ι → Prog Ret ε α

/-- One call: who made it, and the world around it. -/
structure Event (ι σ : Type) where
  thread : ι
  before : σ
  after : σ

section Semantics

variable [DecidableEq ι] (ans : σ → (o : Op) → Except ε (Ret o) → σ → Prop)

inductive Step : System ι σ Ret ε α → Event ι σ → System ι σ Ret ε α → Prop where
  | call {c : System ι σ Ret ε α} {i : ι} {o : Op} {k : Except ε (Ret o) → Prog Ret ε α}
      {r : Except ε (Ret o)} {s : σ} (hi : c.threads i = .call o k) (ha : ans c.world o r s) :
      Step c ⟨i, c.world, s⟩ ⟨s, Function.update c.threads i (k r)⟩

/-- The calls made so far, oldest first. -/
inductive Run (c : System ι σ Ret ε α) : List (Event ι σ) → System ι σ Ret ε α → Prop where
  | start : Run c [] c
  | step {es : List (Event ι σ)} {e : Event ι σ} {c' c'' : System ι σ Ret ε α} :
      Run c es c' → Step ans c' e c'' → Run c (es ++ [e]) c''

/-- Let the programs make calls in the given order, the last of the list first; one that has stopped
is passed over. -/
def schedule (answer : σ → (o : Op) → Except ε (Ret o) × σ) (c : System ι σ Ret ε α) :
    List ι → List (Event ι σ) × System ι σ Ret ε α
  | [] => ([], c)
  | i :: rest =>
    let (es, c) := schedule answer c rest
    match c.threads i with
    | ret _ | raise _ => (es, c)
    | call o k =>
      let (r, s) := answer c.world o
      (es ++ [⟨i, c.world, s⟩], ⟨s, Function.update c.threads i (k r)⟩)

theorem schedule_run {answer : σ → (o : Op) → Except ε (Ret o) × σ}
    (hans : ∀ s o, ans s o (answer s o).1 (answer s o).2) (c : System ι σ Ret ε α) (order : List ι) :
    Run ans c (schedule answer c order).1 (schedule answer c order).2 := by
  induction order with
  | nil => exact .start
  | cons i rest ih =>
    simp only [schedule]
    split
    · exact ih
    · exact ih
    · rename_i o k hi
      exact .step ih (.call hi (hans _ _))

end Semantics

/-- What thread `i` did, call by call. -/
def own [DecidableEq ι] (i : ι) (es : List (Event ι σ)) : List (σ × σ) :=
  (es.filter fun e => e.thread = i).map fun e => (e.before, e.after)

section Own

variable [DecidableEq ι] {i : ι} {es : List (Event ι σ)} {e : Event ι σ}

theorem own_snoc_self (es : List (Event ι σ)) (e : Event ι σ) :
    own e.thread (es ++ [e]) = own e.thread es ++ [(e.before, e.after)] := by
  simp [own, List.filter_append]

theorem own_snoc_ne (h : e.thread ≠ i) : own i (es ++ [e]) = own i es := by
  simp [own, List.filter_append, h]

theorem mem_own {p : σ × σ} : p ∈ own i es ↔ ∃ e ∈ es, e.thread = i ∧ (e.before, e.after) = p := by
  simp [own, and_assoc]

end Own

/-! ## One program among others -/

section Safe

variable (ans : σ → (o : Op) → Except ε (Ret o) → σ → Prop) (I : σ → Prop) (R : σ → σ → Prop)

def Safe (J : List (σ × σ) → Prop) (Q : List (σ × σ) → Except ε α → σ → Prop) :
    Prog Ret ε α → List (σ × σ) → σ → Prop
  | ret a, mine, s => ∀ s', R s s' → I s' → Q mine (.ok a) s'
  | raise e, mine, s => ∀ s', R s s' → I s' → Q mine (.error e) s'
  | call o k, mine, s => J mine ∧ ∀ s' r s'', R s s' → I s' → ans s' o r s'' →
      I s'' ∧ R s' s'' ∧ Safe J Q (k r) (mine ++ [(s', s'')]) s''

variable {ans I R} {J : List (σ × σ) → Prop} {Q : List (σ × σ) → Except ε α → σ → Prop}

/-- The others may go on. -/
theorem Safe.stable (htrans : ∀ s s' s'', R s s' → R s' s'' → R s s'') {p : Prog Ret ε α}
    {mine : List (σ × σ)} {s s' : σ} (hr : R s s') (h : Safe ans I R J Q p mine s) :
    Safe ans I R J Q p mine s' := by
  cases p with
  | ret a => exact fun s'' hs => h s'' (htrans _ _ _ hr hs)
  | raise e => exact fun s'' hs => h s'' (htrans _ _ _ hr hs)
  | call o k => exact ⟨h.1, fun s₁ r s₂ hs => h.2 s₁ r s₂ (htrans _ _ _ hr hs)⟩

theorem Safe.mono {Q' : List (σ × σ) → Except ε α → σ → Prop}
    (hQ : ∀ mine r s, I s → Q mine r s → Q' mine r s) {p : Prog Ret ε α} :
    ∀ {mine : List (σ × σ)} {s : σ}, Safe ans I R J Q p mine s → Safe ans I R J Q' p mine s := by
  induction p with
  | ret a => exact fun h s' hr hi => hQ _ _ _ hi (h s' hr hi)
  | raise e => exact fun h s' hr hi => hQ _ _ _ hi (h s' hr hi)
  | call o k ih =>
    intro mine s h
    refine ⟨h.1, fun s' r s'' hr hi ha => ?_⟩
    obtain ⟨hi', hr', hk⟩ := h.2 s' r s'' hr hi ha
    exact ⟨hi', hr', ih r hk⟩

/-- Sequencing: the second program starts from whatever the first one left. -/
theorem Safe.bind {Q' : List (σ × σ) → Except ε β → σ → Prop} (hrefl : ∀ s, R s s)
    {p : Prog Ret ε α} {f : α → Prog Ret ε β} : ∀ {mine : List (σ × σ)} {s : σ}, I s →
    Safe ans I R J (fun mine r s => match r with
      | .ok a => Safe ans I R J Q' (f a) mine s
      | .error e => Q' mine (.error e) s) p mine s →
    Safe ans I R J Q' (p.bind f) mine s := by
  induction p with
  | ret a => exact fun hi h => h _ (hrefl _) hi
  | raise e => exact fun _ h => h
  | call o k ih =>
    intro mine s _ h
    refine ⟨h.1, fun s' r s'' hs hi ha => ?_⟩
    obtain ⟨hi', hr', hk⟩ := h.2 s' r s'' hs hi ha
    exact ⟨hi', hr', ih r hi' hk⟩

/-- A handler starts from whatever the program left when it raised. -/
theorem Safe.tryCatch (hrefl : ∀ s, R s s) {p : Prog Ret ε α} {h : ε → Prog Ret ε α} :
    ∀ {mine : List (σ × σ)} {s : σ}, I s →
    Safe ans I R J (fun mine r s => match r with
      | .ok a => Q mine (.ok a) s
      | .error e => Safe ans I R J Q (h e) mine s) p mine s →
    Safe ans I R J Q (p.tryCatch h) mine s := by
  induction p with
  | ret a => exact fun _ hp => hp
  | raise e => exact fun hi hp => hp _ (hrefl _) hi
  | call o k ih =>
    intro mine s _ hp
    refine ⟨hp.1, fun s' r s'' hs hi ha => ?_⟩
    obtain ⟨hi', hr', hk⟩ := hp.2 s' r s'' hs hi ha
    exact ⟨hi', hr', ih r hi' hk⟩

/-- A program all of whose calls keep the invariant and the rely, where nothing else is asked. -/
theorem Safe.of_only {P : Op → Prop} (hans : ∀ s o r s', P o → I s → ans s o r s' → I s' ∧ R s s')
    (hJ : ∀ mine, J mine) (hQ : ∀ mine r s, Q mine r s) {p : Prog Ret ε α}
    (hp : p.Only P fun _ => True) : ∀ {mine : List (σ × σ)} {s : σ}, Safe ans I R J Q p mine s := by
  induction p with
  | ret a => exact fun _ _ _ => hQ _ _ _
  | raise e => exact fun _ _ _ => hQ _ _ _
  | call o k ih =>
    intro mine s
    refine ⟨hJ _, fun s' r s'' _ hi ha => ?_⟩
    obtain ⟨hi', hr'⟩ := hans s' o r s'' hp.1 hi ha
    exact ⟨hi', hr', ih r (hp.2 r fun _ _ => trivial)⟩

/-- One call and what follows its answer. -/
theorem Safe.step {o : Op} {f : Ret o → Prog Ret ε α} {mine : List (σ × σ)} {s : σ} (hJ : J mine)
    (h : ∀ s' r s'', R s s' → I s' → ans s' o r s'' → I s'' ∧ R s' s'' ∧
      (∀ a, r = .ok a → Safe ans I R J Q (f a) (mine ++ [(s', s'')]) s'') ∧
      ∀ e, r = .error e → ∀ s₃, R s'' s₃ → I s₃ → Q (mine ++ [(s', s'')]) (.error e) s₃) :
    Safe ans I R J Q ((perform o).bind f) mine s := by
  refine ⟨hJ, fun s' r s'' hs hi ha => ?_⟩
  obtain ⟨hi', hr', hok, herr⟩ := h s' r s'' hs hi ha
  refine ⟨hi', hr', ?_⟩
  cases r with
  | ok a => exact hok a rfl
  | error e => exact herr e rfl

end Safe

/-! ## Putting the programs together -/

section Together

variable [DecidableEq ι] {ans : σ → (o : Op) → Except ε (Ret o) → σ → Prop} {I : σ → Prop}
  {R : σ → σ → Prop} {J : ι → List (σ × σ) → Prop}
  {Q : ι → List (σ × σ) → Except ε α → σ → Prop} {c c' : System ι σ Ret ε α}
  {es : List (Event ι σ)}

/-- The state of a run: the invariant holds, every program is safe where it stands, and each call
came before the ones after it. -/
structure Together (ans : σ → (o : Op) → Except ε (Ret o) → σ → Prop) (I : σ → Prop)
    (R : σ → σ → Prop) (J : ι → List (σ × σ) → Prop) (Q : ι → List (σ × σ) → Except ε α → σ → Prop)
    (es : List (Event ι σ)) (c : System ι σ Ret ε α) : Prop where
  invariant : I c.world
  safe : ∀ i, Safe ans I R (J i) (Q i) (c.threads i) (own i es) c.world
  since : ∀ e ∈ es, R e.before e.after ∧ R e.after c.world
  order : es.Pairwise fun e e' => R e.after e'.before

theorem Together.step (hrefl : ∀ s, R s s) (htrans : ∀ s s' s'', R s s' → R s' s'' → R s s'')
    (h : Together ans I R J Q es c) {e : Event ι σ} (hs : Step ans c e c') :
    Together ans I R J Q (es ++ [e]) c' := by
  obtain ⟨hi, ha⟩ := hs
  rename_i i o k r s
  have hsafe := h.safe i
  rw [hi] at hsafe
  obtain ⟨hinv, hr, hk⟩ := hsafe.2 c.world r s (hrefl _) h.invariant ha
  refine ⟨hinv, fun j => ?_, fun e he => ?_, ?_⟩
  · by_cases hj : j = i
    · subst hj
      have hown := own_snoc_self es ⟨j, c.world, s⟩
      simp only at hown
      simp only [Function.update_self, hown]
      exact hk
    · rw [own_snoc_ne (Ne.symm hj)]
      simp only [Function.update_of_ne hj]
      exact (h.safe j).stable htrans hr
  · rcases List.mem_append.mp he with he | he
    · exact ⟨(h.since e he).1, htrans _ _ _ (h.since e he).2 hr⟩
    · obtain rfl := List.mem_singleton.mp he
      exact ⟨hr, hrefl s⟩
  · refine List.pairwise_append.mpr ⟨h.order, List.pairwise_singleton _ _, fun e he e' he' => ?_⟩
    obtain rfl := List.mem_singleton.mp he'
    exact (h.since e he).2

/-- Programs that are safe on their own are safe together, whatever the order of their calls. -/
theorem Run.safe (hrefl : ∀ s, R s s) (htrans : ∀ s s' s'', R s s' → R s' s'' → R s s'')
    (hi : I c.world) (h : ∀ i, Safe ans I R (J i) (Q i) (c.threads i) [] c.world)
    (hrun : Run ans c es c') : Together ans I R J Q es c' := by
  induction hrun with
  | start => exact ⟨hi, h, fun _ he => absurd he List.not_mem_nil, List.Pairwise.nil⟩
  | step _ hs ih => exact ih.step hrefl htrans hs

/-- Of two calls by different programs, one came first. -/
theorem Together.either (h : Together ans I R J Q es c) {e e' : Event ι σ} (he : e ∈ es)
    (he' : e' ∈ es) (hne : e.thread ≠ e'.thread) : R e.after e'.before ∨ R e'.after e.before := by
  have hsymm : Std.Symm fun e e' : Event ι σ => R e.after e'.before ∨ R e'.after e.before :=
    ⟨fun _ _ => Or.symm⟩
  have hor : es.Pairwise fun e e' => R e.after e'.before ∨ R e'.after e.before :=
    h.order.imp Or.inl
  exact hor.forall he he' fun heq => hne (congrArg Event.thread heq)

variable (hrefl : ∀ s, R s s) (h : Together ans I R J Q es c)

include hrefl h

theorem Together.returned {i : ι} {a : α} (hi : c.threads i = .ret a) :
    Q i (own i es) (.ok a) c.world := by
  have := h.safe i
  rw [hi] at this
  exact this _ (hrefl _) h.invariant

theorem Together.raised {i : ι} {e : ε} (hi : c.threads i = .raise e) :
    Q i (own i es) (.error e) c.world := by
  have := h.safe i
  rw [hi] at this
  exact this _ (hrefl _) h.invariant

omit hrefl in
theorem Together.running {i : ι} {o : Op} {k : Except ε (Ret o) → Prog Ret ε α}
    (hi : c.threads i = .call o k) : J i (own i es) := by
  have := h.safe i
  rw [hi] at this
  exact this.1

end Together

end Prog

end Lib
