import EnergyPlatform.Lib.Interleave

/-!
# Lib.Rely

A program that abides by an invariant and a rely: each of its calls keeps both, wherever the others
have taken the world meanwhile, and where it returns a postcondition holds.

`Abides.bind`, `Abides.tryCatch` and `Abides.call` are the rules; each hands on that the world came
on as the rely allows. `Run.abides`: programs that abide do so together, whatever the order of their
calls and wherever they stop.
-/

namespace Lib

namespace Prog

variable {Op : Type} {Ret : Op → Type} {ε α β σ ι : Type}

/-- An invariant, and a rely that the others keep to. -/
structure Rely (ans : σ → (o : Op) → Except ε (Ret o) → σ → Prop) where
  inv : σ → Prop
  rely : σ → σ → Prop
  refl : ∀ s, rely s s
  trans : ∀ s s' s'', rely s s' → rely s' s'' → rely s s''

section Abides

variable {ans : σ → (o : Op) → Except ε (Ret o) → σ → Prop} (R : Rely ans)

def Abides (Q : α → σ → Prop) (p : Prog Ret ε α) (s : σ) : Prop :=
  ∀ mine, Safe ans R.inv R.rely (fun _ => True)
    (fun _ r s' => R.rely s s' ∧ ∀ a, r = .ok a → Q a s') p mine s

variable {R} {Q : α → σ → Prop}

namespace Abides

theorem ret {a : α} {s : σ} (h : ∀ s', R.rely s s' → R.inv s' → Q a s') :
    Abides R Q (ret a : Prog Ret ε α) s := by
  intro mine s' hr hi
  refine ⟨hr, fun b hb => ?_⟩
  cases hb
  exact h s' hr hi

theorem raise {e : ε} {s : σ} : Abides R Q (raise e : Prog Ret ε α) s := by
  intro mine s' hr _
  exact ⟨hr, fun b hb => by cases hb⟩

/-- The rule of consequence. -/
theorem imp {Q' : α → σ → Prop} {p : Prog Ret ε α} {s : σ} (h : Abides R Q p s)
    (hQ : ∀ a s', R.rely s s' → R.inv s' → Q a s' → Q' a s') : Abides R Q' p s := by
  intro mine
  refine (h mine).mono fun _ r s' hi hq => ?_
  obtain ⟨hr, hq⟩ := hq
  exact ⟨hr, fun a ha => hQ a s' hr hi (hq a ha)⟩

theorem bind {Q' : β → σ → Prop} {p : Prog Ret ε α} {f : α → Prog Ret ε β} {s : σ} (hi : R.inv s)
    (hp : Abides R Q p s) (hf : ∀ a s', R.rely s s' → R.inv s' → Q a s' → Abides R Q' (f a) s') :
    Abides R Q' (p.bind f) s := by
  intro mine
  refine Safe.bind R.refl hi ((hp mine).mono fun mine' r s' hi' hq => ?_)
  obtain ⟨hr, hq⟩ := hq
  cases r with
  | ok a =>
    refine (hf a s' hr hi' (hq a rfl) mine').mono fun _ r s'' _ hq' => ?_
    exact ⟨R.trans _ _ _ hr hq'.1, hq'.2⟩
  | error e => exact ⟨hr, fun b hb => by cases hb⟩

/-- A handler starts from wherever the program raised. -/
theorem tryCatch {p : Prog Ret ε α} {h : ε → Prog Ret ε α} {s : σ} (hi : R.inv s)
    (hp : Abides R Q p s) (hh : ∀ e s', R.rely s s' → R.inv s' → Abides R Q (h e) s') :
    Abides R Q (p.tryCatch h) s := by
  intro mine
  refine Safe.tryCatch R.refl hi ((hp mine).mono fun mine' r s' hi' hq => ?_)
  obtain ⟨hr, hq⟩ := hq
  cases r with
  | ok a => exact ⟨hr, hq⟩
  | error e =>
    refine (hh e s' hr hi' mine').mono fun _ r s'' _ hq' => ?_
    exact ⟨R.trans _ _ _ hr hq'.1, hq'.2⟩

/-- One call: what it does to the world, and what its answer says from then on. -/
theorem call {o : Op} {Q : Ret o → σ → Prop} {s : σ}
    (h : ∀ s₁ r s₂, R.rely s s₁ → R.inv s₁ → ans s₁ o r s₂ → R.inv s₂ ∧ R.rely s₁ s₂ ∧
      ∀ a, r = .ok a → ∀ s', R.rely s₂ s' → R.inv s' → Q a s') :
    Abides R Q (perform o : Prog Ret ε (Ret o)) s := by
  intro mine
  refine ⟨trivial, fun s₁ r s₂ hr hi ha => ?_⟩
  obtain ⟨hi₂, hr₂, hq⟩ := h s₁ r s₂ hr hi ha
  refine ⟨hi₂, hr₂, ?_⟩
  cases r with
  | ok a =>
    intro s' hr' hi'
    refine ⟨R.trans _ _ _ hr (R.trans _ _ _ hr₂ hr'), fun b hb => ?_⟩
    cases hb
    exact hq a rfl s' hr' hi'
  | error e =>
    intro s' hr' _
    exact ⟨R.trans _ _ _ hr (R.trans _ _ _ hr₂ hr'), fun b hb => by cases hb⟩

/-- A program all of whose calls keep the invariant and the rely. -/
theorem of_only {P : Op → Prop}
    (hans : ∀ s o r s', P o → R.inv s → ans s o r s' → R.inv s' ∧ R.rely s s') {p : Prog Ret ε α}
    {s : σ} (hp : p.Only P fun _ => True) : Abides R (fun _ _ => True) p s := by
  induction p generalizing s with
  | ret a => exact .ret fun _ _ _ => trivial
  | raise e => exact .raise
  | call o k ih =>
    intro mine
    refine ⟨trivial, fun s₁ r s₂ hr hi ha => ?_⟩
    obtain ⟨hi₂, hr₂⟩ := hans s₁ o r s₂ hp.1 hi ha
    refine ⟨hi₂, hr₂, ?_⟩
    refine (ih r (s := s₂) (hp.2 r fun _ _ => trivial) _).mono fun _ r s' _ hq => ?_
    exact ⟨R.trans _ _ _ hr (R.trans _ _ _ hr₂ hq.1), hq.2⟩

end Abides

/-- Programs that abide do so together; a returned one left its postcondition. -/
theorem Run.abides [DecidableEq ι] {Q : ι → α → σ → Prop} {c c' : System ι σ Ret ε α}
    {es : List (Event ι σ)} (hi : R.inv c.world)
    (h : ∀ i, Abides R (Q i) (c.threads i) c.world) (hrun : Run ans c es c') :
    R.inv c'.world ∧ ∀ i a, c'.threads i = .ret a → Q i a c'.world := by
  have ht := Run.safe (J := fun _ _ => True)
    (Q := fun i _ r s' => R.rely c.world s' ∧ ∀ a, r = .ok a → Q i a s') R.refl R.trans hi
    (fun i => h i []) hrun
  refine ⟨ht.invariant, fun i a ha => ?_⟩
  exact (ht.returned R.refl ha).2 a rfl

end Abides

end Prog

end Lib
