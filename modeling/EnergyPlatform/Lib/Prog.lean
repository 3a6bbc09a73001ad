import Mathlib.Control.Basic

/-!
# Lib.Prog

Programs that make calls on an outside world and may raise exceptions: finite trees whose nodes are
calls. A call is answered with a value or with the exception it raised.

`Prog.run` runs a program alone against a world that answers every call. Small-step semantics of
several programs over one world are in `Lib.Interleave`.
-/

namespace Lib

inductive Prog {Op : Type} (Ret : Op → Type) (ε α : Type) : Type where
  | ret (a : α)
  | raise (e : ε)
  | call (o : Op) (k : Except ε (Ret o) → Prog Ret ε α)

namespace Prog

variable {Op : Type} {Ret : Op → Type} {ε α β γ : Type}

def bind : Prog Ret ε α → (α → Prog Ret ε β) → Prog Ret ε β
  | ret a, f => f a
  | raise e, _ => raise e
  | call o k, f => call o fun r => (k r).bind f

/-- Run `h` on the exception of a program that raises one. -/
def tryCatch : Prog Ret ε α → (ε → Prog Ret ε α) → Prog Ret ε α
  | ret a, _ => ret a
  | raise e, h => h e
  | call o k, h => call o fun r => (k r).tryCatch h

/-- One call; its exception is raised. -/
def perform (o : Op) : Prog Ret ε (Ret o) :=
  call o fun
    | .ok a => ret a
    | .error e => raise e

instance : Monad (Prog Ret ε) where
  pure := ret
  bind := bind

@[simp] theorem pure_eq (a : α) : (pure a : Prog Ret ε α) = ret a := rfl

@[simp] theorem bind_eq (p : Prog Ret ε α) (f : α → Prog Ret ε β) : p >>= f = p.bind f := rfl

@[simp] theorem ret_bind (a : α) (f : α → Prog Ret ε β) : (ret a).bind f = f a := rfl

@[simp] theorem raise_bind (e : ε) (f : α → Prog Ret ε β) : (raise e).bind f = raise e := rfl

@[simp] theorem call_bind (o : Op) (k : Except ε (Ret o) → Prog Ret ε α) (f : α → Prog Ret ε β) :
    (call o k).bind f = call o fun r => (k r).bind f := rfl

theorem bind_assoc (p : Prog Ret ε α) (f : α → Prog Ret ε β) (g : β → Prog Ret ε γ) :
    (p.bind f).bind g = p.bind fun a => (f a).bind g := by
  induction p with
  | ret a => rfl
  | raise e => rfl
  | call o k ih =>
    rw [call_bind, call_bind, call_bind]
    congr 1
    funext r
    exact ih r

/-- Forget the result. -/
def toUnit (p : Prog Ret ε α) : Prog Ret ε Unit := p.bind fun _ => ret ()

/-! ## Running one program alone -/

variable {σ : Type} (answer : σ → (o : Op) → Except ε (Ret o) × σ)

def run : Prog Ret ε α → σ → Except ε α × σ
  | ret a, s => (.ok a, s)
  | raise e, s => (.error e, s)
  | call o k, s => (k (answer s o).1).run (answer s o).2

@[simp] theorem run_ret (a : α) (s : σ) : (ret a : Prog Ret ε α).run answer s = (.ok a, s) := rfl

@[simp] theorem run_raise (e : ε) (s : σ) :
    (raise e : Prog Ret ε α).run answer s = (.error e, s) := rfl

theorem run_call (o : Op) (k : Except ε (Ret o) → Prog Ret ε α) (s : σ) :
    (call o k).run answer s = (k (answer s o).1).run answer (answer s o).2 := rfl

theorem run_perform (o : Op) (s : σ) :
    (perform o : Prog Ret ε (Ret o)).run answer s = answer s o := by
  rw [perform, run_call]
  rcases h : answer s o with ⟨r, s'⟩
  cases r <;> rfl

/-- A program that returned goes on with its result, one that raised stops. -/
theorem run_bind (p : Prog Ret ε α) (f : α → Prog Ret ε β) (s : σ) :
    (p.bind f).run answer s =
      match p.run answer s with
      | (.ok a, s') => (f a).run answer s'
      | (.error e, s') => (.error e, s') := by
  induction p generalizing s with
  | ret a => rfl
  | raise e => rfl
  | call o k ih => exact ih _ _

theorem run_tryCatch (p : Prog Ret ε α) (h : ε → Prog Ret ε α) (s : σ) :
    (p.tryCatch h).run answer s =
      match p.run answer s with
      | (.ok a, s') => (.ok a, s')
      | (.error e, s') => (h e).run answer s' := by
  induction p generalizing s with
  | ret a => rfl
  | raise e => rfl
  | call o k ih => exact ih _ _

theorem run_bind_ok {p : Prog Ret ε α} {f : α → Prog Ret ε β} {s s' : σ} {a : α}
    (h : p.run answer s = (.ok a, s')) : (p.bind f).run answer s = (f a).run answer s' := by
  rw [run_bind, h]

theorem run_bind_error {p : Prog Ret ε α} {f : α → Prog Ret ε β} {s s' : σ} {e : ε}
    (h : p.run answer s = (.error e, s')) : (p.bind f).run answer s = (.error e, s') := by
  rw [run_bind, h]

theorem of_run_bind {p : Prog Ret ε α} {f : α → Prog Ret ε β} {s s' : σ} {b : β}
    (h : (p.bind f).run answer s = (.ok b, s')) :
    ∃ a s₁, p.run answer s = (.ok a, s₁) ∧ (f a).run answer s₁ = (.ok b, s') := by
  rw [run_bind] at h
  rcases hp : p.run answer s with ⟨r, s₁⟩
  rw [hp] at h
  cases r with
  | ok a => exact ⟨a, s₁, rfl, h⟩
  | error e => cases h

theorem of_run_tryCatch {p : Prog Ret ε α} {h : ε → Prog Ret ε α} {s s' : σ} {r : Except ε α}
    (hr : (p.tryCatch h).run answer s = (r, s')) :
    (∃ a, r = .ok a ∧ p.run answer s = (.ok a, s')) ∨
      ∃ e s₁, p.run answer s = (.error e, s₁) ∧ (h e).run answer s₁ = (r, s') := by
  rw [run_tryCatch] at hr
  rcases hp : p.run answer s with ⟨q, s₁⟩
  rw [hp] at hr
  cases q with
  | ok a => cases hr; exact .inl ⟨a, rfl, rfl⟩
  | error e => exact .inr ⟨e, s₁, rfl, hr⟩

/-- What every call keeps, the whole program keeps. -/
theorem run_keeps {I : σ → Prop} (hI : ∀ s o, I s → I (answer s o).2) (p : Prog Ret ε α) {s : σ}
    (hs : I s) : I (p.run answer s).2 := by
  induction p generalizing s with
  | ret a => exact hs
  | raise e => exact hs
  | call o k ih => exact ih _ (hI s o hs)

/-! ## What a program may call and raise -/

/-- Every call of the program satisfies `P`, and as long as calls raise only `E`, so does the
program. -/
def Only (P : Op → Prop) (E : ε → Prop) : Prog Ret ε α → Prop
  | ret _ => True
  | raise e => E e
  | call o k => P o ∧ ∀ r, (∀ e, r = .error e → E e) → (k r).Only P E

namespace Only

variable {P : Op → Prop} {E : ε → Prop}

theorem perform {o : Op} (h : P o) : (Prog.perform o : Prog Ret ε (Ret o)).Only P E := by
  refine ⟨h, fun r hr => ?_⟩
  cases r with
  | ok a => exact trivial
  | error e => exact hr e rfl

theorem bind {p : Prog Ret ε α} {f : α → Prog Ret ε β} (hp : p.Only P E) (hf : ∀ a, (f a).Only P E) :
    (p.bind f).Only P E := by
  induction p with
  | ret a => exact hf a
  | raise e => exact hp
  | call o k ih => exact ⟨hp.1, fun r hr => ih r (hp.2 r hr)⟩

/-- A handler that passes on what satisfies `E` and catches the rest. -/
theorem tryCatch (E' : ε → Prop) {p : Prog Ret ε α} {h : ε → Prog Ret ε α} (hp : p.Only P E')
    (hE : ∀ e, E e → E' e) (hh : ∀ e, E' e → (h e).Only P E) : (p.tryCatch h).Only P E := by
  induction p with
  | ret a => exact trivial
  | raise e => exact hh e hp
  | call o k ih => exact ⟨hp.1, fun r hr => ih r (hp.2 r fun e he => hE e (hr e he))⟩

/-- If the answers to the permitted calls keep `I` and raise only `E`, so does the run. -/
theorem run {I : σ → Prop} {p : Prog Ret ε α} (hp : p.Only P E)
    (hans : ∀ s o, P o → I s → I (answer s o).2 ∧ ∀ e, (answer s o).1 = .error e → E e) {s : σ}
    (hs : I s) : I (p.run answer s).2 ∧ ∀ e, (p.run answer s).1 = .error e → E e := by
  induction p generalizing s with
  | ret a => exact ⟨hs, fun e he => by cases he⟩
  | raise e => exact ⟨hs, fun e' he => by cases he; exact hp⟩
  | call o k ih =>
    obtain ⟨hi, he⟩ := hans s o hp.1 hs
    exact ih _ (hp.2 _ he) hi

end Only

end Prog

end Lib
