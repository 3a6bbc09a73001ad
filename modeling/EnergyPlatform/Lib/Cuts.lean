import EnergyPlatform.Lib.Prog

/-!
# Lib.Cuts

Programs that are cut short. `Prog.cut n` performs at most `n` calls and says what was left to do.

`Prog.Keeps risky I Q` is a precondition under which a program can be cut: `I` holds before every
call that is not `risky` and when it raises, and `Q` when it returns. `Keeps.bind`,
`Keeps.tryCatch` and `Keeps.imp` are its rules. `Keeps.run` and `Keeps.cut` say what it means: a run
that returned ends in `Q`, and a cut that was not before a risky call left `I`.
-/

namespace Lib

namespace Prog

variable {Op : Type} {Ret : Op → Type} {ε α β σ : Type}
variable (answer : σ → (o : Op) → Except ε (Ret o) × σ)

/-- At most `n` calls: the rest of the program, and the world it was left in. -/
def cut : Nat → Prog Ret ε α → σ → Prog Ret ε α × σ
  | 0, p, s => (p, s)
  | n + 1, call o k, s => cut n (k (answer s o).1) (answer s o).2
  | _ + 1, p, s => (p, s)

/-- The call a program is about to make. -/
def next : Prog Ret ε α → Option Op
  | call o _ => some o
  | _ => none

def Keeps (risky : Op → Prop) (I : σ → Prop) (Q : α → σ → Prop) : Prog Ret ε α → σ → Prop
  | ret a, s => Q a s
  | raise _, s => I s
  | call o k, s => (¬ risky o → I s) ∧ (k (answer s o).1).Keeps risky I Q (answer s o).2

variable {answer}

namespace Keeps

variable {risky : Op → Prop} {I : σ → Prop} {Q : α → σ → Prop} {R : β → σ → Prop}

theorem bind {p : Prog Ret ε α} {f : α → Prog Ret ε β} {s : σ} (hp : p.Keeps answer risky I Q s)
    (hf : ∀ a s', Q a s' → (f a).Keeps answer risky I R s') :
    (p.bind f).Keeps answer risky I R s := by
  induction p generalizing s with
  | ret a => exact hf a s hp
  | raise e => exact hp
  | call o k ih => exact ⟨hp.1, ih _ hp.2⟩

/-- The rule of consequence. -/
theorem imp {p : Prog Ret ε α} {s : σ} {Q' : α → σ → Prop} (h : p.Keeps answer risky I Q s)
    (hq : ∀ a s, Q a s → Q' a s) : p.Keeps answer risky I Q' s := by
  induction p generalizing s with
  | ret a => exact hq a s h
  | raise e => exact h
  | call o k ih => exact ⟨h.1, ih _ h.2⟩

/-- A handler starts from what the exception left. -/
theorem tryCatch {p : Prog Ret ε α} {f : ε → Prog Ret ε α} {s : σ}
    (hp : p.Keeps answer risky I Q s) (hf : ∀ e s', I s' → (f e).Keeps answer risky I Q s') :
    (p.tryCatch f).Keeps answer risky I Q s := by
  induction p generalizing s with
  | ret a => exact hp
  | raise e => exact hf e s hp
  | call o k ih => exact ⟨hp.1, ih _ hp.2⟩

/-- One call that is answered. -/
theorem perform_bind {o : Op} {r : Ret o} {f : Ret o → Prog Ret ε β} {s s' : σ}
    (hans : answer s o = (.ok r, s')) (h : ¬ risky o → I s) (hf : (f r).Keeps answer risky I R s') :
    ((Prog.perform o : Prog Ret ε (Ret o)).bind f).Keeps answer risky I R s := by
  refine ⟨h, ?_⟩
  rw [hans]
  exact hf

/-- A run that returned ends in `Q`. -/
theorem run {p : Prog Ret ε α} {s s' : σ} {a : α} (h : p.Keeps answer risky I Q s)
    (hr : p.run answer s = (.ok a, s')) : Q a s' := by
  induction p generalizing s with
  | ret a => cases hr; exact h
  | raise e => cases hr
  | call o k ih => exact ih _ h.2 hr

/-- A program that ran to its end, or raised, left `I`. -/
theorem run_keeps {p : Prog Ret ε α} {s : σ} (h : p.Keeps answer risky I Q s)
    (hQ : ∀ a s, Q a s → I s) : I (p.run answer s).2 := by
  induction p generalizing s with
  | ret a => exact hQ a s h
  | raise e => exact h
  | call o k ih => exact ih _ h.2

/-- A cut that was not before a risky call left `I`. -/
theorem cut {p : Prog Ret ε α} {s : σ} (h : p.Keeps answer risky I Q s) (hQ : ∀ a s, Q a s → I s)
    (n : Nat) (hn : ∀ o, (p.cut answer n s).1.next = some o → ¬ risky o) :
    I (p.cut answer n s).2 := by
  induction n generalizing p s with
  | zero =>
    cases p with
    | ret a => exact hQ a s h
    | raise e => exact h
    | call o k => exact h.1 (hn o rfl)
  | succ n ih =>
    cases p with
    | ret a => exact hQ a s h
    | raise e => exact h
    | call o k => exact ih h.2 hn

end Keeps

end Prog

end Lib
