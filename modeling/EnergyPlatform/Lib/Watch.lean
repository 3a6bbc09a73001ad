import EnergyPlatform.Lib.Prog

/-!
# Lib.Watch

A monitor beside a program. `next m o r` is what the monitor makes of a call and its answer, or none
where it objects.

`Prog.Watched next Q E` is the weakest precondition of a program under a monitor: it never objects,
`Q` holds when the program returns and `E` when it raises, whatever its calls answer. `Watched.run`
carries it to the history of a run.
-/

namespace Lib

namespace Prog

variable {Op : Type} {Ret : Op → Type} {ε α β σ M : Type}
variable (next : M → (o : Op) → Except ε (Ret o) → Option M)

def Watched (Q : α → M → Prop) (E : ε → M → Prop) : Prog Ret ε α → M → Prop
  | ret a, m => Q a m
  | raise e, m => E e m
  | call o k, m => ∀ r, ∃ m', next m o r = some m' ∧ (k r).Watched Q E m'

variable {next}

namespace Watched

variable {Q : α → M → Prop} {R : β → M → Prop} {E E' : ε → M → Prop} {m : M}

/-- One call. -/
theorem perform {o : Op} {Q : Ret o → M → Prop} (hok : ∀ a, ∃ m', next m o (.ok a) = some m' ∧ Q a m')
    (herror : ∀ e, ∃ m', next m o (.error e) = some m' ∧ E e m') :
    (Prog.perform o : Prog Ret ε (Ret o)).Watched next Q E m := by
  intro r
  cases r with
  | ok a => exact hok a
  | error e => exact herror e

theorem bind {p : Prog Ret ε α} {f : α → Prog Ret ε β} (hp : p.Watched next Q E m)
    (hf : ∀ a m', Q a m' → (f a).Watched next R E m') : (p.bind f).Watched next R E m := by
  induction p generalizing m with
  | ret a => exact hf a m hp
  | raise e => exact hp
  | call o k ih =>
    intro r
    obtain ⟨m', hm, hk⟩ := hp r
    exact ⟨m', hm, ih r hk⟩

/-- A handler starts from what the exception left. -/
theorem tryCatch {p : Prog Ret ε α} {f : ε → Prog Ret ε α} (hp : p.Watched next Q E' m)
    (hf : ∀ e m', E' e m' → (f e).Watched next Q E m') : (p.tryCatch f).Watched next Q E m := by
  induction p generalizing m with
  | ret a => exact hp
  | raise e => exact hf e m hp
  | call o k ih =>
    intro r
    obtain ⟨m', hm, hk⟩ := hp r
    exact ⟨m', hm, ih r hk⟩

/-- The rule of consequence. -/
theorem imp {p : Prog Ret ε α} {Q' : α → M → Prop} (hp : p.Watched next Q E' m)
    (hQ : ∀ a m, Q a m → Q' a m) (hE : ∀ e m, E' e m → E e m) : p.Watched next Q' E m := by
  induction p generalizing m with
  | ret a => exact hQ a m hp
  | raise e => exact hE e m hp
  | call o k ih =>
    intro r
    obtain ⟨m', hm, hk⟩ := hp r
    exact ⟨m', hm, ih r hk⟩

/-- What a program ends in. -/
def Ends (Q : α → M → Prop) (E : ε → M → Prop) : Except ε α → M → Prop
  | .ok a, m => Q a m
  | .error e, m => E e m

/-- Where `watch` reads the monitor off the world, it never objected in a run. -/
theorem run {answer : σ → (o : Op) → Except ε (Ret o) × σ} {watch : σ → Option M}
    (hwatch : ∀ s o, watch (answer s o).2 = (watch s).bind fun m => next m o (answer s o).1)
    {p : Prog Ret ε α} {s : σ} (hp : p.Watched next Q E m) (hs : watch s = some m) :
    ∃ m', watch (p.run answer s).2 = some m' ∧ Ends Q E (p.run answer s).1 m' := by
  induction p generalizing s m with
  | ret a => exact ⟨m, hs, hp⟩
  | raise e => exact ⟨m, hs, hp⟩
  | call o k ih =>
    obtain ⟨m', hm, hk⟩ := hp (answer s o).1
    refine ih _ hk ?_
    rw [hwatch, hs]
    exact hm

end Watched

end Prog

end Lib
