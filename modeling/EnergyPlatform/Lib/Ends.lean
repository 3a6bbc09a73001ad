import EnergyPlatform.Lib.Prog

/-!
# Lib.Ends

Programs whose calls only look, but for the last one: `Prog.Ends P L Q` makes calls of `P`, and
where it returns it made one call of `L` at its end, whose answer and the result satisfy `Q`.

`Ends.bind` and `Ends.last` build such a program; `Ends.run` says what a run of it alone did.
-/

namespace Lib

namespace Prog

variable {Op : Type} {Ret : Op → Type} {ε α β σ : Type}

theorem Only.imp {P P' : Op → Prop} {E : ε → Prop} (hP : ∀ o, P o → P' o) {p : Prog Ret ε α}
    (h : p.Only P E) : p.Only P' E := by
  induction p with
  | ret a => exact trivial
  | raise e => exact h
  | call o k ih => exact ⟨hP o h.1, fun r hr => ih r (h.2 r hr)⟩

def Ends (P L : Op → Prop) (Q : (o : Op) → Ret o → α → Prop) : Prog Ret ε α → Prop
  | ret _ => False
  | raise _ => True
  | call o k => (P o ∧ ∀ r, (k r).Ends P L Q) ∨
      (L o ∧ (∀ a, ∃ b, k (.ok a) = ret b ∧ Q o a b) ∧ ∀ e, ∃ e', k (.error e) = raise e')

namespace Ends

variable {P L : Op → Prop} {Q : (o : Op) → Ret o → α → Prop}

theorem bind {p : Prog Ret ε β} {f : β → Prog Ret ε α} (hp : p.Only P fun _ => True)
    (hf : ∀ b, (f b).Ends P L Q) : (p.bind f).Ends P L Q := by
  induction p with
  | ret b => exact hf b
  | raise e => exact trivial
  | call o k ih => exact .inl ⟨hp.1, fun r => ih r (hp.2 r fun _ _ => trivial)⟩

theorem last {o : Op} {g : Ret o → α} (hL : L o) (hQ : ∀ a, Q o a (g a)) :
    ((perform o : Prog Ret ε (Ret o)).bind fun a => ret (g a)).Ends P L Q := by
  refine .inr ⟨hL, fun a => ⟨g a, rfl, hQ a⟩, fun e => ⟨e, rfl⟩⟩

/-- A run that returned looked around and then made the one call. -/
theorem run {answer : σ → (o : Op) → Except ε (Ret o) × σ} {same : σ → σ → Prop}
    (hrefl : ∀ s, same s s) (htrans : ∀ s s' s'', same s s' → same s' s'' → same s s'')
    (hP : ∀ s o, P o → same s (answer s o).2) {p : Prog Ret ε α} (h : p.Ends P L Q) {s s' : σ}
    {b : α} (hr : p.run answer s = (.ok b, s')) :
    ∃ s₁ o a, same s s₁ ∧ L o ∧ answer s₁ o = (.ok a, s') ∧ Q o a b := by
  induction p generalizing s with
  | ret a => exact absurd h id
  | raise e => cases hr
  | call o k ih =>
    rw [run_call] at hr
    rcases h with ⟨ho, hk⟩ | ⟨hL, hok, herr⟩
    · obtain ⟨s₁, o', a, hs, hrest⟩ := ih _ (hk _) hr
      exact ⟨s₁, o', a, htrans _ _ _ (hP s o ho) hs, hrest⟩
    · rcases ha : answer s o with ⟨r, s₁⟩
      rw [ha] at hr
      cases r with
      | ok a =>
        obtain ⟨b', hb', hQ⟩ := hok a
        rw [hb'] at hr
        cases hr
        exact ⟨s, o, a, hrefl s, hL, ha, hQ⟩
      | error e =>
        obtain ⟨e', he'⟩ := herr e
        rw [he'] at hr
        cases hr

end Ends

end Prog

end Lib
