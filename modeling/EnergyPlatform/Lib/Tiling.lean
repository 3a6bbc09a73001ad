import Mathlib.Data.List.Basic
import Mathlib.Tactic

/-!
# Lib.Tiling

Half-open spans that tile a range of a linear order, one after the other.

`Tiles.exactly_one`: a point of the range lies in exactly one span. `Tiles.append`: two tilings that
meet are one tiling. `tiles_steps`: equal steps tile the range they fill.
-/

namespace Lib

section Order

variable {α : Type} [LinearOrder α]

/-- The spans start at `lo`, end at `hi`, and each starts where the one before it ends. -/
def Tiles : α → List (α × α) → α → Prop
  | lo, [], hi => lo = hi
  | lo, s :: rest, hi => s.1 = lo ∧ s.1 < s.2 ∧ Tiles s.2 rest hi

namespace Tiles

variable {lo mid hi : α} {l l' : List (α × α)} {s : α × α}

theorem append (h : Tiles lo l mid) (h' : Tiles mid l' hi) : Tiles lo (l ++ l') hi := by
  induction l generalizing lo with
  | nil => cases h; exact h'
  | cons s rest ih => exact ⟨h.1, h.2.1, ih h.2.2⟩

theorem le (h : Tiles lo l hi) : lo ≤ hi := by
  induction l generalizing lo with
  | nil => exact h.le
  | cons s rest ih =>
    obtain ⟨rfl, hlt, hrest⟩ := h
    exact hlt.le.trans (ih hrest)

/-- A span of the tiling is not empty and within the range. -/
theorem mem (h : Tiles lo l hi) (hs : s ∈ l) : lo ≤ s.1 ∧ s.1 < s.2 ∧ s.2 ≤ hi := by
  induction l generalizing lo with
  | nil => cases hs
  | cons s' rest ih =>
    obtain ⟨rfl, hlt, hrest⟩ := h
    cases hs with
    | head => exact ⟨le_rfl, hlt, hrest.le⟩
    | tail _ hs =>
      obtain ⟨hle, hs'⟩ := ih hrest hs
      exact ⟨hlt.le.trans hle, hs'⟩

theorem first (h : Tiles lo l hi) (hne : l ≠ []) : ∃ s, l[0]? = some s ∧ s.1 = lo := by
  cases l with
  | nil => exact absurd rfl hne
  | cons s rest => exact ⟨s, rfl, h.1⟩

theorem last (h : Tiles lo l hi) (hne : l ≠ []) : ∃ s, l.getLast? = some s ∧ s.2 = hi := by
  induction l generalizing lo with
  | nil => exact absurd rfl hne
  | cons s rest ih =>
    cases rest with
    | nil => exact ⟨s, rfl, h.2.2⟩
    | cons s' rest =>
      obtain ⟨t, ht, hhi⟩ := ih h.2.2 (List.cons_ne_nil _ _)
      exact ⟨t, by rw [List.getLast?_cons_cons]; exact ht, hhi⟩

/-- Neighbouring spans meet. -/
theorem next (h : Tiles lo l hi) {i : Nat} {t : α × α} (hs : l[i]? = some s)
    (ht : l[i + 1]? = some t) : s.2 = t.1 := by
  induction l generalizing lo i with
  | nil => cases hs
  | cons s' rest ih =>
    cases i with
    | zero =>
      cases hs
      obtain ⟨u, hu, heq⟩ := h.2.2.first (by rintro rfl; cases ht)
      obtain rfl := Option.some.inj (hu.symm.trans ht)
      exact heq.symm
    | succ i => exact ih h.2.2 hs ht

/-- An earlier span ends before a later one starts. -/
theorem disjoint (h : Tiles lo l hi) : l.Pairwise fun s t => s.2 ≤ t.1 := by
  induction l generalizing lo with
  | nil => exact .nil
  | cons s rest ih => exact .cons (fun t ht => (h.2.2.mem ht).1) (ih h.2.2)

theorem covers (h : Tiles lo l hi) {t : α} (hlo : lo ≤ t) (hhi : t < hi) :
    ∃ (i : Nat) (s : α × α), l[i]? = some s ∧ s.1 ≤ t ∧ t < s.2 := by
  induction l generalizing lo with
  | nil =>
    cases h
    exact absurd hlo (not_le.mpr hhi)
  | cons s rest ih =>
    obtain ⟨rfl, -, hrest⟩ := h
    rcases lt_or_ge t s.2 with hlt | hge
    · exact ⟨0, s, rfl, hlo, hlt⟩
    · obtain ⟨i, u, hu, hin⟩ := ih hrest hge
      exact ⟨i + 1, u, hu, hin⟩

theorem unique (h : Tiles lo l hi) {i j : Nat} {t : α} {s s' : α × α} (hs : l[i]? = some s)
    (hs' : l[j]? = some s') (hin : s.1 ≤ t ∧ t < s.2) (hin' : s'.1 ≤ t ∧ t < s'.2) : i = j := by
  obtain ⟨hi, rfl⟩ := List.getElem?_eq_some_iff.mp hs
  obtain ⟨hj, rfl⟩ := List.getElem?_eq_some_iff.mp hs'
  have hdisj := List.pairwise_iff_getElem.mp h.disjoint
  rcases lt_trichotomy i j with hlt | heq | hgt
  · exact absurd (hin.2.trans_le ((hdisj i j hi hj hlt).trans hin'.1)) (lt_irrefl t)
  · exact heq
  · exact absurd (hin'.2.trans_le ((hdisj j i hj hi hgt).trans hin.1)) (lt_irrefl t)

/-- A point of the range lies in exactly one span. -/
theorem exactly_one (h : Tiles lo l hi) {t : α} (hlo : lo ≤ t) (hhi : t < hi) :
    ∃! i : Nat, ∃ s : α × α, l[i]? = some s ∧ s.1 ≤ t ∧ t < s.2 := by
  obtain ⟨i, s, hs, hin⟩ := h.covers hlo hhi
  refine ⟨i, ⟨s, hs, hin⟩, ?_⟩
  intro j hj
  obtain ⟨s', hs', hin'⟩ := hj
  exact h.unique hs' hs hin' hin

/-- A span is known by its start. -/
theorem start_inj (h : Tiles lo l hi) {i j : Nat} {s s' : α × α} (hs : l[i]? = some s)
    (hs' : l[j]? = some s') (heq : s.1 = s'.1) : i = j := by
  have hlt := (h.mem (List.mem_of_getElem? hs)).2.1
  have hlt' := (h.mem (List.mem_of_getElem? hs')).2.1
  exact h.unique hs hs' ⟨le_rfl, hlt⟩ ⟨heq.ge, heq ▸ hlt'⟩

end Tiles

end Order

section Steps

variable {start step : Int}

def steps (start step : Int) (n : Nat) : List (Int × Int) :=
  (List.range n).map fun i : Nat => (start + i * step, start + (i + 1) * step)

theorem steps_succ (n : Nat) :
    steps start step (n + 1) = steps start step n ++ [(start + n * step, start + (n + 1) * step)] := by
  simp [steps, List.range_succ]

theorem tiles_steps (hpos : 0 < step) (n : Nat) :
    Tiles start (steps start step n) (start + n * step) := by
  induction n with
  | zero => simp [steps, Tiles]
  | succ n ih =>
    rw [steps_succ]
    refine ih.append ⟨rfl, ?_, ?_⟩
    · simp only [Int.add_mul, Int.one_mul]
      omega
    · push_cast
      rfl

end Steps

end Lib
