import Mathlib.Data.List.Nodup
import Mathlib.Data.List.Perm.Basic
import Mathlib.Data.List.Sort
import Mathlib.SetTheory.Cardinal.Order

/-!
# Lib.Sql

What a query needs of SQL: three-valued conditions, joins, and `SELECT DISTINCT ON`.

A NULL is `none`. A sort puts rows that compare equal in any order, so a query with ties has
several permitted results and `DistinctOn` is a relation: `out` is a result if it keeps the first
row of each group of some permitted sort.

* `DistinctOn.mem`: a kept row is least within its group.
* `DistinctOn.covers`, `DistinctOn.nodup`: exactly one row of each group is kept.
-/

namespace Lib.Sql

variable {α β κ : Type}

/-! ## Conditions -/

/-- A truth value: true, false or unknown. -/
abbrev Truth := Option Bool

/-- `a = b`; unknown when a side is NULL. -/
def eq [DecidableEq α] : Option α → Option α → Truth
  | some a, some b => some (a = b)
  | _, _ => none

def isNull : Option α → Truth
  | none => some true
  | some _ => some false

def and : Truth → Truth → Truth
  | some false, _ | _, some false => some false
  | some true, some true => some true
  | _, _ => none

def or : Truth → Truth → Truth
  | some true, _ | _, some true => some true
  | some false, some false => some false
  | _, _ => none

/-- A `WHERE` keeps a row when its condition is true, not when it is unknown. -/
def holds (t : Truth) : Bool := t = some true

theorem holds_eq [DecidableEq α] {a b : Option α} :
    holds (eq a b) = true ↔ ∃ x, a = some x ∧ b = some x := by
  cases a <;> cases b <;> simp [eq, holds, eq_comm]

theorem holds_isNull {a : Option α} : holds (isNull a) = true ↔ a = none := by
  cases a <;> simp [isNull, holds]

theorem holds_and {a b : Truth} : holds (and a b) = true ↔ holds a = true ∧ holds b = true := by
  rcases a with _ | _ | _ <;> rcases b with _ | _ | _ <;> simp [and, holds]

theorem holds_or {a b : Truth} : holds (or a b) = true ↔ holds a = true ∨ holds b = true := by
  rcases a with _ | _ | _ <;> rcases b with _ | _ | _ <;> simp [or, holds]

/-! ## Updates -/

/-- `UPDATE … WHERE c`. -/
def update (c : α → Bool) (set : α → α) (rows : List α) : List α :=
  rows.map fun r => if c r then set r else r

/-- The rows an `UPDATE … RETURNING *` returns. -/
def returning (c : α → Bool) (set : α → α) (rows : List α) : List α := (rows.filter c).map set

/-- An update of an image is the image of an update that makes the same tests and changes. -/
theorem update_map {g : β → α} {c : α → Bool} {c' : β → Bool} {set : α → α} {set' : β → β}
    {rows : List β} (hc : ∀ b ∈ rows, c (g b) = c' b)
    (hset : ∀ b ∈ rows, c' b = true → set (g b) = g (set' b)) :
    update c set (rows.map g) = (update c' set' rows).map g := by
  rw [update, update, List.map_map, List.map_map]
  refine List.map_congr_left fun b hb => ?_
  rw [Function.comp_apply, Function.comp_apply, hc b hb]
  split
  · rename_i h
    exact hset b hb h
  · rfl

theorem returning_map {g : β → α} {c : α → Bool} {c' : β → Bool} {set : α → α} {set' : β → β}
    {rows : List β} (hc : ∀ b ∈ rows, c (g b) = c' b)
    (hset : ∀ b ∈ rows, c' b = true → set (g b) = g (set' b)) :
    returning c set (rows.map g) = (returning c' set' rows).map g := by
  rw [returning, returning, List.filter_map, List.map_map, List.map_map]
  have hfilter : rows.filter (c ∘ g) = rows.filter c' := List.filter_congr hc
  rw [hfilter]
  refine List.map_congr_left fun b hb => ?_
  obtain ⟨hb, h⟩ := List.mem_filter.mp hb
  exact hset b hb h

/-- `ORDER BY id LIMIT 1` over rows that are listed in the order of their ids. -/
theorem least_eq_find? {id : α → ℕ} {rows : List α} (h : (rows.map id).Pairwise (· < ·))
    (c : α → Bool) : ((rows.filter c).map id).min? = (rows.find? c).map id := by
  cases hf : rows.find? c with
  | none =>
    have hnone : rows.filter c = [] := by
      rw [List.filter_eq_nil_iff]
      exact List.find?_eq_none.mp hf
    rw [hnone]
    rfl
  | some a =>
    obtain ⟨ha, before, later, rfl, hbefore⟩ := List.find?_eq_some_iff_append.mp hf
    have hfilter : (before ++ a :: later).filter c = a :: later.filter c := by
      rw [List.filter_append, List.filter_eq_nil_iff.mpr (by simpa using hbefore),
        List.filter_cons_of_pos ha, List.nil_append]
    rw [List.map_append, List.pairwise_append, List.map_cons, List.pairwise_cons] at h
    rw [hfilter, Option.map_some, List.min?_eq_some_iff]
    refine ⟨List.mem_cons_self, fun n hn => ?_⟩
    rw [List.map_cons, List.mem_cons] at hn
    rcases hn with rfl | hn
    · exact le_refl _
    · obtain ⟨b, hb, rfl⟩ := List.mem_map.mp hn
      exact le_of_lt (h.2.1.1 _ (List.mem_map_of_mem (List.mem_of_mem_filter hb)))

/-! ## Joins -/

/-- `l JOIN r ON c`. -/
def join (l : List α) (r : List β) (c : α → β → Bool) : List (α × β) :=
  l.flatMap fun a => (r.filter (c a)).map fun b => (a, b)

theorem mem_join {l : List α} {r : List β} {c : α → β → Bool} {p : α × β} :
    p ∈ join l r c ↔ p.1 ∈ l ∧ p.2 ∈ r ∧ c p.1 p.2 = true := by
  obtain ⟨a, b⟩ := p
  simp only [join, List.mem_flatMap, List.mem_map, List.mem_filter, Prod.mk.injEq]
  constructor
  · rintro ⟨a', ha, b', ⟨hb, hc⟩, rfl, rfl⟩
    exact ⟨ha, hb, hc⟩
  · rintro ⟨ha, hb, hc⟩
    exact ⟨a, ha, b, ⟨hb, hc⟩, rfl, rfl⟩

/-! ## DISTINCT ON -/

/-- The order a database sorts a tuple of columns in (collations, NULLs last and so on): some
linear order, of which nothing else is known. -/
structure ColumnOrder (κ : Type) where
  le : κ → κ → Prop
  total : ∀ a b, le a b ∨ le b a
  trans : ∀ {a b c}, le a b → le b c → le a c
  antisymm : ∀ {a b}, le a b → le b a → a = b

theorem ColumnOrder.nonempty (κ : Type) : Nonempty (ColumnOrder κ) := by
  classical
  let o : LinearOrder κ := linearOrderOfSTO WellOrderingRel
  exact ⟨⟨o.le, o.le_total, fun h h' => o.le_trans _ _ _ h h', fun h h' => o.le_antisymm _ _ h h'⟩⟩

/-- `ORDER BY` the columns of `group`, then `rest`. -/
def ColumnOrder.orderBy (c : ColumnOrder κ) (group : α → κ) (rest : α → α → Prop) (a b : α) : Prop :=
  (group a = group b ∧ rest a b) ∨ (group a ≠ group b ∧ c.le (group a) (group b))

theorem ColumnOrder.orderBy_total (c : ColumnOrder κ) (group : α → κ) {rest : α → α → Prop}
    (hrest : ∀ a b, rest a b ∨ rest b a) (a b : α) :
    c.orderBy group rest a b ∨ c.orderBy group rest b a := by
  by_cases hg : group a = group b
  · exact (hrest a b).imp (fun h => .inl ⟨hg, h⟩) fun h => .inl ⟨hg.symm, h⟩
  · exact (c.total _ _).imp (fun h => .inr ⟨hg, h⟩) fun h => .inr ⟨Ne.symm hg, h⟩

theorem ColumnOrder.orderBy_trans (c : ColumnOrder κ) (group : α → κ) {rest : α → α → Prop}
    (hrest : ∀ a b d, rest a b → rest b d → rest a d) (a b d : α) :
    c.orderBy group rest a b → c.orderBy group rest b d → c.orderBy group rest a d := by
  rintro (⟨hab, h⟩ | ⟨hab, h⟩) (⟨hbd, h'⟩ | ⟨hbd, h'⟩)
  · exact .inl ⟨hab.trans hbd, hrest _ _ _ h h'⟩
  · exact .inr ⟨hab ▸ hbd, hab ▸ h'⟩
  · exact .inr ⟨hbd ▸ hab, hbd ▸ h⟩
  · refine .inr ⟨fun had => hab ?_, c.trans h h'⟩
    rw [had]
    exact c.antisymm (had ▸ h) h'

variable [DecidableEq κ]

/-- The first element of each group, in the order of the list. -/
def firsts (group : α → κ) : List α → List α
  | [] => []
  | a :: l => a :: (firsts group l).filter fun b => group b ≠ group a

/-- `SELECT DISTINCT ON (group) … ORDER BY le` over `rows` may return `out`. -/
def DistinctOn (group : α → κ) (le : α → α → Prop) (rows out : List α) : Prop :=
  ∃ sorted, sorted.Perm rows ∧ sorted.Pairwise le ∧ out = firsts group sorted

theorem firsts_sublist (group : α → κ) (l : List α) : (firsts group l).Sublist l := by
  induction l with
  | nil => exact .slnil
  | cons a l ih => exact (List.filter_sublist.trans ih).cons_cons a

theorem firsts_nodup (group : α → κ) (l : List α) : ((firsts group l).map group).Nodup := by
  induction l with
  | nil => exact List.nodup_nil
  | cons a l ih =>
    rw [firsts, List.map_cons, List.nodup_cons]
    refine ⟨?_, ih.sublist (List.filter_sublist.map _)⟩
    rw [List.mem_map]
    rintro ⟨b, hb, he⟩
    have := (List.mem_filter.mp hb).2
    simp [he] at this

theorem firsts_covers (group : α → κ) {l : List α} {a : α} (h : a ∈ l) :
    ∃ b ∈ firsts group l, group b = group a := by
  induction l with
  | nil => cases h
  | cons c l ih =>
    by_cases hc : group c = group a
    · exact ⟨c, by simp [firsts], hc⟩
    · rcases List.mem_cons.mp h with rfl | h
      · exact absurd rfl hc
      · obtain ⟨b, hb, he⟩ := ih h
        refine ⟨b, ?_, he⟩
        rw [firsts, List.mem_cons, List.mem_filter]
        exact .inr ⟨hb, by simpa [he] using Ne.symm hc⟩

/-- In a sorted list the first of a group compares with every other of it. -/
theorem firsts_le (group : α → κ) {le : α → α → Prop} {l : List α} (hl : l.Pairwise le) {a b : α}
    (ha : a ∈ firsts group l) (hb : b ∈ l) (hg : group b = group a) : b = a ∨ le a b := by
  induction l with
  | nil => cases hb
  | cons c l ih =>
    obtain ⟨hc, hl⟩ := List.pairwise_cons.mp hl
    rw [firsts, List.mem_cons, List.mem_filter] at ha
    rcases ha with rfl | ⟨ha, hne⟩
    · rcases List.mem_cons.mp hb with rfl | hb
      · exact .inl rfl
      · exact .inr (hc b hb)
    · rcases List.mem_cons.mp hb with rfl | hb
      · simp [hg] at hne
      · exact ih hl ha hb

namespace DistinctOn

variable {group : α → κ} {le : α → α → Prop} {rows out : List α}

theorem mem (h : DistinctOn group le rows out) {a : α} (ha : a ∈ out) :
    a ∈ rows ∧ ∀ b ∈ rows, group b = group a → b = a ∨ le a b := by
  obtain ⟨sorted, hp, hs, rfl⟩ := h
  refine ⟨hp.mem_iff.mp ((firsts_sublist group sorted).subset ha), fun b hb hg => ?_⟩
  exact firsts_le group hs ha (hp.mem_iff.mpr hb) hg

theorem covers (h : DistinctOn group le rows out) {a : α} (ha : a ∈ rows) :
    ∃ b ∈ out, group b = group a := by
  obtain ⟨sorted, hp, -, rfl⟩ := h
  exact firsts_covers group (hp.mem_iff.mpr ha)

/-- A total order always has a permitted sort. -/
theorem exists_result (group : α → κ) (rows : List α) (hle : ∀ a b, le a b ∨ le b a)
    (htrans : ∀ a b c, le a b → le b c → le a c) :
    ∃ out, DistinctOn group le rows out := by
  classical
  have : Std.Total le := ⟨hle⟩
  have : IsTrans α le := ⟨htrans⟩
  exact ⟨_, rows.insertionSort le, List.perm_insertionSort le rows,
    List.pairwise_insertionSort le rows, rfl⟩

theorem nodup (h : DistinctOn group le rows out) : (out.map group).Nodup := by
  obtain ⟨sorted, -, -, rfl⟩ := h
  exact firsts_nodup group sorted

end DistinctOn

end Lib.Sql
