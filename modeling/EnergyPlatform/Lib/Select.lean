import EnergyPlatform.Lib.Dict
import Mathlib.Data.List.Induction
import Mathlib.Data.List.Sort
import Mathlib.Order.Basic

/-!
# Lib.Select

Selecting one element for each key: the first of greatest score, in one pass over a list.

* `get?_select`: what is selected for a key is the first maximum of the elements with that key.
* `select_filter`: dropping whole keys before the pass or after it gives the same selection.
* `filter_insertionSort`: insertion sort is stable, so filtering commutes with it.
-/

namespace Lib

variable {α κ ρ : Type}

/-! ## The first maximum of a list -/

section FirstMax

variable [LinearOrder ρ] (score : α → ρ)

/-- `x` is the first element of greatest score. -/
def FirstMax (l : List α) (x : α) : Prop :=
  ∃ before after, l = before ++ x :: after ∧ (∀ y ∈ before, score y < score x) ∧
    ∀ y ∈ after, score y ≤ score x

namespace FirstMax

variable {score} {l : List α} {x y : α}

theorem mem (h : FirstMax score l x) : x ∈ l := by
  obtain ⟨before, after, rfl, -, -⟩ := h
  simp

theorem le (h : FirstMax score l x) (hy : y ∈ l) : score y ≤ score x := by
  obtain ⟨before, after, rfl, hb, ha⟩ := h
  rcases List.mem_append.mp hy with hy | hy
  · exact (hb y hy).le
  · rcases List.mem_cons.mp hy with rfl | hy
    · exact le_rfl
    · exact ha y hy

theorem ne_nil (h : FirstMax score l x) : l ≠ [] := List.ne_nil_of_mem h.mem

theorem single (x : α) : FirstMax score [x] x := ⟨[], [], rfl, nofun, nofun⟩

theorem snoc_le (h : FirstMax score l x) (hy : score y ≤ score x) : FirstMax score (l ++ [y]) x := by
  obtain ⟨before, after, rfl, hb, ha⟩ := h
  refine ⟨before, after ++ [y], by simp, hb, fun z hz => ?_⟩
  rcases List.mem_append.mp hz with hz | hz
  · exact ha z hz
  · rw [List.mem_singleton.mp hz]; exact hy

theorem snoc_lt (h : FirstMax score l x) (hy : score x < score y) : FirstMax score (l ++ [y]) y :=
  ⟨l, [], rfl, fun _ hz => (h.le hz).trans_lt hy, nofun⟩

theorem unique (h : FirstMax score l x) (h' : FirstMax score l y) : x = y := by
  obtain ⟨b, a, rfl, hb, ha⟩ := h
  obtain ⟨b', a', he, hb', ha'⟩ := h'
  rcases List.append_eq_append_iff.mp he with ⟨m, rfl, hm⟩ | ⟨m, rfl, hm⟩
  · cases m with
    | nil => simpa using (List.cons.inj hm).1
    | cons z m =>
      obtain ⟨rfl, -⟩ := List.cons.inj hm
      have h1 := hb' x (by simp)
      have h2 := ha y (by have := (List.cons.inj hm).2; simp [this])
      exact absurd (h1.trans_le h2) (lt_irrefl _)
  · cases m with
    | nil => simpa using (List.cons.inj hm).1.symm
    | cons z m =>
      obtain ⟨rfl, -⟩ := List.cons.inj hm
      have h1 := hb y (by simp)
      have h2 := ha' x (by have := (List.cons.inj hm).2; simp [this])
      exact absurd (h1.trans_le h2) (lt_irrefl _)

/-- In a list ordered by `f`, the first maximum comes before every other. -/
theorem first {f : α → Nat} (h : FirstMax score l x) (hl : l.Pairwise fun a b => f a < f b)
    (hy : y ∈ l) (hle : score x ≤ score y) : f x ≤ f y := by
  obtain ⟨before, after, rfl, hb, -⟩ := h
  rcases List.mem_append.mp hy with hy | hy
  · exact absurd (hb y hy) (not_lt.mpr hle)
  · rcases List.mem_cons.mp hy with rfl | hy
    · exact le_rfl
    · exact (List.rel_of_pairwise_cons (List.pairwise_append.mp hl).2.1 hy).le

end FirstMax

theorem exists_firstMax {l : List α} (h : l ≠ []) : ∃ x, FirstMax score l x := by
  induction l using List.reverseRecOn with
  | nil => exact absurd rfl h
  | append_singleton l y ih =>
    cases l with
    | nil => exact ⟨y, .single y⟩
    | cons z l =>
      obtain ⟨x, hx⟩ := ih (by simp)
      rcases le_or_gt (score y) (score x) with hle | hlt
      · exact ⟨x, hx.snoc_le hle⟩
      · exact ⟨y, hx.snoc_lt hlt⟩

end FirstMax

/-! ## One element for each key -/

section Selection

variable [DecidableEq κ] [LinearOrder ρ] (key : α → κ) (score : α → ρ)

/-- Take `x` if its key is new, or if it beats the element selected so far. -/
def consider (best : Dict κ α) (x : α) : Dict κ α :=
  match best.get? (key x) with
  | none => best.set (key x) x
  | some y => if score y < score x then best.set (key x) x else best

def select (l : List α) : Dict κ α := l.foldl (consider key score) .empty

theorem select_snoc (l : List α) (x : α) :
    select key score (l ++ [x]) = consider key score (select key score l) x := by
  simp [select]

theorem get?_consider (best : Dict κ α) (x : α) (k : κ) :
    (consider key score best x).get? k =
      if k = key x then
        match best.get? k with
        | none => some x
        | some y => if score y < score x then some x else some y
      else best.get? k := by
  by_cases hk : k = key x
  · subst hk
    simp only [consider, if_true]
    cases hg : best.get? (key x) with
    | none => simp
    | some y =>
      simp only
      split
      · simp
      · exact hg
  · simp only [consider, hk, if_false]
    cases best.get? (key x) with
    | none => exact Dict.get?_set_ne _ _ hk
    | some y =>
      simp only
      split
      · exact Dict.get?_set_ne _ _ hk
      · rfl

theorem get?_select_eq_none (l : List α) (k : κ) :
    (select key score l).get? k = none ↔ l.filter (fun x => key x = k) = [] := by
  induction l using List.reverseRecOn with
  | nil => simp [select]
  | append_singleton l x ih =>
    rw [select_snoc, get?_consider, List.filter_append]
    by_cases hk : k = key x
    · subst hk
      cases (select key score l).get? (key x) with
      | none => simp
      | some y => simp only [if_true]; split <;> simp
    · simp [hk, ih, eq_comm (a := key x)]

theorem firstMax_of_get?_select {k : κ} {l : List α} : ∀ {x : α},
    (select key score l).get? k = some x → FirstMax score (l.filter fun x => key x = k) x := by
  induction l using List.reverseRecOn with
  | nil => intro x h; cases h
  | append_singleton l z ih =>
    intro x h
    rw [select_snoc, get?_consider] at h
    rw [List.filter_append]
    by_cases hk : k = key z
    · subst hk
      rw [if_pos rfl] at h
      simp only [List.filter_cons, decide_true, if_true, List.filter_nil]
      cases hg : (select key score l).get? (key z) with
      | none =>
        rw [hg] at h
        rw [(get?_select_eq_none key score l (key z)).mp hg, ← Option.some.inj h]
        exact .single z
      | some y =>
        rw [hg] at h
        simp only at h
        split at h
        · rename_i hlt
          rw [← Option.some.inj h]
          exact (ih hg).snoc_lt hlt
        · rename_i hle
          rw [← Option.some.inj h]
          exact (ih hg).snoc_le (not_lt.mp hle)
    · rw [if_neg hk] at h
      simpa [Ne.symm hk] using ih h

/-- What is selected for a key: the first of greatest score among the elements with that key. -/
theorem get?_select {k : κ} {l : List α} {x : α} :
    (select key score l).get? k = some x ↔ FirstMax score (l.filter fun x => key x = k) x := by
  refine ⟨firstMax_of_get?_select key score, fun h => ?_⟩
  cases hg : (select key score l).get? k with
  | none => exact absurd ((get?_select_eq_none key score l k).mp hg) h.ne_nil
  | some y => rw [(firstMax_of_get?_select key score hg).unique h]

theorem key_of_get?_select {k : κ} {l : List α} {x : α}
    (h : (select key score l).get? k = some x) : x ∈ l ∧ key x = k := by
  have := ((get?_select key score).mp h).mem
  simpa using this

/-! ## Dropping whole keys -/

/-- The entries whose key passes. -/
def Dict.filterKeys (d : Dict κ α) (p : κ → Bool) : Dict κ α :=
  ⟨d.entries.filter fun e => p e.1, d.nodup.sublist (List.filter_sublist.map _)⟩

omit [LinearOrder ρ] in
theorem Dict.insert_filter (p : κ → Bool) (k : κ) (v : α) (l : List (κ × α)) :
    (Dict.insert k v l).filter (fun e => p e.1) =
      if p k then Dict.insert k v (l.filter fun e => p e.1) else l.filter fun e => p e.1 := by
  induction l with
  | nil => simp [Dict.insert, List.filter_cons]
  | cons e l ih =>
    obtain ⟨k', v'⟩ := e
    by_cases hk : k' = k
    · subst hk
      cases hp : p k' <;> simp [Dict.insert, hp]
    · cases hp : p k <;> cases hp' : p k' <;> simp [Dict.insert, hk, hp', ih, hp]

theorem Dict.filterKeys_set (d : Dict κ α) (p : κ → Bool) (k : κ) (v : α) :
    (d.set k v).filterKeys p = if p k then (d.filterKeys p).set k v else d.filterKeys p := by
  apply Dict.ext_entries
  have := Dict.insert_filter p k v d.entries
  split <;> rename_i hp <;> simp only [hp, if_true, if_false, Bool.false_eq_true] at this <;>
    exact this

theorem Dict.get?_filterKeys (d : Dict κ α) (p : κ → Bool) (k : κ) :
    (d.filterKeys p).get? k = if p k then d.get? k else none := by
  cases hg : (d.filterKeys p).get? k with
  | none =>
    split
    · rename_i hp
      rw [eq_comm, Dict.get?_eq_none_iff]
      intro hm
      obtain ⟨v, hv⟩ := Dict.mem_keys.mp hm
      have := Dict.get?_eq_some_iff.mp hv
      rw [Dict.get?_eq_none_iff] at hg
      exact hg (List.mem_map.mpr ⟨(k, v), List.mem_filter.mpr ⟨this, hp⟩, rfl⟩)
    · rfl
  | some v =>
    obtain ⟨hm, hp⟩ := List.mem_filter.mp (Dict.get?_eq_some_iff.mp hg)
    rw [if_pos hp, Dict.get?_eq_some_iff.mpr hm]

theorem consider_filterKeys (p : κ → Bool) (best : Dict κ α) (x : α) :
    (consider key score best x).filterKeys p =
      if p (key x) then consider key score (best.filterKeys p) x else best.filterKeys p := by
  cases hp : p (key x) with
  | false =>
    simp only [consider, Bool.false_eq_true, if_false]
    split
    · rw [Dict.filterKeys_set, hp]; rfl
    · split
      · rw [Dict.filterKeys_set, hp]; rfl
      · rfl
  | true =>
    simp only [consider, Dict.get?_filterKeys, hp, if_true]
    split
    · rw [Dict.filterKeys_set, hp, if_pos rfl]
    · split
      · rw [Dict.filterKeys_set, hp, if_pos rfl]
      · rfl

/-- Dropping keys before the pass or after it. -/
theorem select_filter (p : κ → Bool) (l : List α) :
    select key score (l.filter fun x => p (key x)) = (select key score l).filterKeys p := by
  induction l using List.reverseRecOn with
  | nil => rfl
  | append_singleton l x ih =>
    rw [List.filter_append, select_snoc, consider_filterKeys, ← ih]
    cases hp : p (key x) <;> simp [hp, select_snoc]

omit [DecidableEq κ] [LinearOrder ρ] in
theorem values_filterKeys (d : Dict κ α) (p : κ → Bool) (f : α → κ)
    (h : ∀ e ∈ d.entries, f e.2 = e.1) :
    (d.filterKeys p).values = d.values.filter fun x => p (f x) := by
  simp only [Dict.values, Dict.filterKeys, List.filter_map]
  congr 1
  refine List.filter_congr fun e he => ?_
  simp [h e he]

end Selection

/-! ## Stability of insertion sort -/

section Stable

variable (r : α → α → Prop) [DecidableRel r] [Std.Total r] [IsTrans α r]

omit [Std.Total r] [IsTrans α r] in
theorem orderedInsert_of_forall_rel {a : α} {l : List α} (h : ∀ b ∈ l, r a b) :
    l.orderedInsert r a = a :: l := by
  cases l with
  | nil => rfl
  | cons b l => exact if_pos (h b (by simp))

omit [Std.Total r] in
theorem filter_orderedInsert (p : α → Bool) (a : α) {l : List α} (h : l.Pairwise r) :
    (l.orderedInsert r a).filter p = if p a then (l.filter p).orderedInsert r a else l.filter p := by
  induction l with
  | nil => cases hp : p a <;> simp [hp]
  | cons b l ih =>
    obtain ⟨hb, hl⟩ := List.pairwise_cons.mp h
    by_cases hab : r a b
    · have hall : ∀ c ∈ (b :: l).filter p, r a c := by
        intro c hc
        rcases List.mem_cons.mp (List.mem_filter.mp hc).1 with rfl | hc
        · exact hab
        · exact IsTrans.trans _ _ _ hab (hb c hc)
      rw [orderedInsert_of_forall_rel r hall, List.orderedInsert_cons_of_le r l hab]
      cases hp : p a <;> simp [hp]
    · rw [List.orderedInsert_of_not_le r l hab]
      cases hpb : p b with
      | false => simp [hpb, ih hl]
      | true =>
        simp only [List.filter_cons, hpb, if_true, ih hl]
        split
        · rw [List.orderedInsert_of_not_le r _ hab]
        · rfl

theorem filter_insertionSort (p : α → Bool) (l : List α) :
    (l.insertionSort r).filter p = (l.filter p).insertionSort r := by
  induction l with
  | nil => rfl
  | cons a l ih =>
    rw [List.insertionSort_cons, filter_orderedInsert r p a (List.pairwise_insertionSort r l), ih]
    cases hp : p a <;> simp [hp]

end Stable

end Lib
