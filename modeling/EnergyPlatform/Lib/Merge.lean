import EnergyPlatform.Lib.Dict

/-!
# Lib.Merge

Merging elements by key: the first element of a key is kept, and a later one of the key has to be
the same as the one kept, or there is no result.

`merge_get?`: what is kept for a key is the first element with that key. `merge_isSome_iff`: there is
a result exactly when any two elements of one key are the same.
-/

namespace Lib

variable {κ ω : Type} [DecidableEq κ] (key : ω → κ) (same : ω → ω → Bool)

def mergeOne (d : Dict κ ω) (o : ω) : Option (Dict κ ω) :=
  match d.get? (key o) with
  | none => some (d.set (key o) o)
  | some earlier => if same earlier o then some d else none

def merge (d : Dict κ ω) (l : List ω) : Option (Dict κ ω) := l.foldlM (mergeOne key same) d

variable {key same} {d d' : Dict κ ω} {l l' : List ω} {o : ω}

theorem merge_cons : merge key same d (o :: l) =
    (mergeOne key same d o).bind fun d' => merge key same d' l := rfl

theorem merge_append : merge key same d (l ++ l') =
    (merge key same d l).bind fun d' => merge key same d' l' := by
  unfold merge
  rw [List.foldlM_append]
  rfl

theorem mergeOne_get? (h : mergeOne key same d o = some d') (k : κ) :
    d'.get? k = (d.get? k).or (if key o = k then some o else none) := by
  unfold mergeOne at h
  split at h
  · rename_i hnone
    obtain rfl := Option.some.inj h
    rw [Dict.get?_set]
    by_cases hk : k = key o
    · rw [if_pos hk, if_pos hk.symm, hk, hnone]
      rfl
    · rw [if_neg hk, if_neg fun heq => hk heq.symm, Option.or_none]
  · rename_i earlier hsome
    split at h
    · obtain rfl := Option.some.inj h
      by_cases hk : key o = k
      · rw [← hk, hsome]
        rfl
      · rw [if_neg hk, Option.or_none]
    · cases h

/-- What is kept for a key is the first element with that key. -/
theorem merge_get? (h : merge key same d l = some d') (k : κ) :
    d'.get? k = (d.get? k).or (l.find? fun o => key o = k) := by
  induction l generalizing d with
  | nil =>
    obtain rfl := Option.some.inj h
    rw [List.find?_nil, Option.or_none]
  | cons o l ih =>
    rw [merge_cons] at h
    obtain ⟨d₁, hone, hrest⟩ := Option.bind_eq_some_iff.mp h
    rw [ih hrest, mergeOne_get? hone, Option.or_assoc, List.find?_cons]
    by_cases hk : key o = k
    · simp [hk]
    · simp [hk]

/-- Every element is the same as the one kept for its key. -/
theorem merge_same (hrefl : ∀ o ∈ l, same o o) (h : merge key same d l = some d') (ho : o ∈ l) :
    ∃ e, d'.get? (key o) = some e ∧ same e o := by
  induction l generalizing d with
  | nil => cases ho
  | cons x l ih =>
    rw [merge_cons] at h
    obtain ⟨d₁, hone, hrest⟩ := Option.bind_eq_some_iff.mp h
    cases ho with
    | tail _ ho => exact ih (fun y hy => hrefl y (.tail _ hy)) hrest ho
    | head =>
      have hkept : ∃ e, d₁.get? (key o) = some e ∧ same e o := by
        unfold mergeOne at hone
        split at hone
        · obtain rfl := Option.some.inj hone
          exact ⟨o, Dict.get?_set_self _ _ _, hrefl o (.head _)⟩
        · rename_i earlier hsome
          split at hone
          · rename_i hsame
            obtain rfl := Option.some.inj hone
            exact ⟨earlier, hsome, hsame⟩
          · cases hone
      obtain ⟨e, he, hsame⟩ := hkept
      exact ⟨e, by rw [merge_get? hrest, he, Option.some_or], hsame⟩

/-- Elements that agree with each other and with what is kept are merged. -/
theorem merge_isSome (hd : ∀ o ∈ l, ∀ e, d.get? (key o) = some e → same e o)
    (h : ∀ o ∈ l, ∀ o' ∈ l, key o = key o' → same o o') : (merge key same d l).isSome := by
  induction l generalizing d with
  | nil => rfl
  | cons o l ih =>
    have hone : ∃ d₁, mergeOne key same d o = some d₁ := by
      unfold mergeOne
      split
      · exact ⟨_, rfl⟩
      · rename_i earlier hsome
        exact ⟨d, if_pos (hd o (.head _) earlier hsome)⟩
    obtain ⟨d₁, hone⟩ := hone
    rw [merge_cons, hone]
    refine ih ?_ fun x hx y hy => h x (.tail _ hx) y (.tail _ hy)
    intro x hx e he
    rw [mergeOne_get? hone] at he
    cases hget : d.get? (key x) with
    | some e' =>
      rw [hget, Option.some_or] at he
      obtain rfl := Option.some.inj he
      exact hd x (.tail _ hx) e' hget
    | none =>
      rw [hget, Option.none_or] at he
      split at he
      · rename_i hkey
        obtain rfl := Option.some.inj he
        exact h o (.head _) x (.tail _ hx) hkey
      · cases he

/-- There is a result exactly when any two elements of one key are the same. -/
theorem merge_isSome_iff (hrefl : ∀ o ∈ l, same o o)
    (hsymm : ∀ o ∈ l, ∀ o' ∈ l, same o o' → same o' o)
    (htrans : ∀ o ∈ l, ∀ e ∈ l, ∀ o' ∈ l, same o e → same e o' → same o o') :
    (merge key same .empty l).isSome ↔ ∀ o ∈ l, ∀ o' ∈ l, key o = key o' → same o o' := by
  constructor
  · intro h o ho o' ho' hkey
    obtain ⟨d, hd⟩ := Option.isSome_iff_exists.mp h
    obtain ⟨e, he, hsame⟩ := merge_same hrefl hd ho
    obtain ⟨e', he', hsame'⟩ := merge_same hrefl hd ho'
    rw [← hkey, he] at he'
    obtain rfl := Option.some.inj he'
    have hmem : e ∈ l := by
      rw [merge_get? hd, Dict.get?_empty, Option.none_or] at he
      exact List.mem_of_find?_eq_some he
    exact htrans o ho e hmem o' ho' (hsymm e hmem o ho hsame) hsame'
  · intro h
    exact merge_isSome (fun _ _ _ he => by cases he) h

/-- The elements kept are elements that were merged. -/
theorem mem_of_merge {k : κ} (h : merge key same .empty l = some d) (ho : d.get? k = some o) :
    o ∈ l ∧ key o = k := by
  rw [merge_get? h, Dict.get?_empty, Option.none_or] at ho
  exact ⟨List.mem_of_find?_eq_some ho, by simpa using List.find?_some ho⟩

end Lib
