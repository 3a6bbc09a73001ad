import Mathlib.Data.List.Nodup
import Mathlib.Data.List.Basic

/-!
# Lib.Dict

Insertion-ordered dictionaries: a list of key/value entries in which no key occurs twice. Setting
a present key replaces its value where it stands; setting a new key appends. Nothing is ever
removed.

* `get?_set`: reading after writing.
* `get?_eq_some_iff`: a key reads as `v` exactly when its entry is listed, so `values` and `get?`
  say the same thing (`mem_values`).
* `entries_set_of_none` / `entries_set_of_some`: what a write does to the order.
-/

namespace Lib

/-- An insertion-ordered dictionary. -/
structure Dict (κ ν : Type) where
  entries : List (κ × ν)
  nodup : (entries.map Prod.fst).Nodup
deriving DecidableEq

namespace Dict

variable {κ ν : Type}

theorem ext_entries {d d' : Dict κ ν} (h : d.entries = d'.entries) : d = d' := by
  cases d; cases d'; simp only at h; subst h; rfl

def empty : Dict κ ν := ⟨[], List.nodup_nil⟩

def values (d : Dict κ ν) : List ν := d.entries.map Prod.snd

def keys (d : Dict κ ν) : List κ := d.entries.map Prod.fst

@[simp] theorem values_empty : (empty : Dict κ ν).values = [] := rfl

@[simp] theorem entries_empty : (empty : Dict κ ν).entries = [] := rfl

variable [DecidableEq κ]

/-- The value of the first entry with key `k`. -/
def lookup (k : κ) : List (κ × ν) → Option ν
  | [] => none
  | (k', v) :: rest => if k' = k then some v else lookup k rest

/-- Replace the value of `k` where it stands, or append. -/
def insert (k : κ) (v : ν) : List (κ × ν) → List (κ × ν)
  | [] => [(k, v)]
  | (k', v') :: rest => if k' = k then (k, v) :: rest else (k', v') :: insert k v rest

theorem keys_insert (k : κ) (v : ν) (l : List (κ × ν)) :
    (insert k v l).map Prod.fst =
      if k ∈ l.map Prod.fst then l.map Prod.fst else l.map Prod.fst ++ [k] := by
  induction l with
  | nil => simp [insert]
  | cons p l ih =>
    obtain ⟨k', v'⟩ := p
    by_cases hk : k' = k
    · simp [insert, hk]
    · have hk' : ¬ k = k' := fun h => hk h.symm
      simp only [insert, hk, if_false, List.map_cons, ih, List.mem_cons, hk', false_or]
      split <;> simp

theorem nodup_insert (k : κ) (v : ν) {l : List (κ × ν)} (h : (l.map Prod.fst).Nodup) :
    ((insert k v l).map Prod.fst).Nodup := by
  rw [keys_insert]
  split
  · exact h
  · rename_i hk
    refine List.nodup_append.mpr ⟨h, by simp, ?_⟩
    intro a ha b hb hab
    rw [List.mem_singleton] at hb
    subst hb; subst hab; exact hk ha

def get? (d : Dict κ ν) (k : κ) : Option ν := lookup k d.entries

def contains (d : Dict κ ν) (k : κ) : Bool := (d.get? k).isSome

def set (d : Dict κ ν) (k : κ) (v : ν) : Dict κ ν := ⟨insert k v d.entries, nodup_insert k v d.nodup⟩

/-- Keep the value of a present key, else write `v`. -/
def setDefault (d : Dict κ ν) (k : κ) (v : ν) : Dict κ ν :=
  if d.contains k then d else d.set k v

@[simp] theorem get?_empty (k : κ) : (empty : Dict κ ν).get? k = none := rfl

/-! ## Reading after writing -/

theorem lookup_insert (k k' : κ) (v : ν) (l : List (κ × ν)) :
    lookup k' (insert k v l) = if k' = k then some v else lookup k' l := by
  induction l with
  | nil => simp [insert, lookup, eq_comm]
  | cons p l ih =>
    obtain ⟨q, w⟩ := p
    by_cases hq : q = k
    · subst hq
      by_cases h : k' = q <;> simp [insert, lookup, h, eq_comm]
    · by_cases h : q = k'
      · subst h
        simp [insert, lookup, hq]
      · simp [insert, lookup, hq, h, ih]

theorem get?_set (d : Dict κ ν) (k k' : κ) (v : ν) :
    (d.set k v).get? k' = if k' = k then some v else d.get? k' := lookup_insert k k' v d.entries

@[simp] theorem get?_set_self (d : Dict κ ν) (k : κ) (v : ν) : (d.set k v).get? k = some v := by
  simp [get?_set]

theorem get?_set_ne (d : Dict κ ν) {k k' : κ} (v : ν) (h : k' ≠ k) :
    (d.set k v).get? k' = d.get? k' := by
  simp [get?_set, h]

theorem lookup_eq_none_iff {k : κ} {l : List (κ × ν)} :
    lookup k l = none ↔ k ∉ l.map Prod.fst := by
  induction l with
  | nil => simp [lookup]
  | cons p l ih =>
    obtain ⟨q, w⟩ := p
    by_cases hq : q = k
    · simp [lookup, hq]
    · have hq' : ¬ k = q := fun h => hq h.symm
      simp only [lookup, hq, if_false, ih, List.map_cons, List.mem_cons, hq', false_or]

theorem lookup_eq_some_iff {k : κ} {v : ν} {l : List (κ × ν)} (h : (l.map Prod.fst).Nodup) :
    lookup k l = some v ↔ (k, v) ∈ l := by
  induction l with
  | nil => simp [lookup]
  | cons p l ih =>
    obtain ⟨q, w⟩ := p
    rw [List.map_cons, List.nodup_cons] at h
    by_cases hq : q = k
    · subst hq
      have hnot : (q, v) ∉ l := fun hm => h.1 (List.mem_map.mpr ⟨_, hm, rfl⟩)
      simp [lookup, hnot, eq_comm]
    · have hq' : ¬ k = q := fun h => hq h.symm
      simp [lookup, hq, hq', ih h.2]

/-- A lookup does not depend on the order of the entries. -/
theorem lookup_perm {k : κ} {l l' : List (κ × ν)} (h : (l.map Prod.fst).Nodup) (hp : l.Perm l') :
    lookup k l = lookup k l' := by
  have h' : (l'.map Prod.fst).Nodup := (hp.map Prod.fst).nodup_iff.mp h
  refine Option.ext fun v => ?_
  rw [lookup_eq_some_iff h, lookup_eq_some_iff h']
  exact hp.mem_iff

omit [DecidableEq κ] in
/-- Entries without a repeated key are determined by their set and the order of the keys. -/
theorem entries_eq_of_perm {l l' : List (κ × ν)} (h : (l.map Prod.fst).Nodup) (hp : l.Perm l')
    (hk : l.map Prod.fst = l'.map Prod.fst) : l = l' := by
  induction l generalizing l' with
  | nil => exact hp.nil_eq
  | cons p l ih =>
    cases l' with
    | nil => cases hk
    | cons p' l' =>
      rw [List.map_cons, List.map_cons, List.cons.injEq] at hk
      rw [List.map_cons, List.nodup_cons] at h
      have hpp : p = p' := by
        rcases List.mem_cons.mp (hp.subset List.mem_cons_self) with hpp | hm
        · exact hpp
        · exact absurd (hk.2 ▸ List.mem_map_of_mem hm) h.1
      subst hpp
      rw [ih h.2 hp.cons_inv hk.2]

theorem lookup_map {μ : Type} (f : ν → μ) (k : κ) (l : List (κ × ν)) :
    lookup k (l.map fun p => (p.1, f p.2)) = (lookup k l).map f := by
  induction l with
  | nil => rfl
  | cons p l ih =>
    simp only [List.map_cons, lookup]
    split
    · rfl
    · exact ih

theorem get?_eq_some_iff {d : Dict κ ν} {k : κ} {v : ν} :
    d.get? k = some v ↔ (k, v) ∈ d.entries := lookup_eq_some_iff d.nodup

theorem get?_eq_none_iff {d : Dict κ ν} {k : κ} : d.get? k = none ↔ k ∉ d.keys :=
  lookup_eq_none_iff

theorem mem_values {d : Dict κ ν} {v : ν} : v ∈ d.values ↔ ∃ k, d.get? k = some v := by
  simp [values, get?_eq_some_iff]

theorem mem_keys {d : Dict κ ν} {k : κ} : k ∈ d.keys ↔ ∃ v, d.get? k = some v := by
  rw [← not_iff_not, ← get?_eq_none_iff]
  cases d.get? k <;> simp

theorem contains_iff {d : Dict κ ν} {k : κ} : d.contains k = true ↔ ∃ v, d.get? k = some v :=
  Option.isSome_iff_exists

/-! ## What a write does to the order -/

theorem insert_of_not_mem {k : κ} {v : ν} {l : List (κ × ν)} (h : k ∉ l.map Prod.fst) :
    insert k v l = l ++ [(k, v)] := by
  induction l with
  | nil => rfl
  | cons p l ih =>
    obtain ⟨q, w⟩ := p
    rw [List.map_cons, List.mem_cons, not_or] at h
    have hq : q ≠ k := fun e => h.1 e.symm
    simp [insert, hq, ih h.2]

theorem entries_set_of_none {d : Dict κ ν} {k : κ} (v : ν) (h : d.get? k = none) :
    (d.set k v).entries = d.entries ++ [(k, v)] :=
  insert_of_not_mem (get?_eq_none_iff.mp h)

theorem values_set_of_none {d : Dict κ ν} {k : κ} (v : ν) (h : d.get? k = none) :
    (d.set k v).values = d.values ++ [v] := by
  simp [values, entries_set_of_none v h]

theorem insert_of_mem {k : κ} {v : ν} {l : List (κ × ν)} (hnd : (l.map Prod.fst).Nodup)
    (h : k ∈ l.map Prod.fst) : insert k v l = l.map fun p => if p.1 = k then (k, v) else p := by
  induction l with
  | nil => simp at h
  | cons p l ih =>
    obtain ⟨q, w⟩ := p
    rw [List.map_cons, List.nodup_cons] at hnd
    by_cases hq : q = k
    · subst hq
      have hrest : l.map (fun p => if p.1 = q then (q, v) else p) = l := by
        conv_rhs => rw [← List.map_id l]
        refine List.map_congr_left fun p hp => ?_
        have : p.1 ≠ q := fun e => hnd.1 (List.mem_map.mpr ⟨p, hp, e⟩)
        simp [this]
      simp [insert, hrest]
    · have hm : k ∈ l.map Prod.fst := by
        rcases List.mem_cons.mp h with h | h
        · exact absurd h.symm hq
        · exact h
      simp [insert, hq, ih hnd.2 hm]

theorem entries_set_of_some {d : Dict κ ν} {k : κ} {w : ν} (v : ν) (h : d.get? k = some w) :
    (d.set k v).entries = d.entries.map fun p => if p.1 = k then (k, v) else p :=
  insert_of_mem d.nodup (mem_keys.mpr ⟨w, h⟩)

/-- Rewriting a key to the value it has changes nothing. -/
theorem set_get? {d : Dict κ ν} {k : κ} {v : ν} (h : d.get? k = some v) : d.set k v = d := by
  apply ext_entries
  rw [entries_set_of_some v h]
  conv_rhs => rw [← List.map_id d.entries]
  refine List.map_congr_left fun p hp => ?_
  obtain ⟨q, w⟩ := p
  by_cases hq : q = k
  · subst hq
    have := get?_eq_some_iff.mpr hp
    rw [h] at this
    simp [Option.some.inj this]
  · simp [hq]

/-- The later of two writes under one key stands. -/
theorem set_set (d : Dict κ ν) (k : κ) (v w : ν) : (d.set k v).set k w = d.set k w := by
  apply ext_entries
  show insert k w (insert k v d.entries) = insert k w d.entries
  induction d.entries with
  | nil => simp [insert]
  | cons p l ih =>
    obtain ⟨q, u⟩ := p
    by_cases hq : q = k
    · simp [insert, hq]
    · simp [insert, hq, ih]

theorem setDefault_of_some {d : Dict κ ν} {k : κ} {w : ν} (v : ν) (h : d.get? k = some w) :
    d.setDefault k v = d := by
  simp [setDefault, contains, h]

theorem setDefault_of_none {d : Dict κ ν} {k : κ} (v : ν) (h : d.get? k = none) :
    d.setDefault k v = d.set k v := by
  simp [setDefault, contains, h]

theorem get?_setDefault {d : Dict κ ν} {k k' : κ} {v w : ν} :
    (d.setDefault k v).get? k' = some w ↔
      d.get? k' = some w ∨ (k' = k ∧ w = v ∧ d.get? k = none) := by
  cases h : d.get? k with
  | some u => simp [setDefault_of_some v h]
  | none =>
    rw [setDefault_of_none v h, get?_set]
    by_cases hk : k' = k
    · subst hk
      simp [h, eq_comm]
    · simp [hk]

theorem keys_set (d : Dict κ ν) (k : κ) (v : ν) :
    (d.set k v).keys = if k ∈ d.keys then d.keys else d.keys ++ [k] :=
  keys_insert k v d.entries

theorem values_eq_filterMap (d : Dict κ ν) : d.values = d.keys.filterMap d.get? := by
  rw [values, keys, List.filterMap_map]
  have hself : ∀ p ∈ d.entries, (d.get? ∘ Prod.fst) p = some p.2 :=
    fun p hp => (lookup_eq_some_iff d.nodup).mpr hp
  rw [List.filterMap_congr hself]
  exact (congrFun List.filterMap_eq_map d.entries).symm

/-- The same keys in the same order, each with its value changed by `g`. -/
theorem values_eq_map {d d' : Dict κ ν} {g : ν → ν} (hk : d'.keys = d.keys)
    (h : ∀ k v, d.get? k = some v → d'.get? k = some (g v)) : d'.values = d.values.map g := by
  rw [values_eq_filterMap d', values_eq_filterMap d, hk, List.map_filterMap]
  refine List.filterMap_congr fun k hkey => ?_
  obtain ⟨v, hv⟩ := mem_keys.mp hkey
  rw [hv, h k v hv]
  rfl

/-- Writing a list of entries whose equal keys carry equal values: a key reads as the value listed
for it, or as before when it is not listed. -/
theorem get?_foldl_set {α : Type} (key : α → κ) (val : α → ν) {k : κ} {v : ν} (l : List α) :
    (∀ x ∈ l, ∀ y ∈ l, key x = key y → val x = val y) → ∀ d : Dict κ ν,
      (l.foldl (fun d x => d.set (key x) (val x)) d).get? k = some v ↔
        (∃ x ∈ l, key x = k ∧ val x = v) ∨ (d.get? k = some v ∧ ∀ x ∈ l, key x ≠ k) := by
  induction l with
  | nil => intro _ d; simp
  | cons x l ih =>
    intro hl d
    have hl' : ∀ y ∈ l, ∀ z ∈ l, key y = key z → val y = val z :=
      fun y hy z hz => hl y (List.mem_cons_of_mem _ hy) z (List.mem_cons_of_mem _ hz)
    rw [List.foldl_cons, ih hl', get?_set]
    constructor
    · rintro (⟨y, hy, h⟩ | ⟨h, hno⟩)
      · exact .inl ⟨y, List.mem_cons_of_mem _ hy, h⟩
      · split at h
        · rename_i hk
          exact .inl ⟨x, by simp, hk.symm, Option.some.inj h⟩
        · rename_i hk
          refine .inr ⟨h, fun y hy => ?_⟩
          rcases List.mem_cons.mp hy with rfl | hy
          · exact fun e => hk e.symm
          · exact hno y hy
    · rintro (⟨y, hy, hk, hv⟩ | ⟨h, hno⟩)
      · by_cases hin : ∃ z ∈ l, key z = k
        · obtain ⟨z, hz, hzk⟩ := hin
          refine .inl ⟨z, hz, hzk, ?_⟩
          rw [← hv]
          exact hl z (List.mem_cons_of_mem _ hz) y hy (hzk.trans hk.symm)
        · rcases List.mem_cons.mp hy with rfl | hy
          · exact .inr ⟨by simp [hk, hv], fun z hz e => hin ⟨z, hz, e⟩⟩
          · exact absurd ⟨y, hy, hk⟩ hin
      · have hx := hno x (by simp)
        refine .inr ⟨?_, fun y hy => hno y (List.mem_cons_of_mem _ hy)⟩
        rw [if_neg fun e => hx e.symm]
        exact h

/-- Which keys a list of entries writes, whatever the values. -/
theorem written_foldl_set {α : Type} (key : α → κ) (val : α → ν) {k : κ} (l : List α) :
    ∀ d : Dict κ ν, (∃ v, (l.foldl (fun d x => d.set (key x) (val x)) d).get? k = some v) ↔
      (∃ x ∈ l, key x = k) ∨ ∃ v, d.get? k = some v := by
  induction l with
  | nil => intro d; simp
  | cons x l ih =>
    intro d
    rw [List.foldl_cons, ih, get?_set]
    by_cases hk : k = key x
    · simp [hk]
    · simp [hk, Ne.symm hk]

end Dict

end Lib
