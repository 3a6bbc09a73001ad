import Mathlib.Data.List.Basic
import Mathlib.Tactic

/-!
# Lib.Outermost

The outermost nodes of a tree that have a property. A node is named by its position, the child
indices on the way to it, so that a node is inside another when its position extends the other's.

`select` searches the tree from its root and does not look below a node it took.
`select_sublist`, `mem_select`: what it takes are the outermost nodes with the property, each once
and in document order. `select_antichain`, `select_covers`: none is inside another, and every node
with the property is inside one of them. `selectWithin` is the search on a bounded stack:
`selectWithin_eq_some`: it ends when every node it looks at fits, with what `select` takes.
-/

namespace Lib

inductive Rose (α : Type) where
  | node (label : α) (children : List (Rose α))

namespace Rose

variable {α : Type}

mutual

/-- The nodes in document order, with their positions. -/
def nodes : Rose α → List (List Nat × α)
  | node a children => ([], a) :: nodesAll 0 children

def nodesAll (i : Nat) : List (Rose α) → List (List Nat × α)
  | [] => []
  | t :: rest => (nodes t).map (fun q => (i :: q.1, q.2)) ++ nodesAll (i + 1) rest

end

mutual

/-- The search: a node with the property ends it. -/
def select (p : α → Bool) : Rose α → List (List Nat × α)
  | node a children => if p a then [([], a)] else selectAll p 0 children

def selectAll (p : α → Bool) (i : Nat) : List (Rose α) → List (List Nat × α)
  | [] => []
  | t :: rest => (select p t).map (fun q => (i :: q.1, q.2)) ++ selectAll p (i + 1) rest

end

mutual

/-- The search on a stack: `fits d a` when there is room for node `a` with `d` nodes above it. -/
def selectWithin (fits : Nat → α → Bool) (p : α → Bool) (d : Nat) :
    Rose α → Option (List (List Nat × α))
  | node a children =>
    if fits d a then
      if p a then some [([], a)] else selectAllWithin fits p (d + 1) 0 children
    else none

def selectAllWithin (fits : Nat → α → Bool) (p : α → Bool) (d i : Nat) :
    List (Rose α) → Option (List (List Nat × α))
  | [] => some []
  | t :: rest =>
    (selectWithin fits p d t).bind fun taken =>
      (selectAllWithin fits p d (i + 1) rest).map fun others =>
        taken.map (fun q => (i :: q.1, q.2)) ++ others

end

/-- The search comes to `q`: it is a node, and inside no other that has the property. -/
def Reached (p : α → Bool) (t : Rose α) (q : List Nat × α) : Prop :=
  q ∈ t.nodes ∧ ∀ a ∈ t.nodes, a.1 <+: q.1 → p a.2 → a.1 = q.1

/-- No node on the way to `q` has the property, and `q` has it. -/
def Outermost (p : α → Bool) (t : Rose α) (q : List Nat × α) : Prop :=
  q ∈ t.nodes ∧ p q.2 ∧ ∀ a ∈ t.nodes, a.1 <+: q.1 → p a.2 → a.1 = q.1

mutual

/-- Induction on the tree: the property of a node from that of its children. -/
theorem induct {P : Rose α → Prop} (h : ∀ a children, (∀ c ∈ children, P c) → P (node a children)) :
    ∀ t, P t
  | node a children => h a children (inductAll h children)

theorem inductAll {P : Rose α → Prop}
    (h : ∀ a children, (∀ c ∈ children, P c) → P (node a children)) :
    ∀ (children : List (Rose α)), ∀ c ∈ children, P c
  | [], _, hc => nomatch hc
  | t :: rest, c, hc => by
    cases hc with
    | head => exact induct h t
    | tail _ hc => exact inductAll h rest c hc

end

variable {p : α → Bool} {t : Rose α} {q : List Nat × α}

theorem nodes_node (a : α) (children : List (Rose α)) :
    (node a children).nodes = ([], a) :: nodesAll 0 children := by rw [nodes]

theorem select_pos {a : α} (h : p a) (children : List (Rose α)) :
    (node a children).select p = [([], a)] := by rw [select, if_pos h]

theorem select_neg {a : α} (h : ¬ p a) (children : List (Rose α)) :
    (node a children).select p = selectAll p 0 children := by rw [select, if_neg h]

/-- What is collected from the children one after the other, each under its index. -/
theorem mem_indexed {collect : Rose α → List (List Nat × α)}
    {all : Nat → List (Rose α) → List (List Nat × α)} (hnil : ∀ i, all i [] = [])
    (hcons : ∀ i t rest, all i (t :: rest) =
      (collect t).map (fun q => (i :: q.1, q.2)) ++ all (i + 1) rest)
    {children : List (Rose α)} {i : Nat} : q ∈ all i children ↔
    ∃ (j : Nat) (t : Rose α) (r : List Nat × α), children[j]? = some t ∧ r ∈ collect t ∧
      q = ((i + j) :: r.1, r.2) := by
  induction children generalizing i with
  | nil => simp [hnil]
  | cons t rest ih =>
    simp only [hcons, List.mem_append, List.mem_map, ih]
    constructor
    · intro h
      rcases h with ⟨r, hr, rfl⟩ | ⟨j, t', r, ht', hr, rfl⟩
      · exact ⟨0, t, r, rfl, hr, rfl⟩
      · exact ⟨j + 1, t', r, ht', hr, by rw [Nat.add_assoc, Nat.add_comm 1 j]⟩
    · intro h
      obtain ⟨j, t', r, ht', hr, rfl⟩ := h
      cases j with
      | zero =>
        cases ht'
        exact .inl ⟨r, hr, rfl⟩
      | succ j => exact .inr ⟨j, t', r, ht', hr, by rw [Nat.add_assoc, Nat.add_comm 1 j]⟩

theorem mem_nodesAll {children : List (Rose α)} {i : Nat} : q ∈ nodesAll i children ↔
    ∃ (j : Nat) (t : Rose α) (r : List Nat × α), children[j]? = some t ∧ r ∈ t.nodes ∧
      q = ((i + j) :: r.1, r.2) :=
  mem_indexed (fun _ => by rw [nodesAll]) fun _ _ _ => by rw [nodesAll]

theorem mem_selectAll {children : List (Rose α)} {i : Nat} : q ∈ selectAll p i children ↔
    ∃ (j : Nat) (t : Rose α) (r : List Nat × α), children[j]? = some t ∧ r ∈ t.select p ∧
      q = ((i + j) :: r.1, r.2) :=
  mem_indexed (fun _ => by rw [selectAll]) fun _ _ _ => by rw [selectAll]

/-! ## Positions -/

theorem nodesAll_nodup {children : List (Rose α)} {i : Nat}
    (h : ∀ c ∈ children, (c.nodes.map Prod.fst).Nodup) :
    ((nodesAll i children).map Prod.fst).Nodup := by
  induction children generalizing i with
  | nil => simp [nodesAll]
  | cons t rest ih =>
    rw [nodesAll, List.map_append, List.map_map]
    refine List.nodup_append.mpr ⟨?_, ih fun c hc => h c (.tail _ hc), ?_⟩
    · have hcons := (h t (.head _)).map (f := fun pos : List Nat => i :: pos) List.cons_injective
      rw [List.map_map] at hcons
      exact hcons
    · intro pos hpos pos' hpos'
      obtain ⟨r, -, rfl⟩ := List.mem_map.mp hpos
      obtain ⟨r', hr', rfl⟩ := List.mem_map.mp hpos'
      obtain ⟨j, t', s, -, -, rfl⟩ := mem_nodesAll.mp hr'
      intro heq
      have hhead := (List.cons.inj heq).1
      omega

/-- A position names one node. -/
theorem nodes_nodup (t : Rose α) : (t.nodes.map Prod.fst).Nodup := by
  induction t using induct with
  | h a children ih =>
    rw [nodes_node, List.map_cons]
    refine List.nodup_cons.mpr ⟨?_, nodesAll_nodup ih⟩
    intro hmem
    obtain ⟨r, hr, hnil⟩ := List.mem_map.mp hmem
    obtain ⟨j, t', s, -, -, rfl⟩ := mem_nodesAll.mp hr
    cases hnil

theorem node_unique {r : List Nat × α} (hq : q ∈ t.nodes) (hr : r ∈ t.nodes)
    (heq : q.1 = r.1) : q = r :=
  List.inj_on_of_nodup_map (nodes_nodup t) hq hr heq

/-! ## The search -/

theorem selectAll_sublist {children : List (Rose α)} {i : Nat}
    (h : ∀ c ∈ children, (c.select p).Sublist c.nodes) :
    (selectAll p i children).Sublist (nodesAll i children) := by
  induction children generalizing i with
  | nil => simp [selectAll]
  | cons t rest ih =>
    rw [selectAll, nodesAll]
    exact ((h t (.head _)).map _).append (ih fun c hc => h c (.tail _ hc))

/-- The nodes that are taken stand in document order, each once. -/
theorem select_sublist (p : α → Bool) (t : Rose α) : (t.select p).Sublist t.nodes := by
  induction t using induct with
  | h a children ih =>
    rw [nodes_node]
    by_cases hp : p a
    · rw [select_pos hp]
      exact (List.nil_sublist _).cons_cons _
    · rw [select_neg hp]
      exact (selectAll_sublist ih).cons _

theorem select_holds (h : q ∈ t.select p) : p q.2 := by
  induction t using induct generalizing q with
  | h a children ih =>
    by_cases hp : p a
    · rw [select_pos hp] at h
      obtain rfl := List.mem_singleton.mp h
      exact hp
    · rw [select_neg hp] at h
      obtain ⟨j, t, r, ht, hr, rfl⟩ := mem_selectAll.mp h
      exact ih t (List.mem_of_getElem? ht) (q := r) hr

/-- Every node with the property is inside a node that is taken. -/
theorem select_covers (h : q ∈ t.nodes) (hp : p q.2) : ∃ s ∈ t.select p, s.1 <+: q.1 := by
  induction t using induct generalizing q with
  | h a children ih =>
    by_cases hroot : p a
    · refine ⟨([], a), ?_, List.nil_prefix⟩
      rw [select_pos hroot]
      exact List.mem_singleton_self _
    · rw [select_neg hroot]
      rw [nodes_node] at h
      cases h with
      | head => exact absurd hp hroot
      | tail _ h =>
        obtain ⟨j, t, r, ht, hr, rfl⟩ := mem_nodesAll.mp h
        obtain ⟨s, hs, hsr⟩ := ih t (List.mem_of_getElem? ht) hr hp
        exact ⟨_, mem_selectAll.mpr ⟨j, t, s, ht, hs, rfl⟩, List.cons_prefix_cons.mpr ⟨rfl, hsr⟩⟩

/-- No node that is taken is inside another. -/
theorem select_antichain {s : List Nat × α} (hs : s ∈ t.select p) (hq : q ∈ t.select p)
    (h : s.1 <+: q.1) : s = q := by
  induction t using induct generalizing s q with
  | h a children ih =>
    by_cases hroot : p a
    · rw [select_pos hroot] at hs hq
      exact (List.mem_singleton.mp hs).trans (List.mem_singleton.mp hq).symm
    · rw [select_neg hroot] at hs hq
      obtain ⟨j, t, r, ht, hr, rfl⟩ := mem_selectAll.mp hs
      obtain ⟨j', t', r', ht', hr', rfl⟩ := mem_selectAll.mp hq
      obtain ⟨hj, hrr⟩ := List.cons_prefix_cons.mp h
      obtain rfl : j = j' := by omega
      obtain rfl := Option.some.inj (ht.symm.trans ht')
      rw [ih t (List.mem_of_getElem? ht) hr hr' hrr]

/-- The search takes the outermost nodes that have the property. -/
theorem mem_select : q ∈ t.select p ↔ Outermost p t q := by
  constructor
  · intro h
    refine ⟨(select_sublist p t).subset h, select_holds h, ?_⟩
    intro a ha hpre hpa
    obtain ⟨s, hs, hsa⟩ := select_covers ha hpa
    obtain rfl := select_antichain hs h (hsa.trans hpre)
    exact hpre.eq_of_length_le hsa.length_le
  · intro h
    obtain ⟨hmem, hp, hout⟩ := h
    obtain ⟨s, hs, hsq⟩ := select_covers hmem hp
    have hsmem := (select_sublist p t).subset hs
    obtain rfl := node_unique hsmem hmem (hout s hsmem hsq (select_holds hs))
    exact hs

/-- A weaker property takes the same nodes exactly when what it takes has the stronger one. -/
theorem select_eq_iff {p' : α → Bool} (hle : ∀ a, p a → p' a) :
    t.select p' = t.select p ↔ ∀ q ∈ t.select p', p q.2 := by
  constructor
  · intro h q hq
    rw [h] at hq
    exact select_holds hq
  · intro h
    induction t using induct with
    | h a children ih =>
      by_cases hroot : p' a
      · rw [select_pos hroot] at h ⊢
        rw [select_pos (h _ (List.mem_singleton_self _))]
      · rw [select_neg hroot] at h ⊢
        rw [select_neg fun hpa => hroot (hle a hpa)]
        clear hroot
        generalize 0 = i at h ⊢
        induction children generalizing i with
        | nil => rfl
        | cons t rest ihrest =>
          rw [selectAll] at h ⊢
          rw [selectAll]
          have hhead : t.select p' = t.select p := by
            apply ih t (.head _)
            intro q hq
            exact h (i :: q.1, q.2) (List.mem_append_left _ (List.mem_map.mpr ⟨q, hq, rfl⟩))
          have htail := ihrest (fun c hc => ih c (.tail _ hc)) (i + 1)
            fun q hq => h q (List.mem_append_right _ hq)
          rw [hhead, htail]

/-! ## The search on a stack -/

theorem reached_root (a : α) (children : List (Rose α)) : Reached p (node a children) ([], a) := by
  refine ⟨?_, fun _ _ hpre _ => List.prefix_nil.mp hpre⟩
  rw [nodes_node]
  exact .head _

/-- Below a node without the property, the search comes to what it comes to in each child. -/
theorem reached_child {a : α} {children : List (Rose α)} {j : Nat} {r : List Nat × α}
    (ha : ¬ p a) (ht : children[j]? = some t) :
    Reached p (node a children) (j :: r.1, r.2) ↔ Reached p t r := by
  have hmem : ∀ s : List Nat × α, (j :: s.1, s.2) ∈ (node a children).nodes ↔ s ∈ t.nodes := by
    intro s
    rw [nodes_node, List.mem_cons, mem_nodesAll]
    constructor
    · rintro (hnil | ⟨j', t', s', ht', hs', heq⟩)
      · cases hnil
      · obtain ⟨hpos, hlabel⟩ := Prod.mk.inj heq
        obtain ⟨hj, hs⟩ := List.cons.inj hpos
        obtain rfl : j = j' := by omega
        obtain rfl := Option.some.inj (ht.symm.trans ht')
        rwa [← Prod.ext hs hlabel] at hs'
    · intro hs
      exact .inr ⟨j, t, s, ht, hs, by rw [Nat.zero_add]⟩
  unfold Reached
  rw [hmem]
  refine and_congr_right fun _ => ⟨?_, ?_⟩
  · intro h s hs hpre hp
    exact (List.cons.inj (h (j :: s.1, s.2) ((hmem s).mpr hs)
      (List.cons_prefix_cons.mpr ⟨rfl, hpre⟩) hp)).2
  · rintro h ⟨pos, b⟩ hs hpre hp
    cases pos with
    | nil =>
      rw [nodes_node, List.mem_cons, mem_nodesAll] at hs
      rcases hs with hroot | ⟨_, _, _, -, -, hnil⟩
      · obtain rfl := (Prod.mk.inj hroot).2
        exact absurd hp ha
      · cases hnil
    | cons i pos =>
      obtain ⟨rfl, hbelow⟩ := List.cons_prefix_cons.mp hpre
      exact congrArg (List.cons i) (h (pos, b) ((hmem (pos, b)).mp hs) hbelow hp)

theorem reached_below {a : α} {children : List (Rose α)} (h : Reached p (node a children) q) :
    q = ([], a) ∨ ¬ p a ∧ ∃ j t r, children[j]? = some t ∧ Reached p t r ∧ q = (j :: r.1, r.2) := by
  have hmem := h.1
  rw [nodes_node, List.mem_cons, mem_nodesAll] at hmem
  rcases hmem with hroot | ⟨j, t, r, ht, -, rfl⟩
  · exact .inl hroot
  · rw [Nat.zero_add] at h ⊢
    refine .inr ?_
    have ha : ¬ p a := by
      intro hp
      have hroot := (reached_root (p := p) a children).1
      exact absurd (h.2 _ hroot List.nil_prefix hp) (List.cons_ne_nil _ _).symm
    exact ⟨ha, j, t, r, ht, (reached_child ha ht).mp h, rfl⟩

variable {fits : Nat → α → Bool}

theorem selectAllWithin_eq_some {children : List (Rose α)} {d i : Nat}
    {taken : List (List Nat × α)}
    (ih : ∀ c ∈ children, ∀ taken, c.selectWithin fits p d = some taken ↔
      (∀ r, Reached p c r → fits (d + r.1.length) r.2) ∧ taken = c.select p) :
    selectAllWithin fits p d i children = some taken ↔
      (∀ c ∈ children, ∀ r, Reached p c r → fits (d + r.1.length) r.2) ∧
        taken = selectAll p i children := by
  induction children generalizing i taken with
  | nil =>
    rw [selectAllWithin, selectAll, Option.some.injEq, eq_comm]
    exact (and_iff_right fun _ hc => absurd hc List.not_mem_nil).symm
  | cons t rest ihrest =>
    rw [selectAllWithin, selectAll, Option.bind_eq_some_iff]
    simp only [Option.map_eq_some_iff, ih t (.head _), List.forall_mem_cons,
      ihrest fun c hc => ih c (.tail _ hc)]
    constructor
    · rintro ⟨_, ⟨ht, rfl⟩, _, ⟨hrest, rfl⟩, rfl⟩
      exact ⟨⟨ht, hrest⟩, rfl⟩
    · rintro ⟨⟨ht, hrest⟩, rfl⟩
      exact ⟨_, ⟨ht, rfl⟩, _, ⟨hrest, rfl⟩, rfl⟩

/-- The search ends when what it comes to fits, and has taken what the search without bound takes. -/
theorem selectWithin_eq_some {d : Nat} {taken : List (List Nat × α)} :
    t.selectWithin fits p d = some taken ↔
      (∀ r, Reached p t r → fits (d + r.1.length) r.2) ∧ taken = t.select p := by
  induction t using induct generalizing d taken with
  | h a children ih =>
    have hroot := reached_root (p := p) a children
    rw [selectWithin]
    by_cases hfits : fits d a
    · rw [if_pos hfits]
      by_cases hp : p a
      · rw [if_pos hp, select_pos hp, Option.some.injEq, eq_comm]
        refine (and_iff_right ?_).symm
        intro r hr
        rcases reached_below hr with rfl | ⟨hnot, -⟩
        · exact hfits
        · exact absurd hp hnot
      · rw [if_neg hp, select_neg hp, selectAllWithin_eq_some fun c hc _ => ih c hc]
        refine and_congr_left fun _ => ⟨?_, ?_⟩
        · intro h r hr
          rcases reached_below hr with rfl | ⟨-, j, t, s, ht, hs, rfl⟩
          · exact hfits
          · have hchild := h t (List.mem_of_getElem? ht) s hs
            rwa [Nat.add_assoc, Nat.add_comm 1] at hchild
        · intro h c hc r hr
          obtain ⟨j, ht⟩ := List.getElem?_of_mem hc
          have hchild := h _ ((reached_child hp ht).mpr hr)
          rwa [Nat.add_assoc, Nat.add_comm 1]
    · rw [if_neg hfits]
      refine iff_of_false (Option.some_ne_none _).symm ?_
      intro h
      exact hfits (h.1 _ hroot)

end Rose

end Lib
