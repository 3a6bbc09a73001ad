import EnergyPlatform.Contracts.Json
import EnergyPlatform.Contracts.Parser

/-!
# Mcp.WriteTarget

`write_target_file`: a file is written first and checked afterwards, and the write is undone when
the check finds a new problem.

* `makeDirs_free`, `makeDirs_blocked`: the parents a write creates, and where a failing `mkdir`
  leaves them.
* `same_undo`: when the undoing of a new file leaves the tree as it was.
* `leaves_no_trace_iff`: exactly when a write that does not succeed leaves no trace.
-/

namespace EnergyPlatform

/-! ## Trees -/

/-- The names of a path below the target's directory, outermost first. -/
abbrev RelPath := List String

inductive FileNode where
  | dir
  | file (content : Bytes)
deriving DecidableEq

/-- What lies below the target's directory, in the order it was made. -/
abbrev Entries := List (RelPath × FileNode)

namespace Entries

/-- What a path names; the empty path is the target's own directory. -/
def find (l : Entries) (p : RelPath) : Option FileNode :=
  if p = [] then some .dir else (l.find? fun e => e.1 = p).map Prod.snd

/-- `path.write_bytes(content)`. -/
def setFile (l : Entries) (p : RelPath) (content : Bytes) : Entries :=
  if (l.find p).isSome then l.map fun e => if e.1 = p then (p, .file content) else e
  else l ++ [(p, .file content)]

/-- `path.unlink()`, `path.rmdir()`. -/
def remove (l : Entries) (p : RelPath) : Entries := l.filter fun e => e.1 ≠ p

/-- `any(path.iterdir())`. -/
def hasChild (l : Entries) (p : RelPath) : Bool := l.any fun e => e.1 ≠ [] ∧ e.1.dropLast = p

end Entries

/-- The tree of a target: every entry lies in a directory. -/
structure TargetTree where
  entries : Entries
  parents : ∀ p n, (entries.find (p ++ [n])).isSome → entries.find p = some .dir

/-! ## The tool -/

/-- The directories on the way from `base` to a file, outermost first. -/
def dirsBelow (base : RelPath) : RelPath → List RelPath
  | [] => []
  | [_] => []
  | n :: m :: rest => (base ++ [n]) :: dirsBelow (base ++ [n]) (m :: rest)

/-- The file-system steps that fail, each with the text of its exception: reading the old file;
making a parent, after so many were made; writing, before the file is opened or with the content
that is left in it. -/
structure WriteFaults where
  read : Option String
  mkdir : Option (Nat × String)
  write : Option (Option Bytes × String)

/-- What the tool calls: `repr`, the pattern of a target id, `(target / path).resolve()` below the
target (`none` outside of it), `check_target` (or what it raises), and `str(target)`. -/
structure ToolHost where
  repr : Json → String
  targetId : String → Bool
  resolve : Entries → String → Option RelPath
  check : Entries → Except String (List String)
  targetDir : String

inductive WriteResult where
  | returned (written : String) (remaining : List String)
  | toolError (message : String)
  | raised (message : String)

/-- The target's tree and the session's journal. -/
structure Session where
  entries : Entries
  journal : List (String × String)

def maxWrite : Nat := 2 * 1024 * 1024

/-- `mkdir(parents=True, exist_ok=True)`. -/
def makeDirs : Option (Nat × String) → List RelPath → Entries → Except String Unit × Entries
  | _, [], l => (.ok (), l)
  | fault, d :: ds, l =>
    match l.find d with
    | some .dir => makeDirs fault ds l
    | some (.file _) => (.error "Not a directory", l)
    | none =>
      match fault with
      | some (0, message) => (.error message, l)
      | some (k + 1, message) => makeDirs (some (k, message)) ds (l ++ [(d, .dir)])
      | none => makeDirs none ds (l ++ [(d, .dir)])

/-- The loop over the parents of a file that was removed, innermost first. -/
def removeEmpty : List RelPath → Entries → Entries
  | [], l => l
  | d :: ds, l =>
    removeEmpty ds (if l.find d = some .dir ∧ l.hasChild d = false then l.remove d else l)

section Tool

variable (H : ToolHost) (faults : WriteFaults)

/-- The guards: the target's id, the path below it and the content as bytes. -/
def writeGuards (targetId path content : Json) (l : Entries) :
    Except String (String × RelPath × Bytes) :=
  match targetId with
  | .str id =>
    if H.targetId id = false then
      .error "target id must match ^[a-z][a-z0-9_]{2,63}$"
    else if ¬ ∃ c ∈ l.find ["manifest.yaml"], c ≠ .dir then
      .error ("targets/" ++ id ++ "/ does not exist (scaffold_target first)")
    else
      match content with
      | .str text =>
        if maxWrite < text.toUTF8.size then
          .error ("content exceeds " ++ toString maxWrite ++ " bytes")
        else
          match path with
          | .str rel =>
            if rel = "" ∨ rel.toList.head? = some '/' ∨ rel.toList.head? = some '~' ∨
                '\\' ∈ rel.toList then
              .error ("path must be relative to targets/" ++ id ++ "/: " ++ H.repr path)
            else
              match H.resolve l rel with
              | none => .error (H.repr path ++ " escapes targets/" ++ id ++ "/")
              | some p =>
                if p.head? = some "fixtures" then
                  .error "fixtures are written by record_fixture only (Bronze objects)"
                else .ok (id, p, text.toUTF8.toList)
          | _ => .error ("path must be relative to targets/" ++ id ++ "/: " ++ H.repr path)
      | _ => .error "content must be a string"
  | _ => .error "target id must match ^[a-z][a-z0-9_]{2,63}$"

/-- The content of the file that is there, if one is. -/
def previousContent (l : Entries) (p : RelPath) : Except String (Option Bytes) :=
  match l.find p with
  | none => .ok none
  | some .dir => .error "Is a directory"
  | some (.file content) =>
    match faults.read with
    | some message => .error message
    | none => .ok (some content)

/-- `p.as_posix()`. -/
def posixText (p : RelPath) : String := if p = [] then "." else "/".intercalate p

/-- `needle in text`. -/
def isIn (needle text : String) : Bool :=
  text.toList.tails.any fun t => needle.toList.isPrefixOf t

/-- The problems of the second check that are new and name the file. -/
def newProblems (p : RelPath) (before after : List String) : List String :=
  after.filter fun problem => decide (problem ∉ before) &&
    (isIn (posixText p) problem || isIn (H.targetDir ++ "/" ++ posixText p) problem)

/-- The roll-back of a write that brought a new problem. -/
def undoWrite (p : RelPath) (previous : Option Bytes) (l : Entries) : Entries :=
  match previous with
  | none => removeEmpty (dirsBelow [] p).reverse (l.remove p)
  | some content => l.setFile p content

/-- `write_target_file`, once the guards have passed. -/
def writeChecked (id : String) (p : RelPath) (content : Bytes) (s : Session) :
    WriteResult × Session :=
  match H.check s.entries with
  | .error message => (.raised message, s)
  | .ok before =>
    match previousContent faults s.entries p with
    | .error message => (.raised message, s)
    | .ok previous =>
      match makeDirs faults.mkdir (dirsBelow [] p) s.entries with
      | (.error message, l) => (.raised message, { s with entries := l })
      | (.ok (), l) =>
        match faults.write with
        | some (none, message) => (.raised message, { s with entries := l })
        | some (some left, message) =>
          (.raised message, { s with entries := l.setFile p left })
        | none =>
          match H.check (l.setFile p content) with
          | .error message => (.raised message, { s with entries := l.setFile p content })
          | .ok after =>
            if newProblems H p before after = [] then
              (.returned ("targets/" ++ id ++ "/" ++ posixText p) after,
                { entries := l.setFile p content
                  journal := s.journal.insert (id, "targets/" ++ id ++ "/" ++ posixText p) })
            else
              (.toolError ("write rejected by the surface rules (rolled back):\n  " ++
                "\n  ".intercalate (newProblems H p before after)),
                { s with entries := undoWrite p previous (l.setFile p content) })

def writeTargetFile (targetId path content : Json) (s : Session) : WriteResult × Session :=
  match writeGuards H targetId path content s.entries with
  | .error message => (.toolError message, s)
  | .ok (id, p, bytes) => writeChecked H faults id p bytes s

end Tool

/-! ## What the steps leave -/

namespace Entries

variable {l : Entries} {p q : RelPath}

theorem find_eq_some {n : FileNode} (h : l.find p = some n) (hp : p ≠ []) : (p, n) ∈ l := by
  rw [find, if_neg hp] at h
  obtain ⟨e, he, rfl⟩ := Option.map_eq_some_iff.mp h
  have hkey : e.1 = p := by simpa using List.find?_some he
  rw [← hkey]
  exact List.mem_of_find?_eq_some he

theorem find_isSome {e : RelPath × FileNode} (h : e ∈ l) : (l.find e.1).isSome := by
  unfold find
  split
  · rfl
  · rw [Option.isSome_map, List.find?_isSome]
    exact ⟨e, h, decide_eq_true rfl⟩

theorem find_append (d : RelPath) (n : FileNode) : (Entries.find (l ++ [(d, n)]) p) =
    if p = d ∧ p ≠ [] ∧ l.find p = none then some n else l.find p := by
  unfold find
  by_cases hp : p = []
  · simp [hp]
  · rw [if_neg hp, if_neg hp, List.find?_append]
    cases hl : l.find? fun e => decide (e.1 = p) with
    | some e => simp
    | none =>
      by_cases hd : p = d
      · subst hd
        simp [hp]
      · have hne : ¬ d = p := fun h => hd h.symm
        simp [hd, hne]

theorem find_remove : (l.remove q).find p = if p = q ∧ p ≠ [] then none else l.find p := by
  unfold find remove
  by_cases hp : p = []
  · simp [hp]
  · rw [if_neg hp, if_neg hp, List.find?_filter]
    by_cases hq : p = q
    · rw [if_pos ⟨hq, hp⟩, Option.map_eq_none_iff, List.find?_eq_none]
      intro e _ he
      simp only [ne_eq, decide_not, Bool.not_eq_eq_eq_not, Bool.not_true,
        decide_eq_false_iff_not, decide_eq_true_eq] at he
      exact he.1 (he.2.trans hq)
    · rw [if_neg fun h => hq h.1]
      congr 1
      refine List.find?_congr fun e _ => ?_
      by_cases he : e.1 = p
      · simp [he, hq]
      · simp [he]

theorem find_setFile (content : Bytes) (hq : q ≠ []) :
    (l.setFile q content).find p = if p = q then some (.file content) else l.find p := by
  unfold setFile
  by_cases hsome : (l.find q).isSome
  · rw [if_pos hsome]
    by_cases hp : p = []
    · have hpq : ¬ p = q := fun h => hq (h.symm.trans hp)
      rw [if_neg hpq, hp]
      rfl
    · unfold find
      rw [if_neg hp, if_neg hp, List.find?_map]
      by_cases hpq : p = q
      · subst hpq
        rw [if_pos rfl]
        rw [find, if_neg hp, Option.isSome_map, List.find?_isSome] at hsome
        obtain ⟨e, he, hkey⟩ := hsome
        have hfound : (l.find? ((fun e : RelPath × FileNode => decide (e.1 = p)) ∘
            fun e => if e.1 = p then (p, .file content) else e)).isSome := by
          refine List.find?_isSome.mpr ⟨e, he, ?_⟩
          simp only [Function.comp_apply, if_pos (of_decide_eq_true hkey), decide_true]
        obtain ⟨e', he'⟩ := Option.isSome_iff_exists.mp hfound
        have hkey' := List.find?_some he'
        rw [he']
        by_cases hkk : e'.1 = p
        · simp [hkk]
        · simp [hkk] at hkey'
      · rw [if_neg hpq, Option.map_map]
        have hpred : ((fun e : RelPath × FileNode => decide (e.1 = p)) ∘
            fun e => if e.1 = q then (q, .file content) else e) = fun e => decide (e.1 = p) := by
          funext e
          by_cases he : e.1 = q
          · have hqp : ¬ q = p := fun h => hpq h.symm
            simp [he, hqp]
          · simp [he]
        rw [hpred]
        cases hf : l.find? fun e => decide (e.1 = p) with
        | none => rfl
        | some e =>
          have hkey : e.1 = p := by simpa using List.find?_some hf
          have hne : ¬ e.1 = q := fun h => hpq (hkey.symm.trans h)
          simp [hne]
  · rw [if_neg hsome, find_append]
    have hnone : l.find q = none := by simpa using hsome
    by_cases hpq : p = q
    · rw [if_pos hpq, if_pos ⟨hpq, hpq ▸ hq, hpq ▸ hnone⟩]
    · rw [if_neg hpq, if_neg fun h => hpq h.1]

theorem hasChild_iff : l.hasChild p = true ↔ ∃ n, (l.find (p ++ [n])).isSome := by
  unfold hasChild
  rw [List.any_eq_true]
  constructor
  · rintro ⟨e, he, hp⟩
    obtain ⟨hne, rfl⟩ := of_decide_eq_true hp
    exact ⟨e.1.getLast hne, by rw [List.dropLast_append_getLast]; exact find_isSome he⟩
  · rintro ⟨n, hn⟩
    obtain ⟨node, hnode⟩ := Option.isSome_iff_exists.mp hn
    exact ⟨_, find_eq_some hnode (by simp), by simp⟩

end Entries

/-- The directories made one after another. -/
def Entries.addDirs (l : Entries) (ds : List RelPath) : Entries := l ++ ds.map fun d => (d, .dir)

theorem Entries.find_addDirs {p : RelPath} (hp : p ≠ []) (ds : List RelPath) : ∀ l : Entries,
    (l.addDirs ds).find p = if p ∈ ds ∧ l.find p = none then some .dir else l.find p := by
  induction ds with
  | nil =>
    intro l
    rw [if_neg fun h => List.not_mem_nil h.1, Entries.addDirs, List.map_nil, List.append_nil]
  | cons d ds ih =>
    intro l
    have hstep : l.addDirs (d :: ds) = Entries.addDirs (l ++ [(d, .dir)]) ds := by
      unfold Entries.addDirs
      rw [List.append_assoc]
      rfl
    rw [hstep, ih, Entries.find_append]
    by_cases hd : p = d
    · cases hl : l.find p with
      | none => simp [hd, hd ▸ hp]
      | some n => simp
    · simp [hd]

section Dirs

variable {base p d : RelPath}

/-- A directory on the way is a proper part of the path. -/
theorem mem_dirsBelow (h : d ∈ dirsBelow base p) :
    ∃ mid rest, d = base ++ mid ∧ mid ≠ [] ∧ rest ≠ [] ∧ p = mid ++ rest := by
  induction base, p using dirsBelow.induct with
  | case1 => cases h
  | case2 => cases h
  | case3 base n m rest ih =>
    rw [dirsBelow] at h
    rcases List.mem_cons.mp h with rfl | h
    · exact ⟨[n], m :: rest, rfl, by simp, by simp, rfl⟩
    · obtain ⟨mid, tail, rfl, -, htail, heq⟩ := ih h
      exact ⟨n :: mid, tail, by simp, by simp, htail, by rw [heq]; rfl⟩

theorem dirsBelow_sorted (base p : RelPath) :
    (dirsBelow base p).Pairwise fun a b => a.length < b.length := by
  induction base, p using dirsBelow.induct with
  | case1 => exact .nil
  | case2 => exact .nil
  | case3 base n m rest ih =>
    rw [dirsBelow]
    refine .cons (fun d hd => ?_) ih
    obtain ⟨mid, -, rfl, hmid, -, -⟩ := mem_dirsBelow hd
    have := List.length_pos_iff.mpr hmid
    simp only [List.length_append, List.length_singleton]
    omega

/-- What lies below a path lies in a directory. -/
theorem TargetTree.dir_of_below (t : TargetTree) {q : RelPath} :
    ∀ r : RelPath, r ≠ [] → (t.entries.find (q ++ r)).isSome → t.entries.find q = some .dir := by
  intro r
  induction r using List.reverseRecOn with
  | nil => exact fun h => absurd rfl h
  | append_singleton r n ih =>
    intro _ h
    rw [← List.append_assoc] at h
    have hdir := t.parents _ _ h
    by_cases hr : r = []
    · rwa [hr, List.append_nil] at hdir
    · exact ih hr (by rw [hdir]; rfl)

/-- The way to a file: directories that are there, then a file, or directories that are not. -/
theorem TargetTree.way (t : TargetTree) (base p : RelPath) :
    (∃ present e c rest, dirsBelow base p = present ++ e :: rest ∧
      (∀ d ∈ present, t.entries.find d = some .dir) ∧ t.entries.find e = some (.file c)) ∨
    (∃ present missing, dirsBelow base p = present ++ missing ∧
      (∀ d ∈ present, t.entries.find d = some .dir) ∧ ∀ d ∈ missing, t.entries.find d = none) := by
  induction base, p using dirsBelow.induct with
  | case1 => exact .inr ⟨[], [], rfl, (fun _ h => nomatch h), (fun _ h => nomatch h)⟩
  | case2 => exact .inr ⟨[], [], rfl, (fun _ h => nomatch h), (fun _ h => nomatch h)⟩
  | case3 base n m rest ih =>
    rw [dirsBelow]
    cases hfirst : t.entries.find (base ++ [n]) with
    | none =>
      refine .inr ⟨[], _, rfl, (fun _ h => nomatch h), fun d hd => ?_⟩
      rcases List.mem_cons.mp hd with rfl | hd
      · exact hfirst
      · obtain ⟨mid, tail, rfl, hmid, -, -⟩ := mem_dirsBelow hd
        cases hdeep : t.entries.find (base ++ [n] ++ mid) with
        | none => rfl
        | some node =>
          have hdir := t.dir_of_below mid hmid (by rw [hdeep]; rfl)
          rw [hfirst] at hdir
          cases hdir
    | some node =>
      cases node with
      | file c => exact .inl ⟨[], _, c, _, rfl, (fun _ h => nomatch h), hfirst⟩
      | dir =>
        rcases ih with ⟨present, e, c, tail, heq, hdirs, hfile⟩ |
          ⟨present, missing, heq, hdirs, hnone⟩
        · refine .inl ⟨(base ++ [n]) :: present, e, c, tail, by rw [heq]; rfl, fun d hd => ?_,
            hfile⟩
          rcases List.mem_cons.mp hd with rfl | hd
          · exact hfirst
          · exact hdirs d hd
        · refine .inr ⟨(base ++ [n]) :: present, missing, by rw [heq]; rfl, fun d hd => ?_, hnone⟩
          rcases List.mem_cons.mp hd with rfl | hd
          · exact hfirst
          · exact hdirs d hd

end Dirs

section MakeDirs

variable {l : Entries}

theorem makeDirs_dir {d : RelPath} (fault : Option (Nat × String)) (h : l.find d = some .dir)
    (ds : List RelPath) : makeDirs fault (d :: ds) l = makeDirs fault ds l := by
  simp only [makeDirs, h]

theorem makeDirs_file {d : RelPath} {c : Bytes} (fault : Option (Nat × String))
    (h : l.find d = some (.file c)) (ds : List RelPath) :
    makeDirs fault (d :: ds) l = (.error "Not a directory", l) := by
  simp only [makeDirs, h]

theorem makeDirs_none {d : RelPath} (fault : Option (Nat × String)) (h : l.find d = none)
    (ds : List RelPath) : makeDirs fault (d :: ds) l =
      match fault with
      | some (0, message) => (.error message, l)
      | some (k + 1, message) => makeDirs (some (k, message)) ds (l ++ [(d, .dir)])
      | none => makeDirs none ds (l ++ [(d, .dir)]) := by
  simp only [makeDirs, h]

theorem makeDirs_present (fault : Option (Nat × String)) {present : List RelPath}
    (h : ∀ d ∈ present, l.find d = some .dir) (rest : List RelPath) :
    makeDirs fault (present ++ rest) l = makeDirs fault rest l := by
  induction present with
  | nil => rfl
  | cons d present ih =>
    rw [List.cons_append, makeDirs_dir fault (h d List.mem_cons_self)]
    exact ih fun e he => h e (List.mem_cons_of_mem _ he)

/-- How many directories are made before `mkdir` fails, if it does. -/
def stopsAfter (fault : Option (Nat × String)) (missing : List RelPath) : Option (Nat × String) :=
  fault.filter fun f => f.1 < missing.length

/-- The missing parents are made in order, up to the one that cannot be. -/
theorem makeDirs_eq {missing : List RelPath} : ∀ (fault : Option (Nat × String)) (l : Entries),
    (∀ d ∈ missing, d ≠ [] ∧ l.find d = none) →
    missing.Pairwise (fun a b => a.length < b.length) →
    makeDirs fault missing l =
      match stopsAfter fault missing with
      | some (k, message) => (.error message, l.addDirs (missing.take k))
      | none => (.ok (), l.addDirs missing) := by
  induction missing with
  | nil =>
    intro fault l _ _
    have hstop : stopsAfter fault [] = none := by
      unfold stopsAfter
      cases fault <;> rfl
    rw [hstop, makeDirs]
    simp [Entries.addDirs]
  | cons d missing ih =>
    intro fault l hnone hsorted
    obtain ⟨hlonger, hsorted⟩ := List.pairwise_cons.mp hsorted
    have hrest : ∀ e ∈ missing, e ≠ [] ∧ Entries.find (l ++ [(d, .dir)]) e = none := by
      intro e he
      obtain ⟨hne, hfind⟩ := hnone e (List.mem_cons_of_mem _ he)
      refine ⟨hne, ?_⟩
      rw [Entries.find_append, if_neg, hfind]
      rintro ⟨rfl, -⟩
      exact absurd (hlonger e he) (lt_irrefl _)
    have hadd : ∀ ds : List RelPath,
        Entries.addDirs (l ++ [(d, .dir)]) ds = l.addDirs (d :: ds) := by
      intro ds
      unfold Entries.addDirs
      rw [List.append_assoc]
      rfl
    rw [makeDirs_none fault (hnone d List.mem_cons_self).2]
    rcases fault with _ | ⟨k, message⟩
    · exact (ih none _ hrest hsorted).trans (by rw [hadd]; rfl)
    · cases k with
      | zero => simp [stopsAfter, Option.filter, Entries.addDirs]
      | succ k =>
        refine (ih (some (k, message)) _ hrest hsorted).trans ?_
        by_cases hk : k < missing.length
        · simp [stopsAfter, Option.filter, hk, hadd]
        · simp [stopsAfter, Option.filter, hk, hadd]

end MakeDirs

section RemoveEmpty

variable {ds : List RelPath}

/-- One turn of the loop takes away at most the directory it looks at. -/
theorem find_turn (l : Entries) (d q : RelPath) :
    (if l.find d = some .dir ∧ l.hasChild d = false then l.remove d else l).find q = l.find q ∨
      q = d ∧ (if l.find d = some .dir ∧ l.hasChild d = false then l.remove d else l).find q =
        none := by
  split
  · rw [Entries.find_remove]
    by_cases hq : q = d ∧ q ≠ []
    · exact .inr ⟨hq.1, if_pos hq⟩
    · exact .inl (if_neg hq)
  · exact .inl rfl

theorem removeEmpty_find (q : RelPath) : ∀ l : Entries,
    (removeEmpty ds l).find q = l.find q ∨ q ∈ ds ∧ (removeEmpty ds l).find q = none := by
  induction ds with
  | nil => exact fun _ => .inl rfl
  | cons d ds ih =>
    intro l
    unfold removeEmpty
    rcases ih (if l.find d = some .dir ∧ l.hasChild d = false then l.remove d else l) with
      hrest | ⟨hmem, hnone⟩
    · rcases find_turn l d q with hturn | ⟨rfl, hnone⟩
      · exact .inl (hrest.trans hturn)
      · exact .inr ⟨List.mem_cons_self, hrest.trans hnone⟩
    · exact .inr ⟨List.mem_cons_of_mem _ hmem, hnone⟩

/-- No directory of the list is left empty. -/
theorem removeEmpty_full (hsorted : ds.Pairwise fun a b => b.length < a.length)
    (hne : [] ∉ ds) : ∀ (l : Entries) {d : RelPath}, d ∈ ds →
    (removeEmpty ds l).find d = some .dir → (removeEmpty ds l).hasChild d = true := by
  induction ds with
  | nil => exact fun _ _ hd => absurd hd List.not_mem_nil
  | cons d ds ih =>
    intro l e he hfind
    obtain ⟨hlonger, hsorted⟩ := List.pairwise_cons.mp hsorted
    rcases List.mem_cons.mp he with rfl | he
    · unfold removeEmpty at hfind ⊢
      have hself : e ∉ ds := fun hmem => lt_irrefl _ (hlonger e hmem)
      rcases removeEmpty_find e _ with heq | ⟨hmem, -⟩
      · rw [heq] at hfind
        by_cases hempty : l.find e = some .dir ∧ l.hasChild e = false
        · have hgone : (l.remove e).find e = none := by
            rw [Entries.find_remove, if_pos ⟨rfl, fun h => hne (h ▸ List.mem_cons_self)⟩]
          rw [if_pos hempty, hgone] at hfind
          cases hfind
        · rw [if_neg hempty] at hfind ⊢
          have hchild : l.hasChild e = true := by simpa [hfind] using hempty
          obtain ⟨n, hn⟩ := Entries.hasChild_iff.mp hchild
          refine Entries.hasChild_iff.mpr ⟨n, ?_⟩
          rcases removeEmpty_find (e ++ [n]) l with hkept | ⟨hmem, -⟩
          · rwa [hkept]
          · -- a child is longer than what the loop still looks at
            have := hlonger _ hmem
            simp only [List.length_append, List.length_singleton] at this
            omega
      · exact absurd hmem hself
    · unfold removeEmpty at hfind ⊢
      exact ih hsorted (fun h => hne (List.mem_cons_of_mem _ h)) _ he hfind

/-- A tree none of whose directories on the way is empty is kept. -/
theorem removeEmpty_keeps {kept : Entries}
    (hfull : ∀ d ∈ ds, kept.find d = some .dir → kept.hasChild d = true) : ∀ l : Entries,
    (∀ q, (kept.find q).isSome → l.find q = kept.find q) →
    ∀ q, (kept.find q).isSome → (removeEmpty ds l).find q = kept.find q := by
  induction ds with
  | nil => exact fun _ h => h
  | cons d ds ih =>
    intro l hl
    unfold removeEmpty
    refine ih (fun e he => hfull e (List.mem_cons_of_mem _ he)) _ fun q hq => ?_
    rcases find_turn l d q with hturn | ⟨rfl, hnone⟩
    · exact hturn.trans (hl q hq)
    · by_cases hempty : l.find q = some .dir ∧ l.hasChild q = false
      · have hchild := hfull q List.mem_cons_self ((hl q hq).symm.trans hempty.1)
        obtain ⟨n, hn⟩ := Entries.hasChild_iff.mp hchild
        have hn' : l.hasChild q = true := Entries.hasChild_iff.mpr ⟨n, by rwa [hl _ hn]⟩
        rw [hempty.2] at hn'
        cases hn'
      · rw [if_neg hempty]
        exact hl q hq

end RemoveEmpty

section Same

variable {l : Entries} {p : RelPath} {ds : List RelPath}

theorem same_addDirs (hds : ∀ d ∈ ds, d ≠ [] ∧ l.find d = none) :
    (∀ q, (l.addDirs ds).find q = l.find q) ↔ ds = [] := by
  constructor
  · intro h
    cases ds with
    | nil => rfl
    | cons d ds =>
      obtain ⟨hne, hnone⟩ := hds d List.mem_cons_self
      have := h d
      rw [Entries.find_addDirs hne, if_pos ⟨List.mem_cons_self, hnone⟩, hnone] at this
      cases this
  · rintro rfl q
    simp [Entries.addDirs]

theorem same_setFile (hp : p ≠ []) (hpds : p ∉ ds) (hds : ∀ d ∈ ds, d ≠ [] ∧ l.find d = none)
    (content : Bytes) : (∀ q, ((l.addDirs ds).setFile p content).find q = l.find q) ↔
      ds = [] ∧ l.find p = some (.file content) := by
  simp only [Entries.find_setFile content hp]
  constructor
  · intro h
    refine ⟨(same_addDirs hds).mp fun q => ?_, ?_⟩
    · by_cases hq : q = p
      · rw [hq, Entries.find_addDirs hp, if_neg fun h => hpds h.1]
      · have := h q
        rwa [if_neg hq] at this
    · have := h p
      rw [if_pos rfl] at this
      exact this.symm
  · rintro ⟨rfl, hfile⟩ q
    split
    · rename_i hq
      rw [hq, hfile]
    · exact (same_addDirs hds).mpr rfl q

end Same

/-! ## Leaving no trace -/

/-- The parents of a file that a write has to make. -/
def missingDirs (l : Entries) (p : RelPath) : List RelPath :=
  (dirsBelow [] p).filter fun d => l.find d = none

/-- The tree with the file, and its parents, written. -/
def written (l : Entries) (p : RelPath) (content : Bytes) : Entries :=
  (l.addDirs (missingDirs l p)).setFile p content

section Missing

variable {l : Entries} {p d : RelPath}

theorem mem_missingDirs : d ∈ missingDirs l p ↔ d ∈ dirsBelow [] p ∧ l.find d = none := by
  simp [missingDirs]

theorem below_ne {base : RelPath} (h : d ∈ dirsBelow base p) : d ≠ [] := by
  obtain ⟨mid, -, rfl, hmid, -, -⟩ := mem_dirsBelow h
  exact fun h => hmid (List.append_eq_nil_iff.mp h).2

theorem length_below (h : d ∈ dirsBelow [] p) : d.length < p.length := by
  obtain ⟨mid, rest, rfl, -, hrest, rfl⟩ := mem_dirsBelow h
  have := List.length_pos_iff.mpr hrest
  simp only [List.length_append]
  omega

theorem missing_facts : ∀ d ∈ missingDirs l p, d ≠ [] ∧ l.find d = none := by
  intro d hd
  obtain ⟨hbelow, hnone⟩ := mem_missingDirs.mp hd
  exact ⟨below_ne hbelow, hnone⟩

theorem not_mem_missing : p ∉ missingDirs l p := fun h =>
  lt_irrefl _ (length_below (mem_missingDirs.mp h).1)

/-- A file that is there misses no parent. -/
theorem TargetTree.missing_nil (t : TargetTree) (h : (t.entries.find p).isSome) :
    missingDirs t.entries p = [] := by
  rw [List.eq_nil_iff_forall_not_mem]
  intro d hd
  obtain ⟨hbelow, hnone⟩ := mem_missingDirs.mp hd
  obtain ⟨mid, rest, rfl, -, hrest, rfl⟩ := mem_dirsBelow hbelow
  rw [t.dir_of_below rest hrest h] at hnone
  cases hnone

theorem find_written {q : RelPath} (content : Bytes) (hp : p ≠ []) (hq : q ≠ []) :
    (written l p content).find q =
      if q = p then some (.file content)
      else if q ∈ missingDirs l p then some .dir else l.find q := by
  unfold written
  rw [Entries.find_setFile content hp, Entries.find_addDirs hq]
  split
  · rfl
  · by_cases hmem : q ∈ missingDirs l p
    · rw [if_pos ⟨hmem, (missing_facts q hmem).2⟩, if_pos hmem]
    · rw [if_neg fun h => hmem h.1, if_neg hmem]

/-- Undoing a new file leaves the tree as it was, when no directory on the way was empty. -/
theorem same_undo (t : TargetTree) (hp : p ≠ []) (hnew : t.entries.find p = none)
    (content : Bytes) :
    (∀ q, (undoWrite p none (written t.entries p content)).find q = t.entries.find q) ↔
      ∀ d ∈ dirsBelow [] p, t.entries.find d = some .dir → t.entries.hasChild d = true := by
  have hsorted : (dirsBelow [] p).reverse.Pairwise fun a b => b.length < a.length :=
    List.pairwise_reverse.mpr (dirsBelow_sorted [] p)
  have hne : [] ∉ (dirsBelow [] p).reverse := fun h => below_ne (List.mem_reverse.mp h) rfl
  unfold undoWrite
  have hfull := @removeEmpty_full _ hsorted hne ((written t.entries p content).remove p)
  constructor
  · intro hsame d hd hdir
    obtain ⟨n, hn⟩ := Entries.hasChild_iff.mp
      (hfull (List.mem_reverse.mpr hd) ((hsame d).trans hdir))
    exact Entries.hasChild_iff.mpr ⟨n, by rwa [← hsame]⟩
  · intro hkept
    have hold : ∀ q, (t.entries.find q).isSome →
        ((written t.entries p content).remove p).find q = t.entries.find q := by
      intro q hq
      have hqp : q ≠ p := fun h => by rw [h, hnew] at hq; cases hq
      rw [Entries.find_remove, if_neg fun h => hqp h.1]
      by_cases hroot : q = []
      · rw [hroot]
        rfl
      · rw [find_written content hp hroot, if_neg hqp, if_neg]
        intro hmem
        rw [(missing_facts q hmem).2] at hq
        cases hq
    have hagree := removeEmpty_keeps (fun d hd => hkept d (List.mem_reverse.mp hd)) _ hold
    -- a directory that was made is removed: from the longest on, it has no child left
    have hgone : ∀ k q, p.length - q.length = k → t.entries.find q = none →
        (removeEmpty (dirsBelow [] p).reverse ((written t.entries p content).remove p)).find q =
          none := by
      intro k
      induction k using Nat.strong_induction_on with
      | _ k ih =>
        intro q hk hq
        have hroot : q ≠ [] := fun h => by rw [h] at hq; cases hq
        rcases removeEmpty_find q ((written t.entries p content).remove p) with heq | ⟨-, hnone⟩
        · rw [heq, Entries.find_remove]
          by_cases hqp : q = p
          · rw [if_pos ⟨hqp, hroot⟩]
          · rw [if_neg fun h => hqp h.1, find_written content hp hroot, if_neg hqp]
            by_cases hmem : q ∈ missingDirs t.entries p
            · have hbelow := (mem_missingDirs.mp hmem).1
              have hdir : (removeEmpty (dirsBelow [] p).reverse
                  ((written t.entries p content).remove p)).find q = some .dir := by
                rw [heq, Entries.find_remove, if_neg fun h => hqp h.1,
                  find_written content hp hroot, if_neg hqp, if_pos hmem]
              obtain ⟨n, hn⟩ := Entries.hasChild_iff.mp (hfull (List.mem_reverse.mpr hbelow) hdir)
              have hchild : t.entries.find (q ++ [n]) = none := by
                cases hc : t.entries.find (q ++ [n]) with
                | none => rfl
                | some node =>
                  have := t.parents q n (by rw [hc]; rfl)
                  rw [hq] at this
                  cases this
              have hlen := length_below hbelow
              rw [ih _ (by simp only [List.length_append, List.length_singleton]; omega) _ rfl
                hchild] at hn
              cases hn
            · rw [if_neg hmem, hq]
        · exact hnone
    intro q
    cases hq : t.entries.find q with
    | none => exact hgone _ q rfl hq
    | some node => exact (hagree q (by rw [hq]; rfl)).trans hq

end Missing

section Trace

variable (H : ToolHost) (faults : WriteFaults)

/-- Whatever is not a success leaves the tree and the journal as they were. -/
def NoTrace (r : WriteResult × Session) (s : Session) : Prop :=
  (∀ path remaining, r.1 ≠ .returned path remaining) →
    (∀ q, r.2.entries.find q = s.entries.find q) ∧ r.2.journal = s.journal

/-- What the steps after the first check have to find: a `mkdir` that fails fails at the first
parent; a write that fails needed no parent and left what was there; a second check that raises
comes after a file was written over with its own content; and the undoing of a new file finds no
directory on its way that was empty. -/
structure Spotless (p : RelPath) (content : Bytes) (l : Entries) (before : List String)
    (previous : Option Bytes) : Prop where
  mkdir : ∀ k message, stopsAfter faults.mkdir (missingDirs l p) = some (k, message) → k = 0
  write : stopsAfter faults.mkdir (missingDirs l p) = none → ∀ left message,
    faults.write = some (left, message) →
      missingDirs l p = [] ∧ ∀ b, left = some b → previous = some b
  recheck : stopsAfter faults.mkdir (missingDirs l p) = none → faults.write = none →
    ∀ message, H.check (written l p content) = .error message →
      missingDirs l p = [] ∧ previous = some content
  undo : stopsAfter faults.mkdir (missingDirs l p) = none → faults.write = none →
    ∀ after, H.check (written l p content) = .ok after → newProblems H p before after ≠ [] →
      previous = none → ∀ d ∈ dirsBelow [] p, l.find d = some .dir → l.hasChild d = true

/-- No parent of the file is itself a file. -/
def WayIsFree (l : Entries) (p : RelPath) : Prop :=
  ∀ d ∈ dirsBelow [] p, ∀ c, l.find d ≠ some (.file c)

theorem previous_find {l : Entries} {p : RelPath} {previous : Option Bytes}
    (h : previousContent faults l p = .ok previous) : l.find p = previous.map .file := by
  unfold previousContent at h
  cases hfind : l.find p with
  | none =>
    rw [hfind] at h
    cases h
    rfl
  | some node =>
    rw [hfind] at h
    cases node with
    | dir => cases h
    | file c =>
      cases hread : faults.read with
      | some message => simp only [hread] at h; cases h
      | none => simp only [hread] at h; cases h; rfl

theorem makeDirs_free (t : TargetTree) {p : RelPath} (fault : Option (Nat × String))
    (hfree : WayIsFree t.entries p) :
    makeDirs fault (dirsBelow [] p) t.entries =
      match stopsAfter fault (missingDirs t.entries p) with
      | some (k, message) =>
        (.error message, t.entries.addDirs ((missingDirs t.entries p).take k))
      | none => (.ok (), t.entries.addDirs (missingDirs t.entries p)) := by
  rcases t.way [] p with ⟨present, e, c, rest, hway, -, hfile⟩ | ⟨present, missing, hway, hp, hm⟩
  · exact absurd hfile (hfree e (by rw [hway]; simp) c)
  · have hmissing : missingDirs t.entries p = missing := by
      unfold missingDirs
      rw [hway, List.filter_append, List.filter_eq_nil_iff.mpr, List.nil_append,
        List.filter_eq_self.mpr]
      · intro d hd
        exact decide_eq_true (hm d hd)
      · intro d hd
        simp [hp d hd]
    have hfacts := hmissing ▸ @missing_facts t.entries p
    have hsorted : missing.Pairwise fun a b => a.length < b.length := by
      have := dirsBelow_sorted [] p
      rw [hway] at this
      exact (List.pairwise_append.mp this).2.1
    rw [hway, makeDirs_present fault hp, makeDirs_eq fault _ hfacts hsorted, hmissing]

theorem makeDirs_blocked (t : TargetTree) {p : RelPath} (fault : Option (Nat × String))
    (hblocked : ¬ WayIsFree t.entries p) :
    makeDirs fault (dirsBelow [] p) t.entries = (.error "Not a directory", t.entries) := by
  rcases t.way [] p with ⟨present, e, c, rest, hway, hp, hfile⟩ | ⟨present, missing, hway, hp, hm⟩
  · rw [hway, makeDirs_present fault hp, makeDirs_file fault hfile]
  · refine absurd (fun d hd c hfile => ?_) hblocked
    rw [hway] at hd
    rcases List.mem_append.mp hd with hd | hd
    · rw [hp d hd] at hfile
      cases hfile
    · rw [hm d hd] at hfile
      cases hfile

/-- What does not succeed leaves no trace exactly when the tree it leaves is the one before. -/
theorem noTrace_failed {r : WriteResult} (hr : ∀ path remaining, r ≠ .returned path remaining)
    (l : Entries) (s : Session) :
    NoTrace (r, { s with entries := l }) s ↔ ∀ q, l.find q = s.entries.find q := by
  constructor
  · exact fun h => (h hr).1
  · exact fun h _ => ⟨h, rfl⟩

/-! ### What the step that fails has to find -/

section Steps

variable {H faults} {p : RelPath} {content : Bytes} {l : Entries} {before : List String}
variable {previous : Option Bytes}

theorem spotless_mkdir {k : Nat} {message : String}
    (hstop : stopsAfter faults.mkdir (missingDirs l p) = some (k, message)) :
    Spotless H faults p content l before previous ↔ k = 0 := by
  constructor
  · exact fun h => h.mkdir k message hstop
  · intro hzero
    constructor
    case mkdir =>
      intro k' m h
      cases hstop.symm.trans h
      exact hzero
    all_goals
      intro h
      cases hstop.symm.trans h

theorem spotless_write (hstop : stopsAfter faults.mkdir (missingDirs l p) = none)
    {left : Option Bytes} {message : String} (hwrite : faults.write = some (left, message)) :
    Spotless H faults p content l before previous ↔
      missingDirs l p = [] ∧ ∀ b, left = some b → previous = some b := by
  constructor
  · exact fun h => h.write hstop left message hwrite
  · intro hkept
    constructor
    case mkdir =>
      intro k m h
      cases hstop.symm.trans h
    case write =>
      intro _ left' m h
      cases hwrite.symm.trans h
      exact hkept
    all_goals
      intro _ h
      cases hwrite.symm.trans h

theorem spotless_recheck (hstop : stopsAfter faults.mkdir (missingDirs l p) = none)
    (hwrite : faults.write = none) {message : String}
    (hafter : H.check (written l p content) = .error message) :
    Spotless H faults p content l before previous ↔
      missingDirs l p = [] ∧ previous = some content := by
  constructor
  · exact fun h => h.recheck hstop hwrite message hafter
  · intro hsame
    constructor
    case mkdir =>
      intro k m h
      cases hstop.symm.trans h
    case write =>
      intro _ left m h
      cases hwrite.symm.trans h
    case recheck => exact fun _ _ _ _ => hsame
    case undo =>
      intro _ _ after h
      cases hafter.symm.trans h

theorem spotless_undo (hstop : stopsAfter faults.mkdir (missingDirs l p) = none)
    (hwrite : faults.write = none) {after : List String}
    (hafter : H.check (written l p content) = .ok after) :
    Spotless H faults p content l before previous ↔
      (newProblems H p before after ≠ [] → previous = none →
        ∀ d ∈ dirsBelow [] p, l.find d = some .dir → l.hasChild d = true) := by
  constructor
  · exact fun h => h.undo hstop hwrite after hafter
  · intro hkept
    constructor
    case mkdir =>
      intro k m h
      cases hstop.symm.trans h
    case write =>
      intro _ left m h
      cases hwrite.symm.trans h
    case recheck =>
      intro _ _ m h
      cases hafter.symm.trans h
    case undo =>
      intro _ _ after' h
      cases hafter.symm.trans h
      exact hkept

/-- Undoing a write leaves the tree as it was, but for a new file with an empty directory on its
way. -/
theorem same_undoWrite (t : TargetTree) (hp : p ≠ [])
    (hfind : t.entries.find p = previous.map .file) :
    (∀ q, (undoWrite p previous (written t.entries p content)).find q = t.entries.find q) ↔
      (previous = none →
        ∀ d ∈ dirsBelow [] p, t.entries.find d = some .dir → t.entries.hasChild d = true) := by
  cases previous with
  | none => exact (same_undo t hp hfind content).trans ⟨fun h _ => h, fun h => h rfl⟩
  | some old =>
    have hnil := t.missing_nil (p := p) (by rw [hfind]; rfl)
    refine iff_of_true (fun q => ?_) fun h => by cases h
    unfold undoWrite
    rw [Entries.find_setFile old hp]
    split
    · rename_i hq
      rw [hq, hfind]
      rfl
    · rename_i hq
      have hnone : ∀ d ∈ ([] : List RelPath), d ≠ [] ∧ t.entries.find d = none :=
        fun d hd => absurd hd List.not_mem_nil
      rw [written, hnil, Entries.find_setFile content hp, if_neg hq]
      exact (same_addDirs hnone).mpr rfl q

end Steps

theorem writeChecked_noTrace (t : TargetTree) (id : String) {p : RelPath} (content : Bytes)
    (journal : List (String × String)) {before : List String} {previous : Option Bytes}
    (hcheck : H.check t.entries = .ok before)
    (hprevious : previousContent faults t.entries p = .ok previous)
    (hfree : WayIsFree t.entries p) :
    NoTrace (writeChecked H faults id p content ⟨t.entries, journal⟩) ⟨t.entries, journal⟩ ↔
      Spotless H faults p content t.entries before previous := by
  have hfind := previous_find faults hprevious
  have hp : p ≠ [] := by
    rintro rfl
    cases previous <;> cases hfind
  have hfailed : ∀ {r : WriteResult}, (∀ path remaining, r ≠ .returned path remaining) →
      ∀ l, NoTrace (r, ⟨l, journal⟩) ⟨t.entries, journal⟩ ↔ ∀ q, l.find q = t.entries.find q :=
    fun hr l => noTrace_failed hr l ⟨t.entries, journal⟩
  unfold writeChecked
  simp only [hcheck, hprevious, makeDirs_free t faults.mkdir hfree]
  cases hstop : stopsAfter faults.mkdir (missingDirs t.entries p) with
  | some stop =>
    obtain ⟨k, message⟩ := stop
    have hk : k < (missingDirs t.entries p).length := by
      have := (Option.filter_eq_some_iff.mp hstop).2
      simpa using this
    have hfacts : ∀ d ∈ (missingDirs t.entries p).take k, d ≠ [] ∧ t.entries.find d = none :=
      fun d hd => missing_facts d (List.mem_of_mem_take hd)
    refine (hfailed (by rintro _ _ ⟨⟩) _).trans ((same_addDirs hfacts).trans ?_)
    rw [spotless_mkdir hstop, List.take_eq_nil_iff]
    exact or_iff_left fun hnil => Nat.ne_of_gt (Nat.zero_lt_of_lt hk) (List.length_eq_zero_iff.mpr hnil)
  | none =>
    cases hwrite : faults.write with
    | some fault =>
      obtain ⟨left, message⟩ := fault
      rw [spotless_write hstop hwrite]
      cases left with
      | none =>
        refine (hfailed (by rintro _ _ ⟨⟩) _).trans
          ((same_addDirs missing_facts).trans ?_)
        simp
      | some b =>
        refine (hfailed (by rintro _ _ ⟨⟩) _).trans
          ((same_setFile hp not_mem_missing missing_facts b).trans ?_)
        rw [hfind]
        simp
    | none =>
      simp only [← written.eq_def]
      cases hafter : H.check (written t.entries p content) with
      | error message =>
        refine (hfailed (by rintro _ _ ⟨⟩) _).trans
          ((same_setFile hp not_mem_missing missing_facts content).trans ?_)
        rw [spotless_recheck hstop hwrite hafter, hfind]
        simp
      | ok after =>
        rw [spotless_undo hstop hwrite hafter]
        by_cases hnew : newProblems H p before after = []
        · simp only [if_pos hnew]
          exact iff_of_true (fun h => absurd rfl (h _ _)) fun hbad => absurd hnew hbad
        · simp only [if_neg hnew]
          refine (hfailed (by rintro _ _ ⟨⟩) _).trans ?_
          exact (same_undoWrite t hp hfind).trans ⟨fun h _ => h, fun h => h hnew⟩

/-- A write that does not succeed leaves no trace exactly when each step that fails finds the tree
as `Spotless` says. -/
theorem leaves_no_trace_iff (t : TargetTree) (targetId path content : Json)
    (journal : List (String × String)) :
    NoTrace (writeTargetFile H faults targetId path content ⟨t.entries, journal⟩)
        ⟨t.entries, journal⟩ ↔
      ∀ id p bytes before previous,
        writeGuards H targetId path content t.entries = .ok (id, p, bytes) →
        H.check t.entries = .ok before → previousContent faults t.entries p = .ok previous →
        WayIsFree t.entries p → Spotless H faults p bytes t.entries before previous := by
  have hsame : ∀ r : WriteResult, NoTrace (r, ⟨t.entries, journal⟩) ⟨t.entries, journal⟩ :=
    fun _ _ => ⟨fun _ => rfl, rfl⟩
  unfold writeTargetFile
  cases hguards : writeGuards H targetId path content t.entries with
  | error message => exact ⟨fun _ _ _ _ _ _ h => (nomatch h), fun _ => hsame _⟩
  | ok args =>
    obtain ⟨id, p, bytes⟩ := args
    have hargs : (∀ id' p' bytes' before previous,
        (Except.ok (id, p, bytes) : Except String (String × RelPath × Bytes)) =
            .ok (id', p', bytes') →
        H.check t.entries = .ok before → previousContent faults t.entries p' = .ok previous →
        WayIsFree t.entries p' → Spotless H faults p' bytes' t.entries before previous) ↔
        ∀ before previous, H.check t.entries = .ok before →
          previousContent faults t.entries p = .ok previous → WayIsFree t.entries p →
          Spotless H faults p bytes t.entries before previous := by
      constructor
      · exact fun h before previous => h id p bytes before previous rfl
      · intro h id' p' bytes' before previous heq
        cases heq
        exact h before previous
    rw [hargs]
    cases hcheck : H.check t.entries with
    | error message =>
      refine ⟨fun _ _ _ h => (nomatch h), fun _ => ?_⟩
      simp only [writeChecked, hcheck]
      exact hsame _
    | ok before =>
      cases hprevious : previousContent faults t.entries p with
      | error message =>
        refine ⟨fun _ _ _ _ h => (nomatch h), fun _ => ?_⟩
        simp only [writeChecked, hcheck, hprevious]
        exact hsame _
      | ok previous =>
        by_cases hfree : WayIsFree t.entries p
        · rw [writeChecked_noTrace H faults t id bytes journal hcheck hprevious hfree]
          constructor
          · rintro h _ _ ⟨⟩ ⟨⟩ -
            exact h
          · exact fun h => h before previous rfl rfl hfree
        · refine ⟨fun _ _ _ _ _ h => absurd h hfree, fun _ => ?_⟩
          simp only [writeChecked, hcheck, hprevious, makeDirs_blocked t faults.mkdir hfree]
          exact hsame _

end Trace

/-- A target with an empty directory for its tests. -/
def emptyTests : TargetTree where
  entries := [(["manifest.yaml"], .file []), (["tests"], .dir)]
  parents := by
    intro p n h
    obtain ⟨node, hnode⟩ := Option.isSome_iff_exists.mp h
    have hmem := Entries.find_eq_some hnode (by simp)
    simp only [List.mem_cons, Prod.mk.injEq, List.not_mem_nil, or_false] at hmem
    have hp : p = [] := by
      rcases hmem with ⟨hkey, -⟩ | ⟨hkey, -⟩ <;>
      · have := congrArg List.length hkey
        simp only [List.length_append, List.length_singleton] at this
        exact List.length_eq_zero_iff.mp (by omega)
    rw [hp]
    rfl

/-- A tool whose check knows one file outside the target surface. -/
def scriptRule : ToolHost where
  repr _ := "'tests/run.sh'"
  targetId id := id = "demo_target"
  resolve _ rel := if rel = "tests/run.sh" then some ["tests", "run.sh"] else none
  check l := .ok (if (l.find ["tests", "run.sh"]).isSome then
    ["targets/demo_target/tests/run.sh: file outside the target surface"] else [])
  targetDir := "targets/demo_target"

/-- The directory that was there is removed with the rejected file. -/
theorem empty_directory_removed :
    ¬ NoTrace (writeTargetFile scriptRule ⟨none, none, none⟩ (.str "demo_target")
        (.str "tests/run.sh") (.str "") ⟨emptyTests.entries, []⟩) ⟨emptyTests.entries, []⟩ := by
  intro h
  have hrejected : ∃ message, (writeTargetFile scriptRule ⟨none, none, none⟩ (.str "demo_target")
      (.str "tests/run.sh") (.str "") ⟨emptyTests.entries, []⟩).1 = .toolError message := ⟨_, rfl⟩
  obtain ⟨message, hmessage⟩ := hrejected
  have hsame := (h fun _ _ hr => nomatch hmessage.symm.trans hr).1 ["tests"]
  have hgone : (writeTargetFile scriptRule ⟨none, none, none⟩ (.str "demo_target")
      (.str "tests/run.sh") (.str "") ⟨emptyTests.entries, []⟩).2.entries.find ["tests"] =
        none := by decide +kernel
  rw [hgone] at hsame
  cases hsame

end EnergyPlatform
