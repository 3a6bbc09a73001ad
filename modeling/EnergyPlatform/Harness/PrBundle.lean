import EnergyPlatform.Contracts.Json
import EnergyPlatform.Contracts.Numerals
import Mathlib.Data.List.TakeWhile

/-!
# Harness.PrBundle

A pull-request bundle, which is untrusted: the classification of the paths it changes, and the
verification before its files are written.

`verify_bundle_confines`: a bundle that is verified without problems writes inside one target only,
under any root, and what it writes hashes to what it declares.
-/

namespace EnergyPlatform

/-! ## POSIX paths -/

section Paths

def Dots (segment : Text) : Prop := segment = [] ∨ segment = ['.']

instance (segment : Text) : Decidable (Dots segment) := inferInstanceAs (Decidable (_ ∨ _))

/-- The segments of a path that are not empty and not a dot. -/
def segments (path : Text) : List Text := (splitChar '/' path).filter fun s => ¬ Dots s

/-- `PurePosixPath(path).parts`. -/
def posixParts (path : Text) : List Text :=
  match path with
  | '/' :: '/' :: '/' :: _ => ['/'] :: segments path
  | '/' :: '/' :: _ => ['/', '/'] :: segments path
  | '/' :: _ => ['/'] :: segments path
  | _ => segments path

/-- Where a path leads from a directory: a double dot goes to the directory above. -/
def posixResolve (root : List Text) (path : Text) : List Text :=
  (splitChar '/' path).foldl
    (fun at_ s => if Dots s then at_ else if s = ['.', '.'] then at_.dropLast else at_ ++ [s])
    (if path.head? = some '/' then [] else root)

end Paths

/-! ## The surface of a change set -/

inductive SurfaceKind where
  | platform
  | target
  | invalid
  | empty
deriving DecidableEq

structure PrSurface where
  kind : SurfaceKind
  targetId : Option Text
  problems : List Text

def PrSurface.ok (s : PrSurface) : Bool := s.kind ≠ .invalid

/-- `PROTECTED`. -/
def protectedFiles : List (Text × Text) :=
  [("energy_platform/contracts/registry.py".toList, "dataset/metric registry (ADR-022 Route B)".toList),
   ("energy_platform/contracts/hosts.py".toList, "host registry (ADR-026)".toList),
   ("deps-allowlist.txt".toList, "dependency allowlist (ADR-006)".toList),
   ("pyproject.toml".toList, "lint/type/test configuration (ADR-014)".toList),
   ("Makefile".toList, "CI gates (ADR-015)".toList),
   ("CODEOWNERS".toList, "ownership (ADR-006)".toList),
   ("conftest.py".toList, "network block and collection rules (ADR-027 §4)".toList)]

def protectedPrefixes : List (Text × Text) :=
  [(".github/".toList, "CI workflows (ADR-015)".toList),
   ("docs/adr/".toList, "architecture decisions".toList),
   ("deployment/".toList, "deployment (ADR-006)".toList),
   ("scripts/".toList, "CI gate scripts".toList),
   ("energy_platform/".toList, "platform code (ADR-005: semantics live here)".toList)]

def targetOf (path : Text) : Option Text :=
  match posixParts path with
  | root :: id :: _ :: _ => if root = "targets".toList then some id else none
  | _ => none

def protectedReason (path : Text) : Option Text :=
  match protectedFiles.find? fun p => p.1 = path with
  | some p => some p.2
  | none => (protectedPrefixes.find? fun p => p.1.isPrefixOf path).map Prod.snd

/-- What the routines of the interpreter are used for: whitespace, and the text of a list. -/
structure PathPrims where
  space : Char → Bool
  reprList : List Text → Text

section Classify

variable (prims : PathPrims)

def strip (text : Text) : Text :=
  ((text.dropWhile prims.space).reverse.dropWhile prims.space).reverse

def sortedSet (l : List Text) : List Text := l.dedup.insertionSort fun a b => a ≤ b

/-- The slashes that Windows writes. -/
def forwardSlashes (path : Text) : Text := path.map fun c => if c = '\\' then '/' else c

def normalisedPaths (paths : List Text) : List Text :=
  sortedSet ((paths.filter fun p => strip prims p ≠ []).map fun p => forwardSlashes (strip prims p))

/-- What is wrong with one path of a target's pull request. -/
def pathProblem (target : Option Text) (path : Text) : List Text :=
  if (targetOf path).isSome ∧ (target = none ∨ targetOf path = target) then []
  else
    match protectedReason path with
    | some reason => [path ++ ": ".toList ++ reason ++
        " — never inside a target PR (05 C-40); open a platform PR".toList]
    | none =>
      if targetOf path = none then
        [path ++ ": outside targets/".toList ++ target.getD "<id>".toList ++ "/ (05 C-39)".toList]
      else []

def classify (paths : List Text) : PrSurface :=
  let normalised := normalisedPaths prims paths
  if normalised = [] then ⟨.empty, none, []⟩
  else
    let targets := sortedSet (normalised.filterMap targetOf)
    match targets with
    | [] => ⟨.platform, none, []⟩
    | [target] =>
      let problems := normalised.flatMap (pathProblem (some target))
      if problems = [] then ⟨.target, some target, []⟩ else ⟨.invalid, some target, problems⟩
    | _ =>
      let problems := ("a target PR touches one target; this one touches ".toList ++
        prims.reprList targets ++ " (05 C-41) — split it".toList) ::
          normalised.flatMap (pathProblem none)
      ⟨.invalid, none, problems⟩

end Classify

/-! ## The bundle -/

/-- The libraries the verification calls: `str` of a value that is no text, `b64decode` with
validation, and the hash. -/
structure BundlePrims extends PathPrims where
  strOther : Json → Text
  b64decode : Text → Option (List UInt8)
  sha256Hex : List UInt8 → Text

section Verify

variable (prims : BundlePrims)

/-- `str(data.get(key, ""))`. -/
def memberText (key : String) (members : List (String × Json)) : Text :=
  match (Json.obj members).member? key with
  | none => []
  | some (.str s) => s.toList
  | some j => prims.strOther j

def pathPrefix (targetId : Text) : Text := "targets/".toList ++ targetId ++ ['/']

/-- The checks of one entry of a bundle. -/
def verifyFile (targetId : Text) : Json → List Text
  | .obj item =>
    let path := memberText prims "path" item
    let outside :=
      if ¬ (pathPrefix targetId).isPrefixOf path ∨ (posixParts path).contains ['.', '.'] ∨
          ['/'].isPrefixOf path then
        [path ++ ": outside ".toList ++ pathPrefix targetId] else []
    outside ++ match prims.b64decode (memberText prims "content_b64" item) with
      | none => [path ++ ": content is not base64".toList]
      | some content =>
        match (Json.obj item).member? "sha256" with
        | some (.str s) =>
          if prims.sha256Hex content = s.toList then []
          else [path ++ ": content does not match its sha256".toList]
        | _ => [path ++ ": content does not match its sha256".toList]
  | _ => ["file entry is not a mapping".toList]

def itemPath? : Json → Option Text
  | .obj item => some (memberText prims "path" item)
  | _ => none

def verifyBundle (data : List (String × Json)) : List Text :=
  let targetId := memberText prims "target_id" data
  match (Json.obj data).member? "files" with
  | some (.arr (first :: rest)) =>
    let files := first :: rest
    let surface := classify prims.toPathPrims (files.filterMap (itemPath? prims))
    files.flatMap (verifyFile prims targetId) ++
      if surface.ok = false ∨ surface.targetId ≠ some targetId then
        if surface.problems = [] then ["files are not one target's".toList] else surface.problems
      else []
  | _ => ["bundle has no files".toList]

end Verify

/-! ## Paths, as segments -/

section Segments

theorem segments_append {part : Text} (h : '/' ∉ part) (hd : ¬ Dots part) (rest : Text) :
    segments (part ++ '/' :: rest) = part :: segments rest := by
  unfold segments
  rw [splitChar_append h, List.filter_cons_of_pos (by simpa using hd)]

theorem mem_segments {path s : Text} (h : s ∈ segments path) : ¬ Dots s ∧ '/' ∉ s := by
  obtain ⟨hs, hd⟩ := List.mem_filter.mp h
  exact ⟨of_decide_eq_true hd, sep_not_mem_part hs⟩

theorem posixParts_relative {path : Text} (h : path.head? ≠ some '/') :
    posixParts path = segments path := by
  unfold posixParts
  split
  · exact absurd rfl h
  · exact absurd rfl h
  · exact absurd rfl h
  · rfl

/-- A text without segments is made of slashes and dots. -/
theorem chars_of_no_segments {l : Text} (h : segments l = []) : ∀ c ∈ l, c = '/' ∨ c = '.' := by
  have hall : ∀ part ∈ splitChar '/' l, Dots part := by
    intro part hpart
    have hnone := List.filter_eq_nil_iff.mp h part hpart
    simpa using hnone
  clear h
  induction l with
  | nil => intro c hc; cases hc
  | cons d ds ih =>
    intro c hc
    unfold splitChar at hall
    split at hall
    · rename_i hd
      rcases List.mem_cons.mp hc with rfl | hc
      · exact .inl hd
      · exact ih (fun part hp => hall part (.tail _ hp)) c hc
    · split at hall
      · rename_i hnil
        exact absurd hnil (splitChar_ne_nil _ _)
      · rename_i first parts heq
        have hfirst := hall (d :: first) (.head _)
        unfold Dots at hfirst
        have hdot : d = '.' ∧ first = [] := by simpa using hfirst
        obtain ⟨rfl, rfl⟩ := hdot
        rcases List.mem_cons.mp hc with rfl | hc
        · exact .inr rfl
        · refine ih (fun part hp => ?_) c hc
          rw [heq] at hp
          rcases List.mem_cons.mp hp with rfl | hp
          · exact .inl rfl
          · exact hall part (.tail _ hp)

/-- A relative path without double dots leads to its segments below the directory. -/
theorem posixResolve_eq {path : Text} (hrel : path.head? ≠ some '/')
    (hup : ['.', '.'] ∉ segments path) (root : List Text) :
    posixResolve root path = root ++ segments path := by
  unfold posixResolve segments at *
  rw [if_neg hrel]
  clear hrel
  generalize splitChar '/' path = parts at hup ⊢
  induction parts generalizing root with
  | nil => simp
  | cons s rest ih =>
    by_cases hs : Dots s
    · rw [List.filter_cons_of_neg (by simpa using hs)] at hup ⊢
      rw [List.foldl_cons, if_pos hs]
      exact ih root hup
    · rw [List.filter_cons_of_pos (by simpa using hs)] at hup ⊢
      have hne : s ≠ ['.', '.'] := fun heq => hup (heq ▸ .head _)
      rw [List.foldl_cons, if_neg hs, if_neg hne, ih _ (fun hm => hup (.tail _ hm)),
        List.append_assoc, List.singleton_append]

end Segments

/-! ## What a classification says of its paths -/

section Classified

variable {prims : PathPrims}

theorem mem_sortedSet {l : List Text} {x : Text} : x ∈ sortedSet l ↔ x ∈ l := by
  unfold sortedSet
  rw [List.mem_insertionSort, List.mem_dedup]

theorem targetOf_of_noProblem {target path : Text} (h : pathProblem (some target) path = [])
    (hone : ∀ t, targetOf path = some t → t = target) : targetOf path = some target := by
  cases ht : targetOf path with
  | some t => rw [hone t ht]
  | none =>
    unfold pathProblem at h
    rw [ht] at h
    simp only [Option.isSome_none, Bool.false_eq_true, false_and, if_false, if_true] at h
    split at h <;> cases h

/-- Every path of a change set that is one target's is of that target. -/
theorem classify_target {paths : List Text} {target : Text} (hok : (classify prims paths).ok = true)
    (ht : (classify prims paths).targetId = some target) {p : Text} (hp : p ∈ paths)
    (hne : strip prims p ≠ []) : targetOf (forwardSlashes (strip prims p)) = some target := by
  have hmem : forwardSlashes (strip prims p) ∈ normalisedPaths prims paths := by
    refine mem_sortedSet.mpr (List.mem_map.mpr ⟨p, List.mem_filter.mpr ⟨hp, ?_⟩, rfl⟩)
    simpa using hne
  unfold classify at hok ht
  dsimp only at hok ht
  generalize normalisedPaths prims paths = normalised at hmem hok ht
  split at ht
  · cases ht
  · rename_i hnil
    rw [if_neg hnil] at hok
    split at ht
    · cases ht
    · rename_i t htargets
      rw [htargets] at hok
      dsimp only at hok
      split at ht
      · rename_i hproblems
        obtain rfl := Option.some.inj ht
        refine targetOf_of_noProblem (List.flatMap_eq_nil_iff.mp hproblems _ hmem) ?_
        intro t' ht'
        have hin : t' ∈ sortedSet (normalised.filterMap targetOf) :=
          mem_sortedSet.mpr (List.mem_filterMap.mpr ⟨_, hmem, ht'⟩)
        rw [htargets] at hin
        exact List.mem_singleton.mp hin
      · rename_i hproblems
        rw [if_neg hproblems] at hok
        cases hok
    · cases ht

end Classified

/-! ## What is written -/

section Confined

variable {prims : BundlePrims}

/-- The characters of a target's paths are no whitespace. -/
def PathPrims.Plain (prims : PathPrims) : Prop := ∀ c ∈ ['t', '/', '.'], prims.space c = false

instance (prims : PathPrims) : Decidable prims.Plain :=
  List.decidableBAll (fun c => prims.space c = false) ['t', '/', '.']

theorem strip_eq_self {prims : PathPrims} {l : Text}
    (hhead : ∀ c, l.head? = some c → prims.space c = false)
    (hlast : ∀ c, l.getLast? = some c → prims.space c = false) : strip prims l = l := by
  have hkeep : ∀ {m : Text}, (∀ c, m.head? = some c → prims.space c = false) →
      m.dropWhile prims.space = m := by
    intro m hm
    cases m with
    | nil => rfl
    | cons c cs => rw [List.dropWhile_cons_of_neg (by simp [hm c rfl])]
  unfold strip
  rw [hkeep hhead, hkeep (by rwa [List.head?_reverse]), List.reverse_reverse]

theorem strip_ne_nil {prims : PathPrims} {c : Char} {l : Text} (h : prims.space c = false) :
    strip prims (c :: l) ≠ [] := by
  unfold strip
  rw [List.dropWhile_cons_of_neg (by simp [h])]
  intro hnil
  have hrev := List.reverse_eq_nil_iff.mp hnil
  have hall := List.dropWhile_eq_nil_iff.mp hrev c (by simp)
  rw [h] at hall
  cases hall

theorem targetOf_some {path t : Text} (h : targetOf path = some t) :
    ∃ x rest, posixParts path = "targets".toList :: t :: x :: rest := by
  unfold targetOf at h
  split at h
  · rename_i root id x rest heq
    split at h
    · rename_i hroot
      obtain rfl := Option.some.inj h
      exact ⟨x, rest, hroot ▸ heq⟩
    · cases h
  · cases h

/-- The target of a path without backslashes is one plain segment. -/
theorem target_segment {path t : Text} (h : targetOf (forwardSlashes path) = some t) :
    '\\' ∉ t ∧ '/' ∉ t ∧ ¬ Dots t := by
  obtain ⟨x, rest, hparts⟩ := targetOf_some h
  have hseg : t ∈ segments (forwardSlashes path) := by
    unfold posixParts at hparts
    split at hparts
    · cases (List.cons.inj hparts).1
    · cases (List.cons.inj hparts).1
    · cases (List.cons.inj hparts).1
    · rw [hparts]
      simp
  obtain ⟨hdots, hslash⟩ := mem_segments hseg
  refine ⟨fun hback => ?_, hslash, hdots⟩
  have hin := mem_of_part (List.mem_filter.mp hseg).1 hback
  obtain ⟨c, -, hc⟩ := List.mem_map.mp hin
  split at hc
  · cases hc
  · exact absurd hc ‹_›

theorem pathPrefix_append (t rest : Text) :
    pathPrefix t ++ rest = "targets".toList ++ '/' :: (t ++ '/' :: rest) := by
  unfold pathPrefix
  rw [List.append_assoc, List.append_assoc]
  rfl

theorem pathPrefix_head (t rest : Text) : (pathPrefix t ++ rest).head? = some 't' := by
  have hword : "targets".toList = ['t', 'a', 'r', 'g', 'e', 't', 's'] := by decide
  rw [pathPrefix_append, hword]
  rfl

theorem pathPrefix_relative (t rest : Text) : (pathPrefix t ++ rest).head? ≠ some '/' := by
  rw [pathPrefix_head]
  decide

theorem pathPrefix_last {t rest : Text} (h : ∀ c ∈ rest, c = '/' ∨ c = '.') {c : Char}
    (hc : (pathPrefix t ++ rest).getLast? = some c) : c = '/' ∨ c = '.' := by
  have hp : (pathPrefix t).getLast? = some '/' := List.getLast?_concat
  rw [List.getLast?_append, hp] at hc
  generalize hlast : rest.getLast? = last at hc
  cases last with
  | some d =>
    rw [← Option.some.inj hc]
    exact h d (List.mem_of_getLast? hlast)
  | none => exact .inl (Option.some.inj hc).symm

theorem segments_ahead {t : Text} (hslash : '/' ∉ t) (hdots : ¬ Dots t) (rest : Text) :
    segments (pathPrefix t ++ rest) = "targets".toList :: t :: segments rest := by
  rw [pathPrefix_append, segments_append (by decide) (by decide), segments_append hslash hdots]

/-- A path under a target's prefix that is classified as of that target has a segment below it. -/
theorem rest_has_segment (hplain : prims.Plain) {t rest : Text}
    (h : targetOf (forwardSlashes (strip prims.toPathPrims (pathPrefix t ++ rest))) = some t) :
    segments rest ≠ [] := by
  intro hnil
  obtain ⟨hback, hslash, hdots⟩ := target_segment h
  have hchars := chars_of_no_segments hnil
  have hstrip : strip prims.toPathPrims (pathPrefix t ++ rest) = pathPrefix t ++ rest := by
    refine strip_eq_self ?_ ?_
    · rw [pathPrefix_head]
      intro c hc
      rw [← Option.some.inj hc]
      exact hplain 't' (by decide)
    · intro c hc
      rcases pathPrefix_last hchars hc with hc | hc
      · rw [hc]
        exact hplain '/' (by decide)
      · rw [hc]
        exact hplain '.' (by decide)
  have hsame : forwardSlashes (pathPrefix t ++ rest) = pathPrefix t ++ rest := by
    refine (List.map_congr_left fun c hc => ?_).trans (List.map_id _)
    refine if_neg ?_
    rintro rfl
    rcases List.mem_append.mp hc with hc | hc
    · unfold pathPrefix at hc
      rcases List.mem_append.mp hc with hc | hc
      · rcases List.mem_append.mp hc with hc | hc
        · exact absurd hc (by decide)
        · exact hback hc
      · exact absurd hc (by decide)
    · rcases hchars _ hc with h | h <;> cases h
  rw [hstrip, hsame] at h
  obtain ⟨x, more, hparts⟩ := targetOf_some h
  rw [posixParts_relative (pathPrefix_relative t rest), segments_ahead hslash hdots,
    hnil] at hparts
  cases hparts

/-- A path that leads strictly inside one target, from any directory. -/
def InsideTarget (t path : Text) : Prop :=
  '/' ∉ t ∧ t ≠ [] ∧ t ≠ ['.'] ∧ t ≠ ['.', '.'] ∧
    ∃ below, below ≠ [] ∧ ['.', '.'] ∉ below ∧
      ∀ root, posixResolve root path = root ++ "targets".toList :: t :: below

/-- The content of an entry is the one its hash declares. -/
def HashesAsDeclared (prims : BundlePrims) (item : List (String × Json)) : Prop :=
  ∃ content s, prims.b64decode (memberText prims "content_b64" item) = some content ∧
    (Json.obj item).member? "sha256" = some (.str s) ∧ prims.sha256Hex content = s.toList

theorem verifyFile_nil {t : Text} {j : Json} (h : verifyFile prims t j = []) :
    ∃ item, j = .obj item ∧ HashesAsDeclared prims item ∧
      ∃ rest, memberText prims "path" item = pathPrefix t ++ rest ∧
        ['.', '.'] ∉ posixParts (memberText prims "path" item) := by
  cases j with
  | obj item =>
    refine ⟨item, rfl, ?_⟩
    unfold verifyFile at h
    dsimp only at h
    obtain ⟨hpath, hcontent⟩ := List.append_eq_nil_iff.mp h
    split at hpath
    · cases hpath
    · rename_i hin
      obtain ⟨hpre, hin⟩ := not_or.mp hin
      obtain ⟨hdots, -⟩ := not_or.mp hin
      obtain ⟨rest, hrest⟩ := List.isPrefixOf_iff_prefix.mp (not_not.mp hpre)
      refine ⟨?_, rest, hrest.symm, fun hm => hdots (List.contains_iff_mem.mpr hm)⟩
      split at hcontent
      · cases hcontent
      · rename_i content hdecode
        split at hcontent
        · rename_i s hmember
          split at hcontent
          · rename_i hhash
            exact ⟨content, s, hdecode, hmember, hhash⟩
          · cases hcontent
        · cases hcontent
  | null => cases h
  | bool b => cases h
  | int n => cases h
  | str s => cases h
  | arr items => cases h

/-- A bundle that is verified writes strictly inside the one target it declares, whatever the
directory, and what it writes has the hashes it declares. -/
theorem verify_bundle_confines (hplain : prims.Plain) {data : List (String × Json)}
    (h : verifyBundle prims data = []) :
    ∃ files, files ≠ [] ∧ (Json.obj data).member? "files" = some (.arr files) ∧
      ∀ j ∈ files, ∃ item, j = .obj item ∧ HashesAsDeclared prims item ∧
        InsideTarget (memberText prims "target_id" data) (memberText prims "path" item) := by
  unfold verifyBundle at h
  dsimp only at h
  split at h
  · rename_i first rest hfiles
    refine ⟨first :: rest, nofun, hfiles, ?_⟩
    generalize first :: rest = files at h
    generalize memberText prims "target_id" data = t at h
    obtain ⟨hall, hsurface⟩ := List.append_eq_nil_iff.mp h
    split at hsurface
    · rename_i hbad
      split at hsurface
      · cases hsurface
      · rename_i hne
        exact absurd hsurface hne
    · rename_i hgood
      obtain ⟨hok, ht⟩ := not_or.mp hgood
      have hok := Bool.eq_true_of_not_eq_false hok
      have ht := not_not.mp ht
      intro j hj
      obtain ⟨item, rfl, hhash, below, hpath, hdots⟩ :=
        verifyFile_nil (List.flatMap_eq_nil_iff.mp hall j hj)
      refine ⟨item, rfl, hhash, ?_⟩
      have hmem : memberText prims "path" item ∈ files.filterMap (itemPath? prims) :=
        List.mem_filterMap.mpr ⟨_, hj, rfl⟩
      rw [hpath] at hmem hdots ⊢
      have hne : strip prims.toPathPrims (pathPrefix t ++ below) ≠ [] :=
        strip_ne_nil (hplain 't' (by decide))
      have htarget := classify_target hok ht hmem hne
      obtain ⟨-, hslash, hd⟩ := target_segment htarget
      have hrel := pathPrefix_relative t below
      rw [posixParts_relative hrel] at hdots
      have hresolve := posixResolve_eq hrel hdots
      rw [segments_ahead hslash hd] at hdots hresolve
      refine ⟨hslash, fun hn => hd (.inl hn), fun hn => hd (.inr hn), ?_, segments below,
        rest_has_segment hplain htarget, fun hm => hdots (.tail _ (.tail _ hm)), hresolve⟩
      rintro rfl
      exact hdots (.tail _ (.head _))
  · cases h

end Confined

/-! ### A bundle of one file -/

section OneFile

/-- Texts whose content is themselves, hashed by their length. -/
def plainPrims : BundlePrims where
  space := Char.isWhitespace
  reprList l := (l.map fun t => t ++ [' ']).flatten
  strOther _ := []
  b64decode t := some (t.map fun c => UInt8.ofNat c.toNat)
  sha256Hex content := (toString content.length).toList

def oneFile (path : String) : List (String × Json) :=
  [("target_id", .str "ote_dam"),
   ("files", .arr [.obj [("path", .str path), ("content_b64", .str "abc"), ("sha256", .str "3")]])]

theorem one_file_inside : InsideTarget "ote_dam".toList "targets/ote_dam//./manifest.yaml".toList := by
  obtain ⟨files, -, hfiles, hall⟩ := @verify_bundle_confines plainPrims (by decide)
    (oneFile "targets/ote_dam//./manifest.yaml") (by decide +kernel)
  obtain rfl := Json.arr.inj (Option.some.inj hfiles)
  obtain ⟨item, hitem, -, hin⟩ := hall _ (.head _)
  obtain rfl := Json.obj.inj hitem
  exact hin

end OneFile

end EnergyPlatform
