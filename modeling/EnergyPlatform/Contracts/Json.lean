import EnergyPlatform.Contracts.Observation
import EnergyPlatform.Lib.Dict
import Mathlib.Data.List.Sort

/-!
# Contracts.Json

JSON values, the canonical form `json.dumps(…, sort_keys=True)` writes, and the derivation id.

The canonical text is kept as the value it denotes: an object with its members in key order. The
digest is a parameter; two documents share an id exactly when they have one canonical form or the
digest collides on them.
-/

namespace EnergyPlatform

open Lib (Dict)

inductive Json where
  | null
  | bool (b : Bool)
  | int (n : Int)
  | str (s : String)
  | arr (items : List Json)
  | obj (members : List (String × Json))

namespace Json

mutual

/-- The value with every object's members in key order. -/
def canonical : Json → Json
  | arr items => arr (canonicalItems items)
  | obj members => obj ((canonicalMembers members).insertionSort fun a b => a.1 ≤ b.1)
  | j => j

def canonicalItems : List Json → List Json
  | [] => []
  | j :: rest => canonical j :: canonicalItems rest

def canonicalMembers : List (String × Json) → List (String × Json)
  | [] => []
  | (k, j) :: rest => (k, canonical j) :: canonicalMembers rest

end

theorem canonicalItems_eq (l : List Json) : canonicalItems l = l.map canonical := by
  induction l with
  | nil => rfl
  | cons j l ih => rw [canonicalItems, ih, List.map_cons]

theorem canonicalMembers_eq (l : List (String × Json)) :
    canonicalMembers l = l.map fun p => (p.1, p.2.canonical) := by
  induction l with
  | nil => rfl
  | cons p l ih => rw [canonicalMembers, ih, List.map_cons]

/-- The members of a canonical object are those of the object, made canonical. -/
theorem canonical_obj (l : List (String × Json)) : ∃ l', (obj l).canonical = obj l' ∧
    l'.Perm (l.map fun p => (p.1, p.2.canonical)) := by
  rw [canonical, canonicalMembers_eq]
  exact ⟨_, rfl, List.perm_insertionSort _ _⟩

def member? (key : String) : Json → Option Json
  | obj members => Dict.lookup key members
  | _ => none

theorem member?_canonical {l : List (String × Json)} (h : (l.map Prod.fst).Nodup) (key : String) :
    (obj l).canonical.member? key = ((obj l).member? key).map canonical := by
  obtain ⟨l', he, hp⟩ := canonical_obj l
  have hk : (l'.map Prod.fst).Nodup := by
    refine (hp.map Prod.fst).nodup_iff.mpr ?_
    rw [List.map_map]
    exact h
  rw [he, member?, Dict.lookup_perm hk hp, Dict.lookup_map, member?]

/-- Objects with one canonical form agree on every member, up to canonical form. -/
theorem member?_of_canonical_eq {l l' : List (String × Json)} (h : (l.map Prod.fst).Nodup)
    (h' : (l'.map Prod.fst).Nodup) (he : (obj l).canonical = (obj l').canonical) (key : String) :
    ((obj l).member? key).map canonical = ((obj l').member? key).map canonical := by
  rw [← member?_canonical h, ← member?_canonical h', he]

end Json

/-- The document whose digest is the derivation id: the four components that identify an
implementation. -/
def derivationDocument (platformVersion : String) (contractVersion : ContractVersion)
    (mappingBlock : Json) (parserRef : String) : Json :=
  .obj
    [("platform_version", .str platformVersion),
     ("contract_version", .str contractVersion.text),
     ("mapping_block", mappingBlock),
     ("parser_ref", .str parserRef)]

/-- `derivation_id`, over a digest of canonical documents. -/
def derivationId (digest : Json → DerivationId) (platformVersion : String)
    (contractVersion : ContractVersion) (mappingBlock : Json) (parserRef : String) : DerivationId :=
  digest (derivationDocument platformVersion contractVersion mappingBlock parserRef).canonical

end EnergyPlatform
