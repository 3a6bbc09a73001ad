import EnergyPlatform.Lib.Outermost
import EnergyPlatform.Mapping.Targets

/-!
# Parse.Selection

Which elements of a document become records.

`xmlWalk_eq`, `jsonWalk_eq`: the two walks are the search for outermost nodes, on the call stack. An
element provides a field by an attribute or by a leaf child, an object by a scalar.
`xml_exact_iff`: the XML records are the outermost elements that provide the required fields, when
the stack has room for the elements outside of records. `json_exact_iff`: the JSON walk moreover
asks for the keys only, and an object with a list or an object under a required key hides what is
inside it.
-/

namespace EnergyPlatform

open Lib (Dict Rose)

/-- The records are the outermost nodes that provide what is required, in document order. -/
def ExactSelection {ν : Type} (t : Rose (String × ν)) (fields : ν → List (String × Cell))
    (provides : ν → Bool) (records : List SourceRecord) : Prop :=
  ∃ taken : List (List Nat × String × ν),
    records = taken.map (fun q => ⟨fields q.2.2, q.2.1⟩) ∧
    taken.Sublist t.nodes ∧
    (∀ q, q ∈ taken ↔ t.Outermost (fun a => provides a.2) q) ∧
    (∀ s ∈ taken, ∀ q ∈ taken, s.1 <+: q.1 → s = q) ∧
    ∀ q ∈ t.nodes, provides q.2.2 → ∃ s ∈ taken, s.1 <+: q.1

theorem exactSelection_select {ν : Type} (t : Rose (String × ν))
    (fields : ν → List (String × Cell)) (provides : ν → Bool) :
    ExactSelection t fields provides
      ((t.select fun a => provides a.2).map fun q => ⟨fields q.2.2, q.2.1⟩) := by
  refine ⟨_, rfl, Rose.select_sublist _ t, fun q => Rose.mem_select, ?_, ?_⟩
  · intro s hs q hq h
    exact Rose.select_antichain hs hq h
  · intro q hq h
    exact Rose.select_covers hq h

/-! ## XML -/

/-- The element gives the field by an attribute, as `@name`, or by a leaf child. -/
def XmlElement.provides (e : XmlElement) (name : String) : Bool :=
  (e.attrib.any fun p => "@" ++ p.1 = name) ||
    e.children.any fun c => c.children.isEmpty && c.localName = name

mutual

/-- The element tree with the path of each element. -/
def xmlTree (path : String) : XmlElement → Rose (String × XmlElement)
  | .mk tag attrib text children =>
    let e := XmlElement.mk tag attrib text children
    .node (path ++ "/" ++ e.localName, e) (xmlTrees (path ++ "/" ++ e.localName) children)

def xmlTrees (path : String) : List XmlElement → List (Rose (String × XmlElement))
  | [] => []
  | e :: rest => xmlTree path e :: xmlTrees path rest

end

def xmlRecord (q : List Nat × String × XmlElement) : SourceRecord := ⟨xmlFields q.2.2, q.2.1⟩

/-- What a walk gives for what its search took, or for a search the stack has no room for. -/
def searched {ν : Type} (record : List Nat × String × ν → SourceRecord) :
    Option (List (List Nat × String × ν)) → Except PyError (List SourceRecord)
  | some taken => .ok (taken.map record)
  | none => .error recursionError

/-- Walking the first child and then the others. -/
theorem searched_cons {ν : Type} {record : List Nat × String × ν → SourceRecord} {i : Nat}
    (hrecord : ∀ q, record (i :: q.1, q.2) = record q)
    (first others : Option (List (List Nat × String × ν))) :
    (do let records ← searched record first
        let rest ← searched record others
        .ok (records ++ rest)) =
      searched record (first.bind fun taken =>
        others.map fun rest => taken.map (fun q => (i :: q.1, q.2)) ++ rest) := by
  cases first with
  | none => rfl
  | some taken =>
    cases others with
    | none => rfl
    | some rest =>
      refine congrArg Except.ok ?_
      rw [List.map_append, List.map_map]
      exact congrArg (· ++ rest.map record) (List.map_congr_left fun q _ => (hrecord q).symm)

theorem searched_eq_ok {ν : Type} {record : List Nat × String × ν → SourceRecord}
    {found : Option (List (List Nat × String × ν))} {records : List SourceRecord} :
    walked (searched record found) = .ok records ↔
      ∃ taken, found = some taken ∧ records = taken.map record := by
  cases found with
  | none => exact iff_of_false nofun nofun
  | some taken =>
    constructor
    · intro h
      exact ⟨taken, rfl, (Except.ok.inj h).symm⟩
    · rintro ⟨_, heq, rfl⟩
      obtain rfl := Option.some.inj heq
      rfl

mutual

theorem xmlWalk_eq (stack : CallStack) (required : List String) (depth : Nat) (path : String) :
    ∀ e, xmlWalk stack required depth path e =
      searched xmlRecord ((xmlTree path e).selectWithin
        (fun d a => stack.fitsElement required d a.2)
        (fun a => isRecord required (xmlFields a.2)) depth)
  | .mk tag attrib text children => by
    rw [xmlWalk, xmlTree, Rose.selectWithin]
    dsimp only
    split
    · split
      · rfl
      · exact xmlWalkAll_eq stack required (depth + 1) _ 0 children
    · rfl

theorem xmlWalkAll_eq (stack : CallStack) (required : List String) (depth : Nat) (path : String)
    (i : Nat) : ∀ children, xmlWalkAll stack required depth path children =
      searched xmlRecord (Rose.selectAllWithin (fun d a => stack.fitsElement required d a.2)
        (fun a => isRecord required (xmlFields a.2)) depth i (xmlTrees path children))
  | [] => by
    rw [xmlWalkAll, xmlTrees, Rose.selectAllWithin]
    rfl
  | e :: rest => by
    rw [xmlWalkAll, xmlTrees, Rose.selectAllWithin, xmlWalk_eq stack required depth path e,
      xmlWalkAll_eq stack required depth path (i + 1) rest]
    exact searched_cons (fun _ => rfl) _ _

end

theorem lookup_isSome {ν : Type} {k : String} {l : List (String × ν)} :
    (Dict.lookup k l).isSome = l.any fun p => p.1 = k := by
  induction l with
  | nil => rfl
  | cons p rest ih =>
    rw [Dict.lookup, List.any_cons]
    by_cases h : p.1 = k
    · simp [h]
    · simp [h, ih]

/-- What folding the children into the fields adds. -/
theorem childFields_any (cell : XmlElement → Cell) (name : String) (children : List XmlElement)
    (fields : List (String × Cell)) :
    ((children.foldl (fun fields c =>
        if c.children.isEmpty ∧ (Dict.lookup c.localName fields).isNone then
          fields ++ [(c.localName, cell c)]
        else fields) fields).any fun p => p.1 = name) =
      ((fields.any fun p => p.1 = name) ||
        children.any fun c => c.children.isEmpty && c.localName = name) := by
  induction children generalizing fields with
  | nil => simp
  | cons c rest ih =>
    rw [List.foldl_cons, ih, List.any_cons]
    split
    · rename_i h
      simp [List.any_append, h.1, Bool.or_assoc]
    · rename_i h
      by_cases hleaf : c.children.isEmpty
      · have hsome : (Dict.lookup c.localName fields).isSome := by
          rw [Option.isSome_iff_ne_none]
          simpa [hleaf] using h
        rw [lookup_isSome] at hsome
        by_cases hname : c.localName = name
        · rw [hname] at hsome
          simp [hleaf, hname, hsome]
        · simp [hname]
      · simp [hleaf]

theorem xmlFields_provides (e : XmlElement) (name : String) :
    (Dict.lookup name (xmlFields e)).isSome = e.provides name := by
  rw [lookup_isSome, xmlFields, childFields_any, XmlElement.provides, List.any_map]
  rfl

def XmlElement.providesAll (required : List String) (e : XmlElement) : Bool :=
  required.all e.provides

theorem isRecord_xmlFields {required : List String} (hreq : required ≠ []) (e : XmlElement) :
    isRecord required (xmlFields e) = e.providesAll required := by
  have hne : required.isEmpty = false := by simpa using hreq
  simp only [isRecord, hne, xmlFields_provides, XmlElement.providesAll]
  rfl

/-- The XML records are the outermost elements that provide every required field, when the stack
has room for the elements outside of records. -/
theorem xml_exact_iff (stack : CallStack) {required : List String} (hreq : required ≠ [])
    (root : XmlElement) :
    (∃ records, parseXmlRecords stack required (.xml root) = .ok records ∧
      ExactSelection (xmlTree "" root) xmlFields (XmlElement.providesAll required) records) ↔
    ∀ q, (xmlTree "" root).Reached (fun a => a.2.providesAll required) q →
      stack.fitsElement required q.1.length q.2.2 := by
  unfold parseXmlRecords
  dsimp only
  simp only [xmlWalk_eq, searched_eq_ok, isRecord_xmlFields hreq, Rose.selectWithin_eq_some,
    Nat.zero_add]
  constructor
  · rintro ⟨_, ⟨_, ⟨hfits, -⟩, -⟩, -⟩
    exact hfits
  · intro hfits
    exact ⟨_, ⟨_, ⟨hfits, rfl⟩, rfl⟩, exactSelection_select _ _ _⟩

/-! ## JSON -/

namespace JsonValue

def isScalar : JsonValue → Bool
  | list _ => false
  | dict _ => false
  | _ => true

def hasKey : JsonValue → String → Bool
  | dict members, k => members.any fun p => p.1 = k
  | _, _ => false

/-- The object gives the field by a scalar: a list or an object is no field. -/
def provides : JsonValue → String → Bool
  | dict members, k => members.any fun p => p.1 = k && p.2.isScalar
  | _, _ => false

def hasKeys (required : List String) (v : JsonValue) : Bool := required.all v.hasKey

def providesAll (required : List String) (v : JsonValue) : Bool := required.all v.provides

/-- The fields of the record of an object. -/
def fields : JsonValue → List (String × Cell)
  | dict members => scalars members
  | _ => []

end JsonValue

mutual

/-- The value tree with the path of each value. -/
def jsonTree (path : String) : JsonValue → Rose (String × JsonValue)
  | .dict members => .node (path, .dict members) (jsonMemberTrees path members)
  | .list items => .node (path, .list items) (jsonItemTrees path 0 items)
  | .null => .node (path, .null) []
  | .bool b => .node (path, .bool b) []
  | .int n => .node (path, .int n) []
  | .float s => .node (path, .float s) []
  | .str s => .node (path, .str s) []

def jsonMemberTrees (path : String) : List (String × JsonValue) → List (Rose (String × JsonValue))
  | [] => []
  | (k, v) :: rest => jsonTree (path ++ "." ++ k) v :: jsonMemberTrees path rest

def jsonItemTrees (path : String) (i : Nat) : List JsonValue → List (Rose (String × JsonValue))
  | [] => []
  | v :: rest => jsonTree (path ++ "[" ++ toString i ++ "]") v :: jsonItemTrees path (i + 1) rest

end

def jsonRecord (q : List Nat × String × JsonValue) : SourceRecord := ⟨q.2.2.fields, q.2.1⟩

theorem hasKeys_dict (required : List String) (members : List (String × JsonValue)) :
    (JsonValue.dict members).hasKeys required =
      required.all fun k => (Dict.lookup k members).isSome := by
  simp only [JsonValue.hasKeys, lookup_isSome]
  rfl

theorem hasKeys_other {required : List String} (hreq : required ≠ []) {v : JsonValue}
    (h : ∀ k, v.hasKey k = false) : v.hasKeys required = false := by
  obtain ⟨name, rest, rfl⟩ := List.exists_cons_of_ne_nil hreq
  rw [JsonValue.hasKeys, List.all_cons, h, Bool.false_and]

/-- A value with no members and no items. -/
theorem jsonWalk_leaf (stack : CallStack) {required : List String} (hreq : required ≠ [])
    (depth : Nat) (path : String) {v : JsonValue} (hkeys : ∀ k, v.hasKey k = false)
    (hwalk : jsonWalk stack required depth path v = walkScalar stack required depth v)
    (htree : jsonTree path v = .node (path, v) []) :
    jsonWalk stack required depth path v =
      searched jsonRecord ((jsonTree path v).selectWithin
        (fun d a => stack.fitsValue required d a.2) (fun a => a.2.hasKeys required) depth) := by
  rw [hwalk, walkScalar, htree, Rose.selectWithin, Rose.selectAllWithin]
  simp only [hasKeys_other hreq hkeys]
  split
  · rfl
  · rfl

mutual

theorem jsonWalk_eq (stack : CallStack) {required : List String} (hreq : required ≠ [])
    (depth : Nat) (path : String) : ∀ v, jsonWalk stack required depth path v =
      searched jsonRecord ((jsonTree path v).selectWithin
        (fun d a => stack.fitsValue required d a.2) (fun a => a.2.hasKeys required) depth)
  | .dict members => by
    have hne : required.isEmpty = false := by simpa using hreq
    rw [jsonWalk, jsonTree, Rose.selectWithin]
    simp only [hne, Bool.not_false, Bool.true_and]
    rw [← hasKeys_dict]
    split
    · split
      · rfl
      · exact jsonWalkMembers_eq stack hreq (depth + 1) path 0 members
    · rfl
  | .list items => by
    rw [jsonWalk, jsonTree, Rose.selectWithin]
    simp only [hasKeys_other hreq (v := .list items) fun _ => rfl]
    split
    · exact jsonWalkItems_eq stack hreq (depth + 1) path 0 0 items
    · rfl
  | .null =>
    jsonWalk_leaf stack hreq depth path (fun _ => rfl) (by rw [jsonWalk]) (by rw [jsonTree])
  | .bool _ =>
    jsonWalk_leaf stack hreq depth path (fun _ => rfl) (by rw [jsonWalk]) (by rw [jsonTree])
  | .int _ =>
    jsonWalk_leaf stack hreq depth path (fun _ => rfl) (by rw [jsonWalk]) (by rw [jsonTree])
  | .float _ =>
    jsonWalk_leaf stack hreq depth path (fun _ => rfl) (by rw [jsonWalk]) (by rw [jsonTree])
  | .str _ =>
    jsonWalk_leaf stack hreq depth path (fun _ => rfl) (by rw [jsonWalk]) (by rw [jsonTree])

theorem jsonWalkMembers_eq (stack : CallStack) {required : List String} (hreq : required ≠ [])
    (depth : Nat) (path : String) (j : Nat) : ∀ members,
    jsonWalkMembers stack required depth path members =
      searched jsonRecord (Rose.selectAllWithin (fun d a => stack.fitsValue required d a.2)
        (fun a => a.2.hasKeys required) depth j (jsonMemberTrees path members))
  | [] => by
    rw [jsonWalkMembers, jsonMemberTrees, Rose.selectAllWithin]
    rfl
  | (k, v) :: rest => by
    rw [jsonWalkMembers, jsonMemberTrees, Rose.selectAllWithin,
      jsonWalk_eq stack hreq depth (path ++ "." ++ k) v,
      jsonWalkMembers_eq stack hreq depth path (j + 1) rest]
    exact searched_cons (fun _ => rfl) _ _

theorem jsonWalkItems_eq (stack : CallStack) {required : List String} (hreq : required ≠ [])
    (depth : Nat) (path : String) (i j : Nat) : ∀ items,
    jsonWalkItems stack required depth path i items =
      searched jsonRecord (Rose.selectAllWithin (fun d a => stack.fitsValue required d a.2)
        (fun a => a.2.hasKeys required) depth j (jsonItemTrees path i items))
  | [] => by
    rw [jsonWalkItems, jsonItemTrees, Rose.selectAllWithin]
    rfl
  | v :: rest => by
    rw [jsonWalkItems, jsonItemTrees, Rose.selectAllWithin,
      jsonWalk_eq stack hreq depth (path ++ "[" ++ toString i ++ "]") v,
      jsonWalkItems_eq stack hreq depth path (i + 1) (j + 1) rest]
    exact searched_cons (fun _ => rfl) _ _

end

theorem scalars_any (k : String) (members : List (String × JsonValue)) :
    ((scalars members).any fun p => p.1 = k) =
      members.any fun p => p.1 = k && p.2.isScalar := by
  induction members with
  | nil => rfl
  | cons p rest ih =>
    obtain ⟨key, v⟩ := p
    rw [List.any_cons, ← ih]
    cases v <;> simp [scalars, JsonValue.isScalar]

/-- A record carries the fields its object provides. -/
theorem jsonFields_provides (v : JsonValue) (k : String) :
    (Dict.lookup k v.fields).isSome = v.provides k := by
  rw [lookup_isSome]
  cases v with
  | dict members => exact scalars_any k members
  | _ => rfl

theorem providesAll_congr {required : List String} {v w : JsonValue} (h : v.fields = w.fields) :
    v.providesAll required = w.providesAll required := by
  unfold JsonValue.providesAll
  congr 1
  funext k
  rw [← jsonFields_provides, ← jsonFields_provides, h]

theorem hasKeys_of_providesAll {required : List String} {v : JsonValue}
    (h : v.providesAll required) : v.hasKeys required := by
  rw [JsonValue.providesAll, List.all_eq_true] at h
  rw [JsonValue.hasKeys, List.all_eq_true]
  intro k hk
  have hp := h k hk
  cases v with
  | dict members =>
    obtain ⟨p, hmem, heq⟩ := List.any_eq_true.mp hp
    rw [Bool.and_eq_true] at heq
    exact List.any_eq_true.mpr ⟨p, hmem, heq.1⟩
  | _ => cases hp

/-- The JSON walk is exact when the stack has room for the values outside of the objects with the
required keys, and the outermost of these hold scalars there. -/
theorem json_exact_iff (stack : CallStack) {required : List String} (hreq : required ≠ [])
    (data : JsonValue) :
    (∃ records, parseJsonRecords stack required (.json data) = .ok records ∧
      ExactSelection (jsonTree "$" data) JsonValue.fields (JsonValue.providesAll required)
        records) ↔
    (∀ q, (jsonTree "$" data).Reached (fun a => a.2.hasKeys required) q →
      stack.fitsValue required q.1.length q.2.2) ∧
    ∀ q, (jsonTree "$" data).Outermost (fun a => a.2.hasKeys required) q →
      q.2.2.providesAll required := by
  unfold parseJsonRecords
  dsimp only
  simp only [jsonWalk_eq stack hreq, searched_eq_ok, Rose.selectWithin_eq_some, Nat.zero_add]
  constructor
  · rintro ⟨_, ⟨_, ⟨hfits, rfl⟩, rfl⟩, taken, heq, -, hmem, -⟩
    refine ⟨hfits, ?_⟩
    intro q hq
    have hrecord := List.mem_map_of_mem (f := jsonRecord) (Rose.mem_select.mpr hq)
    rw [heq] at hrecord
    obtain ⟨s, hs, hsq⟩ := List.mem_map.mp hrecord
    have hfields : s.2.2.fields = q.2.2.fields := congrArg SourceRecord.fields hsq
    rw [← providesAll_congr hfields]
    exact ((hmem s).mp hs).2.1
  · rintro ⟨hfits, hscalar⟩
    refine ⟨_, ⟨_, ⟨hfits, rfl⟩, rfl⟩, ?_⟩
    have hsame : (jsonTree "$" data).select (fun a => a.2.hasKeys required) =
        (jsonTree "$" data).select fun a => a.2.providesAll required :=
      (Rose.select_eq_iff fun _ => hasKeys_of_providesAll).mpr
        fun q hq => hscalar q (Rose.mem_select.mp hq)
    rw [hsame]
    exact exactSelection_select _ _ _

/-- Both walks against the outermost elements and objects that provide the required fields. -/
theorem record_selection (stack : CallStack) {required : List String} (hreq : required ≠ []) :
    (∀ root, (∃ records, parseXmlRecords stack required (.xml root) = .ok records ∧
        ExactSelection (xmlTree "" root) xmlFields (XmlElement.providesAll required) records) ↔
      ∀ q, (xmlTree "" root).Reached (fun a => a.2.providesAll required) q →
        stack.fitsElement required q.1.length q.2.2) ∧
    ∀ data, (∃ records, parseJsonRecords stack required (.json data) = .ok records ∧
        ExactSelection (jsonTree "$" data) JsonValue.fields (JsonValue.providesAll required)
          records) ↔
      (∀ q, (jsonTree "$" data).Reached (fun a => a.2.hasKeys required) q →
        stack.fitsValue required q.1.length q.2.2) ∧
      ∀ q, (jsonTree "$" data).Outermost (fun a => a.2.hasKeys required) q →
        q.2.2.providesAll required :=
  ⟨xml_exact_iff stack hreq, json_exact_iff stack hreq⟩

/-- An object with its rows under another key. -/
def priceRows : JsonValue :=
  .dict [("rows", .list [.dict [("time", .str "2026-09-17"), ("price", .int 42)]])]

theorem record_selection_rows : ∃ records,
    parseJsonRecords .thousand ["time"] (.json priceRows) = .ok records ∧
      ExactSelection (jsonTree "$" priceRows) JsonValue.fields (JsonValue.providesAll ["time"])
        records := by
  have hfits : ∀ q ∈ (jsonTree "$" priceRows).nodes,
      CallStack.thousand.fitsValue ["time"] q.1.length q.2.2 := by decide +kernel
  have hscalar : ∀ q ∈ (jsonTree "$" priceRows).nodes, q.2.2.hasKeys ["time"] →
      q.2.2.providesAll ["time"] := by decide +kernel
  exact ((record_selection .thousand (List.cons_ne_nil "time" [])).2 priceRows).mpr
    ⟨fun q hq => hfits q hq.1, fun q hq => hscalar q hq.1 hq.2.1⟩

/-- A wrapper with an object under the required key hides the record inside it. -/
def wrapped : JsonValue :=
  .dict [("time", .dict []), ("rows", .list [.dict [("time", .str "2026-09-17")]])]

def nested : Nat → JsonValue
  | 0 => .null
  | n + 1 => .list [nested n]

/-- Lists nested deeper than the stack has room for. -/
theorem nested_raises (stack : CallStack) (required : List String) {n depth : Nat} {path : String}
    (h : stack.frames ≤ depth + n) :
    jsonWalk stack required depth path (nested n) = .error recursionError := by
  induction n generalizing depth path with
  | zero =>
    rw [nested, jsonWalk, walkScalar]
    refine if_neg ?_
    rw [CallStack.fitsValue, decide_eq_true_iff]
    omega
  | succ n ih =>
    rw [nested, jsonWalk]
    split
    · rw [jsonWalkItems, ih (by omega)]
      rfl
    · rfl

theorem wrapped_hides :
    (parseJsonRecords .thousand ["time"] (.json wrapped) = .ok [⟨[], "$"⟩] ∧
      ¬ ExactSelection (jsonTree "$" wrapped) JsonValue.fields (JsonValue.providesAll ["time"])
        [⟨[], "$"⟩]) ∧
    parseJsonRecords .thousand ["time"] (.json (nested 1000)) = .error (.raised recursionError) := by
  have hwalk : jsonWalk .thousand ["time"] 0 "$" wrapped = .ok [⟨[], "$"⟩] :=
    eq_ok_of_toOption (by decide +kernel)
  have hparse : parseJsonRecords .thousand ["time"] (.json wrapped) = .ok [⟨[], "$"⟩] := by
    rw [parseJsonRecords, hwalk]
    rfl
  refine ⟨⟨hparse, ?_⟩, ?_⟩
  · intro h
    have hscalar := ((json_exact_iff .thousand (List.cons_ne_nil "time" []) wrapped).mp
      ⟨_, hparse, h⟩).2
    have hroot := hscalar ([], "$", wrapped) ⟨by rw [wrapped, jsonTree, Rose.nodes_node]; exact .head _,
      rfl, fun a _ hpre _ => List.prefix_nil.mp hpre⟩
    exact absurd hroot (by decide)
  · have hdeep : jsonWalk .thousand ["time"] 0 "$" (nested 1000) = .error recursionError :=
      nested_raises .thousand ["time"] (by decide)
    rw [parseJsonRecords, hdeep]
    rfl

end EnergyPlatform
