import EnergyPlatform.Contracts.Manifest
import EnergyPlatform.Lib.Dict
import EnergyPlatform.Parse.Decode

/-!
# Parse.Generic

The generic parsers: a decoded document to source records, by the source fields the mapping needs.
-/

namespace EnergyPlatform

open Lib (Dict)

/-- `tuple(dict.fromkeys(…))` of the names that are there. -/
def distinctNames (refs : List (Option String)) : List String :=
  (refs.filterMap id).eraseDups

def MappingBlock.timeRefs (m : MappingBlock) : List (Option FieldRef) :=
  [some m.time.resolution, m.time.kind.date, m.time.kind.index, m.time.kind.stamp,
    m.sourceVersion, m.sourcePublishedAt]

/-- Fields every record must carry: time, version and publication references to source fields. -/
def requiredSourceFields (m : MappingBlock) : List String :=
  distinctNames (m.timeRefs.map fun r => r.bind FieldRef.sourceName)

/-- Every source field the mapping references. -/
def mappedSourceFields (m : MappingBlock) : List String :=
  (requiredSourceFields m ++ m.metrics.map fun p => p.2.source).eraseDups

def parserRef (decode : DecodeKind) (implementationVersion : String) : String :=
  "generic:" ++ decode.text ++ "@" ++ implementationVersion

variable (txt : TextPrims)

/-- `" ".join(text.split())`. -/
def norm (text : String) : String := " ".intercalate (txt.words text)

/-- `repr` of a list of strings. -/
def reprList (l : List String) : String := "[" ++ ", ".intercalate (l.map txt.repr) ++ "]"

def sortNames (l : List String) : List String := l.insertionSort fun a b => a ≤ b

/-- The call stack when a parser starts to walk a document. The walks are recursive generators:
each nested `_walk` takes a frame, and a node needs some more for the calls made at it. -/
structure CallStack where
  /-- The frames that the recursion limit leaves. -/
  frames : Nat
  elementCalls : List String → XmlElement → Nat
  valueCalls : List String → JsonValue → Nat

/-- Whether `_walk` has room at an element with `depth` elements above it. -/
def CallStack.fitsElement (stack : CallStack) (required : List String) (depth : Nat)
    (e : XmlElement) : Bool :=
  depth + 1 + stack.elementCalls required e ≤ stack.frames

def CallStack.fitsValue (stack : CallStack) (required : List String) (depth : Nat)
    (v : JsonValue) : Bool :=
  depth + 1 + stack.valueCalls required v ≤ stack.frames

def recursionError : PyError := .other "RecursionError: maximum recursion depth exceeded"

variable (stack : CallStack)

/-! ## XML and SOAP -/

/-- The attributes as `@name`, then the leaf children not named yet. -/
def xmlFields (e : XmlElement) : List (String × Cell) :=
  e.children.foldl
    (fun fields c =>
      if c.children.isEmpty ∧ (Dict.lookup c.localName fields).isNone then
        fields ++ [(c.localName, match c.text with | some s => .text s | none => .none)]
      else fields)
    (e.attrib.map fun p => ("@" ++ p.1, .text p.2))

/-- Whether a unit with these fields is a record. -/
def isRecord (required : List String) (fields : List (String × Cell)) : Bool :=
  ! required.isEmpty && required.all fun name => (Dict.lookup name fields).isSome

mutual

/-- `XmlRecordParser._walk`: a record's children are its fields, not further records. -/
def xmlWalk (required : List String) (depth : Nat) (path : String) :
    XmlElement → Except PyError (List SourceRecord)
  | .mk tag attrib text children =>
    let e := XmlElement.mk tag attrib text children
    let here := path ++ "/" ++ e.localName
    if stack.fitsElement required depth e then
      if isRecord required (xmlFields e) then .ok [⟨xmlFields e, here⟩]
      else xmlWalkAll required (depth + 1) here children
    else .error recursionError

def xmlWalkAll (required : List String) (depth : Nat) (path : String) :
    List XmlElement → Except PyError (List SourceRecord)
  | [] => .ok []
  | e :: rest => do
    let records ← xmlWalk required depth path e
    let others ← xmlWalkAll required depth path rest
    .ok (records ++ others)

end

def wrongDocument (parser needs : String) (doc : DecodedDocument) : DocError :=
  .parseError (parser ++ " needs " ++ needs ++ ", got " ++ doc.typeName)

/-- `tuple(self._walk(…))`: what a walk raises is not caught. -/
def walked (records : Except PyError (List SourceRecord)) : Except DocError (List SourceRecord) :=
  records.mapError .raised

def parseXmlRecords (required : List String) (doc : DecodedDocument) :
    Except DocError (List SourceRecord) :=
  match doc with
  | .xml root => walked (xmlWalk stack required 0 "" root)
  | doc => .error (wrongDocument "XmlRecordParser" "an XmlDocument" doc)

/-! ## Rows under a header -/

def isText : Cell → Bool
  | .text _ => true
  | _ => false

/-- `{h: row[i] for i, h in enumerate(header) if h}`: a repeated name keeps the last value. -/
def rowFields (header : List String) (row : List Cell) : List (String × Cell) :=
  (header.zipIdx.filter fun p => p.1 ≠ "").foldl
    (fun fields p => Dict.insert p.1 (row.getD p.2 .none) fields) []

def fieldOf (fields : List (String × Cell)) (name : String) : Cell :=
  (Dict.lookup name fields).getD .none

/-- `_rows_to_records`: the rows up to the first whose required cells are blank or change kind. -/
def rowsToRecords (header required : List String) (sheet : String) :
    Option (List Bool) → Nat → List (List Cell) → List SourceRecord
  | _, _, [] => []
  | kinds, offset, row :: rest =>
    let fields := rowFields header row
    let own := required.map fun name => isText (fieldOf fields name)
    if required.any fun name => fieldOf fields name = .none then []
    else if kinds = none ∨ kinds = some own then
      ⟨fields, sheet ++ "!row" ++ toString (offset + 1)⟩ ::
        rowsToRecords header required sheet (some own) (offset + 1) rest
    else []

/-- The text of a header cell. -/
def headerText (c : Cell) : String := if c = .none then "" else norm txt c.toText

/-- `_find_header` from row `i` on: the header and the rows below it. -/
def findHeader (mapped : List String) (i : Nat) :
    List (List Cell) → Except String (Option (List String × List (List Cell)))
  | [] => .ok none
  | row :: rest =>
    let texts := row.map (headerText txt)
    if (mapped.map (norm txt)).all fun m => texts.contains m then
      if (texts.filter (· ≠ "")).Nodup then .ok (some (texts, rest))
      else .error ("header row " ++ toString (i + 1) ++ " repeats a column name")
    else findHeader mapped (i + 1) rest

/-- The mapped columns no row holds, sorted. -/
def missingColumns (mapped present : List String) : List String :=
  sortNames ((mapped.map (norm txt)).eraseDups.filter fun m => ! present.contains m)

def sheetHeader (mapped : List String) (rows : List (List Cell)) :
    Except String (List String × List (List Cell)) :=
  match findHeader txt mapped 0 rows with
  | .error msg => .error msg
  | .ok (some found) => .ok found
  | .ok none =>
    let present := (rows.flatten.filter (· ≠ .none)).map fun c => norm txt c.toText
    .error ("no header row contains the mapped columns; missing " ++
      reprList txt (missingColumns txt mapped present))

/-- The records of the first sheet with a header. -/
def sheetRecords (required mapped : List String) :
    List String → List (String × List (List Cell)) → Except DocError (List SourceRecord)
  | problems, [] =>
    .error (.parseError (if problems = [] then "workbook has no sheets" else "; ".intercalate problems))
  | problems, (name, rows) :: rest =>
    match sheetHeader txt mapped rows with
    | .error msg => sheetRecords required mapped (problems ++ [name ++ ": " ++ msg]) rest
    | .ok (header, rows) => .ok (rowsToRecords header required name none 0 rows)

def parseSheetRecords (required mapped : List String) (doc : DecodedDocument) :
    Except DocError (List SourceRecord) :=
  match doc with
  | .sheets sheets => sheetRecords txt required mapped [] sheets
  | doc => .error (wrongDocument "SheetRecordParser" "a SheetsDocument" doc)

def parseTableRecords (required mapped : List String) (doc : DecodedDocument) :
    Except DocError (List SourceRecord) :=
  match doc with
  | .tabular kind header rows =>
    let header := header.map (norm txt)
    let missing := missingColumns txt mapped header
    if missing ≠ [] then
      .error (.parseError ("table header lacks mapped columns " ++ reprList txt missing))
    else .ok (rowsToRecords header required kind none 0 rows)
  | doc => .error (wrongDocument "TableRecordParser" "a TabularDocument" doc)

/-! ## JSON -/

/-- `_scalars`: nested lists and objects are not fields. -/
def scalars (members : List (String × JsonValue)) : List (String × Cell) :=
  members.filterMap fun p =>
    match p.2 with
    | .null => some (p.1, .none)
    | .bool b => some (p.1, .bool b)
    | .int n => some (p.1, .int n)
    | .float s => some (p.1, .text s)
    | .str s => some (p.1, .text s)
    | .list _ => none
    | .dict _ => none

/-- `_walk` on a value that is neither an object nor a list: it has no records. -/
def walkScalar (required : List String) (depth : Nat) (v : JsonValue) :
    Except PyError (List SourceRecord) :=
  if stack.fitsValue required depth v then .ok [] else .error recursionError

mutual

/-- `JsonRecordParser._walk`. -/
def jsonWalk (required : List String) (depth : Nat) (path : String) :
    JsonValue → Except PyError (List SourceRecord)
  | .dict members =>
    if stack.fitsValue required depth (.dict members) then
      if ! required.isEmpty && required.all fun k => (Dict.lookup k members).isSome then
        .ok [⟨scalars members, path⟩]
      else jsonWalkMembers required (depth + 1) path members
    else .error recursionError
  | .list items =>
    if stack.fitsValue required depth (.list items) then
      jsonWalkItems required (depth + 1) path 0 items
    else .error recursionError
  | .null => walkScalar stack required depth .null
  | .bool b => walkScalar stack required depth (.bool b)
  | .int n => walkScalar stack required depth (.int n)
  | .float s => walkScalar stack required depth (.float s)
  | .str s => walkScalar stack required depth (.str s)

def jsonWalkMembers (required : List String) (depth : Nat) (path : String) :
    List (String × JsonValue) → Except PyError (List SourceRecord)
  | [] => .ok []
  | (k, v) :: rest => do
    let records ← jsonWalk required depth (path ++ "." ++ k) v
    let others ← jsonWalkMembers required depth path rest
    .ok (records ++ others)

def jsonWalkItems (required : List String) (depth : Nat) (path : String) (i : Nat) :
    List JsonValue → Except PyError (List SourceRecord)
  | [] => .ok []
  | v :: rest => do
    let records ← jsonWalk required depth (path ++ "[" ++ toString i ++ "]") v
    let others ← jsonWalkItems required depth path (i + 1) rest
    .ok (records ++ others)

end

def parseJsonRecords (required : List String) (doc : DecodedDocument) :
    Except DocError (List SourceRecord) :=
  match doc with
  | .json data => walked (jsonWalk stack required 0 "$" data)
  | doc => .error (wrongDocument "JsonRecordParser" "a JsonDocument" doc)

/-- `generic_parser(manifest).parse`. -/
def genericParse (mapping : MappingBlock) (decode : DecodeKind) (doc : DecodedDocument) :
    Except DocError (List SourceRecord) :=
  let required := requiredSourceFields mapping
  let mapped := mappedSourceFields mapping
  match decode with
  | .soap => parseXmlRecords stack required doc
  | .xml => parseXmlRecords stack required doc
  | .xlsx => parseSheetRecords txt required mapped doc
  | .csv => parseTableRecords txt required mapped doc
  | .htmlTable => parseTableRecords txt required mapped doc
  | .json => parseJsonRecords stack required doc

end EnergyPlatform
