import EnergyPlatform.Contracts.Decimals

/-!
# Contracts.Parser

Decoded documents and source records: what a payload is turned into before it is mapped.
-/

namespace EnergyPlatform

abbrev Bytes := List UInt8

/-- `contract.decode`. -/
inductive DecodeKind where
  | xlsx
  | xml
  | soap
  | json
  | htmlTable
  | csv
deriving DecidableEq, Repr

def DecodeKind.text : DecodeKind → String
  | xlsx => "xlsx"
  | xml => "xml"
  | soap => "soap"
  | json => "json"
  | htmlTable => "html-table"
  | csv => "csv"

/-- An element as the decoder produced it; the tag keeps its namespace. -/
inductive XmlElement where
  | mk (tag : String) (attrib : List (String × String)) (text : Option String)
      (children : List XmlElement)

namespace XmlElement

def tag : XmlElement → String
  | mk t _ _ _ => t

def attrib : XmlElement → List (String × String)
  | mk _ a _ _ => a

def text : XmlElement → Option String
  | mk _ _ t _ => t

def children : XmlElement → List XmlElement
  | mk _ _ _ c => c

/-- `tag.rsplit("}", 1)[-1]`. -/
def localName (e : XmlElement) : String :=
  String.ofList (e.tag.toList.reverse.takeWhile (· ≠ '}')).reverse

end XmlElement

inductive JsonValue where
  | null
  | bool (b : Bool)
  | int (n : Int)
  /-- A float, as the text `str` gives it. -/
  | float (s : String)
  | str (s : String)
  | list (items : List JsonValue)
  | dict (members : List (String × JsonValue))

inductive DecodedDocument where
  | tabular (kind : String) (header : List String) (rows : List (List Cell))
  | sheets (sheets : List (String × List (List Cell)))
  | xml (root : XmlElement)
  | json (data : JsonValue)

/-- `type(doc).__name__`. -/
def DecodedDocument.typeName : DecodedDocument → String
  | tabular .. => "TabularDocument"
  | sheets .. => "SheetsDocument"
  | xml .. => "XmlDocument"
  | json .. => "JsonDocument"

/-- One source-shaped record; `locator` names where it came from. -/
structure SourceRecord where
  fields : List (String × Cell)
  locator : String
deriving DecidableEq, Repr

/-- `record.fields.get(name)`: an absent field reads as an empty cell. -/
def SourceRecord.get (r : SourceRecord) (name : String) : Cell :=
  match r.fields.find? fun p => p.1 = name with
  | some p => p.2
  | none => .none

end EnergyPlatform
