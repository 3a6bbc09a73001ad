import EnergyPlatform.Contracts.Parser

/-!
# Parse.Decode

Bytes to a decoded document. The parsing libraries are a parameter: each routine is a function of
the bytes (and the table selector) that answers with the raw document, refuses it with the
exception the decoder turns into a `DecodeError`, or raises something else.
-/

namespace EnergyPlatform

/-- How a library routine fails. -/
inductive LibError where
  /-- The exception the decoder catches. -/
  | refused (msg : String)
  | raised (e : PyError)

/-- What decoding and parsing raise. Only the first three are caught. -/
inductive DocError where
  | decodeError (msg : String)
  | soapFault (msg : String)
  | parseError (msg : String)
  | raised (e : PyError)

/-- A stored value of a workbook. -/
inductive RawCell where
  | plain (c : Cell)
  /-- A float, read by `Decimal(repr(value))`. -/
  | float (d : Decimal)
  /-- A date, time or datetime, by its `isoformat`. -/
  | temporal (iso : String)
  | other (text : String)

/-- A row of an HTML table: for each `th` or `td`, whether it is a `th` and its text. -/
abbrev HtmlRow := List (Bool × String)

structure DecodeLibs where
  /-- `openpyxl`: the sheets of a workbook. -/
  workbook : Bytes → Except LibError (List (String × List (List RawCell)))
  /-- `lxml.etree`: the root element, with texts as stored. -/
  xml : Bytes → Except LibError XmlElement
  /-- `json.loads` of the UTF-8 text. -/
  json : Bytes → Except LibError JsonValue
  /-- `csv.reader` of the UTF-8 text. -/
  csv : Bytes → Except LibError (List (List String))
  /-- `lxml.html` and the selector: the rows of the first element it matches, if any. -/
  htmlTable : Bytes → String → Except LibError (Option (List HtmlRow))

def RawCell.cell : RawCell → Cell
  | plain c => c
  | float d => .decimal d
  | temporal iso => .text iso
  | other text => .text text

def maxRows : Nat := 1000000

variable (txt : TextPrims) (libs : DecodeLibs)

/-- `raise DecodeError(f"{what}: {exc}") from exc`, for what the library refused. -/
def refusedAs {α : Type} (what : String) : Except LibError α → Except DocError α
  | .ok a => .ok a
  | .error (.refused msg) => .error (.decodeError (what ++ ": " ++ msg))
  | .error (.raised e) => .error (.raised e)

def decodeSheets : List (String × List (List RawCell)) →
    Except DocError (List (String × List (List Cell)))
  | [] => .ok []
  | (title, rows) :: rest =>
    if maxRows < rows.length then
      .error (.decodeError ("sheet " ++ txt.repr title ++ " exceeds " ++ toString maxRows ++ " rows"))
    else do
      let sheets ← decodeSheets rest
      .ok ((title, rows.map (List.map RawCell.cell)) :: sheets)

def decodeXlsx (payload : Bytes) : Except DocError DecodedDocument := do
  let raw ← refusedAs "not an xlsx workbook" (libs.workbook payload)
  let sheets ← decodeSheets txt raw
  .ok (.sheets sheets)

/-- `node.text.strip()`, or nothing for a blank text. -/
def strippedText (t : Option String) : Option String :=
  match t with
  | none => none
  | some s => if txt.strip s = "" then none else some (txt.strip s)

mutual

def element : XmlElement → XmlElement
  | .mk tag attrib text children => .mk tag attrib (strippedText txt text) (elements children)

def elements : List XmlElement → List XmlElement
  | [] => []
  | e :: rest => element e :: elements rest

end

mutual

/-- `XmlElement.first`: depth first, not the element itself. -/
def XmlElement.first (localName : String) : XmlElement → Option XmlElement
  | .mk _ _ _ children => XmlElement.firstAmong localName children

def XmlElement.firstAmong (localName : String) : List XmlElement → Option XmlElement
  | [] => none
  | c :: rest =>
    if c.localName = localName then some c
    else
      match c.first localName with
      | some e => some e
      | none => firstAmong localName rest

end

mutual

/-- `_text`: the text of an element, or of its children joined by blanks. -/
def elementText : XmlElement → String
  | .mk _ _ (some t) _ => t
  | .mk _ _ none children => " ".intercalate ((elementTexts children).filter (· ≠ ""))

def elementTexts : List XmlElement → List String
  | [] => []
  | e :: rest => elementText e :: elementTexts rest

end

def textOf (e : Option XmlElement) : String :=
  match e with
  | none => ""
  | some e => elementText e

/-- `fault.first(a) or fault.first(b)`. -/
def firstOf (fault : XmlElement) (a b : String) : Option XmlElement :=
  match fault.first a with
  | some e => some e
  | none => fault.first b

def decodeXml (payload : Bytes) (soap : Bool) : Except DocError DecodedDocument := do
  let raw ← refusedAs "not well-formed XML" (libs.xml payload)
  let root := element txt raw
  if soap then
    if root.localName ≠ "Envelope" then
      .error (.decodeError ("SOAP root must be Envelope, got " ++ txt.repr root.localName))
    else
      match root.first "Fault" with
      | some fault =>
        .error (.soapFault ("SOAP Fault " ++ txt.repr (textOf (firstOf fault "faultcode" "Code")) ++
          ": " ++ txt.repr (textOf (firstOf fault "faultstring" "Reason"))))
      | none => .ok (.xml root)
  else .ok (.xml root)

def decodeJson (payload : Bytes) : Except DocError DecodedDocument := do
  let data ← refusedAs "not JSON" (libs.json payload)
  .ok (.json data)

def blank (s : String) : Cell := if s = "" then .none else .text s

def decodeCsv (payload : Bytes) : Except DocError DecodedDocument := do
  let raw ← refusedAs "csv is not UTF-8" (libs.csv payload)
  match (raw.filter (· ≠ [])).map (List.map txt.strip) with
  | [] => .error (.decodeError "csv has no header row")
  | header :: rows => .ok (.tabular "csv" header (rows.map (List.map blank)))

/-- The first row with cells is the header, whatever its cells are; the rows after it are data. -/
def htmlRows : Option (List String) → List HtmlRow → Option (List String) × List (List Cell)
  | header, [] => (header, [])
  | header, row :: rest =>
    if row = [] then htmlRows header rest
    else
      match header with
      | none => htmlRows (some (row.map Prod.snd)) rest
      | some h =>
        let (header, rows) := htmlRows (some h) rest
        (header, row.map (fun c => blank c.2) :: rows)

def decodeHtmlTable (payload : Bytes) (selector : String) : Except DocError DecodedDocument := do
  match ← refusedAs "not HTML" (libs.htmlTable payload selector) with
  | none => .error (.decodeError ("no element matches table_selector " ++ txt.repr selector))
  | some rows =>
    match htmlRows none rows with
    | (none, _) => .error (.decodeError "table has no rows")
    | (some header, rows) => .ok (.tabular "html-table" header rows)

def decode (payload : Bytes) (kind : DecodeKind) : Except DocError DecodedDocument :=
  match kind with
  | .xlsx => decodeXlsx txt libs payload
  | .xml => decodeXml txt libs payload false
  | .soap => decodeXml txt libs payload true
  | .json => decodeJson libs payload
  | .htmlTable => .error (.decodeError "html-table decoding needs a table selector; use decode_html_table")
  | .csv => decodeCsv txt libs payload

end EnergyPlatform
