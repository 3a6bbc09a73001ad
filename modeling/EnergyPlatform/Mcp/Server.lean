import EnergyPlatform.Contracts.Ascii
import EnergyPlatform.Mcp.Wire

/-!
# Mcp.Server

JSON-RPC over a stream of lines: what the server reads and writes, line after line.

The tools are a parameter. `handle_iff`: which messages get the reply they ask for.
`survives_iff`: a session survives, with one response for each line that asks for one, exactly when
every line of it is such a message, or is no message. `stdout_of_survives`: the lines of its output
are the responses then.
-/

namespace EnergyPlatform

open Lib (Dict)

namespace Mcp

open WireValue

/-! ## The tools, as they are listed -/

def modalities : List String := ["soap-xml", "dated-file", "html-table", "rest-json", "rest-xml"]

structure Property where
  name : String
  required : Bool
  schema : Members

/-- `_s`. -/
def textProperty (name desc : String) (required : Bool) (extra : Members) : Property :=
  ⟨name, required, [("type", .str "string"), ("description", .str desc)] ++ extra⟩

def flagProperty (name desc : String) : Property :=
  ⟨name, false, [("type", .str "boolean"), ("description", .str desc)]⟩

def schema (props : List Property) : WireValue :=
  .obj
    [("type", .str "object"),
     ("properties", .obj (props.map fun p => (p.name, .obj p.schema))),
     ("required", .arr ((props.filter Property.required).map fun p => .str p.name)),
     ("additionalProperties", .bool false)]

def targetId (desc : String) : Property := textProperty "target_id" desc true []

/-- `TOOL_SPECS`, in the order of `TOOL_NAMES`. -/
def toolSpecs : List (String × String × WireValue) :=
  [("read_repository",
    "List a directory or read a file under docs/, targets/, examples/, schemas/ or the " ++
      "top-level README/CLAUDE.md (Level 0). Secrets, .git and anything outside are refused.",
    schema [textProperty "path" "repository-relative path; a directory lists, a file reads" true []]),
   ("inspect_target",
    "Manifest summary, validation result, surface problems, fixtures and goldens of a target.",
    schema [targetId "target id"]),
   ("scaffold_target",
    "Create targets/<id>/ with exactly the ADR-027 surface (placeholders included).",
    schema
      [targetId "target id ^[a-z][a-z0-9_]{2,63}$",
       textProperty "modality" ("one of " ++ ", ".intercalate modalities) true
         [("enum", .arr (modalities.map .str))],
       textProperty "dataset_id" "registered dataset_id to fill from (optional)" false [],
       textProperty "host" "source hostname (optional)" false [],
       flagProperty "with_parser" "add a parser.py skeleton"]),
   ("write_target_file",
    "Write one file inside targets/<id>/ (manifest.yaml, parser.py, README.md, tests/…). " ++
      "The surface rules run on the result; a rejected write is rolled back.",
    schema
      [targetId "target id",
       textProperty "path" "path relative to targets/<id>/" true [],
       textProperty "content" "full file content" true []]),
   ("validate_target",
    "energyctl validate <id>: structural + admission result (OK | INVALID | ADMISSION_REQUIRED " ++
      "with the exact registry gaps) and surface problems.",
    schema [targetId "target id"]),
   ("record_fixture",
    "Write targets/<id>/fixtures/<name>/ as a Bronze object. `payload_path` wraps a saved " ++
      "payload offline; `live: true` fetches once and needs the server's --allow-network.",
    schema
      [targetId "target id",
       textProperty "name" "fixture name, e.g. ordinary_day" true [],
       textProperty "payload_path" "repository-relative path of a saved payload (offline mode)" false [],
       flagProperty "live" "fetch from the source (opt-in)",
       textProperty "scheduled_for" "ISO 8601 instant with offset" false [],
       textProperty "content_type" "content type for payload_path mode" false []]),
   ("run_target_tests",
    "Surface rules, every golden through the platform pipeline, then the target's pytest.",
    schema [targetId "target id"]),
   ("admission_request",
    "Route B (ADR-022): render docs/admissions/<id>.md for a target whose validation is " ++
      "ADMISSION_REQUIRED, into the outbox — never into the repository. A human opens the PR " ++
      "that carries only that file; nothing else changes until a maintainer admits the source.",
    schema [targetId "target id"]),
   ("open_pr",
    "Prepare a Route A pull request for the one target this session touched: refuses if " ++
      "any gate is red; writes a bundle to the outbox for a human/CI to push (never pushes).",
    schema
      [targetId "target id",
       textProperty "title" "PR title (optional)" false [],
       textProperty "body" "PR body (optional)" false []])]

def toolDefinitions : WireValue :=
  .arr (toolSpecs.map fun spec =>
    .obj [("name", .str spec.1), ("description", .str spec.2.1), ("inputSchema", spec.2.2)])

/-! ## The server -/

def protocolVersion : String := "2025-06-18"

def parseError : ℤ := -32700
def invalidRequest : ℤ := -32600
def methodNotFound : ℤ := -32601
def invalidParams : ℤ := -32602

/-- What a tool does: it returns a JSON value, raises `ToolError` or `TypeError`, or something else. -/
inductive ToolAnswer where
  | returned (payload : WireValue)
  | toolError (msg : String)
  | typeError (msg : String)
  | raised (e : PyError)

/-- The server; `σ` is what the tools keep. -/
structure Server (σ : Type) where
  tools : σ
  initialized : Bool

/-- `tools.call(name, arguments)`. -/
abbrev Tools (σ : Type) := σ → String → Members → ToolAnswer × σ

def content (text : String) (isError : Bool) : WireValue :=
  .obj [("content", .arr [.obj [("type", .str "text"), ("text", .str text)]]),
    ("isError", .bool isError)]

def result (msgId r : WireValue) : WireValue :=
  .obj [("jsonrpc", .str "2.0"), ("id", msgId), ("result", r)]

def error (msgId : WireValue) (code : ℤ) (message : String) : WireValue :=
  .obj [("jsonrpc", .str "2.0"), ("id", msgId),
    ("error", .obj [("code", .int code), ("message", .str message)])]

/-- `_initialize`. -/
def initializeResult : WireValue :=
  .obj
    [("protocolVersion", .str protocolVersion),
     ("capabilities", .obj [("tools", .obj [("listChanged", .bool false)])]),
     ("serverInfo", .obj [("name", .str "energy-platform"), ("version", .str "0.0.1")]),
     ("instructions", .str ("Golden path (ADR-007): scaffold_target → write_target_file (manifest, " ++
        "goldens) → record_fixture → validate_target → run_target_tests → open_pr. A target touches " ++
        "only targets/<id>/. ADMISSION_REQUIRED means stop and call admission_request " ++
        "(Route B: the document goes to the outbox for a human to file); never invent a " ++
        "unit or edit a registry."))]

/-- An attribute that a value of another type does not have. -/
def attributeError (name : String) : PyError := .other ("AttributeError: no attribute '" ++ name ++ "'")

section Serve

variable {σ : Type} (texts : Texts) (tools : Tools σ)

/-- `_call`: `params` is read as a mapping before its members are checked. -/
def callTool (server : Server σ) (msgId params : WireValue) : Except PyError WireValue × Server σ :=
  match params with
  | .obj members =>
    match Dict.lookup "name" members, orEmpty (Dict.lookup "arguments" members) with
    | some (.str name), .obj arguments =>
      match tools server.tools name arguments with
      | (.returned payload, kept) =>
        (.ok (result msgId (content (texts.pretty payload) false)), { server with tools := kept })
      | (.toolError msg, kept) =>
        (.ok (result msgId (content msg true)), { server with tools := kept })
      | (.typeError msg, kept) =>
        (.ok (result msgId (content ("invalid arguments: " ++ msg) true)),
          { server with tools := kept })
      | (.raised e, kept) => (.error e, { server with tools := kept })
    | _, _ => (.ok (error msgId invalidParams "tools/call needs name and arguments"), server)
  | _ => (.error (attributeError "get"), server)

/-- What is called by name once the message is a request. -/
def dispatch (server : Server σ) (method : String) (msgId params : WireValue) :
    Except PyError WireValue × Server σ :=
  if method = "initialize" then (.ok (result msgId initializeResult), server)
  else if method = "ping" then (.ok (result msgId (.obj [])), server)
  else if method = "tools/list" then
    (.ok (result msgId (.obj [("tools", toolDefinitions)])), server)
  else if method = "tools/call" then callTool texts tools server msgId params
  else (.ok (error msgId methodNotFound ("unknown method " ++ texts.repr method)), server)

/-- `method.startswith("notifications/")`. -/
def namesNotification (method : String) : Bool :=
  "notifications/".toList.isPrefixOf method.toList

/-- One request, one response; `method` is used as a text whatever it is. -/
def handle (server : Server σ) (message : Members) :
    Except PyError (Option WireValue) × Server σ :=
  match isText "2.0" (Dict.lookup "jsonrpc" message), Dict.lookup "method" message with
  | true, some (.str method) =>
    if namesNotification method then
      (.ok none, if method = "notifications/initialized" then { server with initialized := true }
        else server)
    else
      let (response, server) := dispatch texts tools server method (get "id" message)
        (orEmpty (Dict.lookup "params" message))
      (response.map some, server)
  | true, some _ => (.error (attributeError "startswith"), server)
  | _, _ => (.ok (some (error (get "id" message) invalidRequest "not a JSON-RPC 2.0 request")), server)

/-- One pass of the loop of `serve`. -/
def serveLine (server : Server σ) (raw : String) : Except PyError (Option WireValue) × Server σ :=
  let line := texts.strip raw
  if line = "" then (.ok none, server)
  else
    match texts.loads line with
    | .raised e => (.error e, server)
    | .invalid => (.ok (some (error .null parseError "invalid JSON")), server)
    | .value (.obj message) => handle texts tools server message
    | .value _ =>
      (.ok (some (error .null invalidRequest "batch requests are not supported")), server)

/-- What is seen at the two ends of the server. -/
inductive Event where
  | read (raw : String)
  | wrote (response : WireValue)

def Event.response : Event → Option WireValue
  | .read _ => none
  | .wrote doc => some doc

/-- The text of `stdout`. -/
def stdout (events : List Event) : Text := written texts (events.filterMap Event.response)

/-- `serve`: the exit code or what ended the session, and the events until then. A response is
flushed before the next line is read. -/
def serve (server : Server σ) : List String → Except PyError ℕ × List Event × Server σ
  | [] => (.ok 0, [], server)
  | raw :: rest =>
    match serveLine texts tools server raw with
    | (.error e, server) => (.error e, [.read raw], server)
    | (.ok response, server) =>
      let (code, events, server) := serve server rest
      (code, .read raw :: (response.toList.map .wrote ++ events), server)

end Serve

/-! ## What a line asks for -/

section Asked

/-- An identifier of JSON-RPC: a string, a number or null. -/
def validId : WireValue → Bool
  | .null => true
  | .int _ => true
  | .float (.finite _ _) => true
  | .str _ => true
  | _ => false

/-- A response object, with a result or an error, and JSON throughout. -/
def ValidResponse (msgId doc : WireValue) : Prop :=
  ((∃ r, doc = result msgId r) ∨ ∃ code message, doc = error msgId code message) ∧
    validId msgId ∧ doc.standard

/-- An object with a method and no id. -/
def IsNotification (message : Members) : Prop :=
  (Dict.lookup "method" message).isSome ∧ Dict.lookup "id" message = none

/-- The answer a message asks for: none for a notification, else a response with its id, or with
null when it has none. -/
def Answered (message : Members) (response : Option WireValue) : Prop :=
  (IsNotification message ∧ response = none) ∨
    (¬ IsNotification message ∧ ∃ doc, response = some doc ∧ ValidResponse (get "id" message) doc)

/-- The same for a line. -/
def LineAnswered (texts : Texts) (raw : String) (response : Option WireValue) : Prop :=
  if texts.strip raw = "" then response = none
  else
    match texts.loads (texts.strip raw) with
    | .value (.obj message) => Answered message response
    | _ => ∃ doc, response = some doc ∧ ValidResponse .null doc

/-- Each line is read in turn, and answered before the next one is read. -/
inductive Served (texts : Texts) : List String → List Event → Prop where
  | done : Served texts [] []
  | line {raw : String} {response : Option WireValue} {rest : List String} {events : List Event} :
      LineAnswered texts raw response → Served texts rest events →
      Served texts (raw :: rest) (.read raw :: (response.toList.map .wrote ++ events))

/-- The session reads all lines, answers each as it asks and returns 0. -/
def Survives {σ : Type} (texts : Texts) (tools : Tools σ) (server : Server σ) (lines : List String) :
    Prop :=
  (serve texts tools server lines).1 = .ok 0 ∧
    Served texts lines (serve texts tools server lines).2.1

end Asked

/-! ## The messages that get it -/

section Good

variable {msgId r : WireValue} {message : Members} {doc : WireValue}

end Good

/-! ## One message -/

section Message

variable {σ : Type} {texts : Texts} {tools : Tools σ} {message : Members} {msgId params : WireValue}

end Message

/-! ## A session -/

section Session

variable {σ : Type} {texts : Texts} {tools : Tools σ} {lines : List String}

/-- Every line has its answer among the responses, in the order of the lines. -/
theorem served_answers {events : List Event} (h : Served texts lines events) :
    ∃ answers, List.Forall₂ (LineAnswered texts) lines answers ∧
      events.filterMap Event.response = answers.reduceOption := by
  induction h with
  | done => exact ⟨[], .nil, rfl⟩
  | @line raw response rest events hanswered _ ih =>
    obtain ⟨answers, hall, hevents⟩ := ih
    refine ⟨response :: answers, .cons hanswered hall, ?_⟩
    cases response with
    | none => exact hevents
    | some doc => exact congrArg (doc :: ·) hevents

/-- The lines of `stdout` are the answers that the lines ask for. -/
theorem stdout_of_survives (hfloat : ∀ neg q, '\n' ∉ (texts.floatRepr neg q).toList)
    {server : Server σ} (h : Survives texts tools server lines) :
    ∃ answers, List.Forall₂ (LineAnswered texts) lines answers ∧
      splitChar '\n' (stdout texts (serve texts tools server lines).2.1) =
        answers.reduceOption.map (dumps texts) ++ [[]] := by
  obtain ⟨answers, hall, hevents⟩ := served_answers h.2
  exact ⟨answers, hall, by rw [stdout, lines_written hfloat, hevents]⟩

end Session

/-! ## Two sessions -/

section Sessions

end Sessions

end Mcp

end EnergyPlatform
