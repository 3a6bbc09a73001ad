import EnergyPlatform.Contracts.DecimalText
import EnergyPlatform.Contracts.Numerals
import EnergyPlatform.Lib.Dict

/-!
# Mcp.Wire

The JSON values of a session, as `json` reads and writes them.

The reading of a text, `str.strip`, `repr` of a text and of a float, and the indented form of a
payload are parameters. `newline_not_mem_dumps`: a value is written on one line, so the lines of what
was written are the values written (`lines_written`).
-/

namespace EnergyPlatform

open Lib (Dict)

namespace Mcp

/-- `json` reads and writes the three values that are no JSON numbers. -/
inductive WireFloat where
  | finite (neg : Bool) (magnitude : ℚ)
  | nan
  | infinity (neg : Bool)
deriving DecidableEq

inductive WireValue where
  | null
  | bool (b : Bool)
  | int (n : ℤ)
  | float (x : WireFloat)
  | str (s : String)
  | arr (items : List WireValue)
  | obj (members : List (String × WireValue))

abbrev Members := List (String × WireValue)

namespace WireValue

/-- `bool(value)`. -/
def truthy : WireValue → Bool
  | null => false
  | bool b => b
  | int n => decide (n ≠ 0)
  | float (.finite _ magnitude) => decide (magnitude ≠ 0)
  | float _ => true
  | str s => decide (s ≠ "")
  | arr items => ! items.isEmpty
  | obj members => ! members.isEmpty

mutual

/-- The value is JSON: no NaN and no infinity in it. -/
def standard : WireValue → Bool
  | float (.finite _ _) => true
  | float _ => false
  | arr items => standardItems items
  | obj members => standardMembers members
  | _ => true

def standardItems : List WireValue → Bool
  | [] => true
  | v :: rest => standard v && standardItems rest

def standardMembers : List (String × WireValue) → Bool
  | [] => true
  | (_, v) :: rest => standard v && standardMembers rest

end

/-- `value == text`, for a member that may be absent. -/
def isText (text : String) : Option WireValue → Bool
  | some (str s) => decide (s = text)
  | _ => false

/-- `value or {}`. -/
def orEmpty : Option WireValue → WireValue
  | some v => if v.truthy then v else obj []
  | none => obj []

def get (key : String) (message : Members) : WireValue := (Dict.lookup key message).getD null

end WireValue

/-- `json.loads`: a value, a `JSONDecodeError`, or another exception (a number with too many digits,
too deep a nesting). -/
inductive Loaded where
  | value (v : WireValue)
  | invalid
  | raised (e : PyError)

structure Texts where
  strip : String → String
  loads : String → Loaded
  repr : String → String
  /-- `repr` of a finite float. -/
  floatRepr : Bool → ℚ → String
  /-- `json.dumps(payload, indent=2, default=str)`. -/
  pretty : WireValue → String

/-! ## Writing -/

section Dumps

/-- Four hex digits. -/
def hex4 (n : ℕ) : List Char :=
  [Nat.digitChar (n / 4096 % 16), Nat.digitChar (n / 256 % 16), Nat.digitChar (n / 16 % 16),
    Nat.digitChar (n % 16)]

/-- A character in a string of `json.dumps`, which writes ASCII only. -/
def escapeChar (c : Char) : List Char :=
  if c = '\x22' then ['\x5c', '\x22']
  else if c = '\x5c' then ['\x5c', '\x5c']
  else if c = '\n' then ['\x5c', 'n']
  else if c = '\r' then ['\x5c', 'r']
  else if c = '\t' then ['\x5c', 't']
  else if c = '\x08' then ['\x5c', 'b']
  else if c = '\x0c' then ['\x5c', 'f']
  else if ' ' ≤ c ∧ c ≤ '~' then [c]
  else if c.toNat < 65536 then '\x5c' :: 'u' :: hex4 c.toNat
  else
    -- two surrogates
    let v := c.toNat - 65536
    '\x5c' :: 'u' :: hex4 (55296 + v / 1024) ++ '\x5c' :: 'u' :: hex4 (56320 + v % 1024)

def quoted (s : String) : Text := '\x22' :: (s.toList.flatMap escapeChar ++ ['\x22'])

variable (texts : Texts)

def floatText : WireFloat → Text
  | .finite neg magnitude => (texts.floatRepr neg magnitude).toList
  | .nan => "NaN".toList
  | .infinity neg => (if neg then "-Infinity" else "Infinity").toList

mutual

def dumps : WireValue → Text
  | .null => "null".toList
  | .bool b => (if b then "true" else "false").toList
  | .int n => (toString n).toList
  | .float x => floatText texts x
  | .str s => quoted s
  | .arr items => '[' :: (dumpsItems true items ++ [']'])
  | .obj members => '\x7b' :: (dumpsMembers true members ++ ['\x7d'])

def dumpsItems (first : Bool) : List WireValue → Text
  | [] => []
  | v :: rest => (if first then [] else [',', ' ']) ++ dumps v ++ dumpsItems false rest

def dumpsMembers (first : Bool) : Members → Text
  | [] => []
  | (key, v) :: rest =>
    (if first then [] else [',', ' ']) ++ quoted key ++ [':', ' '] ++ dumps v ++
      dumpsMembers false rest

end

/-- The text that a sequence of values leaves on `stdout`. -/
def written (docs : List WireValue) : Text := docs.flatMap fun doc => dumps texts doc ++ ['\n']

variable {texts}

theorem newline_not_mem_hex4 (n : ℕ) : '\n' ∉ hex4 n := by
  have hdigit : ∀ k, k < 16 → '\n' ≠ Nat.digitChar k := by decide
  simp only [hex4, List.mem_cons, List.not_mem_nil, or_false, not_or]
  exact ⟨hdigit _ (Nat.mod_lt _ (by decide)), hdigit _ (Nat.mod_lt _ (by decide)),
    hdigit _ (Nat.mod_lt _ (by decide)), hdigit _ (Nat.mod_lt _ (by decide))⟩

theorem newline_not_mem_escapeChar (c : Char) : '\n' ∉ escapeChar c := by
  by_cases hn : c = '\n'
  · subst hn
    decide
  · unfold escapeChar
    split_ifs <;> simp [newline_not_mem_hex4, Ne.symm hn]

theorem newline_not_mem_quoted (s : String) : '\n' ∉ quoted s := by
  simp [quoted, newline_not_mem_escapeChar]

mutual

/-- A value is written on one line. -/
theorem newline_not_mem_dumps (hfloat : ∀ neg q, '\n' ∉ (texts.floatRepr neg q).toList) :
    ∀ v, '\n' ∉ dumps texts v
  | .null => by simp [dumps]
  | .bool b => by cases b <;> simp [dumps]
  | .int n => not_mem_int (by decide) (by decide) n
  | .float (.finite neg q) => hfloat neg q
  | .float .nan => by simp [dumps, floatText]
  | .float (.infinity neg) => by cases neg <;> simp [dumps, floatText]
  | .str s => newline_not_mem_quoted s
  | .arr items => by simp [dumps, newline_not_mem_items hfloat true items]
  | .obj members => by simp [dumps, newline_not_mem_members hfloat true members]

theorem newline_not_mem_items (hfloat : ∀ neg q, '\n' ∉ (texts.floatRepr neg q).toList)
    (first : Bool) : ∀ items, '\n' ∉ dumpsItems texts first items
  | [] => by simp [dumpsItems]
  | v :: rest => by
    have hv := newline_not_mem_dumps hfloat v
    have hrest := newline_not_mem_items hfloat false rest
    cases first <;> simp [dumpsItems, hv, hrest]

theorem newline_not_mem_members (hfloat : ∀ neg q, '\n' ∉ (texts.floatRepr neg q).toList)
    (first : Bool) : ∀ members, '\n' ∉ dumpsMembers texts first members
  | [] => by simp [dumpsMembers]
  | (key, v) :: rest => by
    have hv := newline_not_mem_dumps hfloat v
    have hrest := newline_not_mem_members hfloat false rest
    cases first <;> simp [dumpsMembers, newline_not_mem_quoted, hv, hrest]

end

/-- The lines of `stdout` are the values written, one each. -/
theorem lines_written (hfloat : ∀ neg q, '\n' ∉ (texts.floatRepr neg q).toList)
    (docs : List WireValue) :
    splitChar '\n' (written texts docs) = docs.map (dumps texts) ++ [[]] := by
  induction docs with
  | nil => rfl
  | cons doc rest ih =>
    rw [written, List.flatMap_cons, List.append_assoc, List.singleton_append,
      splitChar_append (newline_not_mem_dumps hfloat doc)]
    exact congrArg (dumps texts doc :: ·) ih

end Dumps

end Mcp

end EnergyPlatform
