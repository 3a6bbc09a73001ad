import EnergyPlatform.Contracts.Time

/-!
# Contracts.Decimals

Decimal values, cell parsing under the declared separator, and the sign convention.

A `Decimal` keeps its sign, coefficient and exponent, as `decimal.Decimal` does; unary minus rounds
to the default context (28 digits, half even), as every arithmetic operation of `decimal` does.
The text routines of the interpreter (`str.strip`, the digit value of a character, `repr`, the ISO
8601 readers) are parameters.
-/

namespace EnergyPlatform

inductive Decimal where
  | finite (neg : Bool) (coeff : Nat) (exp : Int)
  | infinity (neg : Bool)
  | nan (signaling : Bool)
deriving DecidableEq, Repr

namespace Decimal

def ofInt (n : Int) : Decimal := .finite (decide (n < 0)) n.natAbs 0

/-- The coefficient with its sign, scaled to the exponent `e` (at most the own one). -/
def scaledTo (e : Int) : Bool → Nat → Int → Int
  | neg, coeff, exp => (if neg then -1 else 1) * (coeff * 10 ^ (exp - e).toNat : Nat)

/-- `self == other`: numerically, so `1.0 == 1.00`; a NaN equals nothing. -/
def eq : Decimal → Decimal → Bool
  | finite n c e, finite n' c' e' =>
    scaledTo (min e e') n c e == scaledTo (min e e') n' c' e'
  | infinity n, infinity n' => n == n'
  | _, _ => false

/-- `self < 0`; ordering a NaN signals `InvalidOperation`. -/
def ltZero : Decimal → Except PyError Bool
  | finite neg coeff _ => .ok (neg && coeff != 0)
  | infinity neg => .ok neg
  | nan _ => .error (.invalidOperation "comparison involving NaN")

def isFinite : Decimal → Bool
  | finite .. => true
  | _ => false

def prec : Nat := 28

def etiny : Int := -1000026

def etop : Int := 999972

def numDigits (n : Nat) : Nat := (Nat.toDigits 10 n).length

/-- Drop `drop` digits of `coeff`, rounding half to even. -/
def roundHalfEven (coeff drop : Nat) : Nat :=
  let q := coeff / 10 ^ drop
  let r := coeff % 10 ^ drop
  if 2 * r < 10 ^ drop then q
  else if 10 ^ drop < 2 * r then q + 1
  else if q % 2 = 0 then q else q + 1

/-- `_fix`: round a result to the default context. -/
def fix : Decimal → Except PyError Decimal
  | finite neg coeff exp =>
    if coeff = 0 then .ok (.finite neg 0 (min (max exp etiny) 999999))
    else
      let expMin := (numDigits coeff : Int) + exp - prec
      if etop < expMin then .error (.other "Overflow")
      else
        let expMin := max expMin etiny
        if exp < expMin then
          let c := roundHalfEven coeff (expMin - exp).toNat
          if numDigits c ≤ prec then .ok (.finite neg c expMin)
          else if etop < expMin + 1 then .error (.other "Overflow")
          else .ok (.finite neg (c / 10) (expMin + 1))
        else .ok (.finite neg coeff exp)
  | nan true => .error (.invalidOperation "sNaN")
  | d => .ok d

/-- Unary minus; the negative of a zero is the positive zero. -/
def neg : Decimal → Except PyError Decimal
  | finite n c e => fix (.finite (if c = 0 then false else !n) c e)
  | infinity n => .ok (.infinity !n)
  | d => fix d

def abs : Decimal → Except PyError Decimal
  | finite _ c e => fix (.finite false c e)
  | infinity _ => .ok (.infinity false)
  | d => fix d

/-- `self - other`: the exact difference, rounded to the default context. -/
def sub : Decimal → Decimal → Except PyError Decimal
  | finite n c e, finite n' c' e' =>
    let low := min e e'
    let diff := scaledTo low n c e - scaledTo low n' c' e'
    fix (.finite (decide (diff < 0)) diff.natAbs low)
  | infinity n, infinity n' =>
    if n = n' then .error (.invalidOperation "-INF + INF") else .ok (.infinity n)
  | infinity n, finite .. => .ok (.infinity n)
  | finite .., infinity n => .ok (.infinity !n)
  | nan true, _ => .error (.invalidOperation "sNaN")
  | _, nan true => .error (.invalidOperation "sNaN")
  | _, _ => .ok (.nan false)

/-- `self > other`; ordering a NaN signals `InvalidOperation`. -/
def gt : Decimal → Decimal → Except PyError Bool
  | finite n c e, finite n' c' e' =>
    let low := min e e'
    .ok (decide (scaledTo low n' c' e' < scaledTo low n c e))
  | infinity n, infinity n' => .ok (!n && n')
  | infinity n, finite .. => .ok !n
  | finite .., infinity n => .ok n
  | _, _ => .error (.invalidOperation "comparison involving NaN")

/-- `bool(d)`: false exactly for a zero. -/
def truthy : Decimal → Bool
  | finite _ c _ => c != 0
  | _ => true

/-- `str(d)`: plain notation while the exponent is not positive and the adjusted exponent is at
least -6, else scientific. -/
def toText : Decimal → String
  | infinity n => (if n then "-" else "") ++ "Infinity"
  | nan s => if s then "sNaN" else "NaN"
  | finite n c e =>
    let digits := Nat.toDigits 10 c
    let sign := if n then "-" else ""
    let left : Int := digits.length + e
    let dot : Int := if e ≤ 0 ∧ -6 < left then left else 1
    let body :=
      if dot ≤ 0 then '0' :: '.' :: (List.replicate (-dot).toNat '0' ++ digits)
      else if (digits.length : Int) ≤ dot then digits ++ List.replicate (dot - digits.length).toNat '0'
      else digits.take dot.toNat ++ '.' :: digits.drop dot.toNat
    let tail := if left = dot then "" else (if 0 ≤ left - dot then "E+" else "E") ++ toString (left - dot)
    sign ++ String.ofList body ++ tail

end Decimal

inductive Separator where
  | dot
  | comma
deriving DecidableEq, Repr

def Separator.name : Separator → String
  | dot => "dot"
  | comma => "comma"

inductive Sign where
  | asPublished
  | inverted
deriving DecidableEq, Repr

/-- A decoded scalar: text as the source wrote it, or a native number from a binary format. -/
inductive Cell where
  | text (s : String)
  | decimal (d : Decimal)
  | int (n : Int)
  | bool (b : Bool)
  | none
deriving DecidableEq, Repr

/-- What `datetime.fromisoformat` reads: the wall clock and the UTC offset, in microseconds. -/
structure IsoDatetime where
  wall : Int
  offset : Option Int
deriving DecidableEq, Repr

/-- The text routines of the interpreter: `str.strip`, `str.split`, the value of a decimal digit character (what
`int` and `\d` accept), `str.isdigit` of a character, `repr` of a string, `date.fromisoformat` and
`datetime.fromisoformat`. -/
structure TextPrims where
  strip : String → String
  words : String → List String
  digit : Char → Option Nat
  isDigit : Char → Bool
  repr : String → String
  dateOfIso : String → Option Day
  datetimeOfIso : String → Option IsoDatetime

namespace Cell

/-- `str(cell)`. -/
def toText : Cell → String
  | text s => s
  | decimal d => d.toText
  | int n => toString n
  | bool b => if b then "True" else "False"
  | none => "None"

def repr (txt : TextPrims) : Cell → String
  | text s => txt.repr s
  | decimal d => "Decimal('" ++ d.toText ++ "')"
  | c => c.toText

end Cell

section Parse

variable (txt : TextPrims)

/-- The number a run of digits denotes and its length. -/
def digitRun : List Char → Nat × Nat × List Char
  | [] => (0, 0, [])
  | c :: cs =>
    match txt.digit c with
    | .none => (0, 0, c :: cs)
    | some d =>
      let (n, len, rest) := digitRun cs
      (d * 10 ^ len + n, len + 1, rest)

/-- `_PLAIN` and `Decimal(text)`: sign, digits, and at most one dot followed by digits. -/
def plainDecimal (text : List Char) : Option Decimal :=
  let (neg, body) :=
    match text with
    | '+' :: rest => (false, rest)
    | '-' :: rest => (true, rest)
    | rest => (false, rest)
  match digitRun txt body with
  | (_, 0, _) => .none
  | (whole, _, []) => some (.finite neg whole 0)
  | (whole, _, '.' :: rest) =>
    match digitRun txt rest with
    | (_, 0, _) => .none
    | (frac, len, []) => some (.finite neg (whole * 10 ^ len + frac) (-len))
    | _ => .none
  | _ => .none

/-- `text.replace(",", ".", 1)`. -/
def commaToDot : List Char → List Char
  | [] => []
  | ',' :: cs => '.' :: cs
  | c :: cs => c :: commaToDot cs

def parseDecimal (value : Cell) (separator : Separator) : Except PyError (Option Decimal) :=
  match value with
  | .none => .ok .none
  | .bool b => .error (.valueError ("not a decimal: " ++ (Cell.bool b).repr txt))
  | .decimal d => .ok (some d)
  | .int n => .ok (some (.ofInt n))
  | .text s =>
    let text := (txt.strip s).toList
    if text = [] then .ok .none
    else if separator = .comma ∧ '.' ∈ text then
      .error (.valueError ("not a decimal under the comma rule: " ++ (Cell.text s).repr txt))
    else
      match plainDecimal txt (if separator = .comma then commaToDot text else text) with
      | .none => .error (.valueError
          ("not a decimal under the " ++ separator.name ++ " rule: " ++ (Cell.text s).repr txt))
      | some d => .ok (some d)

end Parse

def applySign (value : Option Decimal) (sign : Sign) : Except PyError (Option Decimal) :=
  match value, sign with
  | .none, _ => .ok .none
  | some v, .asPublished => .ok (some v)
  | some v, .inverted =>
    match v.neg with
    | .error e => .error e
    | .ok negated => if negated.truthy then .ok (some negated) else negated.abs.map some

example : (Decimal.finite true 1705 (-1)).toText = "-170.5" := by decide

end EnergyPlatform
