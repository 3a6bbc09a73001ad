import EnergyPlatform.Contracts.Decimals

/-!
# Contracts.Ascii

The text routines of the interpreter, on ASCII texts.
-/

namespace EnergyPlatform

namespace Ascii

def strip (s : String) : String :=
  String.ofList ((s.toList.dropWhile Char.isWhitespace).reverse.dropWhile Char.isWhitespace).reverse

/-- The words of a text, the one being read given reversed. -/
def wordsFrom : List Char → List Char → List String
  | [], [] => []
  | word, [] => [String.ofList word.reverse]
  | word, c :: rest =>
    if c.isWhitespace then
      if word = [] then wordsFrom [] rest else String.ofList word.reverse :: wordsFrom [] rest
    else wordsFrom (c :: word) rest

def words (s : String) : List String := wordsFrom [] s.toList

def digit (c : Char) : Option Nat := if c.isDigit then some (c.toNat - 48) else none

def number (l : List Char) : Option Nat :=
  if l = [] then none
  else l.foldl (fun n c => n.bind fun n => (digit c).map fun d => 10 * n + d) (some 0)

/-- The day number of a proleptic Gregorian date. -/
def dayOfCivil (year month dayOfMonth : Nat) : Day :=
  let y : Int := (year : Int) - if month ≤ 2 then 1 else 0
  let era := y / 400
  let yoe := y % 400
  let mp : Int := if 2 < month then (month : Int) - 3 else (month : Int) + 9
  let doy := (153 * mp + 2) / 5 + dayOfMonth - 1
  era * 146097 + (yoe * 365 + yoe / 4 - yoe / 100 + doy) - 719468

/-- `YYYY-MM-DD`, refused unless the date it names reads back the same. -/
def dateOfIso (s : String) : Option Day :=
  match s.toList with
  | [a, b, c, d, '-', e, f, '-', g, h] => do
    let year ← number [a, b, c, d]
    let month ← number [e, f]
    let dayOfMonth ← number [g, h]
    let n := dayOfCivil year month dayOfMonth
    if civilOfDay n = ⟨year, month, dayOfMonth⟩ then some n else none
  | _ => none

/-- `HH:MM`, in microseconds. -/
def hourMinute (l : List Char) : Option Duration :=
  match l with
  | [a, b, ':', c, d] => do
    let h ← number [a, b]
    let m ← number [c, d]
    if h < 24 ∧ m < 60 then some (h * hour + m * minute) else none
  | _ => none

/-- An offset `±HH:MM`, or none at all. -/
def offsetOfIso (l : List Char) : Option (Option Duration) :=
  match l with
  | [] => some none
  | '+' :: rest => (hourMinute rest).map some
  | '-' :: rest => (hourMinute rest).map fun d => some (-d)
  | _ => none

/-- `YYYY-MM-DDTHH:MM:SS` with an optional offset. -/
def datetimeOfIso (s : String) : Option IsoDatetime := do
  let text := s.toList
  let d ← dateOfIso (String.ofList (text.take 10))
  match text.drop 10 with
  | 'T' :: h :: h' :: ':' :: m :: m' :: ':' :: a :: b :: rest => do
    let clock ← hourMinute [h, h', ':', m, m']
    let seconds ← number [a, b]
    let offset ← offsetOfIso rest
    if seconds < 60 then some ⟨d * day + clock + seconds * second, offset⟩ else none
  | _ => none

def text : TextPrims where
  strip := strip
  words := words
  digit := digit
  isDigit := Char.isDigit
  repr s := "'" ++ s ++ "'"
  dateOfIso := dateOfIso
  datetimeOfIso := datetimeOfIso

example : datetimeOfIso "9999-12-31T23:30:00+00:00" = some ⟨253402299000 * second, some 0⟩ := by decide

end Ascii

end EnergyPlatform
