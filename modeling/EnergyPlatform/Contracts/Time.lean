import Mathlib.Data.String.Basic
import Mathlib.Tactic

/-!
# Contracts.Time

Instants, durations and civil days. An aware datetime is kept as its UTC instant in microseconds
since the epoch; every stored datetime of the source is normalised to UTC, so two datetimes are
equal exactly when their instants are. A `date` is the number of days since the epoch.

`datetime` and `date` have a bounded range (years 1 to 9999); arithmetic that leaves it raises
`OverflowError`, which is not a `ValueError` (`PyError`).
-/

namespace EnergyPlatform

abbrev Instant := Int

abbrev Duration := Int

abbrev Day := Int

def second : Duration := 1000000

def minute : Duration := 60 * second

def hour : Duration := 60 * minute

def day : Duration := 24 * hour

/-- The built-in exceptions the modelled code can raise and, in places, catches by class. -/
inductive PyError where
  | valueError (msg : String)
  | overflowError (msg : String)
  | indexError (msg : String)
  | keyError (msg : String)
  | invalidOperation (msg : String)
  | other (msg : String)
deriving DecidableEq, Repr

def PyError.msg : PyError → String
  | valueError m | overflowError m | indexError m | keyError m | invalidOperation m | other m => m

/-- What a result of a sequence of fallible steps says about each of them. -/
theorem bind_eq_ok {ε α β : Type} {x : Except ε α} {f : α → Except ε β} {b : β} :
    (x >>= f) = .ok b ↔ ∃ a, x = .ok a ∧ f a = .ok b := by
  cases x with
  | error e => exact ⟨nofun, fun ⟨_, h, _⟩ => nomatch h⟩
  | ok a => exact ⟨fun h => ⟨a, rfl, h⟩, fun ⟨_, ha, h⟩ => Except.ok.inj ha ▸ h⟩

theorem eq_ok_of_toOption {ε α : Type} {x : Except ε α} {a : α} (h : x.toOption = some a) :
    x = .ok a := by
  cases x with
  | error e => cases h
  | ok b =>
    obtain rfl := Option.some.inj h
    rfl

/-- `datetime.min`: 0001-01-01T00:00:00. -/
def datetimeMin : Instant := -62135596800 * second

/-- `datetime.max`: 9999-12-31T23:59:59.999999. -/
def datetimeMax : Instant := 253402300800 * second - 1

def dateMin : Day := -719162

def dateMax : Day := 2932896

/-- A datetime result, or `OverflowError` outside the supported years. -/
def checkedInstant (t : Instant) : Except PyError Instant :=
  if datetimeMin ≤ t ∧ t ≤ datetimeMax then .ok t
  else .error (.overflowError "date value out of range")

def checkedDay (d : Day) : Except PyError Day :=
  if dateMin ≤ d ∧ d ≤ dateMax then .ok d else .error (.overflowError "date value out of range")

/-! ## Civil fields, for the texts of stamps and messages -/

structure Civil where
  year : Int
  month : Nat
  day : Nat
deriving DecidableEq, Repr

/-- The proleptic Gregorian date of a day number. -/
def civilOfDay (d : Day) : Civil :=
  let z := d + 719468
  let era := z / 146097
  let doe := (z % 146097).toNat
  let yoe := (doe - doe / 1460 + doe / 36524 - doe / 146096) / 365
  let doy := doe - (365 * yoe + yoe / 4 - yoe / 100)
  let mp := (5 * doy + 2) / 153
  let dayOfMonth := doy - (153 * mp + 2) / 5 + 1
  let month := if mp < 10 then mp + 3 else mp - 9
  ⟨(yoe : Int) + era * 400 + (if month ≤ 2 then 1 else 0), month, dayOfMonth⟩

/-- The civil day of a wall-clock reading in microseconds since 1970-01-01T00:00. -/
def dayOf (wall : Int) : Day := wall / day

def pad (width : Nat) (n : Nat) : String :=
  let digits := toString n
  String.ofList (List.replicate (width - digits.length) '0') ++ digits

def isoDate (d : Day) : String :=
  let c := civilOfDay d
  pad 4 c.year.toNat ++ "-" ++ pad 2 c.month ++ "-" ++ pad 2 c.day

/-- `%Y-%m-%dT%H%M%SZ` of a number of seconds since the epoch. -/
def stampText (seconds : Int) : String :=
  let s := (seconds % 86400).toNat
  isoDate (seconds / 86400) ++ "T" ++ pad 2 (s / 3600) ++ pad 2 (s / 60 % 60) ++ pad 2 (s % 60)
    ++ "Z"

/-- `%Y-%m-%dT%H:%MZ`, the form used in messages. -/
def minuteText (t : Instant) : String :=
  let m := (t / minute % 1440).toNat
  isoDate (t / day) ++ "T" ++ pad 2 (m / 60) ++ ":" ++ pad 2 (m % 60) ++ "Z"

example : stampText 1789679730 = "2026-09-17T211530Z" := by decide

/-! ## Time zones -/

/-- A zone of the tz database: UTC instant to wall clock, and back (`fold = 0`), both in
microseconds. -/
structure Zone where
  toLocal : Instant → Int
  ofLocal : Int → Instant

def Zone.utc : Zone := ⟨id, id⟩

/-- `datetime.combine(day, time(), tzinfo=zone).astimezone(UTC)`, before any range check. -/
def Zone.midnight (z : Zone) (d : Day) : Instant := z.ofLocal (d * EnergyPlatform.day)

end EnergyPlatform
