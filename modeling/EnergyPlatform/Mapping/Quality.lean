import EnergyPlatform.Contracts.Observation

/-!
# Mapping.Quality

Quality events, which are data, and the quarantine that refuses a whole document.
-/

namespace EnergyPlatform

inductive Severity where
  | info
  | warning
  | error
deriving DecidableEq, Repr

structure QualityEvent where
  kind : String
  severity : Severity
  message : String
  locator : String
  metric : Option String
deriving DecidableEq, Repr

/-- The whole document is refused with a reason. -/
structure Quarantined where
  reason : String
  locator : String
deriving DecidableEq, Repr

def Quarantined.text (q : Quarantined) : String :=
  if q.locator = "" then q.reason else q.reason ++ " at " ++ q.locator

def Quarantined.asEvent (q : Quarantined) : QualityEvent :=
  ⟨"quarantine", .error, q.reason, q.locator, none⟩

end EnergyPlatform
