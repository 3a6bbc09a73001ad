import EnergyPlatform.Runtime.Capture
import EnergyPlatform.Store.Postgres

/-!
# Runtime.Cli

The capture command, from the connection to the exit code.
-/

namespace EnergyPlatform

open Lib (Prog)

namespace Cli

/-- `_store`: no DSN, no database; a database that is not there ends the command. -/
def store (dsn required : Bool) : Verb DriverCall.Ret (StoreImpl DriverCall.Ret) :=
  if ! dsn then
    if required then .raise (.exit 1) else .ret unavailableStore
  else
    Postgres.open_.tryCatch fun
      | .storeUnavailable _ => .raise (.exit 1)
      | e => .raise e

def runtime (manifest : Manifest) (impl : Implementation) (store : StoreImpl DriverCall.Ret) :
    Runtime DriverCall.Ret where
  manifest := manifest
  impl := impl
  store := store
  owner := "worker"
  leaseTtl := 5 * minute
  reconcileWindow := 48 * hour

def exitCode (report : CaptureReport) : Nat :=
  if report.outcome = .ok ∨ report.outcome = .noop then 0 else 1

/-- `capture_cmd` for a manifest that loads and a Bronze that is configured: the report it echoes
and its exit code. -/
def captureCmd (manifest : Manifest) (impl : Implementation) (dsn : Bool) (when_ : Instant)
    (force : Bool) : Verb DriverCall.Ret (CaptureReport × Nat) := do
  let store ← store dsn false
  let report ← capture (runtime manifest impl store) ⟨when_, none, force, .capture⟩
  .ret (report, exitCode report)

end Cli

end EnergyPlatform
