import EnergyPlatform.Runtime.Calls

/-!
# Store.Postgres

`PostgresStore` at the level of driver calls, for the ledger calls of the capture path: connect,
execute, commit, rollback. Any of them may raise `OperationalError`, before or after it took
effect.

A statement does to the tables what the in-memory store does to its own; a transaction works on a
copy until it commits. Of the other methods, those that only read end in a rollback and the rest
are given one statement and a commit: the capture path calls none of them.
-/

namespace EnergyPlatform

open Lib (Prog)

inductive DriverCall where
  | connect
  /-- `SELECT current_setting('server_version_num')`. -/
  | serverVersion
  | execute (c : StoreCall)
  | commit
  | rollback

/-- A statement answers with its row, if it has one. -/
def DriverCall.Ret : DriverCall → Type
  | connect => Unit
  | serverVersion => Nat
  | execute c => Option c.Ret
  | commit => Unit
  | rollback => Unit

namespace Postgres

abbrev Db := Verb DriverCall.Ret

def connect : Db Unit := ledgerCall (L := DriverCall) .connect

def serverVersion : Db Nat := ledgerCall (L := DriverCall) .serverVersion

def execute (c : StoreCall) : Db (Option c.Ret) := ledgerCall (L := DriverCall) (.execute c)

def commit : Db Unit := ledgerCall (L := DriverCall) .commit

def rollback : Db Unit := ledgerCall (L := DriverCall) .rollback

/-- One statement and its commit. -/
def transaction (c : StoreCall) : Db (Option c.Ret) := do
  let row ← execute c
  commit
  .ret row

/-- `if row is None: raise …`. -/
def rowOr {α : Type} (e : Exn) : Option α → Db α
  | some a => .ret a
  | none => .raise e

/-- `ensure_run`: an outage is rolled back and reported as `StoreUnavailable`. -/
def ensureRun (c : StoreCall) : Db c.Ret := do
  let row ← (transaction c).tryCatch fun
    | .operationalError msg => do
      rollback
      .raise (.storeUnavailable msg)
    | e => .raise e
  rowOr (.storeUnavailable "ensure_run returned no row") row

/-- `set_state`, `mark_recaptured`: no translation of driver errors. -/
def updateRun (c : StoreCall) : Db c.Ret := do
  let row ← transaction c
  rowOr (.keyError "run does not exist") row

def recordAttempt (c : StoreCall) : Db c.Ret := do
  let row ← transaction c
  rowOr (.storeUnavailable "record_attempt returned no row") row

/-- A method that only reads. -/
def query (c : StoreCall) : Db c.Ret := do
  let row ← execute c
  rollback
  rowOr (.keyError "no such row") row

def store : StoreImpl DriverCall.Ret
  | .ensureRun t a st o c n => ensureRun (.ensureRun t a st o c n)
  | .recordAttempt r k o c e n => recordAttempt (.recordAttempt r k o c e n)
  | .getRun t a => query (.getRun t a)
  | .runs t s u => query (.runs t s u)
  | .attempts r => query (.attempts r)
  | .pendingRuns t n => query (.pendingRuns t n)
  | .runsWithDerivation d => query (.runsWithDerivation d)
  | .invalidations t => query (.invalidations t)
  | .isInvalidated c d => query (.isInvalidated c d)
  | .attemptCaptures t => query (.attemptCaptures t)
  | .currentRows q => query (.currentRows q)
  | c => updateRun c

def minServerVersion : Nat := 160000

/-- `psycopg.connect`, whose failure alone is translated. -/
def connected : Db Unit :=
  connect.tryCatch fun
    | .operationalError msg => .raise (.storeUnavailable ("cannot connect: " ++ msg))
    | e => .raise e

/-- `PostgresStore.__init__`. -/
def open_ : Db (StoreImpl DriverCall.Ret) := do
  connected
  let version ← serverVersion
  rollback
  if version < minServerVersion then
    .raise (.storeUnavailable ("PostgreSQL server_version_num " ++ toString version ++ " < " ++
      toString minServerVersion ++ " (ADR-030)"))
  else .ret store

end Postgres

/-! ## A connection that may fail -/

/-- How a driver call fails: before or after it took effect. -/
inductive Fault where
  | lost
  | late
deriving DecidableEq, Repr

structure Connection where
  committed : MemoryStore
  /-- The tables as the open transaction sees them. -/
  working : Option MemoryStore
  /-- The driver calls made so far. -/
  calls : Nat

namespace Connection

def tables (c : Connection) : MemoryStore := c.working.getD c.committed

/-- What a driver call does when nothing fails. -/
def effect (version : Nat) (c : Connection) : (d : DriverCall) → d.Ret × Connection
  | .connect => ((), c)
  | .serverVersion => (version, c)
  | .execute call =>
    match c.tables.exec call with
    | some (out, s) => (some out, { c with working := some s })
    | none => (none, c)
  | .commit => ((), { c with committed := c.tables, working := none })
  | .rollback => ((), { c with working := none })

/-- The answer to a driver call under a pattern of outages. -/
def answer (faults : Nat → Option Fault) (version : Nat) (c : Connection) (d : DriverCall) :
    Except Exn d.Ret × Connection :=
  match faults c.calls with
  | none => (.ok (c.effect version d).1, { (c.effect version d).2 with calls := c.calls + 1 })
  | some .lost => (.error (.operationalError "server closed the connection"),
      { c with calls := c.calls + 1 })
  | some .late => (.error (.operationalError "server closed the connection"),
      { (c.effect version d).2 with calls := c.calls + 1 })

end Connection

end EnergyPlatform
