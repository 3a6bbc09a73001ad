import EnergyPlatform.Bronze.CaptureLog
import EnergyPlatform.Fetch.Client
import EnergyPlatform.Lib.Prog
import EnergyPlatform.Store.Calls

/-!
# Runtime.Calls

The calls a worker makes on the outside world: its clock, the source it fetches from, Bronze, and
the ledger. The ledger calls are a parameter: a worker over the in-memory store makes whole store
calls, one over PostgreSQL makes driver calls.
-/

namespace EnergyPlatform

open Lib (Prog)

/-- The exceptions a verb can raise or catch. -/
inductive Exn where
  | storeUnavailable (msg : String)
  /-- `psycopg.OperationalError`. -/
  | operationalError (msg : String)
  | keyError (msg : String)
  | bronzeError (msg : String)
  | fetch (e : FetchError)
  | py (e : PyError)
  /-- `typer.Exit`. -/
  | exit (code : Nat)
deriving DecidableEq

inductive Op (L : Type) where
  | clock
  | fetch (ctx : FetchContext) (previous : Option Conditional)
  | bronze (c : BronzeCall)
  | ledger (l : L)

def Op.Ret {L : Type} (LRet : L → Type) : Op L → Type
  | clock => Instant
  | fetch .. => FetchResult
  | bronze c => c.Ret
  | ledger l => LRet l

/-- A program of a worker. -/
abbrev Verb {L : Type} (LRet : L → Type) (α : Type) := Prog (Op.Ret LRet) Exn α

section Perform

variable {L : Type} {LRet : L → Type}

/-- One call; its exception is raised. -/
def performCall (o : Op L) : Verb LRet (o.Ret LRet) := Prog.perform o

def clock : Verb LRet Instant := performCall .clock

def fetchCall (ctx : FetchContext) (previous : Option Conditional) : Verb LRet FetchResult :=
  performCall (.fetch ctx previous)

def bronzeCall (c : BronzeCall) : Verb LRet c.Ret := performCall (.bronze c)

def ledgerCall (l : L) : Verb LRet (LRet l) := performCall (.ledger l)

/-! The calls on Bronze, one by one. -/

def putBlob (data : Bytes) : Verb LRet Sha256 := bronzeCall (.putBlob data)

def getHot (sha : Sha256) : Verb LRet (Option Bytes) := bronzeCall (.getHot sha)

def getCold (sha : Sha256) : Verb LRet (Option Bytes) := bronzeCall (.getCold sha)

def entriesFor (targetId : String) (scheduledFor : Instant) : Verb LRet (List CaptureEntry) :=
  bronzeCall (.entriesFor targetId scheduledFor)

def listEntries (targetId : String) (since until_ : Option Instant) :
    Verb LRet (List CaptureEntry) :=
  bronzeCall (.list targetId since until_)

def getEntry (c : CaptureId) : Verb LRet (Option CaptureEntry) := bronzeCall (.get c)

def putNew (e : CaptureEntry) : Verb LRet Bool := bronzeCall (.putNew e)

def putInvalidation (inv : Invalidation) : Verb LRet Bool := bronzeCall (.putInvalidation inv)

def bronzeInvalidations (targetId : String) : Verb LRet (List Invalidation) :=
  bronzeCall (.invalidations targetId)

/-- A computation of Python that makes no call. -/
def pyExcept {α : Type} : Except PyError α → Verb LRet α
  | .ok a => .ret a
  | .error e => .raise (.py e)

end Perform

/-- The store a worker is given: how it carries out each call of the protocol. -/
abbrev StoreImpl {L : Type} (LRet : L → Type) := (c : StoreCall) → Verb LRet c.Ret

/-- `MemoryStore`: every call is one step. -/
def memoryStore : StoreImpl StoreCall.Ret := ledgerCall

def unavailableStore {L : Type} {LRet : L → Type} : StoreImpl LRet := fun _ =>
  .raise (.storeUnavailable "no database configured (set ENERGY_PLATFORM_DSN or --dsn)")

end EnergyPlatform
