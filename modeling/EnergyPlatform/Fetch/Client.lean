import EnergyPlatform.Contracts.Parser
import EnergyPlatform.Contracts.Time

/-!
# Fetch.Client

What a fetch is asked with and what it answers. The fetch itself, from the rendered request to the
last redirect, is one call on the outside world.
-/

namespace EnergyPlatform

structure FetchContext where
  scheduledFor : Instant
  deliveryDay : Day
deriving DecidableEq

/-- Validators from the previous capture. -/
structure Conditional where
  etag : Option String
  lastModified : Option String
deriving DecidableEq

structure FetchResult where
  url : String
  status : Nat
  body : Bytes
  contentType : Option String
  fetchedAt : Instant
  etag : Option String
  lastModified : Option String
  notModified : Bool
  hops : List String
deriving DecidableEq

/-- The exceptions a fetch raises, by the class the capture path catches them as. -/
inductive FetchError where
  /-- `FetchFailed`, `EgressError`. -/
  | unavailable (msg : String)
  /-- `RenderError`, `SecretMissing`, `LookupError`. -/
  | unbuildable (msg : String)
  | other (msg : String)
deriving DecidableEq, Repr

end EnergyPlatform
