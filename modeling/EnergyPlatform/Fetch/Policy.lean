import EnergyPlatform.Contracts.Parser
import EnergyPlatform.Fetch.Urls

/-!
# Fetch.Policy

The egress policy, as pure functions over a URL, the hosts it may name, the addresses a name
resolved to and the peer a connection ended up on.

`checkAddresses_ok`: no accepted address lies in a blocked network, nor does the IPv4 address that
it maps. `checkPeer_ok`: an accepted peer is one of the resolved addresses.
-/

namespace EnergyPlatform

/-- What leaves the fetch layer as an exception. -/
inductive FetchExc where
  /-- `EgressError`. -/
  | egress (code message : String)
  /-- `FetchFailed`: the source answered, but not with a payload. -/
  | failed (status : Nat) (url : List Char) (body : Bytes)
  /-- `httpx.TransportError`. -/
  | transport (message : String)
  /-- Whatever `httpx` raises when it builds a request. -/
  | unbuildable (message : String)
  | py (e : PyError)
deriving DecidableEq

def FetchExc.text : FetchExc → String
  | egress code message => code ++ ": " ++ message
  | failed status url _ => "HTTP " ++ toString status ++ " from " ++ String.ofList url
  | transport message | unbuildable message => message
  | py e => e.msg

/-! ## Hosts -/

structure HostEntry where
  host : String
  ports : List Nat
  allowInsecure : Bool
deriving DecidableEq

def hosts : List HostEntry := [⟨"www.ote-cr.cz", [443], false⟩, ⟨"www.ceps.cz", [443], false⟩]

/-- `repr` of a tuple of the given texts. -/
def tupleText : List String → String
  | [item] => "(" ++ item ++ ",)"
  | items => "(" ++ ", ".intercalate items ++ ")"

structure Destination where
  scheme : List Char
  host : List Char
  port : Nat
  entry : HostEntry
deriving DecidableEq

section Policy

variable (P : UrlPrims)

def registeredHost (name : List Char) : Option HostEntry :=
  let key := P.lower (P.txt.strip (String.ofList name)).toList
  hosts.find? fun e => e.host.toList = key

/-- `text.strip("[]")`. -/
def stripBrackets (l : List Char) : List Char :=
  let bracket := fun c : Char => decide (c = '[' ∨ c = ']')
  ((l.dropWhile bracket).reverse.dropWhile bracket).reverse

def isIpLiteral (host : List Char) : Bool := (IpAddress.ofText (stripBrackets host)).isSome

def quoted (text : List Char) : String := P.txt.repr (String.ofList text)

def egress {α : Type} (code message : String) : Except FetchExc α := .error (.egress code message)

/-- The part of `check_url` that knows the entry of the host. -/
def checkEntry (allowInsecure : Bool) (url hostname : List Char) (parts : Urls.Split)
    (entry : HostEntry) : Except FetchExc Destination :=
  if parts.scheme = "http".toList ∧ ¬ allowInsecure then
    egress "insecure_scheme" (quoted P url ++ ": http needs allow_insecure on the manifest")
  else if parts.scheme = "http".toList ∧ ¬ entry.allowInsecure then
    egress "insecure_host_not_registered"
      (quoted P hostname ++ ": the host registry does not allow http (ADR-026 §2)")
  else do
    let given ← (parts.port P).mapError .py
    let port := given.getD (if parts.scheme = "https".toList then 443 else 80)
    if port ∉ entry.ports then
      egress "port_not_allowed" (quoted P hostname ++ ": port " ++ toString port ++
        " is not in the registry " ++ tupleText (entry.ports.map toString))
    else .ok ⟨parts.scheme, hostname, port, entry⟩

/-- The part of `check_url` that has the URL split. -/
def checkParts (allowedHosts : List String) (allowInsecure : Bool) (url : List Char)
    (parts : Urls.Split) : Except FetchExc Destination :=
  let hostname := parts.hostname P
  if hostname = [] then egress "host_not_allowed" (quoted P url ++ " has no host")
  else if isIpLiteral hostname then
    egress "ip_literal" (quoted P url ++ ": IP literals are never a destination")
  else if parts.scheme ≠ "https".toList ∧ parts.scheme ≠ "http".toList then
    egress "insecure_scheme" (quoted P url ++ ": scheme must be https")
  else if String.ofList hostname ∉ allowedHosts then
    egress "host_not_allowed" (quoted P hostname ++ " is not in the manifest allowed_hosts " ++
      tupleText (allowedHosts.map P.txt.repr))
  else
    match registeredHost P hostname with
    | none => egress "host_not_registered"
        (quoted P hostname ++ " is not in the platform host registry (ADR-022 Route B)")
    | some entry => checkEntry P allowInsecure url hostname parts entry

def checkUrl (allowedHosts : List String) (allowInsecure : Bool) (url : List Char) :
    Except FetchExc Destination := do
  let parts ← (Urls.urlsplit P [] url).mapError .py
  checkParts P allowedHosts allowInsecure url parts

/-! ## Addresses and peers -/

def checkAddress (host : List Char) (text : String) : Except FetchExc Unit :=
  match IpAddress.ofText text.toList with
  | none => egress "unresolvable" (quoted P host ++ " resolved to " ++ P.txt.repr text)
  | some address =>
    if address.blocked ∨ address.ipv4Mapped.any IpAddress.blocked then
      egress "private_address"
        (quoted P host ++ " resolved to " ++ text ++ ", a non-public address")
    else .ok ()

def checkAddresses (host : List Char) (addresses : List String) :
    Except FetchExc (List String) := do
  if addresses = [] then egress "unresolvable" (quoted P host ++ " did not resolve")
  else do
    addresses.forM (checkAddress P host)
    .ok addresses

/-- The comparison of a peer with the resolved addresses, in order. -/
def amongResolved (peer : IpAddress) : List String → Except FetchExc Bool
  | [] => .ok false
  | text :: rest =>
    match IpAddress.ofText text.toList with
    | none => .error (.py (.valueError
        (P.txt.repr text ++ " does not appear to be an IPv4 or IPv6 address")))
    | some address => if address = peer then .ok true else amongResolved peer rest

def checkPeer (host : List Char) (peer : Option String) (resolved : List String) :
    Except FetchExc Unit :=
  match peer with
  | none => egress "peer_unknown" (quoted P host ++ ": the transport reported no peer address")
  | some peer =>
    match IpAddress.ofText peer.toList with
    | none => egress "peer_mismatch" (quoted P host ++ ": unparseable peer " ++ P.txt.repr peer)
    | some address => do
      let found ← amongResolved P address resolved
      if found then .ok ()
      else egress "peer_mismatch" (quoted P host ++ ": connected to " ++ peer ++ ", resolved " ++
        tupleText (resolved.map P.txt.repr))

/-! ## What an accepted address and an accepted peer are -/

variable {P} {host : List Char} {addresses : List String}

/-- A text that is an address outside every blocked network, as is the IPv4 address it maps. -/
structure PublicAddress (text : String) (a : IpAddress) : Prop where
  parsed : IpAddress.ofText text.toList = some a
  open_ : a.blocked = false
  mapped : ∀ m, a.ipv4Mapped = some m → m.blocked = false

theorem checkAddress_ok {text : String} (h : checkAddress P host text = .ok ()) :
    ∃ a, PublicAddress text a := by
  unfold checkAddress at h
  cases ha : IpAddress.ofText text.toList with
  | none =>
    rw [ha] at h
    cases h
  | some a =>
    rw [ha] at h
    simp only at h
    split at h
    · cases h
    · rename_i hopen
      simp only [not_or, Bool.not_eq_true, Option.any_eq_false] at hopen
      exact ⟨a, ha, hopen.1, hopen.2⟩

theorem forM_ok {α ε : Type} {f : α → Except ε Unit} {l : List α} (h : l.forM f = .ok ()) :
    ∀ x ∈ l, f x = .ok () := by
  induction l with
  | nil => exact fun _ hx => absurd hx List.not_mem_nil
  | cons a l ih =>
    obtain ⟨_, ha, hl⟩ := bind_eq_ok.mp (show (f a >>= fun _ => l.forM f) = .ok () from h)
    intro x hx
    rcases List.mem_cons.mp hx with rfl | hx
    · exact ha
    · exact ih hl x hx

theorem checkAddresses_ok {accepted : List String}
    (h : checkAddresses P host addresses = .ok accepted) :
    accepted = addresses ∧ addresses ≠ [] ∧ ∀ text ∈ addresses, ∃ a, PublicAddress text a := by
  unfold checkAddresses at h
  split at h
  · cases h
  · rename_i hne
    obtain ⟨_, hall, hout⟩ := bind_eq_ok.mp h
    exact ⟨(Except.ok.inj hout).symm, hne, fun text ht => checkAddress_ok (forM_ok hall text ht)⟩

theorem amongResolved_true {a : IpAddress} (h : amongResolved P a addresses = .ok true) :
    ∃ text ∈ addresses, IpAddress.ofText text.toList = some a := by
  induction addresses with
  | nil => cases h
  | cons text rest ih =>
    unfold amongResolved at h
    cases ht : IpAddress.ofText text.toList with
    | none =>
      rw [ht] at h
      cases h
    | some b =>
      rw [ht] at h
      simp only at h
      split at h
      · rename_i hb
        exact ⟨text, List.mem_cons_self, hb ▸ ht⟩
      · obtain ⟨x, hx, hxa⟩ := ih h
        exact ⟨x, List.mem_cons_of_mem _ hx, hxa⟩

theorem checkPeer_ok {peer : Option String} (h : checkPeer P host peer addresses = .ok ()) :
    ∃ p a, peer = some p ∧ IpAddress.ofText p.toList = some a ∧
      ∃ text ∈ addresses, IpAddress.ofText text.toList = some a := by
  unfold checkPeer at h
  cases peer with
  | none => cases h
  | some p =>
    cases ha : IpAddress.ofText p.toList with
    | none =>
      simp only [ha] at h
      cases h
    | some a =>
      simp only [ha] at h
      obtain ⟨found, hfound, hout⟩ := bind_eq_ok.mp h
      cases found with
      | false => cases hout
      | true => exact ⟨p, a, rfl, ha, amongResolved_true hfound⟩

end Policy

end EnergyPlatform
