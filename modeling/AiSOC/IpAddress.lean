import Mathlib.Algebra.Group.Nat.Defs
import AiSOC.CodeText

/-! # IP addresses and networks as texts

What the standard library accepts: four decimal octets without leading zeros, or groups of
hexadecimal digits with at most one gap, the last two of which may be written as four octets. An
address of version 6 may name a scope. A network has a prefix length, or a mask in version 4. -/
namespace IpAddress

open CodeText

inductive Version where
  | v4
  | v6
  deriving DecidableEq, Repr

def Version.bits : Version → ℕ
  | .v4 => 32
  | .v6 => 128

structure Address where
  version : Version
  value : ℕ
  deriving DecidableEq, Repr

/-- The network address is masked already. -/
structure Network where
  version : Version
  networkAddress : ℕ
  prefixLength : ℕ
  deriving DecidableEq, Repr

/-- The mask of a prefix length. -/
def netmask (bits length : ℕ) : ℕ := 2 ^ bits - 2 ^ (bits - length)

def Network.contains (net : Network) (ip : Address) : Bool :=
  net.version = ip.version ∧
    ip.value &&& netmask net.version.bits net.prefixLength = net.networkAddress

def digitValue (c : CodePoint) : Option ℕ :=
  if between '0' '9' c then some (c.val - '0'.toNat) else none

def hexValue (c : CodePoint) : Option ℕ :=
  if between '0' '9' c then some (c.val - '0'.toNat)
  else if between 'a' 'f' c then some (c.val - 'a'.toNat + 10)
  else if between 'A' 'F' c then some (c.val - 'A'.toNat + 10)
  else none

/-- The number that the digits write; there is at least one. -/
def numeral (base : ℕ) (value : CodePoint → Option ℕ) (t : Text) : Option ℕ :=
  if t = [] then none else t.foldlM (fun n c => (value c).map fun d => base * n + d) 0

def joinParts (base : ℕ) (parts : List ℕ) : ℕ := parts.foldl (fun n d => base * n + d) 0

def parseOctet (t : Text) : Option ℕ :=
  if 3 < t.length ∨ (t ≠ [cp '0'] ∧ t.head? = some (cp '0')) then none
  else (numeral 10 digitValue t).filter (· ≤ 255)

def parseV4 (t : Text) : Option ℕ :=
  let octets := t.splitOn (cp '.')
  if octets.length = 4 then (octets.mapM parseOctet).map (joinParts 256) else none

def parseHextet (t : Text) : Option ℕ := if 4 < t.length then none else numeral 16 hexValue t

def hexText (n : ℕ) : Text := (Nat.toDigits 16 n).map cp

/-- The parts between the colons, with octets at the end turned into two groups. -/
def groups (t : Text) : Option (List Text) :=
  let parts := t.splitOn (cp ':')
  if parts.length < 3 then none
  else
    let last := parts.getLastD []
    if cp '.' ∈ last then
      (parseV4 last).map fun v => parts.dropLast ++ [hexText (v / 65536), hexText (v % 65536)]
    else some parts

/-- The groups on one side of the gap. An empty one stands at an end only, next to the gap. -/
def beside (parts : List Text) (outermost : Option Text) : Option (List Text) :=
  if outermost = some [] then (if parts.length = 1 then some [] else none) else some parts

/-- The places of the empty parts that are not at an end. -/
def gaps (parts : List Text) : List ℕ :=
  (List.range parts.length).filter fun i =>
    1 ≤ i ∧ i + 1 < parts.length ∧ parts[i]? = some []

def parseGroups (parts : List Text) : Option ℕ :=
  if 9 < parts.length then none
  else match gaps parts with
    | [] => if parts.length = 8 then (parts.mapM parseHextet).map (joinParts 65536) else none
    | [k] => do
      let high ← beside (parts.take k) parts.head?
      let low ← beside (parts.drop (k + 1)) parts.getLast?
      if 7 < high.length + low.length then none
      let high' ← high.mapM parseHextet
      let low' ← low.mapM parseHextet
      return joinParts 65536 high' * 65536 ^ (8 - high.length) + joinParts 65536 low'
    | _ => none

/-- The address before the scope, which is not empty if there is one. -/
def withoutScope (t : Text) : Option Text :=
  match t.splitOn (cp '%') with
  | [address] => some address
  | [address, scope] => if scope = [] then none else some address
  | _ => none

def parseV6 (t : Text) : Option ℕ := do parseGroups (← groups (← withoutScope t))

/-- `ip_address` -/
def parseAddress (t : Text) : Option Address :=
  if cp '/' ∈ t then none
  else ((parseV4 t).map (Address.mk .v4)).or ((parseV6 t).map (Address.mk .v6))

def parsePrefixLength (bits : ℕ) (t : Text) : Option ℕ :=
  if 4300 < t.length then none else (numeral 10 digitValue t).filter (· ≤ bits)

/-- The prefix length that a mask of version 4 or its complement stands for. -/
def prefixOfMask (t : Text) : Option ℕ := do
  let mask ← parseV4 t
  let lengths := List.range 33
  (lengths.find? fun n => netmask 32 n = mask).or
    (lengths.find? fun n => netmask 32 n = 2 ^ 32 - 1 - mask)

/-- A network of one version; bits after the prefix are dropped. -/
def parseNetworkOf (version : Version) (parseIp : Text → Option ℕ)
    (parsePrefix : Text → Option ℕ) (t : Text) : Option Network := do
  let (address, length) ← match t.splitOn (cp '/') with
    | [address] => some (address, some version.bits)
    | [address, mask] => some (address, parsePrefix mask)
    | _ => none
  let value ← parseIp address
  let length ← length
  return ⟨version, value &&& netmask version.bits length, length⟩

/-- `ip_network`, not strict -/
def parseNetwork (t : Text) : Option Network :=
  (parseNetworkOf .v4 parseV4 (fun m => (parsePrefixLength 32 m).or (prefixOfMask m)) t).or
    (parseNetworkOf .v6 parseV6 (parsePrefixLength 128) t)

end IpAddress
