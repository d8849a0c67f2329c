import Mathlib.Data.Nat.Bitwise
import AiSOC.IpAddress

/-! # Ranges of IP addresses

The special ranges as the standard library lists them for Python 3.11, and the addresses of version
4 that stand in an address of version 6. -/
namespace AddressRanges

open IpAddress

/-! ## The ranges -/

/-- A network by the numbers its address begins with. -/
def v4Network (octets : List ℕ) (length : ℕ) : Network :=
  ⟨.v4, joinParts 256 octets * 256 ^ (4 - octets.length), length⟩

def v6Network (groups : List ℕ) (length : ℕ) : Network :=
  ⟨.v6, joinParts 65536 groups * 65536 ^ (8 - groups.length), length⟩

def loopbackNetwork : Network := v4Network [127] 8

def linkLocalNetwork : Version → Network
  | .v4 => v4Network [169, 254] 16
  | .v6 => v6Network [0xfe80] 10

def multicastNetwork : Version → Network
  | .v4 => v4Network [224] 4
  | .v6 => v6Network [0xff00] 8

def reservedNetworks : Version → List Network
  | .v4 => [v4Network [240] 4]
  | .v6 =>
    [v6Network [] 8, v6Network [0x100] 8, v6Network [0x200] 7, v6Network [0x400] 6,
      v6Network [0x800] 5, v6Network [0x1000] 4, v6Network [0x4000] 3, v6Network [0x6000] 3,
      v6Network [0x8000] 3, v6Network [0xa000] 3, v6Network [0xc000] 3, v6Network [0xe000] 4,
      v6Network [0xf000] 5, v6Network [0xf800] 6, v6Network [0xfe00] 9]

def privateNetworks : Version → List Network
  | .v4 =>
    [v4Network [0] 8, v4Network [10] 8, v4Network [127] 8, v4Network [169, 254] 16,
      v4Network [172, 16] 12, v4Network [192, 0, 0] 24, v4Network [192, 0, 0, 170] 31,
      v4Network [192, 0, 2] 24, v4Network [192, 168] 16, v4Network [198, 18] 15,
      v4Network [198, 51, 100] 24, v4Network [203, 0, 113] 24, v4Network [240] 4,
      v4Network [255, 255, 255, 255] 32]
  | .v6 =>
    [v6Network [0, 0, 0, 0, 0, 0, 0, 1] 128, v6Network [] 128,
      v6Network [0, 0, 0, 0, 0, 0xffff] 96, v6Network [0x64, 0xff9b, 1] 48,
      v6Network [0x100] 64, v6Network [0x2001] 23, v6Network [0x2001, 0xdb8] 32,
      v6Network [0x2002] 16, v6Network [0xfc00] 7, v6Network [0xfe80] 10]

def privateExceptions : Version → List Network
  | .v4 => [v4Network [192, 0, 0, 9] 32, v4Network [192, 0, 0, 10] 32]
  | .v6 =>
    [v6Network [0x2001, 1, 0, 0, 0, 0, 0, 1] 128, v6Network [0x2001, 1, 0, 0, 0, 0, 0, 2] 128,
      v6Network [0x2001, 3] 32, v6Network [0x2001, 4, 0x112] 48, v6Network [0x2001, 0x20] 28,
      v6Network [0x2001, 0x30] 28]

variable (ip : Address)

def ipv4Mapped : Option Address :=
  if ip.version = .v6 ∧ ip.value >>> 32 = 0xffff then some ⟨.v4, ip.value &&& 0xffffffff⟩ else none

def isLoopback : Bool :=
  match ip.version with
  | .v4 => loopbackNetwork.contains ip
  | .v6 => ip.value = 1

def isLinkLocal : Bool := (linkLocalNetwork ip.version).contains ip

def isUnspecified : Bool := ip.value = 0

def isMulticast : Bool := (multicastNetwork ip.version).contains ip

def isReserved : Bool := (reservedNetworks ip.version).any (·.contains ip)

def isListedPrivate : Bool :=
  (privateNetworks ip.version).any (·.contains ip) &&
    (privateExceptions ip.version).all (!·.contains ip)

/-- A mapped address is what it stands for. -/
def isPrivate : Bool := isListedPrivate ((ipv4Mapped ip).getD ip)

example : isPrivate ⟨.v4, 0x0a000001⟩ = true ∧ isPrivate ⟨.v4, 0x08080808⟩ = false ∧
    isReserved ⟨.v6, 0x2001 * 2 ^ 112⟩ = false ∧ isReserved ⟨.v6, 0xffff7f000001⟩ = true := by
  decide

/-! ## Addresses of version 4 in addresses of version 6 -/

/-- The address behind a prefix of 96 bits. -/
def behindPrefix (high : ℕ) : Option Address :=
  if ip.version = .v6 ∧ ip.value / 2 ^ 32 = high then some ⟨.v4, ip.value % 2 ^ 32⟩ else none

def ipv4Compatible : Option Address := behindPrefix ip 0

def mapped : Option Address := behindPrefix ip 0xffff

/-- NAT64, the well-known prefix. -/
def nat64 : Option Address := behindPrefix ip (0x64ff9b * 2 ^ 64)

/-- 6to4: the address stands behind the first 16 bits. -/
def sixToFour : Option Address :=
  if ip.version = .v6 ∧ ip.value / 2 ^ 112 = 0x2002 then some ⟨.v4, ip.value / 2 ^ 80 % 2 ^ 32⟩
  else none

def embedded : List Address := [mapped ip, ipv4Compatible ip, sixToFour ip, nat64 ip].reduceOption

/-! ## Membership as division -/

variable {ip}

/-- Masking keeps the high bits. -/
theorem and_netmask {bits length : ℕ} (h : length ≤ bits) (v : ℕ) :
    v &&& netmask bits length = 2 ^ (bits - length) * (v / 2 ^ (bits - length) % 2 ^ length) := by
  have hmask : netmask bits length = 2 ^ (bits - length) * (2 ^ length - 1) := by
    rw [netmask, Nat.mul_sub, ← pow_add, Nat.sub_add_cancel h, mul_one]
  rw [← Nat.and_two_pow_sub_one_eq_mod, hmask]
  apply Nat.eq_of_testBit_eq
  intro i
  rw [Nat.testBit_and, Nat.testBit_two_pow_mul, Nat.testBit_two_pow_mul, Nat.testBit_and,
    Nat.testBit_div_two_pow]
  by_cases hi : bits - length ≤ i
  · rw [Nat.sub_add_cancel hi, decide_eq_true hi, Bool.true_and, Bool.true_and]
  · rw [decide_eq_false hi, Bool.false_and, Bool.false_and, Bool.and_false]

theorem contains_v6 {net : Network} {v : ℕ} (hnet : net.version = .v6)
    (hlength : net.prefixLength ≤ 128) : net.contains ⟨.v6, v⟩ = true ↔
      2 ^ (128 - net.prefixLength) * (v / 2 ^ (128 - net.prefixLength) % 2 ^ net.prefixLength) =
        net.networkAddress := by
  rw [Network.contains, decide_eq_true_iff, hnet]
  change _ ∧ v &&& netmask 128 net.prefixLength = _ ↔ _
  rw [and_netmask hlength]
  exact and_iff_right rfl

/-- The whole range of addresses that begin with eight zero bits is reserved. -/
theorem isReserved_of_lt {v : ℕ} (h : v < 2 ^ 120) : isReserved ⟨.v6, v⟩ = true := by
  apply List.any_eq_true.mpr
  refine ⟨v6Network [] 8, List.mem_cons_self, (contains_v6 rfl (by decide)).mpr ?_⟩
  change 2 ^ 120 * (v / 2 ^ 120 % 2 ^ 8) = 0
  rw [Nat.div_eq_of_lt h, Nat.zero_mod, mul_zero]

theorem behindPrefix_reserved {high : ℕ} {e : Address} (hhigh : high < 2 ^ 88)
    (h : behindPrefix ip high = some e) : isReserved ip = true := by
  obtain ⟨version, v⟩ := ip
  unfold behindPrefix at h
  split_ifs at h with hc
  obtain ⟨hversion, hdiv⟩ := hc
  dsimp only at hversion hdiv
  subst hversion
  apply isReserved_of_lt
  omega

/-- Every range of 6to4 addresses is listed as private, and none as an exception. -/
theorem sixToFour_private {e : Address} (h : sixToFour ip = some e) : isPrivate ip = true := by
  obtain ⟨version, v⟩ := ip
  unfold sixToFour at h
  split_ifs at h with hc
  obtain ⟨hversion, hdiv⟩ := hc
  dsimp only at hversion hdiv
  subst hversion
  have hmapped : ipv4Mapped ⟨.v6, v⟩ = none := by
    rw [ipv4Mapped, if_neg]
    rintro ⟨-, hshift⟩
    rw [Nat.shiftRight_eq_div_pow] at hshift
    dsimp only at hshift
    omega
  rw [isPrivate, hmapped]
  change isListedPrivate ⟨.v6, v⟩ = true
  rw [isListedPrivate, Bool.and_eq_true, List.any_eq_true, List.all_eq_true]
  constructor
  · have hmem : v6Network [0x2002] 16 ∈ privateNetworks .v6 := by decide
    refine ⟨v6Network [0x2002] 16, hmem, (contains_v6 rfl (by decide)).mpr ?_⟩
    change 2 ^ 112 * (v / 2 ^ 112 % 2 ^ 16) = 0x2002 * 65536 ^ 7
    rw [hdiv]
    rfl
  · intro net hnet
    rw [Bool.not_eq_true', ← Bool.not_eq_true]
    intro hcontains
    simp only [privateExceptions, List.mem_cons, List.not_mem_nil, or_false] at hnet
    rcases hnet with rfl | rfl | rfl | rfl | rfl | rfl
    all_goals
      have haddress := (contains_v6 rfl (by decide)).mp hcontains
      simp only [v6Network, joinParts, List.foldl_cons, List.foldl_nil, List.length_cons,
        List.length_nil] at haddress
      omega

end AddressRanges
