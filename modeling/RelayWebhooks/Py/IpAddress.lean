import Mathlib.Data.List.Basic

/-! IP addresses and the properties of the `ipaddress` module. An IPv4-mapped IPv6 address has the
properties of the address embedded in it. -/
namespace RelayWebhooks

structure IpNetwork (w : ℕ) where
  bits : BitVec w
  prefixLen : ℕ

def IpNetwork.contains {w : ℕ} (n : IpNetwork w) (a : BitVec w) : Bool :=
  a >>> (w - n.prefixLen) = n.bits >>> (w - n.prefixLen)

/-- The network of a dotted quad. -/
def ipv4Network (a b c d prefixLen : ℕ) : IpNetwork 32 :=
  ⟨.ofNat 32 (((a * 256 + b) * 256 + c) * 256 + d), prefixLen⟩

/-- The network whose first four groups are given and whose last four are zero. -/
def ipv6Network (a b c d prefixLen : ℕ) : IpNetwork 128 :=
  ⟨.ofNat 128 ((((a * 65536 + b) * 65536 + c) * 65536 + d) <<< 64), prefixLen⟩

inductive IpAddress where
  | v4 (bits : BitVec 32)
  | v6 (bits : BitVec 128)
  deriving DecidableEq

namespace Ipv4

def privateNetworks : List (IpNetwork 32) :=
  [ipv4Network 0 0 0 0 8, ipv4Network 10 0 0 0 8, ipv4Network 127 0 0 0 8,
    ipv4Network 169 254 0 0 16, ipv4Network 172 16 0 0 12, ipv4Network 192 0 0 0 24,
    ipv4Network 192 0 0 170 31, ipv4Network 192 0 2 0 24, ipv4Network 192 168 0 0 16,
    ipv4Network 198 18 0 0 15, ipv4Network 198 51 100 0 24, ipv4Network 203 0 113 0 24,
    ipv4Network 240 0 0 0 4, ipv4Network 255 255 255 255 32]

def privateNetworksExceptions : List (IpNetwork 32) :=
  [ipv4Network 192 0 0 9 32, ipv4Network 192 0 0 10 32]

def isLoopback (a : BitVec 32) : Bool := (ipv4Network 127 0 0 0 8).contains a
def isLinkLocal (a : BitVec 32) : Bool := (ipv4Network 169 254 0 0 16).contains a
def isReserved (a : BitVec 32) : Bool := (ipv4Network 240 0 0 0 4).contains a
def isMulticast (a : BitVec 32) : Bool := (ipv4Network 224 0 0 0 4).contains a
def isUnspecified (a : BitVec 32) : Bool := a = 0

def isPrivate (a : BitVec 32) : Bool :=
  privateNetworks.any (·.contains a) && privateNetworksExceptions.all (!·.contains a)

end Ipv4

namespace Ipv6

def privateNetworks : List (IpNetwork 128) :=
  [⟨1, 128⟩, ⟨0, 128⟩, ⟨0xffff00000000, 96⟩, ipv6Network 0x64 0xff9b 1 0 48,
    ipv6Network 0x100 0 0 0 64, ipv6Network 0x2001 0 0 0 23, ipv6Network 0x2001 0xdb8 0 0 32,
    ipv6Network 0x2002 0 0 0 16, ipv6Network 0xfc00 0 0 0 7, ipv6Network 0xfe80 0 0 0 10]

def privateNetworksExceptions : List (IpNetwork 128) :=
  [⟨(ipv6Network 0x2001 1 0 0 128).bits + 1, 128⟩,
    ⟨(ipv6Network 0x2001 1 0 0 128).bits + 2, 128⟩, ipv6Network 0x2001 3 0 0 32,
    ipv6Network 0x2001 4 0x112 0 48, ipv6Network 0x2001 0x20 0 0 28,
    ipv6Network 0x2001 0x30 0 0 28]

def reservedNetworks : List (IpNetwork 128) :=
  [ipv6Network 0 0 0 0 8, ipv6Network 0x100 0 0 0 8, ipv6Network 0x200 0 0 0 7,
    ipv6Network 0x400 0 0 0 6, ipv6Network 0x800 0 0 0 5, ipv6Network 0x1000 0 0 0 4,
    ipv6Network 0x4000 0 0 0 3, ipv6Network 0x6000 0 0 0 3, ipv6Network 0x8000 0 0 0 3,
    ipv6Network 0xa000 0 0 0 3, ipv6Network 0xc000 0 0 0 3, ipv6Network 0xe000 0 0 0 4,
    ipv6Network 0xf000 0 0 0 5, ipv6Network 0xf800 0 0 0 6, ipv6Network 0xfe00 0 0 0 9]

def isLoopback (a : BitVec 128) : Bool := a = 1
def isLinkLocal (a : BitVec 128) : Bool := (ipv6Network 0xfe80 0 0 0 10).contains a
def isReserved (a : BitVec 128) : Bool := reservedNetworks.any (·.contains a)
def isMulticast (a : BitVec 128) : Bool := (ipv6Network 0xff00 0 0 0 8).contains a
def isUnspecified (a : BitVec 128) : Bool := a = 0

def isPrivate (a : BitVec 128) : Bool :=
  privateNetworks.any (·.contains a) && privateNetworksExceptions.all (!·.contains a)

/-- The address embedded in `::ffff:a.b.c.d`. -/
def ipv4Mapped (a : BitVec 128) : Option (BitVec 32) :=
  if a >>> 32 = 0xffff then some (a.truncate 32) else none

end Ipv6

namespace IpAddress

/-- A property of both kinds of addresses. -/
def test (p4 : BitVec 32 → Bool) (p6 : BitVec 128 → Bool) : IpAddress → Bool
  | v4 a => p4 a
  | v6 a =>
    match Ipv6.ipv4Mapped a with
    | some m => p4 m
    | none => p6 a

def isLoopback : IpAddress → Bool := test Ipv4.isLoopback Ipv6.isLoopback
def isLinkLocal : IpAddress → Bool := test Ipv4.isLinkLocal Ipv6.isLinkLocal
def isPrivate : IpAddress → Bool := test Ipv4.isPrivate Ipv6.isPrivate
def isReserved : IpAddress → Bool := test Ipv4.isReserved Ipv6.isReserved
def isMulticast : IpAddress → Bool := test Ipv4.isMulticast Ipv6.isMulticast
def isUnspecified : IpAddress → Bool := test Ipv4.isUnspecified Ipv6.isUnspecified

end IpAddress

end RelayWebhooks
