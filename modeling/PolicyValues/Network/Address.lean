import PolicyValues.Network.Port
import PolicyValues.Network.Bare

/-!
Addresses as policies name them: an address with an optional mask of its family and an optional
port range. IPv6 addresses stand in brackets, which is what tells the families apart.
-/
namespace PolicyValues

structure IPv4Address where
  address : IPv4
  mask : Option IPv4
  ports : Option PortRange
deriving DecidableEq, Repr

structure IPv6Address where
  address : IPv6
  mask : Option IPv6
  ports : Option PortRange
deriving DecidableEq, Repr

def readPortSuffix : List Char → Except Stop (Option PortRange)
  | [] => .ok none
  | ':' :: cs => (PortRange.read cs).map some
  | cs => .error (.malformed cs .portMark)

namespace IPv4Address

def contains (x : IPv4Address) (candidate : IPv4) : Bool :=
  match x.mask with
  | some m => candidate.mask m == x.address.mask m
  | none => candidate == x.address

def readBare (cs blamed : List Char) : Except Stop IPv4 :=
  match IPv4.parse? cs with
  | some x => .ok x
  | none => .error (.malformed blamed .ipv4)

def read (cs : List Char) : Except Stop IPv4Address := do
  let inAddress (c : Char) : Bool := c != '/' && c != ':'
  let address ← readBare (cs.takeWhile inAddress) cs
  match cs.dropWhile inAddress with
  | '/' :: cs =>
    let mask ← readBare (cs.takeWhile (· != ':')) cs
    return ⟨address, some mask, ← readPortSuffix (cs.dropWhile (· != ':'))⟩
  | cs => return ⟨address, none, ← readPortSuffix cs⟩

def parse (text : String) : Except ValueError IPv4Address :=
  (read text.toList).mapError (·.within .ipAddress text.toList)

def maskChars : Option IPv4 → List Char
  | some m => '/' :: m.chars
  | none => []

def chars (x : IPv4Address) : List Char :=
  x.address.chars ++ maskChars x.mask ++ PortRange.suffixChars x.ports

def text (x : IPv4Address) : String := String.ofList x.chars

instance : ToString IPv4Address := ⟨text⟩

end IPv4Address

namespace IPv6Address

def contains (x : IPv6Address) (candidate : IPv6) : Bool :=
  match x.mask with
  | some m => candidate.mask m == x.address.mask m
  | none => candidate == x.address

def readBracketed : Reader IPv6
  | '[' :: cs =>
    match Text.splitFirst? ']' cs with
    | none => .error (.malformed [] (.item "']'"))
    | some (inner, rest) =>
      match IPv6.parse? inner with
      | some x => .ok (x, rest)
      | none => .error (.malformed cs .ipv6)
  | cs => .error (.malformed cs (.item "'['"))

def read (cs : List Char) : Except Stop IPv6Address := do
  let (address, cs) ← readBracketed cs
  match cs with
  | '/' :: cs =>
    let (mask, cs) ← readBracketed cs
    return ⟨address, some mask, ← readPortSuffix cs⟩
  | cs => return ⟨address, none, ← readPortSuffix cs⟩

def parse (text : String) : Except ValueError IPv6Address :=
  (read text.toList).mapError (·.within .ipAddress text.toList)

def bracketed (x : IPv6) : List Char := '[' :: x.chars ++ [']']

def maskChars : Option IPv6 → List Char
  | some m => '/' :: bracketed m
  | none => []

def chars (x : IPv6Address) : List Char :=
  bracketed x.address ++ maskChars x.mask ++ PortRange.suffixChars x.ports

def text (x : IPv6Address) : String := String.ofList x.chars

instance : ToString IPv6Address := ⟨text⟩

end IPv6Address

inductive IpAddress where
  | v4 (address : IPv4Address)
  | v6 (address : IPv6Address)
deriving DecidableEq, Repr

inductive BareAddress where
  | v4 (address : IPv4)
  | v6 (address : IPv6)
deriving DecidableEq, Repr

def BareAddress.parse? (text : String) : Option BareAddress :=
  match IPv4.parse? text.toList with
  | some x => some (.v4 x)
  | none => (IPv6.parse? text.toList).map .v6

namespace IpAddress

def ports : IpAddress → Option PortRange
  | v4 x => x.ports
  | v6 x => x.ports

def contains : IpAddress → BareAddress → Bool
  | v4 x, .v4 candidate => x.contains candidate
  | v6 x, .v6 candidate => x.contains candidate
  | _, _ => false

def parse (text : String) : Except ValueError IpAddress :=
  if text.toList.head? = some '[' then (IPv6Address.parse text).map v6
  else (IPv4Address.parse text).map v4

def text : IpAddress → String
  | v4 x => x.text
  | v6 x => x.text

instance : ToString IpAddress := ⟨text⟩

end IpAddress

end PolicyValues
