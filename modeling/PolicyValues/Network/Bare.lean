import PolicyValues.Text.Digits

/-!
Bare addresses of the two families. IPv6 text shortens the longest run of two or more zero groups,
the first of equally long ones, and shows a mapped IPv4 address in dotted form.
-/
namespace PolicyValues

structure IPv4 where
  a : UInt8
  b : UInt8
  c : UInt8
  d : UInt8
deriving DecidableEq, Repr

namespace IPv4

def mask (x m : IPv4) : IPv4 := ⟨x.a &&& m.a, x.b &&& m.b, x.c &&& m.c, x.d &&& m.d⟩

def octetChars (n : UInt8) : List Char := Digits.ofNat n.toNat

def chars (x : IPv4) : List Char :=
  octetChars x.a ++ '.' :: octetChars x.b ++ '.' :: octetChars x.c ++ '.' :: octetChars x.d

def readOctet? (cs : List Char) : Option (UInt8 × List Char) :=
  let (ds, rest) := Digits.span cs
  if ds = [] ∨ 3 < ds.length ∨ (ds.head? = some '0' ∧ 1 < ds.length) ∨ 255 < Digits.value ds then none
  else some (UInt8.ofNat (Digits.value ds), rest)

def readDot? : List Char → Option (List Char)
  | '.' :: cs => some cs
  | _ => none

def read? (cs : List Char) : Option (IPv4 × List Char) := do
  let (a, cs) ← readOctet? cs
  let (b, cs) ← readOctet? (← readDot? cs)
  let (c, cs) ← readOctet? (← readDot? cs)
  let (d, cs) ← readOctet? (← readDot? cs)
  return (⟨a, b, c, d⟩, cs)

def parse? (cs : List Char) : Option IPv4 :=
  match read? cs with
  | some (x, []) => some x
  | _ => none

def groups (x : IPv4) : List UInt16 :=
  [x.a.toUInt16 <<< 8 ||| x.b.toUInt16, x.c.toUInt16 <<< 8 ||| x.d.toUInt16]

def ofGroups (high low : UInt16) : IPv4 :=
  ⟨(high >>> 8).toUInt8, high.toUInt8, (low >>> 8).toUInt8, low.toUInt8⟩

end IPv4

structure IPv6 where
  groups : List UInt16
  length_eq : groups.length = 8
deriving DecidableEq, Repr

namespace IPv6

def mask (x m : IPv6) : IPv6 where
  groups := List.zipWith (· &&& ·) x.groups m.groups
  length_eq := by rw [List.length_zipWith, x.length_eq, m.length_eq]; rfl

def ofGroups? (groups : List UInt16) : Option IPv6 :=
  if h : groups.length = 8 then some ⟨groups, h⟩ else none

def groupChars (n : UInt16) : List Char := Nat.toDigits 16 n.toNat

def joined : List UInt16 → List Char
  | [] => []
  | [g] => groupChars g
  | g :: gs => groupChars g ++ ':' :: joined gs

def zeroRun (gs : List UInt16) : Nat := (gs.takeWhile (· == 0)).length

/-- Start and length of the longest run of zero groups, the first one on a tie. -/
def longestZeros : (start : Nat) → List UInt16 → Nat × Nat
  | start, [] => (start, 0)
  | start, g :: gs =>
    let later := longestZeros (start + 1) gs
    if later.2 ≤ zeroRun (g :: gs) then (start, zeroRun (g :: gs)) else later

def chars (x : IPv6) : List Char :=
  match x.groups with
  | [0, 0, 0, 0, 0, 0xffff, high, low] => "::ffff:".toList ++ (IPv4.ofGroups high low).chars
  | groups =>
    let (start, length) := longestZeros 0 groups
    if 1 < length then
      joined (groups.take start) ++ ':' :: ':' :: joined (groups.drop (start + length))
    else joined groups

def readGroup? (cs : List Char) : Option (UInt16 × List Char) :=
  let ds := cs.takeWhile Text.isHexDigit
  if ds = [] ∨ 4 < ds.length then none
  else some (UInt16.ofNat (ds.foldl (fun n c => 16 * n + (Text.hexValue? c).getD 0) 0),
    cs.dropWhile Text.isHexDigit)

structure Groups where
  groups : List UInt16
  dotted : Bool
  rest : List Char

def readGroups : (limit : Nat) → (first : Bool) → List Char → Groups
  | 0, _, cs => ⟨[], false, cs⟩
  | limit + 1, first, cs =>
    let body := match first, cs with
      | true, cs => some cs
      | false, ':' :: cs => some cs
      | false, _ => none
    match body with
    | none => ⟨[], false, cs⟩
    | some body =>
      match if limit = 0 then none else IPv4.read? body with
      | some (x, rest) => ⟨x.groups, true, rest⟩
      | none =>
        match readGroup? body with
        | none => ⟨[], false, cs⟩
        | some (g, rest) =>
          let more := readGroups limit false rest
          { more with groups := g :: more.groups }

def parse? (cs : List Char) : Option IPv6 :=
  let head := readGroups 8 true cs
  if head.groups.length = 8 then
    if head.rest = [] then ofGroups? head.groups else none
  else if head.dotted then none
  else
    match head.rest with
    | ':' :: ':' :: cs =>
      let tail := readGroups (7 - head.groups.length) true cs
      let zeros := 8 - head.groups.length - tail.groups.length
      if tail.rest = [] then ofGroups? (head.groups ++ List.replicate zeros 0 ++ tail.groups) else none
    | _ => none

end IPv6

end PolicyValues
