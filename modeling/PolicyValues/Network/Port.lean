import PolicyValues.Fault

/-! Inclusive ranges of ports, where either bound may be open. -/
namespace PolicyValues

structure PortRange where
  low : Option UInt16
  high : Option UInt16
  ordered : ∀ lo ∈ low, ∀ hi ∈ high, lo ≤ hi
deriving DecidableEq, Repr

namespace PortRange

def any : PortRange := ⟨none, none, fun _ h => nomatch h⟩

def single (port : UInt16) : PortRange where
  low := some port
  high := some port
  ordered := fun lo hlo hi hhi => by
    simp only [Option.mem_def, Option.some.injEq] at hlo hhi
    rw [← hlo, ← hhi]
    exact UInt16.le_refl port

def atLeast (port : UInt16) : PortRange := ⟨some port, none, fun _ _ _ h => nomatch h⟩

def atMost (port : UInt16) : PortRange := ⟨none, some port, fun _ h => nomatch h⟩

def between? (low high : UInt16) : Option PortRange :=
  if h : low ≤ high then
    some
      { low := some low
        high := some high
        ordered := fun lo hlo hi hhi => by
          simp only [Option.mem_def, Option.some.injEq] at hlo hhi
          rw [← hlo, ← hhi]
          exact h }
  else none

def isUnbounded (r : PortRange) : Bool := r.low.isNone && r.high.isNone

def contains (r : PortRange) (port : UInt16) : Bool :=
  r.low.all (fun lo => decide (lo ≤ port)) && r.high.all fun hi => decide (port ≤ hi)

def between (low high : UInt16) : Except Stop PortRange :=
  match between? low high with
  | some range => .ok range
  | none => .error (.outOfRange .portRange (.portOrder low.toNat high.toNat))

def ofBounds : Option UInt16 → Option UInt16 → Except Stop PortRange
  | none, none => .ok any
  | some low, none => .ok (atLeast low)
  | none, some high => .ok (atMost high)
  | some low, some high => between low high

def new (low high : Option UInt16) : Except ValueError PortRange :=
  (ofBounds low high).mapError (·.within .portRange [])

def readPort (ds blamed : List Char) : Except Stop UInt16 :=
  if ds = [] ∨ ds.all Char.isDigit = false then .error (.malformed blamed (.item "a port number"))
  else if 2 ^ 16 ≤ Digits.value ds then .error (.outOfRange .portRange (.port (String.ofList ds)))
  else .ok (UInt16.ofNat (Digits.value ds))

/-- `n`, `low-high`, `-high`, `low-` or `-`. -/
def read (cs : List Char) : Except Stop PortRange :=
  match Text.splitFirst? '-' cs with
  | none => (readPort cs cs).map single
  | some ([], []) => .ok any
  | some ([], high) => (readPort high high).map atMost
  | some (low, []) => (readPort low cs).map atLeast
  | some (low, high) => do
    let lo ← readPort low cs
    let hi ← readPort high high
    between lo hi

def parse (text : String) : Except ValueError PortRange :=
  (read text.toList).mapError (·.within .portRange text.toList)

def portChars (port : UInt16) : List Char := Digits.ofNat port.toNat

def chars (r : PortRange) : List Char :=
  match r.low, r.high with
  | some lo, some hi => if lo = hi then portChars lo else portChars lo ++ '-' :: portChars hi
  | some lo, none => portChars lo ++ ['-']
  | none, some hi => '-' :: portChars hi
  | none, none => ['-']

def text (r : PortRange) : String := String.ofList r.chars

instance : ToString PortRange := ⟨text⟩

def suffixChars : Option PortRange → List Char
  | some range => ':' :: range.chars
  | none => []

end PortRange

end PolicyValues
