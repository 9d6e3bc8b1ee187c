import PolicyValues.Duration.Basic

/-!
The grammar of durations: an optional minus, `P`, and components in descending order, those below
days after a `T`. Every component is read exactly or refused.
-/
namespace PolicyValues.Duration

inductive Component where
  | years | months | days | hours | minutes | seconds
deriving DecidableEq, Repr

namespace Component

def rank : Component → Nat
  | years => 0
  | months => 1
  | days => 2
  | hours => 3
  | minutes => 4
  | seconds => 5

def ofDesignator? (inTime : Bool) (letter : Char) : Option Component :=
  if inTime then
    match letter with
    | 'H' => some hours
    | 'M' => some minutes
    | 'S' => some seconds
    | _ => none
  else
    match letter with
    | 'Y' => some years
    | 'M' => some months
    | 'D' => some days
    | _ => none

def set (component : Component) (number : Digits.Written) (before : List Char) (size : Magnitudes) :
    Except Stop Magnitudes :=
  if component = seconds then
    match Decimal.readExact? number with
    | some exact => .ok { size with seconds := exact }
    | none => .error (.outOfRange .duration (.secondsPrecision (String.ofList number.chars)))
  else if number.fraction ≠ [] then .error (.malformed before .fractionalComponent)
  else if 2 ^ 64 ≤ Digits.value number.whole then
    .error (.outOfRange .duration (.component (String.ofList number.whole)))
  else
    let n := UInt64.ofNat (Digits.value number.whole)
    .ok <| match component with
      | years => { size with years := n }
      | months => { size with months := n }
      | days => { size with days := n }
      | hours => { size with hours := n }
      | minutes => { size with minutes := n }
      | seconds => size

end Component

structure Progress where
  size : Magnitudes := {}
  last : Option Component := none
  inTime : Bool := false
  timeComponents : Nat := 0

def Progress.admits (p : Progress) (component : Component) : Bool :=
  p.last.all fun last => last.rank < component.rank

def readComponents (p : Progress) (cs : List Char) : Except Stop Progress :=
  match cs with
  | [] => .ok p
  | 'T' :: rest =>
    if p.inTime then .error (.malformed ('T' :: rest) .repeatedTimeMark)
    else readComponents { p with inTime := true } rest
  | cs =>
    match _h : Digits.unsigned? cs with
    | none => .error (.malformed cs (.item "a component value"))
    | some (_, []) => .error (.malformed [] .designatorMissing)
    | some (number, letter :: rest) =>
      match Component.ofDesignator? p.inTime letter with
      | none =>
        .error (.malformed (letter :: rest) (.designator (Char.ofNat (Text.leadByte letter).toNat)))
      | some component =>
        if p.admits component then
          match component.set number cs p.size with
          | .error stop => .error stop
          | .ok size =>
            readComponents
              { p with
                size
                last := some component
                timeComponents := p.timeComponents + if p.inTime then 1 else 0 } rest
        else .error (.malformed (letter :: rest) .componentOrder)
termination_by cs.length
decreasing_by
  · simp only [List.length_cons]; omega
  · have := Digits.length_of_unsigned? _h
    simp only [List.length_cons] at this
    omega

def read (cs : List Char) : Except Stop Duration := do
  let (negative, cs) := match cs with
    | '-' :: cs => (true, cs)
    | cs => (false, cs)
  let (_, cs) ← Reader.mark 'P' "to start a duration" cs
  let p ← readComponents {} cs
  if p.last = none then .error (.malformed [] .noComponent)
  else if p.inTime && p.timeComponents == 0 then .error (.malformed [] .emptyTimePart)
  else .ok (signed negative p.size)

def parse (text : String) : Except ValueError Duration :=
  (read text.toList).mapError (·.within .duration text.toList)

end PolicyValues.Duration
