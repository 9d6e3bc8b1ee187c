import PolicyValues.Toml.Basic
import PolicyValues.Calendar.Basic

/-! Truth values, numbers, dates and times of TOML, each one unbroken run of characters. -/
namespace PolicyValues.Toml

def grouped? (isDigit : Char → Bool) : List Char → Option (List Char)
  | [] => none
  | [c] => if isDigit c then some [c] else none
  | c :: '_' :: cs => if isDigit c then (grouped? isDigit cs).map (c :: ·) else none
  | c :: cs => if isDigit c then (grouped? isDigit cs).map (c :: ·) else none

def wholePart? (cs : List Char) : Option (List Char) := do
  let ds ← grouped? Char.isDigit cs
  if ds.head? = some '0' ∧ ds.length ≠ 1 then none else return ds

def based? (base : Nat) (cs : List Char) : Option Nat := do
  let isDigit (c : Char) : Bool := (Text.hexValue? c).any (· < base)
  let ds ← grouped? isDigit cs
  return ds.foldl (fun n c => base * n + (Text.hexValue? c).getD 0) 0

/-- Whole numbers beyond 128 bits denote nothing. -/
def wholeNumber? (n : Int) : Option Toml :=
  if -2 ^ 127 ≤ n ∧ n < 2 ^ 128 then some (.integer n) else none

def power? (cs : List Char) : Option Int := do
  let (negative, cs) := Double.readSign cs
  let ds ← grouped? Char.isDigit cs
  return if negative then -(Digits.value ds : Int) else Digits.value ds

def cut (isMark : Char → Bool) (cs : List Char) : List Char × Option (List Char) :=
  match cs.dropWhile (!isMark ·) with
  | _ :: rest => (cs.takeWhile (!isMark ·), some rest)
  | [] => (cs, none)

def decimal? (negative : Bool) (cs : List Char) : Option Toml := do
  let (mantissa, power) := cut (fun c => c == 'e' || c == 'E') cs
  let (whole, fraction) := cut (· == '.') mantissa
  let whole ← wholePart? whole
  match fraction, power with
  | none, none =>
    let size := Digits.value whole
    wholeNumber? (if negative then -(size : Int) else size)
  | _, _ =>
    let fraction ← match fraction with
      | some ds => grouped? Char.isDigit ds
      | none => some []
    let power ← match power with
      | some cs => power? cs
      | none => some 0
    let x := Double.Scientific.toDouble ⟨negative, whole ++ fraction, power - fraction.length⟩
    if x.isInfinite then none else return .float x

def number? (cs : List Char) : Option Toml :=
  match cs with
  | '0' :: 'x' :: ds => (based? 16 ds).bind fun n => wholeNumber? n
  | '0' :: 'o' :: ds => (based? 8 ds).bind fun n => wholeNumber? n
  | '0' :: 'b' :: ds => (based? 2 ds).bind fun n => wholeNumber? n
  | cs =>
    let (negative, unsigned) := Double.readSign cs
    if unsigned = "inf".toList then some (.float (.infinity negative))
    else if unsigned = "nan".toList then some (.float (if negative then Double.nan.neg else .nan))
    else decimal? negative unsigned

def after? (mark : Char) : List Char → Option (List Char)
  | c :: cs => if c = mark then some cs else none
  | [] => none

def date? (cs : List Char) : Option (List Char × List Char) := do
  let (year, cs) ← Digits.fixed? 4 cs
  let cs ← after? '-' cs
  let (month, cs) ← Digits.fixed? 2 cs
  let cs ← after? '-' cs
  let (day, cs) ← Digits.fixed? 2 cs
  let date : CivilDate := ⟨year, month, day⟩
  if date.Valid then
    return (Digits.padded 4 year ++ '-' :: Digits.padded 2 month ++ '-' :: Digits.padded 2 day, cs)
  else none

/-- The fraction of a second, to nine places and without zeros at its end; one zero stands for none. -/
def fraction? : List Char → Option (List Char × List Char)
  | '.' :: cs =>
    match Digits.span cs with
    | ([], _) => none
    | (ds, rest) =>
      match Text.trimRight (· == '0') (ds.take 9) with
      | [] => some (['.', '0'], rest)
      | shown => some ('.' :: shown, rest)
  | cs => some ([], cs)

def hourMinute? (cs : List Char) : Option (List Char × List Char) := do
  let (hour, cs) ← Digits.fixed? 2 cs
  let cs ← after? ':' cs
  let (minute, cs) ← Digits.fixed? 2 cs
  if hour ≤ 23 ∧ minute ≤ 59 then
    return (Digits.padded 2 hour ++ ':' :: Digits.padded 2 minute, cs)
  else none

def time? (cs : List Char) : Option (List Char × List Char) := do
  let (clock, cs) ← hourMinute? cs
  match cs with
  | ':' :: cs =>
    let (second, cs) ← Digits.fixed? 2 cs
    let (fraction, cs) ← fraction? cs
    if second ≤ 60 then return (clock ++ ':' :: Digits.padded 2 second ++ fraction, cs) else none
  | cs => return (clock, cs)

def offset? : List Char → Option (List Char)
  | [] => some []
  | ['Z'] | ['z'] => some ['Z']
  | c :: cs =>
    if c = '+' ∨ c = '-' then
      match hourMinute? cs with
      | some (clock, []) => some ((if clock = "00:00".toList then '+' else c) :: clock)
      | _ => none
    else none

def dateTime? (cs : List Char) : Option Toml :=
  let text : Option (List Char) :=
    match date? cs with
    | some (date, []) => some date
    | some (date, mark :: cs) =>
      if mark = 'T' ∨ mark = 't' ∨ mark = ' ' then do
        let (time, cs) ← time? cs
        return date ++ 'T' :: time ++ (← offset? cs)
      else none
    | none =>
      match time? cs with
      | some (time, []) => some time
      | _ => none
  text.map fun cs => .dateTime (String.ofList cs)

def scalar? (cs : List Char) : Option Toml :=
  if cs = "true".toList then some (.boolean true)
  else if cs = "false".toList then some (.boolean false)
  else match dateTime? cs with
    | some item => some item
    | none => number? cs

def isScalarChar (c : Char) : Bool := c.isAlphanum || "+-_.:".toList.contains c

def scalarSpan (cs : List Char) : List Char × List Char :=
  let run := cs.takeWhile isScalarChar
  match (date? run).map (·.2), cs.dropWhile isScalarChar with
  | some [], ' ' :: c :: rest =>
    if c.isDigit then
      (run ++ ' ' :: (c :: rest).takeWhile isScalarChar, (c :: rest).dropWhile isScalarChar)
    else (run, ' ' :: c :: rest)
  | _, rest => (run, rest)

def readScalar? (cs : List Char) : Option (Toml × List Char) :=
  (scalar? (scalarSpan cs).1).map fun item => (item, (scalarSpan cs).2)

end PolicyValues.Toml
