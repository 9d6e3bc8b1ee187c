import PolicyValues.Text.Digits

/-!
What can be wrong with a value: a text that is not of its grammar, a field outside its domain, and a
pair of instants that have no order. Each cause is a constructor; the wording is a function of it.
-/
namespace PolicyValues

inductive Subject where
  | timeZone | dateTime | date | time | duration | yearMonthDuration | dayTimeDuration | portRange
  | ipAddress | rfc822Name | dnsName | anyURI | hexBinary | base64Binary | boolean | integer | double
deriving DecidableEq, Repr

def Subject.name : Subject → String
  | .timeZone => "time zone"
  | .dateTime => "dateTime"
  | .date => "date"
  | .time => "time"
  | .duration => "duration"
  | .yearMonthDuration => "yearMonthDuration"
  | .dayTimeDuration => "dayTimeDuration"
  | .portRange => "port range"
  | .ipAddress => "ipAddress"
  | .rfc822Name => "rfc822Name"
  | .dnsName => "dnsName"
  | .anyURI => "anyURI"
  | .hexBinary => "hexBinary"
  | .base64Binary => "base64Binary"
  | .boolean => "boolean"
  | .integer => "integer"
  | .double => "double"

inductive Malformation where
  | mark (expected : Char) (place : String)
  | digits (width : Nat) (field : String)
  | item (expected : String)
  | fewDigits (field : String) (least : Nat)
  | trailing
  | fractionLength
  | zoneStart
  | zoneMinutes (minutes : Nat)
  | repeatedTimeMark
  | designatorMissing
  | designator (shown : Char)
  | componentOrder
  | fractionalComponent
  | noComponent
  | emptyTimePart
  | yearMonthOnly
  | dayTimeOnly
  | ipv4
  | ipv6
  | portMark
  | emptyLocalPart
  | emptyDomain
  | blankInName
  | secondAt
  | emptyHost
  | emptyLabel
  | labelCharacter
  | labelStart
  | labelEnd
  | numericTopLabel
  | uriEscape
  | uriCharacter
  | hexLength
  | hexCharacter (byte : UInt8) (position : Nat)
  | base64Symbol (byte : UInt8) (position : Nat)
  | base64LastSymbol (byte : UInt8) (position : Nat)
  | base64Length (symbols : Nat)
  | base64Padding
  | doubleCharacter
  | doubleNumber
deriving DecidableEq, Repr

/-- The character of a byte read as Latin-1, quoted; what does not print is written by its number. -/
def quotedByte (byte : UInt8) : String :=
  let n := byte.toNat
  let body :=
    if n = 0 then "\\0"
    else if n = 9 then "\\t"
    else if n = 10 then "\\n"
    else if n = 13 then "\\r"
    else if n = 39 then "\\'"
    else if n = 92 then "\\\\"
    else if n < 32 ∨ (127 ≤ n ∧ n ≤ 160) ∨ n = 173 then
      "\\u\x7b" ++ String.ofList (Nat.toDigits 16 n) ++ "\x7d"
    else String.singleton (Char.ofNat n)
  "'" ++ body ++ "'"

def Malformation.message : Malformation → String
  | .mark expected place => s!"expected '{expected}' {place}"
  | .digits width field => s!"expected {width} digit {field}"
  | .item expected => s!"expected {expected}"
  | .fewDigits field least => s!"{field} needs at least {least} digits"
  | .trailing => "unexpected trailing characters"
  | .fractionLength => "fractional seconds take exactly 3 digits"
  | .zoneStart => "expected 'Z', '+' or '-' to start a time zone"
  | .zoneMinutes minutes => s!"time zone minutes {minutes} exceed 59"
  | .repeatedTimeMark => "duplicate 'T' separator"
  | .designatorMissing => "missing component designator"
  | .designator shown => s!"unexpected designator '{shown}'"
  | .componentOrder => "components out of order or repeated"
  | .fractionalComponent => "only the seconds component may be fractional"
  | .noComponent => "a duration needs at least one component"
  | .emptyTimePart => "'T' must be followed by a time component"
  | .yearMonthOnly => "only year and month components are allowed"
  | .dayTimeOnly => "year and month components are not allowed"
  | .ipv4 => "invalid IPv4 address"
  | .ipv6 => "invalid IPv6 address"
  | .portMark => "expected ':' before port range"
  | .emptyLocalPart => "empty local part"
  | .emptyDomain => "empty domain"
  | .blankInName => "whitespace in name"
  | .secondAt => "second '@'"
  | .emptyHost => "empty host name"
  | .emptyLabel => "empty label"
  | .labelCharacter => "invalid character in label"
  | .labelStart => "label starts with '-'"
  | .labelEnd => "label ends with '-'"
  | .numericTopLabel => "top-level label starts with a digit"
  | .uriEscape => "'%' must be followed by two hex digits"
  | .uriCharacter => "character not allowed in a URI"
  | .hexLength => "Odd number of digits"
  | .hexCharacter byte position => s!"Invalid character {quotedByte byte} at position {position}"
  | .base64Symbol byte position => s!"Invalid symbol {byte}, offset {position}."
  | .base64LastSymbol byte position => s!"Invalid last symbol {byte}, offset {position}."
  | .base64Length symbols => s!"Invalid input length: {symbols}"
  | .base64Padding => "Invalid padding"
  | .doubleCharacter => "unexpected character"
  | .doubleNumber => "not a decimal or scientific number"

inductive RangeFault where
  | zoneOffset (minutes : Int)
  | year (year : Int)
  | month (month : Nat)
  | day (day : Nat) (year : Int) (month : Nat)
  | hour (hour : Nat)
  | minute (minute : Nat)
  | second (second : Nat)
  | millisecond (millisecond : Nat)
  | zoneShift
  | normalization
  | adding (field : String)
  | negativeSeconds (seconds : String)
  | totalMonths
  | totalSeconds
  | component (digits : String)
  | secondsPrecision (number : String)
  | tooManySeconds
  | portOrder (low high : Nat)
  | port (digits : String)
  | integer (text : String)
deriving DecidableEq, Repr

def yearChars (year : Int) : List Char :=
  if year < 0 then '-' :: Digits.padded 4 year.natAbs else Digits.padded 4 year.natAbs

def RangeFault.message : RangeFault → String
  | .zoneOffset m => s!"offset {m} minutes exceeds 24 hours"
  | .year y => s!"year {y} is not representable"
  | .month m => s!"month {m} is not in 1..=12"
  | .day d y m =>
    let place := String.ofList (yearChars y ++ '-' :: Digits.padded 2 m)
    s!"day {d} is not valid for {place}"
  | .hour h => s!"hour {h} is not in 0..=23"
  | .minute m => s!"minute {m} is not in 0..=59"
  | .second s => s!"second {s} is not in 0..=59"
  | .millisecond ms => s!"millisecond {ms} is not in 0..=999"
  | .zoneShift => "time zone shift leaves the calendar range"
  | .normalization => "UTC normalization overflows"
  | .adding field => s!"adding {field} leaves the calendar range"
  | .negativeSeconds seconds => s!"seconds magnitude {seconds} is negative"
  | .totalMonths => "total months exceed the 64-bit range"
  | .totalSeconds => "total seconds overflow"
  | .component digits => s!"component {digits} too large"
  | .secondsPrecision number => s!"seconds {number} exceed decimal precision"
  | .tooManySeconds => "too many seconds"
  | .portOrder low high => s!"lower bound {low} exceeds upper bound {high}"
  | .port digits => s!"port {digits} exceeds 65535"
  | .integer text => s!"{text} does not fit in 64 bits"

/-- The offset of a malformed text counts bytes of its UTF-8 form. -/
inductive ValueError where
  | malformed (subject : Subject) (input : String) (offset : Nat) (reason : Malformation)
  | outOfRange (subject : Subject) (reason : RangeFault)
  | ambiguous (zoned floating : String)
deriving DecidableEq, Repr

namespace ValueError

def message : ValueError → String
  | malformed subject input offset reason =>
    s!"malformed {subject.name} '{input}' at offset {offset}: {reason.message}"
  | outOfRange subject reason => s!"{subject.name} out of range: {reason.message}"
  | ambiguous zoned floating =>
    s!"cannot order zoned {zoned} against floating {floating}: within the 14 hour band"

end ValueError

inductive Stop where
  | malformed (rest : List Char) (reason : Malformation)
  | outOfRange (subject : Subject) (reason : RangeFault)
deriving DecidableEq, Repr

/-- Minutes of a zone are blamed on the zone, whatever it is a part of. -/
def Malformation.blame (subject : Subject) : Malformation → Subject
  | .zoneMinutes _ => .timeZone
  | _ => subject

def Stop.within (subject : Subject) (input : List Char) : Stop → ValueError
  | .malformed rest reason =>
    .malformed (reason.blame subject) (String.ofList input) (Text.offsetOf input rest) reason
  | .outOfRange subject reason => .outOfRange subject reason

/-- A reader takes what it can use from the front of the text. -/
abbrev Reader (α : Type) := List Char → Except Stop (α × List Char)

namespace Reader

def mark (expected : Char) (place : String) : Reader Unit
  | c :: cs => if c = expected then .ok ((), cs) else .error (.malformed (c :: cs) (.mark expected place))
  | [] => .error (.malformed [] (.mark expected place))

def digits (width : Nat) (field : String) : Reader Nat := fun cs =>
  match Digits.fixed? width cs with
  | some read => .ok read
  | none => .error (.malformed cs (.digits width field))

def signed (least : Nat) (field : String) : Reader Int := fun cs =>
  match Digits.signed? cs with
  | none => .error (.malformed cs (.item field))
  | some run =>
    if run.length < least then .error (.malformed cs (.fewDigits field least))
    else .ok (run.value, run.rest)

def whole {α : Type} (read : Reader α) (cs : List Char) : Except Stop α :=
  match read cs with
  | .error stop => .error stop
  | .ok (value, []) => .ok value
  | .ok (_, rest) => .error (.malformed rest .trailing)

end Reader

end PolicyValues
