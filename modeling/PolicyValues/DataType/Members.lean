import PolicyValues.Value

/-!
A datatype seen from its own members: the values they are, their texts, and the order that they have
among themselves, if any. Nothing here looks at a value of another datatype but to refuse it.
-/
namespace PolicyValues

structure Members (α : Type) where
  toValue : α → Value
  ofValue? : Value → Option α
  text : α → String
  ordered : Bool := false
  compare : α → α → Except ValueError (Option Ordering) := fun _ _ => .ok none

namespace Members

def total {α : Type} (compare : α → α → Ordering) (a b : α) : Except ValueError (Option Ordering) :=
  .ok (some (compare a b))

def partially {α : Type} (compare : α → α → Except ValueError Ordering) (a b : α) :
    Except ValueError (Option Ordering) :=
  (compare a b).map some

end Members

namespace DataType

def Member : DataType → Type
  | string => String
  | boolean => Bool
  | integer => Int64
  | double => Double
  | anyURI => Uri
  | hexBinary => HexBinary
  | base64Binary => Base64Binary
  | date => Date
  | time => Time
  | dateTime => DateTime
  | dayTimeDuration => DayTimeDuration
  | yearMonthDuration => YearMonthDuration
  | rfc822Name => Mailbox
  | dnsName => HostName
  | ipAddress => IpAddress

def members : (t : DataType) → Members t.Member
  | string =>
    { toValue := .string
      ofValue? := fun | .string s => some s | _ => none
      text := fun s => s
      ordered := true
      compare := Members.total fun a b : String => Ord.compare a b }
  | boolean =>
    { toValue := .boolean
      ofValue? := fun | .boolean b => some b | _ => none
      text := boolText }
  | integer =>
    { toValue := .integer
      ofValue? := fun | .integer n => some n | _ => none
      text := fun n : Int64 => String.ofList (Digits.ofInt n.toInt)
      ordered := true
      compare := Members.total fun a b : Int64 => Ord.compare a.toInt b.toInt }
  | double =>
    { toValue := .double
      ofValue? := fun | .double x => some x | _ => none
      text := Double.text
      ordered := true
      compare := fun a b => .ok (Double.compare? a b) }
  | anyURI =>
    { toValue := .anyURI
      ofValue? := fun | .anyURI u => some u | _ => none
      text := Uri.text }
  | hexBinary =>
    { toValue := .hexBinary
      ofValue? := fun | .hexBinary x => some x | _ => none
      text := HexBinary.text }
  | base64Binary =>
    { toValue := .base64Binary
      ofValue? := fun | .base64Binary x => some x | _ => none
      text := Base64Binary.text }
  | date =>
    { toValue := .date
      ofValue? := fun | .date d => some d | _ => none
      text := Date.text
      ordered := true
      compare := Members.partially Date.compare }
  | time =>
    { toValue := .time
      ofValue? := fun | .time t => some t | _ => none
      text := Time.text
      ordered := true
      compare := Members.partially Time.compare }
  | dateTime =>
    { toValue := .dateTime
      ofValue? := fun | .dateTime d => some d | _ => none
      text := DateTime.text
      ordered := true
      compare := Members.partially DateTime.compare }
  | dayTimeDuration =>
    { toValue := .dayTimeDuration
      ofValue? := fun | .dayTimeDuration d => some d | _ => none
      text := DayTimeDuration.text
      ordered := true
      compare := Members.total DayTimeDuration.compare }
  | yearMonthDuration =>
    { toValue := .yearMonthDuration
      ofValue? := fun | .yearMonthDuration d => some d | _ => none
      text := YearMonthDuration.text
      ordered := true
      compare := Members.total YearMonthDuration.compare }
  | rfc822Name =>
    { toValue := .rfc822Name
      ofValue? := fun | .rfc822Name m => some m | _ => none
      text := Mailbox.text }
  | dnsName =>
    { toValue := .dnsName
      ofValue? := fun | .dnsName n => some n | _ => none
      text := HostName.text }
  | ipAddress =>
    { toValue := .ipAddress
      ofValue? := fun | .ipAddress a => some a | _ => none
      text := IpAddress.text }

def isOrdered (t : DataType) : Bool := t.members.ordered

end DataType

end PolicyValues
