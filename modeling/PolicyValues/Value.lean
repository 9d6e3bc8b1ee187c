import PolicyValues.DataType
import PolicyValues.DateAndTime
import PolicyValues.Network.Address
import PolicyValues.Name.Mailbox
import PolicyValues.Name.HostName
import PolicyValues.Name.Uri
import PolicyValues.Binary.Hex
import PolicyValues.Binary.Base64
import PolicyValues.Double.Format

/-!
Values of any datatype. Two values are equal if they denote the same member of one datatype:
durations by their totals, doubles by their bits, so that NaN equals itself and the zeros differ.
-/
namespace PolicyValues

inductive Value where
  | string (text : String)
  | boolean (b : Bool)
  | integer (n : Int64)
  | double (x : Double)
  | anyURI (u : Uri)
  | hexBinary (x : HexBinary)
  | base64Binary (x : Base64Binary)
  | date (d : Date)
  | time (t : Time)
  | dateTime (d : DateTime)
  | dayTimeDuration (d : DayTimeDuration)
  | yearMonthDuration (d : YearMonthDuration)
  | rfc822Name (m : Mailbox)
  | dnsName (n : HostName)
  | ipAddress (a : IpAddress)
deriving DecidableEq, Repr

def boolText (b : Bool) : String := if b then "true" else "false"

namespace Value

def dataType : Value → DataType
  | string _ => .string
  | boolean _ => .boolean
  | integer _ => .integer
  | double _ => .double
  | anyURI _ => .anyURI
  | hexBinary _ => .hexBinary
  | base64Binary _ => .base64Binary
  | date _ => .date
  | time _ => .time
  | dateTime _ => .dateTime
  | dayTimeDuration _ => .dayTimeDuration
  | yearMonthDuration _ => .yearMonthDuration
  | rfc822Name _ => .rfc822Name
  | dnsName _ => .dnsName
  | ipAddress _ => .ipAddress

def text : Value → String
  | string s => s
  | boolean b => boolText b
  | integer n => String.ofList (Digits.ofInt n.toInt)
  | double x => x.text
  | anyURI u => u.text
  | hexBinary x => x.text
  | base64Binary x => x.text
  | date d => d.text
  | time t => t.text
  | dateTime d => d.text
  | dayTimeDuration d => d.text
  | yearMonthDuration d => d.text
  | rfc822Name m => m.text
  | dnsName n => n.text
  | ipAddress a => a.text

instance : ToString Value := ⟨text⟩

def Equal : Value → Value → Prop
  | dayTimeDuration a, dayTimeDuration b => a.Equal b
  | yearMonthDuration a, yearMonthDuration b => a.Equal b
  | a, b => a = b

instance decidableEqual : (a b : Value) → Decidable (Equal a b)
  | a, b => by unfold Equal; split <;> infer_instance

/-- Values of two datatypes have no order, and neither have those of an unordered one or NaN. -/
def compare : Value → Value → Except ValueError (Option Ordering)
  | string a, string b => .ok (some (Ord.compare a b))
  | integer a, integer b => .ok (some (Ord.compare a.toInt b.toInt))
  | double a, double b => .ok (a.compare? b)
  | date a, date b => (a.compare b).map some
  | time a, time b => (a.compare b).map some
  | dateTime a, dateTime b => (a.compare b).map some
  | dayTimeDuration a, dayTimeDuration b => .ok (some (a.compare b))
  | yearMonthDuration a, yearMonthDuration b => .ok (some (a.compare b))
  | _, _ => .ok none

def asString? : Value → Option String
  | string s => some s
  | _ => none

def asBoolean? : Value → Option Bool
  | boolean b => some b
  | _ => none

def asInteger? : Value → Option Int64
  | integer n => some n
  | _ => none

def asDouble? : Value → Option Double
  | double x => some x
  | _ => none

def asDateTime? : Value → Option DateTime
  | dateTime d => some d
  | _ => none

end Value

end PolicyValues
