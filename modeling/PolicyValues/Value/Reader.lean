import PolicyValues.Value
import PolicyValues.Double.Reader

/-! Reading the text of a value of a given datatype. -/
namespace PolicyValues

def readBoolean (text : String) : Except ValueError Bool :=
  if text = "true" ∨ text = "1" then .ok true
  else if text = "false" ∨ text = "0" then .ok false
  else .error (.malformed .boolean text 0 (.item "'true', 'false', '1' or '0'"))

def readInteger (text : String) : Except ValueError Int64 :=
  let cs := text.toList
  let (negative, unsigned) := Double.readSign cs
  match Digits.span unsigned with
  | (d :: ds, []) =>
    let n : Int := if negative then -(Digits.value (d :: ds) : Int) else Digits.value (d :: ds)
    if -2 ^ 63 ≤ n ∧ n < 2 ^ 63 then .ok (Int64.ofInt n)
    else .error (.outOfRange .integer (.integer text))
  | (_, rest) => .error (.malformed .integer text (Text.offsetOf cs rest) (.item "a digit"))

def DataType.read (t : DataType) (text : String) : Except ValueError Value :=
  match t with
  | .string => .ok (.string text)
  | .boolean => (readBoolean text).map .boolean
  | .integer => (readInteger text).map .integer
  | .double => (Double.parse text).map .double
  | .anyURI => (Uri.parse text).map .anyURI
  | .hexBinary => (HexBinary.parse text).map .hexBinary
  | .base64Binary => (Base64Binary.parse text).map .base64Binary
  | .date => (Date.parse text).map .date
  | .time => (Time.parse text).map .time
  | .dateTime => (DateTime.parse text).map .dateTime
  | .dayTimeDuration => (DayTimeDuration.parse text).map .dayTimeDuration
  | .yearMonthDuration => (YearMonthDuration.parse text).map .yearMonthDuration
  | .rfc822Name => (Mailbox.parse text).map .rfc822Name
  | .dnsName => (HostName.parse text).map .dnsName
  | .ipAddress => (IpAddress.parse text).map .ipAddress

end PolicyValues
