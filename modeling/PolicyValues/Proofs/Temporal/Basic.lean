import PolicyValues.Value.Reader

/-! The values that lie in time, of three datatypes. Each of them acts as an instant. -/
namespace PolicyValues

inductive Temporal where
  | dateTime (d : DateTime)
  | date (d : Date)
  | time (t : Time)
deriving DecidableEq, Repr

namespace Temporal

def value : Temporal → Value
  | dateTime d => .dateTime d
  | date d => .date d
  | time t => .time t

def dataType (v : Temporal) : DataType := v.value.dataType

def text (v : Temporal) : String := v.value.text

def instant : Temporal → DateTime
  | dateTime d => d
  | date d => d.toDateTime
  | time t => t.toDateTime

end Temporal

end PolicyValues
