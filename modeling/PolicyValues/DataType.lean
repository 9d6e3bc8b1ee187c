/-!
The datatypes of attribute values, each with a short name and an identifier. Durations have also
been known under former identifiers.
-/
namespace PolicyValues

inductive DataType where
  | string | boolean | integer | double | anyURI | hexBinary | base64Binary | date | time | dateTime
  | dayTimeDuration | yearMonthDuration | rfc822Name | dnsName | ipAddress
deriving DecidableEq, Repr

namespace DataType

def all : List DataType :=
  [string, boolean, integer, double, anyURI, hexBinary, base64Binary, date, time, dateTime,
    dayTimeDuration, yearMonthDuration, rfc822Name, dnsName, ipAddress]

theorem mem_all (t : DataType) : t ∈ all := by cases t <;> decide

def name : DataType → String
  | string => "string"
  | boolean => "boolean"
  | integer => "integer"
  | double => "double"
  | anyURI => "anyURI"
  | hexBinary => "hexBinary"
  | base64Binary => "base64Binary"
  | date => "date"
  | time => "time"
  | dateTime => "dateTime"
  | dayTimeDuration => "dayTimeDuration"
  | yearMonthDuration => "yearMonthDuration"
  | rfc822Name => "rfc822Name"
  | dnsName => "dnsName"
  | ipAddress => "ipAddress"

def ofName? (name : String) : Option DataType := all.find? (·.name = name)

def identifier : DataType → String
  | string => "http://www.w3.org/2001/XMLSchema#string"
  | boolean => "http://www.w3.org/2001/XMLSchema#boolean"
  | integer => "http://www.w3.org/2001/XMLSchema#integer"
  | double => "http://www.w3.org/2001/XMLSchema#double"
  | anyURI => "http://www.w3.org/2001/XMLSchema#anyURI"
  | hexBinary => "http://www.w3.org/2001/XMLSchema#hexBinary"
  | base64Binary => "http://www.w3.org/2001/XMLSchema#base64Binary"
  | date => "http://www.w3.org/2001/XMLSchema#date"
  | time => "http://www.w3.org/2001/XMLSchema#time"
  | dateTime => "http://www.w3.org/2001/XMLSchema#dateTime"
  | dayTimeDuration => "http://www.w3.org/2001/XMLSchema#dayTimeDuration"
  | yearMonthDuration => "http://www.w3.org/2001/XMLSchema#yearMonthDuration"
  | rfc822Name => "urn:oasis:names:tc:xacml:1.0:data-type:rfc822Name"
  | dnsName => "urn:oasis:names:tc:xacml:2.0:data-type:dnsName"
  | ipAddress => "urn:oasis:names:tc:xacml:2.0:data-type:ipAddress"

def describe (t : DataType) : String :=
  "DataTypeBase \x7b type: \"" ++ t.name ++ "\", id: \"" ++ t.identifier ++ "\" \x7d"

structure Entry where
  identifier : String
  dataType : DataType
deriving DecidableEq, Repr

def current : List Entry := all.map fun t => ⟨t.identifier, t⟩

/-- Identifiers of before version 3.0. -/
def former : List Entry :=
  [⟨"urn:oasis:names:tc:xacml:2.0:data-type:dayTimeDuration", dayTimeDuration⟩,
    ⟨"urn:oasis:names:tc:xacml:2.0:data-type:yearMonthDuration", yearMonthDuration⟩,
    ⟨"http://www.w3.org/TR/2002/WD-xquery-operators-20020816#dayTimeDuration", dayTimeDuration⟩,
    ⟨"http://www.w3.org/TR/2002/WD-xquery-operators-20020816#yearMonthDuration", yearMonthDuration⟩]

/-- An entry takes the place of the one with the same identifier. -/
def insert (entries : List Entry) (e : Entry) : List Entry :=
  e :: entries.filter (·.identifier ≠ e.identifier)

end DataType

end PolicyValues
