import PolicyValues.Fault
import PolicyValues.Text.Ending

/-!
Mail box names, `local@domain`. The local part keeps its case; the domain has none and is kept in
lower case.
-/
namespace PolicyValues

structure Mailbox where
  localPart : List Char
  domain : List Char
deriving DecidableEq, Repr

namespace Mailbox

def isForbidden (c : Char) : Bool := Text.isBlank c || Text.isControl c

def fromFirst? (p : Char → Bool) (cs : List Char) : Option (List Char) :=
  match cs.dropWhile fun c => !p c with
  | [] => none
  | rest => some rest

def read (cs : List Char) : Except Stop Mailbox :=
  match Text.splitFirst? '@' cs with
  | none => .error (.malformed [] (.item "'@'"))
  | some (localPart, domain) =>
    if localPart = [] then .error (.malformed cs .emptyLocalPart)
    else if domain = [] then .error (.malformed [] .emptyDomain)
    else
      match fromFirst? isForbidden cs, fromFirst? (· == '@') domain with
      | some rest, _ => .error (.malformed rest .blankInName)
      | none, some rest => .error (.malformed rest .secondAt)
      | none, none => .ok ⟨localPart, Text.lower domain⟩

def parse (text : String) : Except ValueError Mailbox :=
  (read text.toList).mapError (·.within .rfc822Name text.toList)

def new (localPart domain : String) : Except ValueError Mailbox := parse (localPart ++ "@" ++ domain)

def chars (m : Mailbox) : List Char := m.localPart ++ '@' :: m.domain

def text (m : Mailbox) : String := String.ofList m.chars

instance : ToString Mailbox := ⟨text⟩

/-- A pattern is one mail box, all boxes below a domain if it starts with a dot, or all at a domain. -/
def matchesPattern (m : Mailbox) (pattern : String) : Bool :=
  let p := pattern.toList
  match Text.splitFirst? '@' p with
  | some (localPart, domain) => decide (localPart = m.localPart ∧ Text.EqFold domain m.domain)
  | none =>
    if p.head? = some '.' then decide (Text.EndsBelow m.domain p) else decide (Text.EqFold m.domain p)

end Mailbox

end PolicyValues
