import PolicyValues.Network.Port
import PolicyValues.Text.Ending

/-!
Host names with an optional port range. The first label may be the wildcard `*`, and one dot may
follow the last label.
-/
namespace PolicyValues

structure HostName where
  host : List Char
  ports : Option PortRange
deriving DecidableEq, Repr

namespace HostName

def isLabelChar (c : Char) : Bool := c.isAlphanum || c == '-'

def splitLabel (cs : List Char) : List Char × Option (List Char) :=
  match Text.splitFirst? '.' cs with
  | some (label, rest) => (label, some rest)
  | none => (cs, none)

theorem length_of_splitLabel {cs label rest : List Char} (h : splitLabel cs = (label, some rest)) :
    rest.length < cs.length := by
  unfold splitLabel at h
  split at h
  · rename_i before after hs
    simp only [Prod.mk.injEq, Option.some.injEq] at h
    have := congrArg List.length (Text.append_of_splitFirst? hs)
    simp only [List.length_append, List.length_cons, h.2] at this
    omega
  · simp only [Prod.mk.injEq, reduceCtorEq, and_false] at h

def checkLabel (label here : List Char) (last : Bool) : Except Stop Unit :=
  match label, label.dropWhile isLabelChar with
  | [], _ => .error (.malformed here .emptyLabel)
  | c :: _, [] =>
    if c = '-' then .error (.malformed here .labelStart)
    else if label.getLast? = some '-' then
      .error (.malformed (here.drop (label.length - 1)) .labelEnd)
    else if last && c.isDigit then .error (.malformed here .numericTopLabel)
    else .ok ()
  | _ :: _, bad => .error (.malformed (here.drop (label.length - bad.length)) .labelCharacter)

def checkLabels (body tail : List Char) : Except Stop Unit :=
  match _h : splitLabel body with
  | (label, none) => checkLabel label (body ++ tail) true
  | (label, some rest) => do
    checkLabel label (body ++ tail) false
    checkLabels rest tail
termination_by body.length
decreasing_by exact length_of_splitLabel _h

def withoutWildcard : List Char → List Char
  | '*' :: '.' :: cs => cs
  | cs => cs

def splitFinalDot (cs : List Char) : List Char × List Char :=
  if cs.getLast? = some '.' then (cs.dropLast, ['.']) else (cs, [])

def checkHost (host tail : List Char) : Except Stop Unit :=
  let (body, dot) := splitFinalDot (withoutWildcard host)
  if body = [] then .error (.malformed (dot ++ tail) .emptyHost) else checkLabels body (dot ++ tail)

def read (cs : List Char) : Except Stop HostName :=
  match Text.splitFirst? ':' cs with
  | none => do
    checkHost cs []
    return ⟨cs, none⟩
  | some (host, portText) => do
    let ports ← PortRange.read portText
    checkHost host (':' :: portText)
    return ⟨host, some ports⟩

def parse (text : String) : Except ValueError HostName :=
  (read text.toList).mapError (·.within .dnsName text.toList)

def chars (n : HostName) : List Char := n.host ++ PortRange.suffixChars n.ports

def text (n : HostName) : String := String.ofList n.chars

instance : ToString HostName := ⟨text⟩

def isWildcard (n : HostName) : Bool := ['*', '.'].isPrefixOf n.host

def trimDots (cs : List Char) : List Char := Text.trimRight (· == '.') cs

/-- A wildcard stands for one or more labels; dots at the end and the case of letters do not count.
None if the host would be cut inside a character. -/
def matchesHost? (n : HostName) (host : String) : Option Bool :=
  let candidate := trimDots host.toList
  match trimDots n.host with
  | '*' :: ending =>
    if Text.EndsBelow candidate ending then
      (Text.frontAt? candidate (Text.byteLength candidate - Text.byteLength ending)).map
        fun front => front.getLast? != some '.'
    else some false
  | own => some (decide (Text.EqFold own candidate))

end HostName

end PolicyValues
