import PolicyValues.Toml.Basic

/-!
Tables while they are being written. A table may be implied by a header below it and be opened by
its own header later; a table made by a dotted key grows by dotted keys alone; any other is opened
once. A dotted key that leads through a list of tables goes on in the last one. Items that are no
such tables are closed.
-/
namespace PolicyValues.Toml

inductive TableOrigin where
  | implied | dotted | header
deriving DecidableEq, Repr

/-- Readings of documents differ in whether a dotted key may end right in an implied table. -/
structure Dialect where
  endsInImplied : Bool

namespace Dialect

def strict : Dialect := ⟨false⟩

def lenient : Dialect := ⟨true⟩

end Dialect

inductive Draft where
  | closed (item : Toml)
  | table (origin : TableOrigin) (members : List (String × Draft))
  | tables (done : List Draft) (last : List (String × Draft))

namespace Draft

abbrev Members := List (String × Draft)

def alter? (key : String) (f : Option Draft → Option Draft) : Members → Option Members
  | [] => (f none).map fun d => [(key, d)]
  | (k, d) :: rest =>
    if k = key then (f (some d)).map fun d => (k, d) :: rest
    else (alter? key f rest).map ((k, d) :: ·)

def within? (path : List String) (f : Members → Option Members) (members : Members) : Option Members :=
  match path with
  | [] => f members
  | key :: path =>
    members |> alter? key fun
      | none => (within? path f []).map (.table .implied)
      | some (.table origin inner) => (within? path f inner).map (.table origin)
      | some (.tables done last) => (within? path f last).map (.tables done)
      | some (.closed _) => none

def openTable? (path : List String) (members : Members) : Option Members := do
  let key ← path.getLast?
  members |> within? path.dropLast (alter? key fun
    | none => some (.table .header [])
    | some (.table .implied inner) => some (.table .header inner)
    | some _ => none)

def openNext? (path : List String) (members : Members) : Option Members := do
  let key ← path.getLast?
  members |> within? path.dropLast (alter? key fun
    | none => some (.tables [] [])
    | some (.tables done last) => some (.tables (done ++ [.table .header last]) [])
    | some _ => none)

def put? (d : Dialect) (item : Toml) : (path : List String) → Members → Option Members
  | [], _ => none
  | [key], members =>
    members |> alter? key fun
      | none => some (.closed item)
      | some _ => none
  | key :: next :: path, members =>
    members |> alter? key fun
      | none => (put? d item (next :: path) []).map (.table .dotted)
      | some (.table .dotted inner) => (put? d item (next :: path) inner).map (.table .dotted)
      | some (.table .implied inner) =>
        if path = [] && !d.endsInImplied then none
        else (put? d item (next :: path) inner).map (.table .implied)
      | some (.tables done last) =>
        if path = [] then none else (put? d item (next :: path) last).map (.tables done)
      | some _ => none

mutual

def finish : Draft → Toml
  | closed item => item
  | table _ members => .table (finishMembers members)
  | tables done last => .array (finishAll done ++ [.table (finishMembers last)])

def finishMembers : Members → Table
  | [] => []
  | (key, d) :: rest => (key, d.finish) :: finishMembers rest

def finishAll : List Draft → List Toml
  | [] => []
  | d :: rest => d.finish :: finishAll rest

end

end Draft

end PolicyValues.Toml
