import ShortNames.Toml.Statement

/-!
# Documents of TOML

The statements of a document build one table. Each key is given one value, a table has one header,
and dotted keys add only to tables that dotted keys have opened.
-/

namespace ShortNames.Toml

inductive Opening
  /-- Named on the way to another table. -/
  | implied
  /-- Named by a header. -/
  | headed
  /-- Named by a dotted key. -/
  | dotted
  deriving DecidableEq, Repr

inductive Node where
  | value (v : Value)
  | table (opening : Opening) (fields : List (String × Node))
  /-- A list of tables that grows by headers. -/
  | tables (items : List (List (String × Node)))

abbrev Fields := List (String × Node)

namespace Node

mutual

def toValue : Node → Value
  | .value v => v
  | .table _ fields => .table (toFields fields)
  | .tables items => .list (toItems items)

def toFields : List (String × Node) → List (String × Value)
  | [] => []
  | (key, n) :: rest => (key, toValue n) :: toFields rest

def toItems : List (List (String × Node)) → List Value
  | [] => []
  | fields :: rest => .table (toFields fields) :: toItems rest

end

end Node

namespace Fields

def replace (key : String) (n : Node) (fields : Fields) : Fields :=
  fields.map fun (k, old) => if k = key then (k, n) else (k, old)

/-- Change the table that the header `key` names, and name the tables on the way to it. Of a list of
tables the last is meant. -/
def alter? (f : Fields → Option Fields) : Key → Fields → Option Fields
  | [], fields => f fields
  | key :: rest, fields =>
    match fields.lookup key with
    | none => (alter? f rest []).map fun inner => fields ++ [(key, .table .implied inner)]
    | some (.table opening inner) =>
      (alter? f rest inner).map fun inner => replace key (.table opening inner) fields
    | some (.tables items) =>
      items.getLast?.bind fun last =>
        (alter? f rest last).map fun last => replace key (.tables (items.dropLast ++ [last])) fields
    | some (.value _) => none

def insert? (v : Value) : Key → Fields → Option Fields
  | [], _ => none
  | [key], fields =>
    match fields.lookup key with
    | none => some (fields ++ [(key, .value v)])
    | some _ => none
  | key :: next :: rest, fields =>
    match fields.lookup key with
    | none => (insert? v (next :: rest) []).map fun inner => fields ++ [(key, .table .dotted inner)]
    | some (.table .dotted inner) =>
      (insert? v (next :: rest) inner).map fun inner => replace key (.table .dotted inner) fields
    | some (.table .implied inner) =>
      if rest.isEmpty then none
      else
        (insert? v (next :: rest) inner).map fun inner =>
          replace key (.table .implied inner) fields
    | some (.tables items) =>
      if rest.isEmpty then none
      else
        items.getLast?.bind fun last =>
          (insert? v (next :: rest) last).map fun last =>
            replace key (.tables (items.dropLast ++ [last])) fields
    | some (.table .headed _) | some (.value _) => none

def openTable? (key : String) (fields : Fields) : Option Fields :=
  match fields.lookup key with
  | none => some (fields ++ [(key, .table .headed [])])
  | some (.table .implied inner) => some (replace key (.table .headed inner) fields)
  | _ => none

def openItem? (key : String) (fields : Fields) : Option Fields :=
  match fields.lookup key with
  | none => some (fields ++ [(key, .tables [[]])])
  | some (.tables items) => some (replace key (.tables (items ++ [[]])) fields)
  | _ => none

end Fields

/-- Carry out a statement. `current` is the header that is in force. -/
def perform? (current : Key) (root : Fields) : Statement → Option (Key × Fields)
  | .pair key v => (Fields.alter? (Fields.insert? v key) current root).map fun r => (current, r)
  | .table key =>
    key.getLast?.bind fun last =>
      (Fields.alter? (Fields.openTable? last) key.dropLast root).map fun r => (key, r)
  | .tableItem key =>
    key.getLast?.bind fun last =>
      (Fields.alter? (Fields.openItem? last) key.dropLast root).map fun r => (key, r)

/-- The table that a document writes. A mark of the byte order in front of it is skipped. -/
def read? (t : Text) : Option Value := do
  let t := (['\uFEFF'].isPrefixOf? t).getD t
  let statements ← statements? t
  let (_, root) ← statements.foldlM (fun (current, root) s => perform? current root s) ([], [])
  return .table (Node.toFields root)

end ShortNames.Toml
