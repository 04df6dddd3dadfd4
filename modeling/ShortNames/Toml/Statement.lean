import ShortNames.Toml.Scalar

/-!
# Statements of TOML

A document is a list of statements: a key with its value, or the header of a table. Values nest
less than `depthLimit` deep.
-/

namespace ShortNames.Toml

def depthLimit : Nat := 80

abbrev Key := List String

/-! ## Keys -/

def isBareKeyChar (c : Char) : Bool :=
  c.isAlphanum || c == '_' || c == '-'

def keyPart? (t : Text) : Option (String × Text) :=
  match t with
  | '"' :: _ | '\'' :: _ => (lineString? t).map fun (s, rest) => (String.ofList s, rest)
  | _ =>
    match t.takeWhile isBareKeyChar with
    | [] => none
    | part => some (String.ofList part, t.dropWhile isBareKeyChar)

/-- The parts of a key, with blanks allowed around each point, and what follows the last. -/
def keyParts? (t : Text) : Option (Key × Text) :=
  match keyPart? t with
  | none => none
  | some (part, rest) =>
    match skipSpace rest with
    | '.' :: after =>
      if (skipSpace after).length < t.length then
        (keyParts? (skipSpace after)).map fun (parts, last) => (part :: parts, last)
      else none
    | last => some ([part], last)
termination_by t.length

def key? (t : Text) : Option (Key × Text) :=
  (keyParts? t).bind fun (parts, rest) =>
    if parts.length < depthLimit then some (parts, rest) else none

/-! ## Blanks between the items of a list -/

/-- What follows the printable characters of a comment whose mark was read. -/
def afterComment (t : Text) : Text :=
  t.dropWhile isPrintable

/-- Skip blanks, line ends and comments. A comment has to end its line. -/
def skipGaps? (t : Text) : Option Text :=
  match t with
  | '#' :: t =>
    match newline? (afterComment t) with
    | some rest => if rest.length ≤ t.length then skipGaps? rest else none
    | none => none
  | '\r' :: '\n' :: t => skipGaps? t
  | c :: t => if isSpace c || c == '\n' then skipGaps? t else some (c :: t)
  | [] => some []
termination_by t.length

/-! ## Inline tables -/

/-- What a table under construction holds: a value that is complete, or a table that dotted keys
have opened. -/
inductive Slot where
  | value (v : Value)
  | opened (fields : List (String × Slot))

namespace Slot

mutual

def toValue : Slot → Value
  | .value v => v
  | .opened fields => .table (toFields fields)

def toFields : List (String × Slot) → List (String × Value)
  | [] => []
  | (key, s) :: rest => (key, toValue s) :: toFields rest

end

/-- Add a value under a dotted key. A key that has a value is not given another, and nothing is
added to a table that is complete. -/
def insert? (v : Value) : Key → List (String × Slot) → Option (List (String × Slot))
  | [], _ => none
  | [key], fields =>
    match fields.lookup key with
    | none => some (fields ++ [(key, .value v)])
    | some _ => none
  | key :: rest, fields =>
    match fields.lookup key with
    | none => (insert? v rest []).map fun inner => fields ++ [(key, .opened inner)]
    | some (.opened inner) =>
      (insert? v rest inner).map fun inner =>
        fields.map fun (k, s) => if k = key then (k, .opened inner) else (k, s)
    | some (.value _) => none

end Slot

def inlineTable? (pairs : List (Key × Value)) : Option Value :=
  (pairs.foldlM (fun fields (key, v) => Slot.insert? v key fields) []).map fun fields =>
    .table (Slot.toFields fields)

/-! ## Values -/

/-- The items of a list whose bracket was read, up to the closing one. -/
def items? (item : Reader Value) (t : Text) : Option (List Value × Text) := do
  match ← skipGaps? t with
  | ']' :: rest => return ([], rest)
  | start =>
    let (v, rest) ← item start
    match ← skipGaps? rest with
    | ']' :: rest => return ([v], rest)
    | ',' :: rest =>
      if rest.length < t.length then
        let (vs, last) ← items? item rest
        return (v :: vs, last)
      else none
    | _ => none
termination_by t.length

def pair? (item : Reader Value) (t : Text) : Option ((Key × Value) × Text) := do
  let (key, rest) ← key? t
  match rest with
  | '=' :: rest =>
    let (v, rest) ← item (skipSpace rest)
    return ((key, v), rest)
  | _ => none

def pairs? (item : Reader Value) (t : Text) : Option (List (Key × Value) × Text) := do
  let (p, rest) ← pair? item (skipSpace t)
  match skipSpace rest with
  | '}' :: rest => return ([p], rest)
  | ',' :: rest =>
    if rest.length < t.length then
      let (ps, last) ← pairs? item rest
      return (p :: ps, last)
    else none
  | _ => none
termination_by t.length

/-- A value that nests at most `depth` lists and tables. -/
def value? (depth : Nat) (t : Text) : Option (Value × Text) :=
  match depth, t with
  | 0, '[' :: _ | 0, '{' :: _ => none
  | d + 1, '[' :: t => (items? (value? d) t).map fun (vs, rest) => (.list vs, rest)
  | d + 1, '{' :: t =>
    match skipSpace t with
    | '}' :: rest => some (.table [], rest)
    | t => (pairs? (value? d) t).bind fun (ps, rest) => (inlineTable? ps).map fun v => (v, rest)
  | _, t => scalar? t

/-! ## Documents -/

inductive Statement
  | pair (key : Key) (v : Value)
  | table (key : Key)
  | tableItem (key : Key)

/-- The end of a statement: blanks, perhaps a comment, and the end of the line or of the text. -/
def lineEnd? (t : Text) : Option Text :=
  let t :=
    match skipSpace t with
    | '#' :: t => afterComment t
    | t => t
  if t.isEmpty then some [] else newline? t

def statement? : Reader Statement
  | '[' :: '[' :: t => do
    let (key, rest) ← key? (skipSpace t)
    let rest ← [']', ']'].isPrefixOf? rest
    return (.tableItem key, rest)
  | '[' :: t => do
    let (key, rest) ← key? (skipSpace t)
    let rest ← [']'].isPrefixOf? rest
    return (.table key, rest)
  | t => (pair? (value? (depthLimit - 1)) t).map fun ((key, v), rest) => (.pair key v, rest)

def statements? (t : Text) : Option (List Statement) := do
  match skipSpace t with
  | [] => return []
  | '#' :: _ | '\n' :: _ | '\r' :: _ =>
    let rest ← lineEnd? t
    if rest.length < t.length then statements? rest else none
  | start =>
    let (s, rest) ← statement? start
    let rest ← lineEnd? rest
    if rest.length < t.length then
      let others ← statements? rest
      return s :: others
    else none
termination_by t.length

end ShortNames.Toml
