import ShortNames.Toml.Scalar

/-!
# The environment

The variables that a process finds. A variable that sets something holds one value in a small
grammar of its own; text that does not conform to the grammar as a whole is a string.
-/

namespace ShortNames

/-- Variables with their values, each name once. -/
abbrev Environment := List (String × String)

namespace Environment

open Toml (Reader)

def isSpace (c : Char) : Bool :=
  c == ' ' || c == '\t' || c == '\n' || c == '\r' || c == '\x0c'

def skipSpace (t : Text) : Text :=
  t.dropWhile isSpace

def isSeparator (c : Char) : Bool :=
  c == ',' || c == '{' || c == '}' || c == '[' || c == ']'

/-! ## Numbers -/

def allDigits? (t : Text) : Option Nat :=
  if t.isEmpty || !t.all Char.isDigit then none else some (Toml.ofDigits 10 t)

def natural? (t : Text) : Option Nat :=
  let digits :=
    match t with
    | '+' :: t => t
    | t => t
  (allDigits? digits).bind fun n => if n < Value.naturalLimit then some n else none

def negative? : Text → Option Int
  | '-' :: t => (allDigits? t).bind fun n => if n ≤ Value.integerLimit then some (-n) else none
  | _ => none

def exponent? : Text → Option Int
  | [] => some 0
  | c :: t =>
    if c = 'e' ∨ c = 'E' then
      let (negative, rest) := Toml.signed t
      (allDigits? rest).map fun n => if negative then -(n : Int) else n
    else none

def float? (t : Text) : Option Binary64 :=
  let (negative, rest) := Toml.signed t
  let whole := rest.takeWhile Char.isDigit
  match rest.dropWhile Char.isDigit with
  | '.' :: after =>
    let places := after.takeWhile Char.isDigit
    if whole.isEmpty && places.isEmpty then none
    else
      (exponent? (after.dropWhile Char.isDigit)).map fun e =>
        Binary64.ofDecimal negative (Toml.ofDigits 10 (whole ++ places)) (e - places.length)
  | _ => none

def ofWord (w : Text) : Value :=
  match float? w with
  | some x => .float x
  | none =>
    match natural? w with
    | some n => .natural n
    | none =>
      match negative? w with
      | some i => .integer i
      | none => .string (String.ofList w)

/-! ## Values -/

/-- Items with a comma after each but the last, where it may stand, up to the closing mark. -/
def items? {α : Type} (item : Reader α) (close : Char) (t : Text) : Option (List α × Text) :=
  if t.head? = some close then some ([], t.tail)
  else
    match item t with
    | none => none
    | some (a, rest) =>
      match rest with
      | [] => none
      | c :: rest =>
        if c = ',' then
          if rest.length < t.length then
            (items? item close rest).map fun (as, last) => (a :: as, last)
          else none
        else if c = close then some ([a], rest)
        else none
termination_by t.length

def quoted? : Reader Text
  | '"' :: t => Toml.basicRest? t
  | _ => none

def key? (t : Text) : Option (String × Text) :=
  match t with
  | '"' :: _ => (quoted? t).map fun (s, rest) => (String.ofList s, rest)
  | _ =>
    match t.takeWhile fun c => c.isAlphanum || c == '_' || c == '-' with
    | [] => none
    | k => some (String.ofList k, t.drop k.length)

def pair? (item : Reader Value) (t : Text) : Option ((String × Value) × Text) := do
  let (key, rest) ← key? (skipSpace t)
  match skipSpace rest with
  | '=' :: rest =>
    let (v, rest) ← item rest
    return ((key, v), rest)
  | _ => none

/-- A value that is no bare word and has no blanks around it. -/
def enclosed? (item : Reader Value) : Reader Value
  | '{' :: t =>
    (items? (pair? item) '}' t).map fun (pairs, rest) =>
      (.table (pairs.foldl (fun fields (key, v) => Value.setField key v fields) []), rest)
  | '[' :: t => (items? item ']' t).map fun (vs, rest) => (.list vs, rest)
  | '"' :: t => (quoted? ('"' :: t)).map fun (s, rest) => (.string (String.ofList s), rest)
  | '\'' :: c :: '\'' :: t => some (.string (String.singleton c), t)
  | _ => none

/-- A value with blanks around it that nests less than `depth` lists and tables. -/
def value? (depth : Nat) (t : Text) : Option (Value × Text) :=
  match depth with
  | 0 => none
  | d + 1 =>
    let t := skipSpace t
    match ['t', 'r', 'u', 'e'].isPrefixOf? t, ['f', 'a', 'l', 's', 'e'].isPrefixOf? t with
    | some rest, _ => some (.bool true, skipSpace rest)
    | none, some rest => some (.bool false, skipSpace rest)
    | none, none =>
      match t with
      | '{' :: _ | '[' :: _ | '"' :: _ | '\'' :: _ =>
        (enclosed? (value? d) t).map fun (v, rest) => (v, skipSpace rest)
      | _ =>
        let isPart (c : Char) : Bool := !isSeparator c
        some (ofWord (Text.trim (t.takeWhile isPart)), t.dropWhile isPart)

def value (s : String) : Value :=
  match value? (s.length + 1) s.toList with
  | some (v, []) => v
  | _ => .string s

/-! ## Names -/

def settingPrefix : Text := "DEQUALIFY_".toList

/-- Replace each pair of underscores by a point, from the left. -/
def dotted : Text → Text
  | '_' :: '_' :: t => '.' :: dotted t
  | c :: t => c :: dotted t
  | [] => []

/-- The key that a variable of this name sets, in lower case. A name with an empty part
sets none. -/
def settingKey? (name : String) : Option (List String) :=
  let name := Text.trim name.toList
  match (settingPrefix.map Char.toLower).isPrefixOf? (name.map Char.toLower) with
  | none => none
  | some rest =>
    let parts := Text.parts '.' (Text.trim (dotted rest))
    if parts.any List.isEmpty then none else some (parts.map String.ofList)

def assign (env : Environment) (name value : String) : Environment :=
  if (env.lookup name).isSome then
    env.map fun (n, v) => if n = name then (n, value) else (n, v)
  else env ++ [(name, value)]

def table (env : Environment) : Value :=
  env.foldl
    (fun v (name, s) =>
      match settingKey? name with
      | some key => v.merge (.nest (value s) key)
      | none => v)
    (.table [])

end Environment

end ShortNames
