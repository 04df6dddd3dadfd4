import ShortNames.Binary64
import ShortNames.Text

/-!
# Values

What a settings file or a variable can say. `Value.merge` lays one value over another: tables merge
key by key, anything else replaces what was there.
-/

namespace ShortNames

inductive Value where
  | bool (b : Bool)
  /-- A number that may have a sign. -/
  | integer (i : Int)
  /-- A number written where only natural numbers are expected. -/
  | natural (n : Nat)
  | float (x : Binary64)
  | string (s : String)
  | list (items : List Value)
  | table (fields : List (String × Value))
  deriving Repr

namespace Value

/-- Integers go from the negative of this number up to the one before it. -/
def integerLimit : Nat := Nat.pow 2 63

/-- Natural numbers go up to the one before this number. -/
def naturalLimit : Nat := Nat.pow 2 64

/-- Give a key its value, in place of the one it has. -/
def setField (key : String) (v : Value) : List (String × Value) → List (String × Value)
  | [] => [(key, v)]
  | (k, w) :: rest => if k = key then (k, v) :: rest else (k, w) :: setField key v rest

def field? (key : String) : Value → Option Value
  | table fields => fields.lookup key
  | _ => none

mutual

/-- Lay a value over `base`. -/
def merge (base : Value) : Value → Value
  | table fields =>
    match base with
    | table old => table (mergeFields old fields)
    | _ => table fields
  | v => v

def mergeFields (base : List (String × Value)) : List (String × Value) → List (String × Value)
  | [] => base
  | (key, v) :: rest =>
    let merged :=
      match base.lookup key with
      | some old => merge old v
      | none => v
    mergeFields (setField key merged base) rest

end

def nest (v : Value) : List String → Value
  | [] => v
  | key :: rest => table [(key, nest v rest)]

/-- A step into a value: a field of a table or an item of a list. -/
inductive Step
  | field (key : String)
  | item (i : Nat)
  deriving DecidableEq, Repr

namespace Step

def text : Step → String
  | field key => key
  | item i => String.ofList (Nat.toDigits 10 i)

end Step

def get? (v : Value) : List Step → Option Value
  | [] => some v
  | .field key :: rest => (v.field? key).bind fun w => w.get? rest
  | .item i :: rest =>
    match v with
    | list items => items[i]?.bind fun w => w.get? rest
    | _ => none

end Value

end ShortNames
