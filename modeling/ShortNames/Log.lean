import ShortNames.Event
import ShortNames.Settings

/-!
# The log

Which events are logged, and how. A filter is a list of rules for targets; the rule with the longest
target that an event's target starts with decides, and without one the event is not logged.
-/

namespace ShortNames

namespace Level

/-- The level that a name or a number from 1 (errors) to 5 (everything) stands for. -/
def ofName? (s : String) : Option Level :=
  match Environment.natural? s.toList with
  | some 1 => some error
  | some 2 => some warn
  | some 3 => some info
  | some 4 => some debug
  | some 5 => some trace
  | _ =>
    let name := s.map Char.toUpper
    [error, warn, info, debug, trace].find? fun l => l.name == name

end Level

structure LogRule where
  target : Text
  /-- The least level that is logged; without one nothing is. -/
  least : Option Level
  deriving DecidableEq, Repr

abbrev LogFilter := List LogRule

namespace LogRule

def applies (r : LogRule) (e : Event) : Bool :=
  (r.target.isPrefixOf? e.target.toList).isSome

def admits (r : LogRule) (e : Event) : Bool :=
  r.least.any fun l => l.rank ≤ e.level.rank

/-- The threshold that a name stands for. No name at all stands for errors. -/
def threshold? (name : Text) : Option (Option Level) :=
  let s := String.ofList name
  if name.isEmpty then some (some .error)
  else if s.map Char.toLower = "off" ∨ Environment.natural? name = some 0 then some none
  else (Level.ofName? s).map some

def isOpening (c : Char) : Bool :=
  Text.isAlphanumeric c || c == '-' || c == ':' || c == '_'

/-- A rule is a threshold for everything, a target that is logged in full, or a target with its
threshold after an equals sign. -/
def ofText? (t : Text) : Option LogRule :=
  if !t.head?.any isOpening then none
  else
    match Text.cut? ['='] t with
    | some (target, []) => some ⟨target, some .trace⟩
    | some (target, name) => (threshold? name).map fun least => ⟨target, least⟩
    | none =>
      match threshold? t with
      | some least => some ⟨[], least⟩
      | none => some ⟨t, some .trace⟩

end LogRule

namespace LogFilter

def ofText? (s : String) : Option LogFilter :=
  ((Text.parts ',' s.toList).filter fun t => !t.isEmpty).mapM LogRule.ofText?

/-- The rule that decides about an event: of those that apply the one with the longest target, and
of equal targets the last. -/
def rule? (f : LogFilter) (e : Event) : Option LogRule :=
  (f.filter fun r => r.applies e).foldl
    (fun best r =>
      match best with
      | some b => if b.target.length ≤ r.target.length then some r else some b
      | none => some r)
    none

def admits (f : LogFilter) (e : Event) : Bool :=
  (f.rule? e).any fun r => r.admits e

end LogFilter

namespace Logging

/-- The filter that a level gives; an unknown level is `info`. -/
def filter (l : Logging) : LogFilter :=
  [⟨[], some ((Level.ofName? l.level).getD .info)⟩]

/-- The filter in force: that of the variable `RUST_LOG`, if it has one that conforms. -/
def filterIn (l : Logging) (env : Environment) : LogFilter :=
  ((env.lookup "RUST_LOG").bind LogFilter.ofText?).getD l.filter

/-- The format in force: that of the variable `LOG_FORMAT`, if it names one. -/
def formatIn (l : Logging) (env : Environment) : LogFormat :=
  match (env.lookup "LOG_FORMAT").map fun s => s.map Char.toLower with
  | some "json" => .json
  | some "pretty" => .pretty
  | some "human" => .pretty
  | _ => l.format

end Logging

namespace Event

def jsonString (s : String) : String :=
  let escape (c : Char) : Text :=
    if c = '"' then ['\\', '"']
    else if c = '\\' then ['\\', '\\']
    else if c.toNat < 0x20 then
      let digits := Nat.toDigits 16 c.toNat
      ['\\', 'u'] ++ List.replicate (4 - digits.length) '0' ++ digits
    else [c]
  String.ofList ('"' :: s.toList.flatMap escape ++ ['"'])

def fieldJson : String × Field → String
  | (key, .text s) => jsonString key ++ ":" ++ jsonString s
  | (key, .count n) => jsonString key ++ ":" ++ toString n

def line (format : LogFormat) (e : Event) : String :=
  match format with
  | .json =>
    "\x7b\"level\":" ++ jsonString e.level.name ++ ",\"fields\":\x7b" ++
      ",".intercalate (fieldJson ("message", .text e.message) :: e.fields.map fieldJson) ++
      "\x7d,\"target\":" ++ jsonString e.target ++ "\x7d"
  | .pretty =>
    let field : String × Field → String
      | (key, .text s) => ", " ++ key ++ ": " ++ s
      | (key, .count n) => ", " ++ key ++ ": " ++ toString n
    e.level.name ++ " " ++ e.target ++ ": " ++ e.message ++ String.join (e.fields.map field)

end Event

end ShortNames
