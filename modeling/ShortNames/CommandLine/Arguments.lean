/-!
# Arguments

The words after the name of the command. Options and paths may be mixed; after `--` every word is a
path. The value of `--root` and a run of paths are only judged when the next known option, or the
end of the words, is reached.
-/

namespace ShortNames

inductive Flag
  | dryRun
  | check
  | verbose
  deriving DecidableEq, Repr

structure Arguments where
  paths : List String
  root : Option String
  flags : List Flag
  deriving DecidableEq, Repr

inductive ArgumentError
  | unexpected (word : String)
  | unexpectedValue (value option : String)
  | missingValue (argument : String)
  | repeated (argument : String)
  | conflict (first second : Flag)
  deriving DecidableEq, Repr

inductive Request
  | run (arguments : Arguments)
  | help
  | version
  deriving DecidableEq, Repr

namespace Flag

def name : Flag → String
  | dryRun => "--dry-run"
  | check => "--check"
  | verbose => "--verbose"

end Flag

namespace ArgumentError

def quoted (s : String) : String :=
  "'" ++ s ++ "'"

def message : ArgumentError → String
  | unexpected word => "unexpected argument " ++ quoted word ++ " found"
  | unexpectedValue value option =>
    "unexpected value " ++ quoted value ++ " for " ++ quoted option ++
      " found; no more were expected"
  | missingValue argument =>
    "a value is required for " ++ quoted argument ++ " but none was supplied"
  | repeated argument => "the argument " ++ quoted argument ++ " cannot be used multiple times"
  | conflict first second =>
    "the argument " ++ quoted first.name ++ " cannot be used with " ++ quoted second.name

end ArgumentError

namespace Arguments

def rootArgument : String := "--root <ROOT>"

def pathsArgument : String := "[PATHS]..."

inductive Pending
  | nothing
  | root (value : Option String)
  | paths (paths : List String)
  deriving DecidableEq, Repr

structure State where
  arguments : Arguments
  pending : Pending
  deriving DecidableEq, Repr

namespace State

def start : State := ⟨⟨[], none, []⟩, .nothing⟩

def settle (s : State) : Except ArgumentError State :=
  match s.pending with
  | .nothing => .ok s
  | .root none => .error (.missingValue rootArgument)
  | .root (some value) =>
    if s.arguments.root.isSome then .error (.repeated rootArgument)
    else if value.isEmpty then .error (.missingValue rootArgument)
    else .ok ⟨{ s.arguments with root := some value }, .nothing⟩
  | .paths paths =>
    if paths.any String.isEmpty then .error (.missingValue pathsArgument)
    else .ok ⟨{ s.arguments with paths := s.arguments.paths ++ paths }, .nothing⟩

def addFlag (s : State) (f : Flag) : Except ArgumentError State := do
  let s ← s.settle
  if f ∈ s.arguments.flags then .error (.repeated f.name)
  else .ok { s with arguments := { s.arguments with flags := s.arguments.flags ++ [f] } }

def addPath (s : State) (path : String) : Except ArgumentError State :=
  match s.pending with
  | .paths paths => .ok { s with pending := .paths (paths ++ [path]) }
  | _ => do
    let s ← s.settle
    return { s with pending := .paths [path] }

end State

/-- A state to go on from, or a request that needs no more words. -/
abbrev Progress := Except ArgumentError (State ⊕ Request)

def proceed (s : Except ArgumentError State) : Progress :=
  s.map .inl

def finish (s : State) (r : Request) : Progress :=
  s.settle.map fun _ => .inr r

/-- An option that takes no value, and does what `act` does. -/
def plain (name : String) (value : Option String) (act : Progress) : Progress :=
  match value with
  | some v => .error (.unexpectedValue v name)
  | none => act

/-- An option in full, with the value behind its equals sign. -/
def long (s : State) (name : String) (value : Option String) : Progress :=
  match name with
  | "--dry-run" => plain name value (proceed (s.addFlag .dryRun))
  | "--check" => plain name value (proceed (s.addFlag .check))
  | "--verbose" => plain name value (proceed (s.addFlag .verbose))
  | "--help" => plain name value (finish s .help)
  | "--version" => plain name value (finish s .version)
  | "--root" =>
    match value with
    | some v => do
      let s ← s.settle
      proceed (State.settle { s with pending := .root (some v) })
    | none => do
      let s ← s.settle
      return .inl { s with pending := .root none }
  | _ => .error (.unexpected name)

/-- One-letter options that share a dash. -/
def short (s : State) : List Char → Progress
  | [] => .ok (.inl s)
  | 'v' :: rest => do
    let s ← s.addFlag .verbose
    short s rest
  | 'h' :: _ => finish s .help
  | 'V' :: _ => finish s .version
  | c :: _ => .error (.unexpected (String.ofList ['-', c]))

/-- A word that is no option: the value that `--root` waits for, or a path. -/
def bare (s : State) (word : String) : Progress :=
  match s.pending with
  | .root none => .ok (.inl { s with pending := .root (some word) })
  | _ => proceed (s.addPath word)

/-- Split an option at its first equals sign. -/
def splitValue (word : List Char) : String × Option String :=
  match word.dropWhile (· ≠ '=') with
  | [] => (String.ofList word, none)
  | _ :: value => (String.ofList (word.takeWhile (· ≠ '=')), some (String.ofList value))

def step (s : State) (word : String) : Progress :=
  match word.toList with
  | '-' :: '-' :: rest =>
    let (name, value) := splitValue ('-' :: '-' :: rest)
    long s name value
  | '-' :: c :: rest => short s (c :: rest)
  | _ => bare s word

/-- All words are read: judge what is pending, and the flags together. -/
def conclude (s : State) : Except ArgumentError Request := do
  let s ← s.settle
  match s.arguments.flags.filter (· ≠ .verbose) with
  | first :: second :: _ => .error (.conflict first second)
  | _ => return .run s.arguments

def readPaths (s : State) : List String → Except ArgumentError Request
  | [] => conclude s
  | word :: rest => do
    let s ← s.addPath word
    readPaths s rest

def readFrom (s : State) : List String → Except ArgumentError Request
  | [] => conclude s
  | word :: rest =>
    if word = "--" then readPaths s rest
    else
      match step s word with
      | .error e => .error e
      | .ok (.inl s) => readFrom s rest
      | .ok (.inr r) => .ok r

def read (words : List String) : Except ArgumentError Request :=
  readFrom .start words

end Arguments

end ShortNames
