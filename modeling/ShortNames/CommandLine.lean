import ShortNames.Batch
import ShortNames.CommandLine.Arguments
import ShortNames.Log

/-!
# The command

A run of the command finds the project root, loads the settings, revises the targets in a batch, and
tells what it did: on the standard output, in the log, and by its exit status.
-/

namespace ShortNames

/-- What a run of the command leaves behind besides the files. -/
structure Exit where
  status : Nat
  output : String
  /-- What is said on the standard error stream besides the log. -/
  diagnostic : Option String
  format : LogFormat
  log : List Event
  deriving Repr

namespace Exit

def silent (status : Nat) (output : String) (diagnostic : Option String) : Exit :=
  ⟨status, output, diagnostic, .pretty, []⟩

end Exit

structure Surroundings where
  directory : Path
  environment : Environment

namespace CommandLine

def helpText : String :=
  String.join <| List.map (· ++ "\n")
    ["Replace fully qualified Java type references with imports",
     "",
     "Usage: dequalify [OPTIONS] [PATHS]...",
     "",
     "Arguments:",
     "  [PATHS]...  Files or directories to process instead of the configured source roots",
     "",
     "Options:",
     "      --root <ROOT>  Project root to use instead of searching upward for \x60.git\x60",
     "      --dry-run      Report what would change without writing any file",
     "      --check        Like --dry-run, but exit with status 1 if any file would change",
     "  -v, --verbose      Enable debug logging",
     "  -h, --help         Print help",
     "  -V, --version      Print version"]

def versionText : String := "dequalify 0.1.0\n"

def rootMarkers : List String := [".git"]

variable {m : Type → Type} [Monad m]

/-- Where a path to a settings file may lead: a relative one is looked for from the working
directory and every directory above it. -/
def candidates (directory path : Path) : List Path :=
  if path.isAbsolute then [path] else directory.ancestors.map fun p => p.join path

/-- The first of some paths that leads to a file, with what it holds. -/
def firstFile? (d : Disk m) : List Path → m (Option (Path × Except Cause Text))
  | [] => pure none
  | p :: rest => do
    if (← d.kind? p) = some .file then return some (p, ← d.read p) else firstFile? d rest

def loadSettings (d : Disk m) (s : Surroundings) (root : Path) :
    m (Except SettingsError Settings) := do
  let file ← firstFile? d (candidates s.directory (Settings.filePath root))
  return Settings.load file s.environment

def mode (a : Arguments) : Mode :=
  if .dryRun ∈ a.flags ∨ .check ∈ a.flags then .dryRun else .write

/-- The settings with what the arguments say over them. -/
def overridden (a : Arguments) (s : Settings) : Settings :=
  if .verbose ∈ a.flags then { s with logging := { s.logging with level := "debug" } } else s

def updateLine (o : Outcome) : String :=
  (if o.written then "Updated" else "Would update") ++ ": " ++ o.path.text ++ " (" ++
    toString o.newImports.length ++ " new imports)\n"

def outputOf (root : Path) (r : Report) : String :=
  "Project root: " ++ root.text ++ "\n" ++ String.join (r.updates.map updateLine) ++
    "Total files analyzed: " ++ toString r.summary.analyzed ++ "\n"

def eventsOf (r : Report) : List Event :=
  let s := r.summary
  r.events ++ [.finished s.updated s.importsAdded s.skippedTrees] ++
    (if 0 < s.failed then [.incomplete s.failed] else [])

def checkMessage (updated : Nat) : String :=
  toString updated ++ " file(s) contain fully qualified references that can be imported"

/-- What a batch comes to as a whole. -/
def exitOf (env : Environment) (a : Arguments) (root : Path) (s : Settings)
    (r : Report) : Exit :=
  let updated := r.summary.updated
  let failed := .check ∈ a.flags ∧ 0 < updated
  let filter := s.logging.filterIn env
  { status := if failed then 1 else 0
    output := outputOf root r
    diagnostic := if failed then some (checkMessage updated) else none
    format := s.logging.formatIn env
    log := (eventsOf r).filter fun e => filter.admits e }

/-- The directory that a run works on. -/
def rootOf (d : Disk m) (around : Surroundings) (a : Arguments) : m Path :=
  match a.root with
  | some root => pure ⟨root⟩
  | none => d.projectRoot around.directory rootMarkers

/-- The paths of the command line, or else the source roots of the settings. -/
def targetsOf (a : Arguments) (root : Path) (s : Settings) : List Path :=
  if a.paths.isEmpty then s.sourceTrees root else a.paths.map Path.mk

def batch (d : Disk m) (a : Arguments) (root : Path) (s : Settings) : m Report :=
  Batch.run d s.options (mode a) s.extension (targetsOf a root s)

/-- Run with arguments that were read. -/
def runWith (d : Disk m) (around : Surroundings) (a : Arguments) : m Exit := do
  let root ← rootOf d around a
  if (← d.kind? root) ≠ some .directory then
    return Exit.silent 1 "" (some ("Error: Project root " ++ root.text ++ " is not a directory"))
  match ← loadSettings d around root with
  | .error _ =>
    return Exit.silent 1 "" (some ("Error: Failed to load configuration under " ++ root.text))
  | .ok settings =>
    let settings := overridden a settings
    let report ← batch d a root settings
    return exitOf around.environment a root settings report

def run (d : Disk m) (around : Surroundings) (words : List String) : m Exit :=
  match Arguments.read words with
  | .error e => pure (Exit.silent 2 "" (some ("error: " ++ e.message)))
  | .ok .help => pure (Exit.silent 0 helpText none)
  | .ok .version => pure (Exit.silent 0 versionText none)
  | .ok (.run a) => runWith d around a

end CommandLine

end ShortNames
