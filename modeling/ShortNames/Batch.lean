import ShortNames.Disk
import ShortNames.Event

/-!
# Batches

A batch revises every source file that its targets name or hold. Each file is visited on its own: a
file that cannot be read or written is told and counted, and the batch goes on. What a batch did is
its report; updates, totals and events are read off the report.
-/

namespace ShortNames

/-- What becomes of a revision: it replaces the file, or it is only told. -/
inductive Mode
  | write
  | dryRun
  deriving DecidableEq, Repr

structure Outcome where
  path : Path
  newImports : List Text
  replacements : Nat
  written : Bool
  deriving DecidableEq, Repr

structure Visit where
  notes : List Event
  result : Except Failure (Option Outcome)

namespace Visit

def outcome? (v : Visit) : Option Outcome :=
  match v.result with
  | .ok o => o
  | .error _ => none

def failure? (v : Visit) : Option Failure :=
  match v.result with
  | .ok _ => none
  | .error f => some f

end Visit

namespace Outcome

def ofRevision (path : Path) (written : Bool) (r : Revision) : Outcome :=
  ⟨path, r.newImports, r.replacements, written⟩

end Outcome

namespace Batch

variable {m : Type → Type} [Monad m]

def visit (d : Disk m) (o : Options) (mode : Mode) (path : Path) : m Visit := do
  match ← d.read path with
  | .error cause => pure ⟨[], .error (.read path cause)⟩
  | .ok source =>
    let reading := Reading.ofText o source
    let notes := Event.ofReading reading
    match Revision.ofReading? reading, mode with
    | none, _ => pure ⟨notes ++ [.unchanged path], .ok none⟩
    | some r, .dryRun => pure ⟨notes, .ok (some (.ofRevision path false r))⟩
    | some r, .write =>
      match ← d.write path r.content with
      | .ok () => pure ⟨notes, .ok (some (.ofRevision path true r))⟩
      | .error cause => pure ⟨notes, .error (.write path cause)⟩

inductive Section
  | entered (target : Path) (visits : List Visit)
  | refused (target : Path) (extension : String)
  | skipped (failure : Failure)

namespace Section

def visits : Section → List Visit
  | entered _ visits => visits
  | _ => []

def isSkipped : Section → Bool
  | skipped _ => true
  | _ => false

def events : Section → List Event
  | entered target visits =>
    .treeEntered target visits.length ::
      visits.flatMap fun v => v.notes ++ v.failure?.toList.map .fileFailed
  | refused target extension => [.extensionRefused target extension]
  | skipped failure => [.treeSkipped failure]

end Section

/-- The files of one target: the file itself, or the source files below a directory. `none` stands
for a file with another extension. -/
def filesOf (d : Disk m) (extension : String) (target : Path) :
    m (Except Failure (Option (List Path))) := do
  if (← d.kind? target) = some .file then
    pure (.ok (if target.hasExtension extension then some [target] else none))
  else
    return (← d.sourceFiles target extension).map some

def runTarget (d : Disk m) (o : Options) (mode : Mode) (extension : String) (target : Path) :
    m Section := do
  match ← filesOf d extension target with
  | .ok (some files) => return .entered target (← files.mapM (visit d o mode))
  | .ok none => pure (.refused target extension)
  | .error failure => pure (.skipped failure)

end Batch

abbrev Report := List Batch.Section

def Batch.run {m : Type → Type} [Monad m] (d : Disk m) (o : Options) (mode : Mode)
    (extension : String) (targets : List Path) : m Report :=
  targets.mapM (Batch.runTarget d o mode extension)

structure Summary where
  analyzed : Nat
  updated : Nat
  importsAdded : Nat
  failed : Nat
  skippedTrees : Nat
  deriving DecidableEq, Repr

namespace Report

def visits (r : Report) : List Visit :=
  r.flatMap Batch.Section.visits

/-- The files that changed or would change, in the order of the visits. -/
def updates (r : Report) : List Outcome :=
  r.visits.filterMap Visit.outcome?

def events (r : Report) : List Event :=
  r.flatMap Batch.Section.events

def summary (r : Report) : Summary where
  analyzed := r.visits.length
  updated := r.updates.length
  importsAdded := (r.updates.flatMap Outcome.newImports).length
  failed := (r.visits.filterMap Visit.failure?).length
  skippedTrees := r.countP Batch.Section.isSkipped

end Report

end ShortNames
