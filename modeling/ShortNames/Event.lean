import ShortNames.Failure
import ShortNames.Revision
import ShortNames.Text.Quoted

/-!
# Events

What a run tells about itself, from single decisions up to totals. An event has a level, the part of
the program that it comes from, a message, and fields with the particulars.
-/

namespace ShortNames

/-- How much an event matters, from what only a search for errors needs up to errors. -/
inductive Level
  | trace
  | debug
  | info
  | warn
  | error
  deriving DecidableEq, Repr

namespace Level

def name : Level → String
  | trace => "TRACE"
  | debug => "DEBUG"
  | info => "INFO"
  | warn => "WARN"
  | error => "ERROR"

def rank : Level → Nat
  | trace => 0
  | debug => 1
  | info => 2
  | warn => 3
  | error => 4

end Level

inductive Field
  | text (s : String)
  | count (n : Nat)
  deriving DecidableEq, Repr

inductive Event
  | remark (r : Header.Remark)
  | judged (q : QualifiedName) (v : Verdict)
  | revised (replacements newImports insertAt : Nat)
  | unchanged (path : Path)
  | treeEntered (target : Path) (files : Nat)
  | extensionRefused (path : Path) (extension : String)
  | treeSkipped (failure : Failure)
  | fileFailed (failure : Failure)
  | finished (updated importsAdded skippedTrees : Nat)
  | incomplete (failed : Nat)
  deriving DecidableEq, Repr

namespace Verdict

def labelled (label part : String) (t : Text) : String :=
  label ++ " \x7b " ++ part ++ ": " ++ String.ofList t.quote ++ " \x7d"

def text : Verdict → String
  | exempt => "Exempt"
  | builtIn => "BuiltIn"
  | samePackage => "SamePackage"
  | covered => "WildcardCovered"
  | alreadyImported => "AlreadyImported"
  | alreadyStaged => "AlreadyStaged"
  | staged => "Staged"
  | shadowConflict existing => labelled "ShadowConflict" "existing" existing
  | pendingConflict claimant => labelled "PendingConflict" "staged" claimant
  | bareConflict => "BareNameConflict"

end Verdict

namespace Event

def level : Event → Level
  | remark _ | judged .. => .trace
  | revised .. | unchanged _ => .debug
  | treeEntered .. | finished .. => .info
  | extensionRefused .. | treeSkipped _ | incomplete _ => .warn
  | fileFailed _ => .error

def target : Event → String
  | remark _ => "mill_dequalify::header"
  | judged .. => "mill_dequalify::resolver"
  | revised .. => "mill_dequalify::rewriter"
  | unchanged _ | treeEntered .. | extensionRefused .. | treeSkipped _ | fileFailed _ =>
    "mill_dequalify::workspace"
  | finished .. | incomplete _ => "dequalify::cli"

def message : Event → String
  | remark (.packageFound ..) => "Found package declaration"
  | remark (.malformedImport _) => "Ignoring malformed import"
  | judged .. => "Resolved qualified name"
  | revised .. => "Rewrote source"
  | unchanged _ => "No changes"
  | treeEntered .. => "Processing source tree"
  | extensionRefused .. => "Skipping file with unrecognized extension"
  | treeSkipped _ => "Skipping source tree"
  | fileFailed _ => "Failed to process file"
  | finished .. => "Run complete"
  | incomplete _ => "Some files could not be processed"

def fields : Event → List (String × Field)
  | remark (.packageFound line name) =>
    [("line", .count line), ("package", .text (String.ofList name))]
  | remark (.malformedImport path) => [("import", .text (String.ofList path))]
  | judged q v => [("qualified", .text (String.ofList q.text)), ("resolution", .text v.text)]
  | revised replacements newImports insertAt =>
    [("replacements", .count replacements), ("new_imports", .count newImports),
      ("insert_at", .count insertAt)]
  | unchanged path => [("path", .text path.text)]
  | treeEntered target files => [("target", .text target.text), ("files", .count files)]
  | extensionRefused path extension =>
    [("path", .text path.text), ("extension", .text extension)]
  | treeSkipped failure => [("error", .text failure.message)]
  | fileFailed failure =>
    [("error", .text failure.message), ("path", .text failure.path.text)]
  | finished updated importsAdded skippedTrees =>
    [("updated", .count updated), ("imports_added", .count importsAdded),
      ("skipped_trees", .count skippedTrees)]
  | incomplete failed => [("failed", .count failed)]

def ofReading (r : Reading) : List Event :=
  (Header.remarks (r.lines.map Line.body)).map remark ++
    r.judgements.map (fun (q, v) => judged q v) ++
    ((Revision.ofReading? r).toList.map fun v =>
      revised v.replacements v.newImports.length r.header.insertAt)

end Event

end ShortNames
