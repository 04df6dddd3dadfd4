import ShortNames.Reading

/-!
# Revisions

The revision of a source text writes qualified names short where its reading allows it, and adds
the imports that this takes. A text for which nothing would change has no revision.
-/

namespace ShortNames

def importLine (qualified : Text) : Text :=
  Declaration.importKeyword ++ ' ' :: qualified ++ [';']

structure Revision where
  content : Text
  /-- The types that the revision imports, in ascending order. -/
  newImports : List Text
  replacements : Nat
  deriving DecidableEq, Repr

namespace Revision

/-- The ending of new lines after the lines `before`: that of the last of them, else the first
ending in `lines`, else a line feed. -/
def blockEnding (before lines : List Line) : Ending :=
  match before.getLast? with
  | some ⟨_, .lf⟩ => .lf
  | some ⟨_, .crlf⟩ => .crlf
  | _ => (Line.firstEnding? lines).getD .lf

/-- Join a block of new lines to the lines before it. A line that lacked its ending gets one, and
the block then ends without. -/
def attach (ending : Ending) (before block : List Line) : List Line :=
  match before.getLast?, block.getLast? with
  | some ⟨body, .none⟩, some last =>
    before.dropLast ++ ⟨body, ending⟩ :: (block.dropLast ++ [⟨last.body, .none⟩])
  | _, _ => before ++ block

/-- Put the imports of `names` in front of line `i`. -/
def insertImports (i : Nat) (names : List Text) (lines : List Line) : List Line :=
  let before := lines.take i
  let ending := blockEnding before lines
  attach ending before (names.map fun q => ⟨importLine q, ending⟩) ++ lines.drop i

def ofReading? (r : Reading) : Option Revision :=
  if r.replacements = 0 ∧ r.names.staged = [] then none
  else
    some
      { content := Line.join (insertImports r.header.insertAt r.newImports r.revisedLines)
        newImports := r.newImports
        replacements := r.replacements }

end Revision

def revise (o : Options) (source : Text) : Option Revision :=
  Revision.ofReading? (Reading.ofText o source)

end ShortNames
