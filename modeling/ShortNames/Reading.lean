import ShortNames.BareName
import ShortNames.Comment
import ShortNames.Header
import ShortNames.Line
import ShortNames.Verdict

/-!
# Readings

The reading of a source text is everything that is decided about it: its lines, its header, and for
each code line the pieces that it is made of, with the verdict on each qualified name. Verdicts
fall in the order of the text, each with the names claimed before it.
-/

namespace ShortNames

/-- A part of a line as it will stand: copied, or a qualified name with its verdict. -/
inductive Piece
  | copied (t : Text)
  | judged (q : QualifiedName) (v : Verdict)
  deriving DecidableEq, Repr

namespace Piece

/-- What stands in the revised line. -/
def text : Piece → Text
  | copied t => t
  | judged q v => if v.shortens then q.name else q.text

def isShortened : Piece → Bool
  | copied _ => false
  | judged _ v => v.shortens

def judgement? : Piece → Option (QualifiedName × Verdict)
  | copied _ => none
  | judged q v => some (q, v)

end Piece

/-- A code line is neither a header line nor a comment line. -/
def Line.isCode (body : Text) : Bool :=
  !Declaration.isLine body && !Comment.isLine body

structure Reading where
  lines : List Line
  header : Header
  /-- The pieces of each line, in the order of the lines. -/
  pieces : List (List Piece)
  /-- The names after the last line. -/
  names : NameTable
  deriving Repr

namespace Reading

def judgeSegments (o : Options) (t : NameTable) : List Segment → List Piece × NameTable
  | [] => ([], t)
  | .qualified q :: rest =>
    let v := t.verdict o q
    let (pieces, last) := judgeSegments o (t.claim q v) rest
    (.judged q v :: pieces, last)
  | s :: rest =>
    let (pieces, last) := judgeSegments o t rest
    (.copied s.source :: pieces, last)

def judgeLine (o : Options) (t : NameTable) (body : Text) : List Piece × NameTable :=
  if Line.isCode body then judgeSegments o t (Segment.ofLine body) else ([.copied body], t)

def judgeLines (o : Options) (t : NameTable) : List Text → List (List Piece) × NameTable
  | [] => ([], t)
  | body :: rest =>
    let (pieces, next) := judgeLine o t body
    let (others, last) := judgeLines o next rest
    (pieces :: others, last)

def bareNames (bodies : List Text) : List Text :=
  (bodies.filter Line.isCode).flatMap BareName.ofLine

/-- The names of a file before its first line is judged. Bare names matter only where something is
imported on demand. -/
def startNames (header : Header) (bodies : List Text) : NameTable :=
  if header.names.onDemand.isEmpty then header.names
  else (bareNames bodies).foldl NameTable.addBare header.names

def ofText (o : Options) (source : Text) : Reading :=
  let lines := Line.split source
  let bodies := lines.map Line.body
  let header := Header.ofLines bodies
  let (pieces, names) := judgeLines o (startNames header bodies) bodies
  { lines, header, pieces, names }

/-- All verdicts, in the order of the text. -/
def judgements (r : Reading) : List (QualifiedName × Verdict) :=
  r.pieces.flatten.filterMap Piece.judgement?

def replacements (r : Reading) : Nat :=
  r.pieces.flatten.countP Piece.isShortened

def newImports (r : Reading) : List Text :=
  r.names.newImports

/-- The lines with every name as its verdict says; new imports are not among them. -/
def revisedLines (r : Reading) : List Line :=
  (r.pieces.zip r.lines).map fun (pieces, line) => ⟨pieces.flatMap Piece.text, line.ending⟩

end Reading

end ShortNames
