import ShortNames.Text

/-!
# Paths

A path is text: joining and going up never look at a disk and never normalise. Its segments are
what stands between the separators; empty segments and `.` mean nothing, save for a `.` that opens
a relative path.
-/

namespace ShortNames

structure Path where
  text : String
  deriving DecidableEq, Repr

namespace Path

def isAbsolute (p : Path) : Bool :=
  p.text.toList.head? == some '/'

/-- The segments, without the one before the separator that opens an absolute path. -/
def segments (p : Path) : List Text :=
  match p.text.toList with
  | '/' :: t => Text.parts '/' t
  | t => Text.parts '/' t

/-- `q` seen from `p`. An absolute `q` stands by itself. -/
def join (p q : Path) : Path :=
  if q.isAbsolute then q
  else if p.text.isEmpty || p.text.toList.getLast? == some '/' then ⟨p.text ++ q.text⟩
  else ⟨p.text ++ "/" ++ q.text⟩

/-- Drop the segments that mean nothing from the end of a path, given in reverse. -/
def dropIdle (absolute : Bool) : List Text → List Text
  | [] => []
  | s :: rest =>
    if s = [] || (s = ['.'] && (absolute || !rest.isEmpty)) then dropIdle absolute rest
    else s :: rest

def render (absolute : Bool) (segments : List Text) : Path :=
  ⟨(if absolute then "/" else "") ++ String.ofList (['/'].intercalate segments)⟩

/-- The path without its last segment. The root and the empty path have no parent. -/
def parent? (p : Path) : Option Path :=
  match dropIdle p.isAbsolute p.segments.reverse with
  | [] => none
  | _ :: rest => some (render p.isAbsolute (dropIdle p.isAbsolute rest).reverse)

/-- The path, its parent, the parent of that, and so on. -/
def ancestors (p : Path) : List Path :=
  match p.parent? with
  | none => [p]
  | some q => if q.text.length < p.text.length then p :: q.ancestors else [p]
termination_by p.text.length

def fileName? (p : Path) : Option Text :=
  match dropIdle p.isAbsolute p.segments.reverse with
  | s :: _ => if s = ['.'] ∨ s = ['.', '.'] then none else some s
  | [] => none

def components (p : Path) : List Text :=
  match p.segments with
  | [] => []
  | s :: rest =>
    let rest := rest.filter fun s => s ≠ [] ∧ s ≠ ['.']
    if s = [] || (s = ['.'] && p.isAbsolute) then rest else s :: rest

/-- Whether two paths say the same, whatever they add that means nothing. -/
def sameAs (p q : Path) : Bool :=
  p.isAbsolute == q.isAbsolute && p.components == q.components

/-- What follows the last `.` of a file name. A `.` that opens the name starts no extension. -/
def extensionOf? (name : Text) : Option Text :=
  match name.reverse.dropWhile (· ≠ '.') with
  | _ :: _ :: _ => some name.lastSegment
  | _ => none

def hasExtension (p : Path) (extension : String) : Bool :=
  p.fileName?.bind extensionOf? == some extension.toList

end Path

end ShortNames
