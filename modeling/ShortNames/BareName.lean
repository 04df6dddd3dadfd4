import ShortNames.Segment

/-!
# Bare type names

An identifier in upper case that stands by itself in a code line names a type that something else
has brought into scope.
-/

namespace ShortNames.BareName

/-- The longest runs of identifier characters, each with the character before it. -/
def runs (before : Option Char) : Text → List (Option Char × Text)
  | [] => []
  | c :: t =>
    if Text.isIdentifier c then
      (before, c :: t.takeWhile Text.isIdentifier) :: runs none (t.dropWhile Text.isIdentifier)
    else runs (some c) t
termination_by t => t.length
decreasing_by
  · have := (t.dropWhile_sublist Text.isIdentifier).length_le
    grind
  · simp

/-- The runs of one piece of text that name a type: they start with an ASCII capital and are no
member of what stands before them. -/
def ofText (t : Text) : List Text :=
  (runs none t).filterMap fun (before, run) =>
    if before ≠ some '.' ∧ run.head?.any Char.isUpper then some run else none

def ofLine (line : Text) : List Text :=
  (Segment.ofLine line).flatMap fun
    | .text t => ofText t
    | _ => []

end ShortNames.BareName
