import ShortNames.Text

/-!
# Comment lines

A comment line holds nothing but a comment, or the inside of one. It is copied as it stands.
-/

namespace ShortNames.Comment

/-- Whether a line is a comment line: it opens with `//` or `*`, or with a block comment that is
still open at its end or is followed by blanks only. -/
def isLine (line : Text) : Bool :=
  match line.trim with
  | '/' :: '*' :: rest =>
    match Text.cut? ['*', '/'] rest with
    | some (_, after) => after.all Text.isBlank
    | none => true
  | '/' :: '/' :: _ => true
  | '*' :: _ => true
  | _ => false

end ShortNames.Comment
