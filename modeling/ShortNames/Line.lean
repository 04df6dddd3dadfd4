import ShortNames.Text

/-!
# Lines

A source text is a list of lines, each a body and the ending that closed it. Only the last line of
a text can lack an ending. `Line.split` and `Line.join` go between the two forms.
-/

namespace ShortNames

inductive Ending
  | none
  | lf
  | crlf
  deriving DecidableEq, Repr

namespace Ending

def text : Ending → Text
  | none => []
  | lf => ['\n']
  | crlf => ['\r', '\n']

end Ending

structure Line where
  body : Text
  ending : Ending
  deriving DecidableEq, Repr

namespace Line

def text (l : Line) : Text :=
  l.body ++ l.ending.text

/-- Put a character other than a line feed in front of the lines of a text. A carriage return that
comes to stand directly before a bare line feed belongs to the ending. -/
def push (c : Char) : List Line → List Line
  | [] => [⟨[c], .none⟩]
  | l :: rest =>
    if c = '\r' ∧ l = ⟨[], .lf⟩ then ⟨[], .crlf⟩ :: rest
    else ⟨c :: l.body, l.ending⟩ :: rest

def split : Text → List Line
  | [] => []
  | c :: t => if c = '\n' then ⟨[], .lf⟩ :: split t else push c (split t)

def join (lines : List Line) : Text :=
  lines.flatMap text

@[simp]
theorem join_push (c : Char) (lines : List Line) : join (push c lines) = c :: join lines := by
  cases lines with
  | nil => simp [push, join, text, Ending.text]
  | cons l rest =>
    by_cases h : c = '\r' ∧ l = ⟨[], .lf⟩ <;> simp [push, h, join, text, Ending.text]

@[simp] theorem join_split (t : Text) : join (split t) = t := by
  induction t with
  | nil => rfl
  | cons c t ih =>
    by_cases h : c = '\n'
    · simpa [split, h, join, text, Ending.text] using ih
    · simp [split, h, ih]

/-- The first ending that some line really has. -/
def firstEnding? (lines : List Line) : Option Ending :=
  (lines.map ending).find? (· ≠ .none)

end Line

end ShortNames
