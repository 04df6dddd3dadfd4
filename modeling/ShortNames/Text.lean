/-!
# Text

Source text is a list of characters, so that every reading of it is a recursion on the list. This
module holds the operations on text that the readers share: trimming, cutting at marks, taking a
keyword off the front, and the order of texts.
-/

namespace ShortNames

abbrev Text := List Char

namespace Text

def isBlank (c : Char) : Bool :=
  let n := c.toNat
  (9 ≤ n && n ≤ 13) || n == 0x20 || n == 0x85 || n == 0xA0 || n == 0x1680 ||
    (0x2000 ≤ n && n ≤ 0x200A) || n == 0x2028 || n == 0x2029 || n == 0x202F || n == 0x205F ||
    n == 0x3000

def trimStart (t : Text) : Text :=
  t.dropWhile isBlank

def trimEnd (t : Text) : Text :=
  (t.reverse.dropWhile isBlank).reverse

def trim (t : Text) : Text :=
  trimEnd (trimStart t)

/-- What stands before and after the first occurrence of `mark`. -/
def cut? (mark : Text) : Text → Option (Text × Text)
  | [] => (mark.isPrefixOf? []).map fun after => ([], after)
  | c :: t =>
    match mark.isPrefixOf? (c :: t) with
    | some after => some ([], after)
    | none => (cut? mark t).map fun (before, after) => (c :: before, after)

def before (mark t : Text) : Text :=
  match cut? mark t with
  | some (start, _) => start
  | none => t

/-- The text without the ending `mark`, if it has that ending. -/
def withoutEnd? (mark t : Text) : Option Text :=
  (mark.reverse.isPrefixOf? t.reverse).map List.reverse

/-- What follows the keyword `word` and the blanks after it. A keyword is followed by a blank. -/
def afterKeyword? (word t : Text) : Option Text :=
  match word.isPrefixOf? t with
  | some (c :: rest) => if isBlank c then some (trimStart (c :: rest)) else none
  | _ => none

/-- The parts between the occurrences of `mark`; one more than there are of those. -/
def parts (mark : Char) : Text → List Text
  | [] => [[]]
  | c :: t =>
    if c = mark then [] :: parts mark t
    else
      match parts mark t with
      | s :: rest => (c :: s) :: rest
      | [] => [[c]]

/-- Whether `t` comes before `u` in the order of the character numbers, or is `u`. -/
def precedes : Text → Text → Bool
  | [], _ => true
  | _ :: _, [] => false
  | c :: t, d :: u => c.toNat < d.toNat || (c == d && precedes t u)

/-- The part after the last `.`, or all of the text. -/
def lastSegment (t : Text) : Text :=
  (t.reverse.takeWhile (· ≠ '.')).reverse

end Text

end ShortNames
