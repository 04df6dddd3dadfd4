import ShortNames.Text

/-!
# Qualified names

A type written out with its package. The reader takes the longest chain of words that start in
lower case, followed by one that starts in upper case; all classes here are ASCII.
-/

namespace ShortNames

structure QualifiedName where
  package : Text
  name : Text
  deriving DecidableEq, Repr

namespace QualifiedName

def text (q : QualifiedName) : Text :=
  q.package ++ '.' :: q.name

def isWordStart (c : Char) : Bool :=
  c.isLower || c.isDigit || c == '_'

def isWordPart (c : Char) : Bool :=
  c.isAlphanum || c == '_'

/-- The qualified name at the start of a text, and what follows it. -/
def read? : Text → Option (QualifiedName × Text)
  | [] => none
  | c :: t =>
    if isWordStart c then
      match _h : t.dropWhile isWordPart with
      | '.' :: d :: rest =>
        if d.isUpper then
          some (⟨c :: t.takeWhile isWordPart, d :: rest.takeWhile isWordPart⟩,
            rest.dropWhile isWordPart)
        else
          (read? (d :: rest)).map fun (q, after) =>
            (⟨c :: t.takeWhile isWordPart ++ '.' :: q.package, q.name⟩, after)
      | _ => none
    else none
termination_by t => t.length
decreasing_by
  have := (t.dropWhile_sublist isWordPart).length_le
  grind

theorem eq_append_of_read? {t after : Text} {q : QualifiedName} (h : read? t = some (q, after)) :
    t = q.text ++ after := by
  fun_induction read? t generalizing q after with
  | case1 => simp at h
  | case2 c t hc d rest hd hu =>
    have := t.takeWhile_append_dropWhile (p := isWordPart)
    have := rest.takeWhile_append_dropWhile (p := isWordPart)
    simp only [Option.some.injEq, Prod.mk.injEq] at h
    grind [text]
  | case3 c t hc d rest hd hu ih =>
    have := t.takeWhile_append_dropWhile (p := isWordPart)
    obtain ⟨⟨q', after'⟩, hr, hq⟩ := Option.map_eq_some_iff.1 h
    have := ih hr
    simp only [Prod.mk.injEq] at hq
    grind [text]
  | case4 => simp at h
  | case5 => simp at h

theorem length_lt_of_read? {t after : Text} {q : QualifiedName} (h : read? t = some (q, after)) :
    after.length < t.length := by
  simp [eq_append_of_read? h, text]
  omega

end QualifiedName

end ShortNames
