import ShortNames.QualifiedName
import ShortNames.Text.Identifier

/-!
# Segments

A code line is cut into string and character literals, qualified names, and the text between them.
`Segment.ofLine` loses nothing: the texts of the segments make up the line.
-/

namespace ShortNames

inductive Segment
  | text (t : Text)
  | literal (t : Text)
  | qualified (q : QualifiedName)
  deriving DecidableEq, Repr

namespace Segment

def source : Segment → Text
  | text t | literal t => t
  | qualified q => q.text

/-- The rest of a string literal whose quote was read, and what follows it. A backslash takes the
next character with it, which cannot be a line feed. -/
def stringRest? : Text → Option (Text × Text)
  | [] => none
  | '"' :: t => some (['"'], t)
  | '\\' :: c :: t =>
    if c = '\n' then none
    else (stringRest? t).map fun (s, after) => ('\\' :: c :: s, after)
  | c :: t => if c = '\\' then none else (stringRest? t).map fun (s, after) => (c :: s, after)

def charRest? : Text → Option (Text × Text)
  | '\\' :: c :: '\'' :: t => if c = '\n' then none else some (['\\', c, '\''], t)
  | c :: '\'' :: t => if c = '\\' ∨ c = '\'' then none else some ([c, '\''], t)
  | _ => none

def literal? : Text → Option (Text × Text)
  | '"' :: t => (stringRest? t).map fun (s, after) => ('"' :: s, after)
  | '\'' :: t => (charRest? t).map fun (s, after) => ('\'' :: s, after)
  | _ => none

theorem eq_append_of_stringRest? {t s after : Text} (h : stringRest? t = some (s, after)) :
    t = s ++ after := by
  fun_induction stringRest? t generalizing s after with
  | case1 => simp at h
  | case2 => grind
  | case3 => simp at h
  | case4 c t _ ih =>
    obtain ⟨⟨u, rest⟩, hr, hu⟩ := Option.map_eq_some_iff.1 h
    simp only [Prod.mk.injEq] at hu
    grind [ih hr]
  | case5 => simp at h
  | case6 c t _ _ _ ih =>
    obtain ⟨⟨u, rest⟩, hr, hu⟩ := Option.map_eq_some_iff.1 h
    simp only [Prod.mk.injEq] at hu
    grind [ih hr]

theorem eq_append_of_charRest? {t s after : Text} (h : charRest? t = some (s, after)) :
    t = s ++ after := by
  unfold charRest? at h
  split at h <;> grind

theorem eq_append_of_literal? {t s after : Text} (h : literal? t = some (s, after)) :
    t = s ++ after ∧ s ≠ [] := by
  unfold literal? at h
  split at h
  · obtain ⟨⟨u, rest⟩, hr, hu⟩ := Option.map_eq_some_iff.1 h
    simp only [Prod.mk.injEq] at hu
    grind [eq_append_of_stringRest? hr]
  · obtain ⟨⟨u, rest⟩, hr, hu⟩ := Option.map_eq_some_iff.1 h
    simp only [Prod.mk.injEq] at hu
    grind [eq_append_of_charRest? hr]
  · simp at h

theorem length_lt_of_literal? {t s after : Text} (h : literal? t = some (s, after)) :
    after.length < t.length := by
  obtain ⟨rfl, hs⟩ := eq_append_of_literal? h
  have := List.length_pos_iff.2 hs
  simp
  omega

/-- A qualified name must not continue an identifier or a chain of members on its left, nor an
identifier on its right. -/
def isBounded (before : Option Char) (after : Text) : Bool :=
  before.all (fun c => !Text.isIdentifier c && c != '.') &&
    after.head?.all (fun c => !Text.isIdentifier c)

/-- The segments of the rest of a line, where `before` is the character read last. Text comes in
several pieces; a name that is not bounded is text as a whole. -/
def pieces (before : Option Char) : Text → List Segment
  | [] => []
  | c :: t =>
    match _hl : literal? (c :: t) with
    | some (s, after) => literal s :: pieces s.getLast? after
    | none =>
      match _hq : QualifiedName.read? (c :: t) with
      | some (q, after) =>
        (if isBounded before after then qualified q else text q.text) ::
          pieces q.name.getLast? after
      | none => text [c] :: pieces (some c) t
termination_by t => t.length
decreasing_by
  · exact length_lt_of_literal? _hl
  · exact QualifiedName.length_lt_of_read? _hq
  · simp

/-- Put a segment in front of others, as one with the first of them if both are text. -/
def push : Segment → List Segment → List Segment
  | text t, text u :: rest => text (t ++ u) :: rest
  | s, rest => s :: rest

def joinText (segments : List Segment) : List Segment :=
  segments.foldr push []

def ofLine (line : Text) : List Segment :=
  joinText (pieces none line)

@[simp] theorem source_pieces (before : Option Char) (t : Text) :
    (pieces before t).flatMap source = t := by
  fun_induction pieces before t with
  | case1 => rfl
  | case2 before c t s after h ih => simp [source, ih, (eq_append_of_literal? h).1]
  | case3 before c t h q after hq ih =>
    rw [QualifiedName.eq_append_of_read? hq, List.flatMap_cons, ih]
    split <;> rfl
  | case4 before c t h hq ih => simp [source, ih]

@[simp] theorem source_push (s : Segment) (segments : List Segment) :
    (push s segments).flatMap source = s.source ++ segments.flatMap source := by
  unfold push
  split <;> simp [source]

@[simp] theorem source_joinText (segments : List Segment) :
    (joinText segments).flatMap source = segments.flatMap source := by
  induction segments with
  | nil => rfl
  | cons s segments ih =>
    have h : joinText (s :: segments) = push s (joinText segments) := rfl
    simp [h, ih]

@[simp] theorem source_ofLine (line : Text) : (ofLine line).flatMap source = line := by
  simp [ofLine]

def qualifiedName? : Segment → Option QualifiedName
  | qualified q => some q
  | _ => none

def qualifiedNames (line : Text) : List QualifiedName :=
  (ofLine line).filterMap qualifiedName?

end Segment

end ShortNames
