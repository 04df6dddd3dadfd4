import ShortNames.Proofs.Layout

/-!
# Texts that read alike

All that is decided about a text comes from its header and from its code lines. Texts that have the
same of both have revisions with the same imports and as many replacements, and then differ only in
the lines that were there before.
-/

namespace ShortNames

structure ReadAlike (source source' : Text) : Prop where
  header : Header.ofText source' = Header.ofText source
  code : (Line.bodies source').filter Line.isCode = (Line.bodies source).filter Line.isCode

namespace ReadAlike

variable {source source' : Text}

theorem of_bodies (h : Line.bodies source' = Line.bodies source) : ReadAlike source source' :=
  ⟨congrArg Header.ofLines h, congrArg (List.filter Line.isCode) h⟩

theorem codeNames (h : ReadAlike source source') :
    Reading.codeNames (Line.bodies source') = Reading.codeNames (Line.bodies source) :=
  congrArg (List.flatMap Segment.qualifiedNames) h.code

theorem bareNames (h : ReadAlike source source') :
    Reading.bareNames (Line.bodies source') = Reading.bareNames (Line.bodies source) :=
  congrArg (List.flatMap BareName.ofLine) h.code

theorem shortens (h : ReadAlike source source') (o : Options) :
    Reading.shortens o (Line.bodies source') = Reading.shortens o (Line.bodies source) := by
  have hHeader : Header.ofLines (Line.bodies source') = Header.ofLines (Line.bodies source) :=
    h.header
  funext q
  rw [Reading.shortens, Reading.openNames, hHeader, h.bareNames, h.codeNames]
  rfl

theorem names (h : ReadAlike source source') (o : Options) :
    (Reading.ofText o source').names = (Reading.ofText o source).names := by
  have hNames (source : Text) : (Reading.ofText o source).names =
      (Reading.startNames (Header.ofText source) (Line.bodies source)).behind o
        (Reading.codeNames (Line.bodies source)) :=
    (Reading.judgeLines_eq o _ _).2
  rw [hNames, hNames, h.header, h.codeNames, Reading.startNames, h.bareNames]
  rfl

theorem revise (h : ReadAlike source source') (o : Options) :
    ShortNames.revise o source' = (ShortNames.revise o source).map fun r =>
      { r with
        content := Line.join (Revision.insertImports (Header.ofText source).insertAt r.newImports
          ((Line.split source').map
            (Line.shorten (Reading.shortens o (Line.bodies source))))) } := by
  cases hr' : ShortNames.revise o source' with
  | none =>
    rw [revise_eq_none_iff, h.shortens, h.codeNames, ← revise_eq_none_iff] at hr'
    rw [hr', Option.map_none]
  | some r' =>
    cases hr : ShortNames.revise o source with
    | none =>
      rw [revise_eq_none_iff, ← h.shortens, ← h.codeNames, ← revise_eq_none_iff, hr'] at hr
      cases hr
    | some r =>
      obtain ⟨hImports, -, hCount⟩ := revise_eq_some hr
      obtain ⟨hImports', hContent', hCount'⟩ := revise_eq_some hr'
      have hSame : r'.newImports = r.newImports := by
        rw [hImports, hImports', Reading.newImports, h.names]
        rfl
      rw [h.codeNames, h.shortens, ← hCount] at hCount'
      rw [h.header, hSame, h.shortens] at hContent'
      obtain ⟨content', newImports', replacements'⟩ := r'
      cases hSame
      cases hCount'
      cases hContent'
      rfl

end ReadAlike

end ShortNames
