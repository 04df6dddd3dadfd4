import ShortNames.Proofs.LiteralGrammar
import ShortNames.Proofs.Runs
import ShortNames.Proofs.Scanning

/-!
# Borders between segments

The segments of a line part it: none is empty, text does not follow text, a name does not follow a
name, and no run of identifier characters goes on from one segment to the next. The single
characters of `atoms` have these borders apart from those inside a text, and joining takes the
borders inside a text away.
-/

namespace ShortNames.Segment

open BareName (IsBorder isBorder_of_getLast? isBorder_of_head?)

/-- What each segment of a line is by itself. -/
inductive IsSound : Segment → Prop
  | text {t : Text} (hne : t ≠ []) : IsSound (text t)
  | literal {t : Text} (hLiteral : IsLiteral t) : IsSound (literal t)
  | qualified {q : QualifiedName} (hName : q.WellFormed) : IsSound (qualified q)

/-- The border between two neighbours. -/
structure Borders (r s : Segment) : Prop where
  text : ∀ t u, r = text t → s ≠ text u
  name : ∀ p q, r = qualified p → s ≠ qualified q
  run : IsBorder r.source s.source

def AreTexts (r s : Segment) : Prop :=
  ∃ t u, r = text t ∧ s = text u

variable {r s x : Segment} {segments : List Segment} {t u : Text}

theorem IsLiteral.exists_mark (h : IsLiteral t) : ∃ mark body, t = mark :: (body ++ [mark]) ∧
    Text.isIdentifier mark = false ∧ mark ≠ '.' := by
  cases h with
  | string => exact ⟨'"', _, rfl, rfl, by decide⟩
  | character => exact ⟨'\'', _, rfl, rfl, by decide⟩

theorem IsLiteral.head? (h : IsLiteral t) : ∀ c ∈ t.head?, Text.isIdentifier c = false := by
  obtain ⟨mark, body, rfl, hMark, -⟩ := h.exists_mark
  rintro c ⟨⟩
  exact hMark

theorem IsLiteral.getLast? (h : IsLiteral t) :
    ∀ c ∈ t.getLast?, Text.isIdentifier c = false ∧ c ≠ '.' := by
  obtain ⟨mark, body, rfl, hMark⟩ := h.exists_mark
  rw [← List.cons_append, List.getLast?_concat]
  rintro c ⟨⟩
  exact hMark

theorem IsSound.source_ne_nil (h : IsSound s) : s.source ≠ [] := by
  cases h with
  | text hne => exact hne
  | literal hLiteral =>
    obtain ⟨mark, body, rfl, -⟩ := hLiteral.exists_mark
    exact List.cons_ne_nil _ _
  | qualified => exact QualifiedName.text_ne_nil _

/-- Behind a literal or a name nothing reads as a member. -/
theorem IsSound.getLast?_ne_dot (h : IsSound s) (hText : ∀ t, s ≠ .text t) :
    s.source.getLast? ≠ some '.' := by
  cases h with
  | text => exact absurd rfl (hText _)
  | literal hLiteral => exact fun hDot => (hLiteral.getLast? '.' hDot).2 rfl
  | @qualified q hName =>
    rw [source, hName.getLast?_text]
    exact fun hDot => hName.name.not_mem_dot (List.mem_of_getLast? hDot)

section Atoms

variable {before : Option Char}

theorem isSound_of_mem_atoms (hs : s ∈ atoms before t) : IsSound s := by
  fun_induction atoms before t with
  | case1 => cases hs
  | case2 before c t u after hl ih =>
    rcases List.mem_cons.mp hs with rfl | hs
    · exact .literal (literal?_eq_some_iff.mp hl).2
    · exact ih hs
  | case3 before c t hl q after hq ih =>
    rcases List.mem_cons.mp hs with rfl | hs
    · exact .qualified (nameAt?_some hq).2.1
    · exact ih hs
  | case4 before c t hl hq ih =>
    rcases List.mem_cons.mp hs with rfl | hs
    · exact .text (List.cons_ne_nil c [])
    · exact ih hs

theorem not_isWordy_text (h : ¬ IsWordy (text t)) : ∀ c ∈ t, Text.isIdentifier c = false :=
  fun c hc => Bool.eq_false_iff.mpr fun hIdentifier => h ⟨c, hc, hIdentifier⟩

theorem Apart.borders (h : Apart r s) (hr : IsSound r) (hs : IsSound s) :
    AreTexts r s ∨ Borders r s := by
  cases hr with
  | @text t hne =>
    cases hs with
    | @text u => exact .inl ⟨t, u, rfl, rfl⟩
    | literal hLiteral => exact .inr ⟨nofun, nofun, isBorder_of_head? hLiteral.head?⟩
    | @qualified q =>
      have hPlain := not_isWordy_text (h.right q rfl).1
      exact .inr ⟨nofun, nofun,
        isBorder_of_getLast? fun c hc => hPlain c (List.mem_of_getLast? hc)⟩
  | literal hLiteral =>
    exact .inr ⟨nofun, nofun, isBorder_of_getLast? fun c hc => (hLiteral.getLast? c hc).1⟩
  | @qualified p =>
    have hPlain := h.left p rfl
    cases hs with
    | text =>
      exact .inr ⟨nofun, nofun,
        isBorder_of_head? fun d hd => not_isWordy_text hPlain d (List.mem_of_head? hd)⟩
    | literal hLiteral => exact .inr ⟨nofun, nofun, isBorder_of_head? hLiteral.head?⟩
    | qualified => exact absurd trivial hPlain

theorem isChain_atoms_borders (before : Option Char) (t : Text) :
    (atoms before t).IsChain fun r s => AreTexts r s ∨ Borders r s :=
  (isChain_atoms before t).imp_of_mem_imp fun _ _ hr hs hApart =>
    hApart.borders (isSound_of_mem_atoms hr) (isSound_of_mem_atoms hs)

end Atoms

section Joining

/-- What joining makes of a segment: it may put more text behind text. -/
inductive Grown : Segment → Segment → Prop
  | same (s : Segment) : Grown s s
  | longer (t u : Text) : Grown (text t) (text (t ++ u))

theorem Grown.isSound (h : Grown s x) (hs : IsSound s) : IsSound x := by
  cases h with
  | same => exact hs
  | longer t u => exact .text (List.append_ne_nil_of_left_ne_nil hs.source_ne_nil u)

theorem AreTexts.grown (h : AreTexts r s) (hx : Grown s x) : AreTexts r x := by
  obtain ⟨t, u, rfl, rfl⟩ := h
  cases hx with
  | same => exact ⟨t, u, rfl, rfl⟩
  | longer u v => exact ⟨t, u ++ v, rfl, rfl⟩

theorem Borders.grown (h : Borders r s) (hs : IsSound s) (hx : Grown s x) : Borders r x := by
  cases hx with
  | same => exact h
  | longer t u =>
    have ht : t ≠ [] := hs.source_ne_nil
    refine ⟨fun v _ hr => absurd rfl (h.text v t hr), nofun, ?_⟩
    rw [IsBorder, source, List.head?_append_of_ne_nil _ ht]
    exact h.run

theorem Borders.text_append (t : Text) (hu : u ≠ []) (h : Borders (.text u) s) :
    Borders (.text (t ++ u)) s := by
  refine ⟨fun _ v _ => h.text u v rfl, nofun, ?_⟩
  rw [IsBorder, source, List.getLast?_append_of_ne_nil _ hu]
  exact h.run

theorem grown_of_mem_push (h : x ∈ push s segments) : Grown s x ∨ x ∈ segments := by
  unfold push at h
  split at h
  · rename_i t u rest
    rcases List.mem_cons.mp h with rfl | hRest
    · exact .inl (.longer t u)
    · exact .inr (List.mem_cons_of_mem _ hRest)
  · rcases List.mem_cons.mp h with rfl | hRest
    · exact .inl (.same x)
    · exact .inr hRest

theorem isSound_of_mem_joinText (h : ∀ s ∈ segments, IsSound s) :
    ∀ x ∈ joinText segments, IsSound x := by
  induction segments with
  | nil => nofun
  | cons s rest ih =>
    rw [List.forall_mem_cons] at h
    intro x hx
    rcases grown_of_mem_push hx with hGrown | hRest
    · exact hGrown.isSound h.1
    · exact ih h.2 x hRest

theorem exists_grown_of_head? (hx : x ∈ (joinText segments).head?) :
    ∃ s ∈ segments.head?, Grown s x := by
  cases segments with
  | nil => cases hx
  | cons s rest =>
    refine ⟨s, rfl, ?_⟩
    rw [joinText_cons] at hx
    unfold push at hx
    split at hx
    · cases hx
      exact .longer _ _
    · cases hx
      exact .same x

theorem isChain_joinText (hSound : ∀ s ∈ segments, IsSound s)
    (h : segments.IsChain fun r s => AreTexts r s ∨ Borders r s) :
    (joinText segments).IsChain Borders := by
  induction segments with
  | nil => exact .nil
  | cons s rest ih =>
    obtain ⟨hFirst, hRest⟩ := List.isChain_cons.mp h
    rw [List.forall_mem_cons] at hSound
    have hJoined := ih hSound.2 hRest
    have hJoinedSound := isSound_of_mem_joinText hSound.2
    have hHead : ∀ x ∈ (joinText rest).head?, AreTexts s x ∨ Borders s x := by
      intro x hx
      obtain ⟨y, hy, hGrown⟩ := exists_grown_of_head? hx
      rcases hFirst y hy with hTexts | hBorders
      · exact .inl (hTexts.grown hGrown)
      · exact .inr (hBorders.grown (hSound.2 y (List.mem_of_head? hy)) hGrown)
    rw [joinText_cons]
    generalize joinText rest = joined at hJoined hJoinedSound hHead ⊢
    unfold push
    split
    · rename_i t u more
      have hu := (hJoinedSound (.text u) List.mem_cons_self).source_ne_nil
      obtain ⟨hNext, hMore⟩ := List.isChain_cons.mp hJoined
      exact hMore.cons fun y hy => (hNext y hy).text_append t hu
    · rename_i hNotTexts
      refine hJoined.cons fun x hx => (hHead x hx).resolve_left ?_
      rintro ⟨t, u, rfl, rfl⟩
      obtain ⟨more, rfl⟩ := List.head?_eq_some_iff.mp hx
      exact hNotTexts t u more rfl rfl

end Joining

section Lines

variable {line : Text}

theorem isSound_of_mem_ofLine : ∀ s ∈ ofLine line, IsSound s := by
  rw [ofLine_eq_joinText_atoms]
  exact isSound_of_mem_joinText fun _ => isSound_of_mem_atoms

theorem isChain_ofLine (line : Text) : (ofLine line).IsChain Borders := by
  rw [ofLine_eq_joinText_atoms]
  exact isChain_joinText (fun _ => isSound_of_mem_atoms) (isChain_atoms_borders none line)

/-- The segments of a line part it without loss, and no two of one kind that could be one stand
side by side. -/
theorem ofLine_parts_line (line : Text) :
    (ofLine line).flatMap source = line ∧ (∀ s ∈ ofLine line, s.source ≠ []) ∧
      (ofLine line).IsChain Borders ∧
      ∀ q, qualified q ∈ ofLine line →
        (qualified q).source = q.package ++ '.' :: q.name ∧ '.' ∉ q.name := by
  refine ⟨source_ofLine line, ?_, isChain_ofLine line, ?_⟩
  · exact fun s hs => (isSound_of_mem_ofLine s hs).source_ne_nil
  · intro q hq
    cases isSound_of_mem_ofLine _ hq with
    | qualified hName => exact ⟨rfl, hName.name.not_mem_dot⟩

/-- The name `a.B` goes on to its left, so it is part of the text in front of `c.D`. -/
theorem ofLine_parts_line_behind_rejected_name :
    let line := "x$a.B c.D\"e.F\"".toList
    let q : QualifiedName := ⟨['c'], ['D']⟩
    ofLine line = [text "x$a.B ".toList, qualified q, literal "\"e.F\"".toList] ∧
      (ofLine line).flatMap source = line ∧ (qualified q).source = q.package ++ '.' :: q.name ∧
      '.' ∉ q.name := by
  intro line q
  obtain ⟨hLine, -, -, hNames⟩ := ofLine_parts_line line
  have hSegments : ofLine line =
      [text "x$a.B ".toList, qualified q, literal "\"e.F\"".toList] := by
    decide +kernel
  have hMem : qualified q ∈ ofLine line := by
    rw [hSegments]
    exact List.mem_cons_of_mem _ List.mem_cons_self
  exact ⟨hSegments, hLine, hNames q hMem⟩

end Lines

end ShortNames.Segment
