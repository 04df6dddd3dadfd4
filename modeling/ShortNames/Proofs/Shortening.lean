import ShortNames.Proofs.FirstClaim
import ShortNames.Proofs.Lines

/-!
# Shortened lines

Writing names short takes whole words and the dots behind them out of a line. `Shrinks` says so
without the scanner. It moves no blank, quote or mark of a comment, so a code line stays a code
line and keeps its ends.
-/

namespace ShortNames

open QualifiedName (isWordPart isChainPart isWordStart)

namespace Comment

/-- What follows the end of a block comment that was opened before. -/
def closed? (t : Text) : Option Text :=
  (Text.cut? ['*', '/'] t).map (·.2)

@[simp] theorem closed?_cons (c : Char) (t : Text) :
    closed? (c :: t) = if c = '*' ∧ t.head? = some '/' then some t.tail else closed? t := by
  have hPrefix : (['*', '/'].isPrefixOf? (c :: t)) =
      if c = '*' ∧ t.head? = some '/' then some t.tail else none := by
    split
    · rename_i h
      obtain ⟨u, rfl⟩ := List.head?_eq_some_iff.mp h.2
      simp [List.isPrefixOf?, h.1]
    · rename_i h
      rw [Option.eq_none_iff_forall_ne_some]
      intro u hu
      cases List.isPrefixOf?_eq_some_iff_append_eq.mp hu
      exact h ⟨rfl, rfl⟩
  rw [closed?, Text.cut?, hPrefix]
  split
  · rename_i h
    split at h
    · rw [if_pos ‹_›, Option.map_some, Option.some.inj h]
    · cases h
  · rename_i h
    split at h
    · cases h
    · rw [if_neg ‹_›, closed?, Option.map_map]
      rfl

theorem closed?_append {w : Text} (hw : '*' ∉ w) (t : Text) : closed? (w ++ t) = closed? t := by
  induction w with
  | nil => rfl
  | cons c w ih =>
    rw [List.mem_cons, not_or] at hw
    rw [List.cons_append, closed?_cons, if_neg fun h => hw.1 h.1.symm, ih hw.2]

/-- The texts of comment lines: a block comment that is the whole line, a line comment, or the
inside of a block comment. -/
inductive Covers : Text → Prop
  | block {rest : Text}
    (hRest : ∀ after, closed? rest = some after → ∀ c ∈ after, Text.isBlank c = true) :
    Covers ('/' :: '*' :: rest)
  | line (rest : Text) : Covers ('/' :: '/' :: rest)
  | inside (rest : Text) : Covers ('*' :: rest)

theorem isLine_iff (line : Text) : isLine line = true ↔ Covers line.trim := by
  unfold isLine
  generalize line.trim = t
  split
  · rename_i rest
    cases hCut : Text.cut? ['*', '/'] rest with
    | none => exact iff_of_true rfl (.block fun after hAfter => by simp [closed?, hCut] at hAfter)
    | some p =>
      have hClosed : closed? rest = some p.2 := by rw [closed?, hCut, Option.map_some]
      constructor
      · intro hBlank
        apply Covers.block
        intro after hAfter
        rw [hClosed] at hAfter
        cases hAfter
        exact List.all_eq_true.mp hBlank
      · rintro ⟨hRest⟩
        exact List.all_eq_true.mpr (hRest p.2 hClosed)
  · exact iff_of_true rfl (.line _)
  · exact iff_of_true rfl (.inside _)
  · rename_i hBlock hLine hInside
    apply iff_of_false Bool.false_ne_true
    rintro (_ | _ | _)
    · exact hBlock _ rfl
    · exact hLine _ rfl
    · exact hInside _ rfl

end Comment

/-- `t'` is `t` with some qualified names written short. -/
inductive Shrinks : Text → Text → Prop
  | nil : Shrinks [] []
  | keep (c : Char) {t t' : Text} (h : Shrinks t t') : Shrinks (c :: t) (c :: t')
  | drop {q : QualifiedName} (hq : q.WellFormed) {t t' : Text} (h : Shrinks t t') :
    Shrinks (q.text ++ t) (q.name ++ t')

namespace Shrinks

variable {t t' : Text}

theorem prepend (w : Text) (h : Shrinks t t') : Shrinks (w ++ t) (w ++ t') := by
  induction w with
  | nil => exact h
  | cons c w ih => exact ih.keep c

theorem of_segments (f : QualifiedName → Bool) {segments : List Segment}
    (hNames : ∀ q ∈ segments.filterMap Segment.qualifiedName?, q.WellFormed) :
    Shrinks (segments.flatMap Segment.source) (segments.flatMap (Segment.shorten f)) := by
  induction segments with
  | nil => exact .nil
  | cons s segments ih =>
    cases s with
    | text u | literal u => exact (ih hNames).prepend u
    | qualified q =>
      have hTail := ih fun u hu => hNames u (List.mem_cons_of_mem q hu)
      rw [List.flatMap_cons, List.flatMap_cons, Segment.shorten]
      split
      · exact hTail.drop (hNames q List.mem_cons_self)
      · exact hTail.prepend q.text

theorem eq_nil_iff (h : Shrinks t t') : t = [] ↔ t' = [] := by
  cases h with
  | nil => exact Iff.rfl
  | keep c _ => simp
  | drop hq _ => simp [hq.name.ne_nil]

theorem mem (h : Shrinks t t') {c : Char} (hc : c ∈ t') : c ∈ t := by
  induction h with
  | nil => exact hc
  | keep d _ ih =>
    rcases List.mem_cons.mp hc with rfl | hc
    · exact List.mem_cons_self
    · exact List.mem_cons_of_mem d (ih hc)
  | drop hq _ ih =>
    rcases List.mem_append.mp hc with hc | hc
    · exact List.mem_append_left _ (List.mem_append_right _ (List.mem_cons_of_mem '.' hc))
    · exact List.mem_append_right _ (ih hc)

theorem getLast? (h : Shrinks t t') : t'.getLast? = t.getLast? := by
  induction h with
  | nil => rfl
  | keep c _ ih => rw [List.getLast?_cons, List.getLast?_cons, ih]
  | drop hq _ ih => rw [List.getLast?_append, List.getLast?_append, ih, hq.getLast?_text]

/-- Only a name can put a capital in front. -/
theorem of_cons {c : Char} (hc : c.isUpper = false) {u' : Text} (h : Shrinks t (c :: u')) :
    ∃ u, t = c :: u ∧ Shrinks u u' := by
  generalize hEq : c :: u' = s at h
  cases h with
  | nil => cases hEq
  | keep d hTail =>
    cases hEq
    exact ⟨_, rfl, hTail⟩
  | drop hq _ =>
    obtain ⟨d, w, hName, hUpper, -⟩ := hq.name
    rw [hName, List.cons_append] at hEq
    rw [← (List.cons.inj hEq).1, hc] at hUpper
    cases hUpper

/-- Only a name can be taken away, and it starts with a word. -/
theorem cons_of {c : Char} (hc : isWordStart c = false) {u : Text} (h : Shrinks (c :: u) t') :
    ∃ u', t' = c :: u' ∧ Shrinks u u' := by
  generalize hEq : c :: u = s at h
  cases h with
  | nil => cases hEq
  | keep d hTail =>
    cases hEq
    exact ⟨_, rfl, hTail⟩
  | drop hq _ =>
    obtain ⟨d, w, hText, hStart⟩ := hq.exists_text_cons
    rw [hText, List.cons_append] at hEq
    rw [← (List.cons.inj hEq).1, hc] at hStart
    cases hStart

theorem head?_iff (h : Shrinks t t') {c : Char} (hc : isWordPart c = false) :
    t'.head? = some c ↔ t.head? = some c := by
  have hStart : isWordStart c = false := QualifiedName.isWordStart_eq_false hc
  have hUpper : c.isUpper = false := by
    rw [Bool.eq_false_iff] at hc ⊢
    exact mt QualifiedName.isWordPart_of_isUpper hc
  constructor
  · intro hHead
    obtain ⟨u', rfl⟩ := List.head?_eq_some_iff.mp hHead
    obtain ⟨u, rfl, -⟩ := h.of_cons hUpper
    rfl
  · intro hHead
    obtain ⟨u, rfl⟩ := List.head?_eq_some_iff.mp hHead
    obtain ⟨u', rfl, -⟩ := h.cons_of hStart
    rfl

theorem trimStart (h : Shrinks t t') : Shrinks t.trimStart t'.trimStart := by
  induction h with
  | nil => exact .nil
  | keep c hTail ih =>
    rw [Text.trimStart_cons, Text.trimStart_cons]
    split
    · exact ih
    · exact hTail.keep c
  | drop hq hTail _ =>
    have hNew := hTail.drop hq
    obtain ⟨c, w, hText, hStart⟩ := hq.exists_text_cons
    obtain ⟨d, v, hName, hUpper, -⟩ := hq.name
    have hc := QualifiedName.isBlank_eq_false_of_isWordPart
      (QualifiedName.isWordPart_of_isWordStart hStart)
    have hd := QualifiedName.isBlank_eq_false_of_isWordPart
      (QualifiedName.isWordPart_of_isUpper hUpper)
    rw [hText, hName] at hNew ⊢
    rwa [List.cons_append, List.cons_append, Text.trimStart_cons, Text.trimStart_cons,
      if_neg (by simp [hc]), if_neg (by simp [hd])]

theorem trimEnd (h : Shrinks t t') : Shrinks t.trimEnd t'.trimEnd := by
  induction h with
  | nil => exact .nil
  | keep c _ ih =>
    rw [Text.trimEnd_cons, Text.trimEnd_cons]
    simp only [ih.eq_nil_iff]
    split
    · exact .nil
    · exact ih.keep c
  | drop hq _ ih =>
    have hName : Text.IsSolid _ := fun x hx =>
      QualifiedName.isBlank_eq_false_of_isWordPart (hq.name.word x hx)
    rw [Text.trimEnd_append_of_solid hq.solid, Text.trimEnd_append_of_solid hName]
    exact ih.drop hq

theorem trim (h : Shrinks t t') : Shrinks t.trim t'.trim :=
  h.trimStart.trimEnd

theorem all_isBlank_iff (h : Shrinks t t') :
    (∀ c ∈ t, Text.isBlank c = true) ↔ ∀ c ∈ t', Text.isBlank c = true := by
  rw [← Text.trimEnd_eq_nil_iff, ← Text.trimEnd_eq_nil_iff, h.trimEnd.eq_nil_iff]

theorem of_append {w u' : Text} (hw : w.any Char.isUpper = false) (h : Shrinks t (w ++ u')) :
    ∃ u, t = w ++ u ∧ Shrinks u u' := by
  induction w generalizing t with
  | nil => exact ⟨t, rfl, h⟩
  | cons c w ih =>
    rw [List.any_cons, Bool.or_eq_false_iff] at hw
    obtain ⟨u, rfl, hTail⟩ := h.of_cons hw.1
    obtain ⟨v, rfl, hRest⟩ := ih hw.2 hTail
    exact ⟨v, rfl, hRest⟩

theorem afterKeyword?_isSome {word : Text} (hw : word.any Char.isUpper = false)
    (h : Shrinks t t') (hKeyword : (Text.afterKeyword? word t').isSome) :
    (Text.afterKeyword? word t).isSome := by
  rw [Text.afterKeyword?_isSome] at hKeyword ⊢
  obtain ⟨b, rest', rfl, hb⟩ := hKeyword
  obtain ⟨u, rfl, hTail⟩ := h.of_append hw
  have hUpper : b.isUpper = false := by
    rw [Bool.eq_false_iff]
    intro hu
    have hWord := QualifiedName.isWordPart_of_isUpper hu
    rw [QualifiedName.isBlank_eq_false_of_isWordPart hWord] at hb
    cases hb
  obtain ⟨rest, rfl, -⟩ := hTail.of_cons hUpper
  exact ⟨b, rest, rfl, hb⟩

theorem declaration_isLine (h : Shrinks t t') (hLine : Declaration.isLine t' = true) :
    Declaration.isLine t = true := by
  unfold Declaration.isLine Declaration.ofLine? at hLine ⊢
  have hTrim := h.trim
  cases hPackage : Text.afterKeyword? Declaration.packageKeyword t.trim with
  | some rest => rfl
  | none =>
    have hPackage' : Text.afterKeyword? Declaration.packageKeyword t'.trim = none := by
      rw [← Option.not_isSome_iff_eq_none]
      intro hSome
      simpa [hPackage] using hTrim.afterKeyword?_isSome rfl hSome
    simp only [hPackage', Option.isSome_map] at hLine ⊢
    exact hTrim.afterKeyword?_isSome rfl hLine

theorem closed? (h : Shrinks t t') :
    Option.Rel Shrinks (Comment.closed? t) (Comment.closed? t') := by
  -- No name holds a star, so an end of a comment is kept where it stands, star and slash.
  induction h with
  | nil => exact .none
  | @keep c t t' hTail ih =>
    rw [Comment.closed?_cons, Comment.closed?_cons]
    simp only [hTail.head?_iff (c := '/') (by decide)]
    split
    · rename_i hMark
      obtain ⟨u, rfl⟩ := List.head?_eq_some_iff.mp hMark.2
      obtain ⟨u', rfl, hRest⟩ := hTail.cons_of (by decide)
      exact .some hRest
    · exact ih
  | drop hq _ ih =>
    have hName : '*' ∉ _ := fun hMem => hq.not_mem_text (c := '*') rfl
      (List.mem_append_right _ (List.mem_cons_of_mem '.' hMem))
    rwa [Comment.closed?_append (hq.not_mem_text rfl), Comment.closed?_append hName]

theorem comment_isLine (h : Shrinks t t') (hLine : Comment.isLine t' = true) :
    Comment.isLine t = true := by
  rw [Comment.isLine_iff] at hLine ⊢
  have hTrim := h.trim
  generalize t.trim = u at hTrim ⊢
  generalize t'.trim = u' at hTrim hLine
  cases hLine with
  | @block rest' hBlank =>
    obtain ⟨rest, rfl, hRest⟩ := hTrim.of_append (w := ['/', '*']) rfl
    show Comment.Covers ('/' :: '*' :: rest)
    apply Comment.Covers.block
    intro after hAfter
    have hClosed := hRest.closed?
    rw [hAfter] at hClosed
    generalize hAfter' : Comment.closed? rest' = after' at hClosed
    cases hClosed with
    | some hTail => exact hTail.all_isBlank_iff.mpr (hBlank _ hAfter')
  | line rest' =>
    obtain ⟨rest, rfl, -⟩ := hTrim.of_append (w := ['/', '/']) rfl
    exact .line rest
  | inside rest' =>
    obtain ⟨rest, rfl, -⟩ := hTrim.of_cons rfl
    exact .inside rest

theorem isCode (h : Shrinks t t') (hCode : Line.isCode t = true) : Line.isCode t' = true := by
  rw [Line.isCode, Bool.and_eq_true, Bool.not_eq_true', Bool.not_eq_true'] at hCode ⊢
  rw [← Bool.not_eq_true, ← Bool.not_eq_true] at hCode ⊢
  exact ⟨mt h.declaration_isLine hCode.1, mt h.comment_isLine hCode.2⟩

end Shrinks

namespace Line

variable {f : QualifiedName → Bool} {l : Line}

theorem shorten_of_isCode (hCode : isCode l.body = true) :
    (l.shorten f).body = (Segment.ofLine l.body).flatMap (Segment.shorten f) := by
  rw [shorten, if_pos hCode]

theorem shorten_of_not_isCode (hCode : isCode l.body = false) : l.shorten f = l := by
  rw [shorten, if_neg (Bool.not_eq_true _ ▸ hCode)]

theorem shrinks_shorten (f : QualifiedName → Bool) (l : Line) :
    Shrinks l.body (l.shorten f).body := by
  by_cases hCode : isCode l.body = true
  · have hNames : ∀ q ∈ Segment.qualifiedNames l.body, q.WellFormed :=
      fun _ hq => Segment.wellFormed_of_mem_qualifiedNames hq
    have hShrinks := Shrinks.of_segments f hNames
    rwa [Segment.source_ofLine, ← shorten_of_isCode hCode] at hShrinks
  · rw [shorten_of_not_isCode (Bool.eq_false_iff.mpr hCode)]
    simpa using Shrinks.nil.prepend l.body

@[simp] theorem isCode_shorten (f : QualifiedName → Bool) (l : Line) :
    isCode (l.shorten f).body = isCode l.body := by
  by_cases hCode : isCode l.body = true
  · rw [hCode, (shrinks_shorten f l).isCode hCode]
  · rw [shorten_of_not_isCode (Bool.eq_false_iff.mpr hCode)]

/-- Shortened lines declare what they declared before: nothing, if they changed at all. -/
@[simp] theorem ofLine?_shorten (f : QualifiedName → Bool) (l : Line) :
    Declaration.ofLine? (l.shorten f).body = Declaration.ofLine? l.body := by
  by_cases hCode : isCode l.body = true
  · have hNone {body : Text} (h : isCode body = true) : Declaration.ofLine? body = none := by
      rw [isCode, Bool.and_eq_true, Bool.not_eq_true'] at h
      exact Option.not_isSome_iff_eq_none.mp (Bool.eq_false_iff.mp h.1)
    rw [hNone hCode, hNone ((shrinks_shorten f l).isCode hCode)]
  · rw [shorten_of_not_isCode (Bool.eq_false_iff.mpr hCode)]

theorem absorb_shorten (h : l.absorb = l) : (l.shorten f).absorb = l.shorten f := by
  have hPlain : ¬ (l.ending = .lf ∧ l.body.getLast? = some '\r') := by
    intro hAbsorb
    rw [absorb, if_pos hAbsorb] at h
    rw [← h] at hAbsorb
    cases hAbsorb.1
  rw [absorb, if_neg]
  rwa [(shrinks_shorten f l).getLast?]

theorem joinable_shorten (f : QualifiedName → Bool) {lines : List Line} (h : Joinable lines) :
    Joinable (lines.map (shorten f)) := by
  induction lines with
  | nil => trivial
  | cons l lines ih =>
    obtain ⟨hBody, hLast, hRest⟩ := h
    have hShrinks := shrinks_shorten f l
    refine ⟨mt hShrinks.mem hBody, ?_, ih hRest⟩
    intro hNone
    obtain ⟨hne, rfl⟩ := hLast hNone
    exact ⟨mt hShrinks.eq_nil_iff.mpr hne, rfl⟩

end Line

end ShortNames
