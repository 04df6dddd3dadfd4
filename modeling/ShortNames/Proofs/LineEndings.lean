import ShortNames.Proofs.Alike

/-!
# Texts with wide line endings

A text may end its lines in a line feed or in a carriage return and a line feed. Nothing but the
endings depends on it: the revision of the wide text is the wide form of the revision.
-/

namespace ShortNames

/-- The text with a carriage return in front of every line feed. -/
def Text.widen (t : Text) : Text :=
  t.flatMap fun c => if c = '\n' then ['\r', '\n'] else [c]

theorem Text.widen_of_not_mem {t : Text} (h : '\n' ∉ t) : t.widen = t := by
  have hEach : ∀ c ∈ t, (if c = '\n' then ['\r', '\n'] else [c]) = [c] := by
    intro c hc
    rw [if_neg]
    rintro rfl
    exact h hc
  rw [Text.widen, List.flatMap_congr hEach, List.flatMap_singleton']

def Ending.widen : Ending → Ending
  | .lf => .crlf
  | e => e

theorem Ending.widen_eq_none_iff {e : Ending} : e.widen = .none ↔ e = .none := by
  cases e <;> decide

namespace Line

def widen (l : Line) : Line :=
  ⟨l.body, l.ending.widen⟩

/-- Whether the line has no line feed but at its end, and no carriage return before that. -/
def IsNarrow (l : Line) : Prop :=
  '\n' ∉ l.body ∧ l.ending ≠ .crlf

section Split

variable {l : Line} {lines : List Line} {t : Text}

theorem IsNarrow.text_widen (h : l.IsNarrow) : l.widen.text = Text.widen l.text := by
  obtain ⟨body, e⟩ := l
  obtain ⟨hBody, hEnding⟩ := h
  have hText : Text.widen (body ++ e.text) = body ++ Text.widen e.text := by
    rw [Text.widen, List.flatMap_append]
    exact congrArg (· ++ Text.widen e.text) (Text.widen_of_not_mem hBody)
  rw [Line.text, Line.text, hText]
  cases e with
  | none | lf => rfl
  | crlf => exact absurd rfl hEnding

theorem join_widen (h : ∀ l ∈ lines, l.IsNarrow) :
    join (lines.map widen) = Text.widen (join lines) := by
  rw [join, join, Text.widen, List.flatMap_assoc, List.flatMap_map]
  exact List.flatMap_congr fun l hl => (h l hl).text_widen

theorem push_widen {c : Char} (hc : c ≠ '\r') (lines : List Line) :
    push c (lines.map widen) = (push c lines).map widen := by
  cases lines with
  | nil => rfl
  | cons l rest =>
    rw [List.map_cons, push, push, if_neg fun h => hc h.1, if_neg fun h => hc h.1]
    rfl

theorem split_widen (h : '\r' ∉ t) : split t.widen = (split t).map widen := by
  induction t with
  | nil => rfl
  | cons c t ih =>
    obtain ⟨hc, ht⟩ := not_or.mp (mt List.mem_cons.mpr h)
    have hRest : split (Text.widen t) = (split t).map widen := ih ht
    by_cases hFeed : c = '\n'
    · subst hFeed
      have hText : Text.widen ('\n' :: t) = '\r' :: '\n' :: Text.widen t := rfl
      rw [hText, split, if_neg (by decide), split, if_pos rfl, hRest, split, if_pos rfl]
      rfl
    · have hText : Text.widen (c :: t) = c :: Text.widen t := by
        rw [Text.widen, List.flatMap_cons, if_neg hFeed]
        rfl
      rw [hText, split, if_neg hFeed, hRest, push_widen (Ne.symm hc), split, if_neg hFeed]

theorem bodies_widen (h : '\r' ∉ t) : bodies t.widen = bodies t := by
  rw [bodies, split_widen h, List.map_map]
  rfl

theorem ending_ne_crlf_of_mem_split (h : '\r' ∉ t) : ∀ l ∈ split t, l.ending ≠ .crlf := by
  intro l hl hEnding
  apply h
  rw [← join_split t, join, List.mem_flatMap]
  exact ⟨l, hl, by simp [text, hEnding, Ending.text]⟩

theorem exists_ending_of_mem (h : '\n' ∈ t) : ∃ l ∈ split t, l.ending ≠ .none := by
  rw [← join_split t, join, List.mem_flatMap] at h
  obtain ⟨l, hl, hFeed⟩ := h
  refine ⟨l, hl, ?_⟩
  intro hNone
  rw [text, hNone, Ending.text, List.append_nil] at hFeed
  exact (joinable_split t).not_mem_body l hl hFeed

theorem map_shorten_widen (f : QualifiedName → Bool) (lines : List Line) :
    (lines.map widen).map (shorten f) = (lines.map (shorten f)).map widen := by
  rw [List.map_map, List.map_map]
  rfl

end Split

end Line

namespace Revision

open Line (IsNarrow)

section Insert

variable {e : Ending} {before block lines : List Line} {names : List Text} {k : Nat}

theorem blockEnding_widen (hLines : ∃ l ∈ lines, l.ending ≠ .none) (before : List Line) :
    blockEnding (before.map Line.widen) (lines.map Line.widen) =
      (blockEnding before lines).widen := by
  have hEndings (lines : List Line) :
      (lines.map Line.widen).map Line.ending = (lines.map Line.ending).map Ending.widen := by
    rw [List.map_map, List.map_map]
    rfl
  have hReal : (fun e : Ending => decide (e ≠ .none)) ∘ Ending.widen =
      fun e => decide (e ≠ .none) := by
    funext e
    exact decide_eq_decide.mpr (not_congr Ending.widen_eq_none_iff)
  obtain ⟨l, hl, hEnding⟩ := hLines
  have hFirst : (Line.firstEnding? lines).isSome = true := by
    rw [Line.firstEnding?, List.find?_isSome]
    exact ⟨l.ending, List.mem_map_of_mem hl, decide_eq_true hEnding⟩
  obtain ⟨first, hFirst⟩ := Option.isSome_iff_exists.mp hFirst
  have hWide : Line.firstEnding? (lines.map Line.widen) = some first.widen := by
    rw [Line.firstEnding?, hEndings, List.find?_map, hReal]
    exact congrArg (Option.map Ending.widen) hFirst
  rw [blockEnding_eq, blockEnding_eq, hWide, hFirst, hEndings, List.getLast?_map,
    Option.filter_map, hReal]
  cases (before.map Line.ending).getLast?.filter fun e => decide (e ≠ .none) <;> rfl

theorem attach_widen (e : Ending) (before block : List Line) :
    attach e.widen (before.map Line.widen) (block.map Line.widen) =
      (attach e before block).map Line.widen := by
  rcases before.eq_nil_or_concat' with rfl | ⟨first, ⟨body, d⟩, rfl⟩
  · simp [attach]
  rcases block.eq_nil_or_concat' with rfl | ⟨others, last, rfl⟩
  · rw [List.map_nil, attach_nil, attach_nil]
  cases d with
  | none =>
    rw [attach_unterminated]
    simp only [List.map_append, List.map_singleton]
    exact attach_unterminated body (Line.widen last)
  | lf | crlf => simp [attach, Line.widen, Ending.widen]

theorem insertImports_widen (hLines : ∃ l ∈ lines, l.ending ≠ .none) :
    insertImports k names (lines.map Line.widen) =
      (insertImports k names lines).map Line.widen := by
  rw [insertImports, insertImports, ← List.map_take, ← List.map_drop, blockEnding_widen hLines,
    List.map_append, ← attach_widen, List.map_map]
  rfl

theorem blockEnding_ne_crlf (hLines : ∀ l ∈ lines, l.ending ≠ .crlf) (k : Nat) :
    blockEnding (lines.take k) lines ≠ .crlf := by
  unfold blockEnding
  split
  · nofun
  · rename_i hLast
    exact absurd rfl (hLines _ (List.mem_of_mem_take (List.mem_of_getLast? hLast)))
  · cases hFirst : Line.firstEnding? lines with
    | none => nofun
    | some e =>
      obtain ⟨l, hl, rfl⟩ := List.mem_map.mp (List.mem_of_find?_eq_some hFirst)
      exact hLines l hl

theorem isNarrow_attach (he : e ≠ .crlf) (hBefore : ∀ l ∈ before, l.IsNarrow)
    (hBlock : ∀ l ∈ block, l.IsNarrow) : ∀ l ∈ attach e before block, l.IsNarrow := by
  unfold attach
  split
  · rename_i hOpen hLast
    rw [List.forall_mem_append, List.forall_mem_cons, List.forall_mem_append,
      List.forall_mem_singleton]
    refine ⟨?_, ⟨(hBefore _ (List.mem_of_getLast? hOpen)).1, he⟩, ?_,
      (hBlock _ (List.mem_of_getLast? hLast)).1, nofun⟩
    · exact fun l hl => hBefore l (List.mem_of_mem_dropLast hl)
    · exact fun l hl => hBlock l (List.mem_of_mem_dropLast hl)
  · exact List.forall_mem_append.mpr ⟨hBefore, hBlock⟩

theorem isNarrow_insertImports (hLines : ∀ l ∈ lines, l.IsNarrow)
    (hNames : ∀ n ∈ names, '\n' ∉ n) : ∀ l ∈ insertImports k names lines, l.IsNarrow := by
  have hEnding := blockEnding_ne_crlf (fun l hl => (hLines l hl).2) k
  rw [insertImports, List.forall_mem_append]
  constructor
  · apply isNarrow_attach hEnding
    · exact fun l hl => hLines l (List.mem_of_mem_take hl)
    · rw [List.forall_mem_map]
      exact fun n hn => ⟨not_mem_importLine (hNames n hn), hEnding⟩
  · exact fun l hl => hLines l (List.mem_of_mem_drop hl)

end Insert

end Revision

section Revise

variable {source : Text}

/-- The revision of a text with wide endings is that of the text, with wide endings. There must be
an ending to tell what the text has: where there is none, new lines end in a line feed. -/
theorem revise_widen (hNarrow : '\r' ∉ source) (hFeed : '\n' ∈ source) (o : Options) :
    revise o source.widen =
      (revise o source).map fun r => { r with content := r.content.widen } := by
  rw [(ReadAlike.of_bodies (Line.bodies_widen hNarrow)).revise, Line.split_widen hNarrow,
    Line.map_shorten_widen]
  apply Option.map_congr
  intro r hr
  let f := Reading.shortens o (Line.bodies source)
  have hLines : ∀ l ∈ (Line.split source).map (Line.shorten f), l.IsNarrow := by
    intro l hl
    refine ⟨(Line.joinable_shorten f (Line.joinable_split source)).not_mem_body l hl, ?_⟩
    obtain ⟨m, hm, rfl⟩ := List.mem_map.mp hl
    exact Line.ending_ne_crlf_of_mem_split hNarrow m hm
  have hEnding : ∃ l ∈ (Line.split source).map (Line.shorten f), l.ending ≠ .none := by
    obtain ⟨l, hl, hEnding⟩ := Line.exists_ending_of_mem hFeed
    exact ⟨l.shorten f, List.mem_map_of_mem hl, hEnding⟩
  rw [Revision.insertImports_widen hEnding,
    Line.join_widen (Revision.isNarrow_insertImports hLines (not_mem_newImports hr)),
    ← (revise_eq_some hr).2.1]

/-- The last import has no ending, and takes that of the line before it. -/
theorem revise_widen_of_open_import :
    let source := "class A { com.acme.Foo f; }\nimport java.util.List;".toList
    let content := "class A { Foo f; }\r\nimport java.util.List;\r\nimport com.acme.Foo;".toList
    '\r' ∉ source ∧ '\n' ∈ source ∧
      revise .standard (Text.widen source) = some ⟨content, ["com.acme.Foo".toList], 1⟩ := by
  intro source content
  have hNarrow : '\r' ∉ source := by decide +kernel
  have hFeed : '\n' ∈ source := by decide +kernel
  have hr : revise .standard source =
      some ⟨"class A { Foo f; }\nimport java.util.List;\nimport com.acme.Foo;".toList,
        ["com.acme.Foo".toList], 1⟩ := by
    decide +kernel
  refine ⟨hNarrow, hFeed, ?_⟩
  rw [revise_widen hNarrow hFeed, hr]
  decide +kernel

end Revise

end ShortNames
