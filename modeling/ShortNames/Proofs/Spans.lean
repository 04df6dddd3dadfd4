import ShortNames.Proofs.LiteralGrammar
import ShortNames.Proofs.Scanning

/-!
# Where segments lie

The segments of a line with the places where they start. The literals are what a search for nothing
but literals finds, and of the rest of the line exactly the bounded names of the grammar are
qualified names: a name that the reader took and gave up again hides neither.
-/

namespace ShortNames

namespace QualifiedName

/-- The text of a name in the grammar: a package and a type name behind its last dot. -/
def IsToken (w : Text) : Prop :=
  ∃ package name, IsPackage package ∧ IsTypeName name ∧ w = package ++ '.' :: name

/-- The parts of a name are those before and behind the last dot of its text. -/
theorem wellFormed_iff {q : QualifiedName} :
    q.WellFormed ↔ IsToken q.text ∧ '.' ∉ q.name := by
  constructor
  · intro hq
    exact ⟨⟨q.package, q.name, hq.package, hq.name, rfl⟩, hq.name.not_mem_dot⟩
  · rintro ⟨⟨package, name, hPackage, hName, hText⟩, hDot⟩
    rw [text] at hText
    have hSame : q.name = name := by
      rw [← Text.lastSegment_append hDot q.package, hText,
        Text.lastSegment_append hName.not_mem_dot]
    rw [hSame] at hText
    have hBefore := List.append_cancel_right hText
    exact ⟨hBefore ▸ hPackage, hSame ▸ hName⟩

end QualifiedName

namespace Segment

open QualifiedName (isChainPart IsToken)

/-- The segments with the place where each starts, the first at `i`. -/
def spans (i : Nat) : List Segment → List (Nat × Segment)
  | [] => []
  | s :: rest => (i, s) :: spans (i + s.source.length) rest

def literalSpan? : Nat × Segment → Option (Nat × Text)
  | (i, literal t) => some (i, t)
  | _ => none

def literalSpans (line : Text) : List (Nat × Text) :=
  (spans 0 (ofLine line)).filterMap literalSpan?

/-- The matches of a language in a text that starts at place `i`: at each place from the left the
match that starts there, if there is one, and then on from its end. -/
inductive Matches (L : Text → Prop) : Nat → Text → List (Nat × Text) → Prop
  | nil (i : Nat) : Matches L i [] []
  | hit {i : Nat} {t s after : Text} {found : List (Nat × Text)} (hText : t = s ++ after)
    (hs : L s) (hRest : Matches L (i + s.length) after found) : Matches L i t ((i, s) :: found)
  | miss {i : Nat} {c : Char} {t : Text} {found : List (Nat × Text)}
    (hNone : ∀ s, s <+: c :: t → ¬ L s) (hRest : Matches L (i + 1) t found) :
    Matches L i (c :: t) found

variable {i j : Nat} {before : Option Char} {t pre post : Text} {q : QualifiedName}
  {found : List (Nat × Text)}

/-! ## Text in pieces -/

theorem filterMap_spans_push {α : Type} {g : Nat × Segment → Option α}
    (hg : ∀ i t, g (i, text t) = none) (i : Nat) (s : Segment) (segments : List Segment) :
    (spans i (push s segments)).filterMap g = (spans i (s :: segments)).filterMap g := by
  unfold push
  split
  · rename_i u v rest
    simp only [spans, source, List.length_append, Nat.add_assoc]
    rw [List.filterMap_cons_none (hg _ _), List.filterMap_cons_none (hg _ _),
      List.filterMap_cons_none (hg _ _)]
  · rfl

/-- What is found in single segments with their places, but not in text, does not see how text is
cut. -/
theorem filterMap_spans_joinText {α : Type} {g : Nat × Segment → Option α}
    (hg : ∀ i t, g (i, text t) = none) (i : Nat) (segments : List Segment) :
    (spans i (joinText segments)).filterMap g = (spans i segments).filterMap g := by
  induction segments generalizing i with
  | nil => rfl
  | cons s segments ih =>
    rw [joinText_cons, filterMap_spans_push hg, spans, spans, List.filterMap_cons,
      List.filterMap_cons, ih]

theorem literalSpans_eq (line : Text) :
    literalSpans line = (spans 0 (atoms none line)).filterMap literalSpan? := by
  rw [literalSpans, ofLine_eq_joinText_atoms, filterMap_spans_joinText fun _ _ => rfl]

@[simp] theorem literalSpan?_eq_some_iff {e : Nat × Segment} {s : Text} :
    literalSpan? e = some (j, s) ↔ e = (j, literal s) := by
  obtain ⟨k, u⟩ := e
  cases u <;> simp [literalSpan?]

@[simp] theorem mem_literalSpans {segments : List Segment} {s : Text} :
    (j, s) ∈ (spans i segments).filterMap literalSpan? ↔ (j, literal s) ∈ spans i segments := by
  simp [List.mem_filterMap]

def nameSpan? : Nat × Segment → Option (Nat × QualifiedName)
  | (i, qualified q) => some (i, q)
  | _ => none

@[simp] theorem nameSpan?_eq_some_iff {e : Nat × Segment} :
    nameSpan? e = some (j, q) ↔ e = (j, qualified q) := by
  obtain ⟨k, u⟩ := e
  cases u <;> simp [nameSpan?]

@[simp] theorem mem_nameSpans {segments : List Segment} :
    (j, q) ∈ (spans i segments).filterMap nameSpan? ↔ (j, qualified q) ∈ spans i segments := by
  simp [List.mem_filterMap]

theorem qualified_mem_spans_ofLine {line : Text} :
    (j, qualified q) ∈ spans i (ofLine line) ↔ (j, qualified q) ∈ spans i (atoms none line) := by
  rw [← mem_nameSpans, ← mem_nameSpans, ofLine_eq_joinText_atoms,
    filterMap_spans_joinText fun _ _ => rfl]

/-! ## Literals -/

theorem Matches.chain {w : Text} (hw : ∀ c ∈ w, isChainPart c = true)
    (h : Matches IsLiteral (i + w.length) t found) : Matches IsLiteral i (w ++ t) found := by
  induction w generalizing i with
  | nil => exact h
  | cons c w ih =>
    rw [List.forall_mem_cons] at hw
    rw [List.length_cons, ← Nat.add_assoc, Nat.add_right_comm] at h
    exact .miss (literal?_eq_none_iff.mp (literal?_of_isChainPart hw.1 _)) (ih hw.2 h)

theorem matches_atoms (i : Nat) (before : Option Char) (t : Text) :
    Matches IsLiteral i t ((spans i (atoms before t)).filterMap literalSpan?) := by
  fun_induction atoms before t generalizing i with
  | case1 => exact .nil i
  | case2 before c t s after h ih =>
    obtain ⟨hText, hLiteral⟩ := literal?_eq_some_iff.mp h
    exact .hit hText hLiteral (ih _)
  | case3 before c t h q after hq ih =>
    obtain ⟨hText, hWellFormed, -⟩ := nameAt?_some hq
    rw [hText]
    exact (ih _).chain hWellFormed.chain
  | case4 before c t h hq ih => exact .miss (literal?_eq_none_iff.mp h) (ih _)

/-- A search for literals has one result. -/
theorem Matches.unique {found' : List (Nat × Text)} (h : Matches IsLiteral i t found)
    (h' : Matches IsLiteral i t found') : found = found' := by
  induction h generalizing found' with
  | nil i =>
    cases h' with
    | nil => rfl
    | hit hText hs =>
      obtain ⟨rfl, -⟩ := List.append_eq_nil_iff.mp hText.symm
      cases hs
  | @hit i t s after found hText hs _ ih =>
    have hRead := literal?_eq_some_iff.mpr ⟨hText, hs⟩
    cases h' with
    | nil => cases hRead
    | hit hText' hs' hRest' =>
      cases hRead.symm.trans (literal?_eq_some_iff.mpr ⟨hText', hs'⟩)
      rw [ih hRest']
    | miss hNone' => cases hRead.symm.trans (literal?_eq_none_iff.mpr hNone')
  | @miss i c t found hNone _ ih =>
    cases h' with
    | hit hText' hs' =>
      cases (literal?_eq_none_iff.mpr hNone).symm.trans
        (literal?_eq_some_iff.mpr ⟨hText', hs'⟩)
    | miss _ hRest' => exact ih hRest'

/-! ## Names -/

theorem isOpen_iff : isOpen before = true ↔
    ∀ c ∈ before, Text.isIdentifier c = false ∧ c ≠ '.' := by
  simp [isOpen, Option.all_eq_true]

theorem qualified_mem_spans (h : (j, qualified q) ∈ spans i (atoms before t)) :
    ∃ pre post, t = pre ++ q.text ++ post ∧ j = i + pre.length ∧ q.WellFormed ∧
      isOpen (pre.getLast?.or before) = true ∧ ∀ c ∈ post.head?, Text.isIdentifier c = false := by
  fun_induction atoms before t generalizing i with
  | case1 => cases h
  | case2 before c t s after hl ih =>
    obtain ⟨hText, hs⟩ := eq_append_of_literal? hl
    rcases List.mem_cons.mp h with hFirst | hLater
    · cases hFirst
    · obtain ⟨pre, post, rfl, rfl, hq, hOpen, hPost⟩ := ih hLater
      refine ⟨s ++ pre, post, ?_, ?_, hq, ?_, hPost⟩
      · rw [hText, List.append_assoc, List.append_assoc, List.append_assoc]
      · rw [List.length_append, source, Nat.add_assoc]
      · rwa [Text.getLast?_append_or hs]
  | case3 before c t hl u after hu ih =>
    obtain ⟨hText, hWellFormed, hOpen, hAfter⟩ := nameAt?_some hu
    rcases List.mem_cons.mp h with hFirst | hLater
    · cases hFirst
      exact ⟨[], after, hText, rfl, hWellFormed, hOpen, hAfter⟩
    · obtain ⟨pre, post, rfl, rfl, hq, hOpen, hPost⟩ := ih hLater
      refine ⟨u.text ++ pre, post, ?_, ?_, hq, ?_, hPost⟩
      · rw [hText, List.append_assoc, List.append_assoc, List.append_assoc]
      · rw [List.length_append, source, Nat.add_assoc]
      · rwa [Text.getLast?_append_or u.text_ne_nil, hWellFormed.getLast?_text]
  | case4 before c t hl hu ih =>
    rcases List.mem_cons.mp h with hFirst | hLater
    · cases hFirst
    · obtain ⟨pre, post, rfl, rfl, hq, hOpen, hPost⟩ := ih hLater
      refine ⟨c :: pre, post, rfl, ?_, hq, ?_, hPost⟩
      · rw [List.length_cons, source, List.length_singleton]
        omega
      · rwa [← List.singleton_append, Text.getLast?_append_or (List.cons_ne_nil c [])]

/-- No literal lies in the `n` characters from place `j` on. -/
def IsClear (found : List (Nat × Text)) (j n : Nat) : Prop :=
  ∀ k s, (k, s) ∈ found → k + s.length ≤ j ∨ j + n ≤ k

theorem mem_spans_cons (s : Segment) {segments : List Segment} {rest : Text} {u : Segment}
    (h : (i + s.source.length + rest.length, u) ∈ spans (i + s.source.length) segments) :
    (i + (s.source ++ rest).length, u) ∈ spans i (s :: segments) := by
  rw [List.length_append, ← Nat.add_assoc]
  exact List.mem_cons_of_mem _ h

theorem IsClear.behind {s : Segment} {segments : List Segment} {rest : Text} {n : Nat}
    (h : IsClear ((spans i (s :: segments)).filterMap literalSpan?)
      (i + (s.source ++ rest).length) n) :
    IsClear ((spans (i + s.source.length) segments).filterMap literalSpan?)
      (i + s.source.length + rest.length) n := by
  intro k u hMem
  rw [List.length_append, ← Nat.add_assoc] at h
  apply h k u
  rw [mem_literalSpans] at hMem ⊢
  exact List.mem_cons_of_mem _ hMem

/-- A bounded name that no literal touches is found. -/
theorem mem_spans_of_bounded (hq : q.WellFormed) (hText : t = pre ++ (q.text ++ post))
    (hOpen : isOpen (pre.getLast?.or before) = true)
    (hPost : ∀ c ∈ post.head?, Text.isIdentifier c = false)
    (hClear : IsClear ((spans i (atoms before t)).filterMap literalSpan?) (i + pre.length)
      q.text.length) :
    (i + pre.length, qualified q) ∈ spans i (atoms before t) := by
  have hRead : QualifiedName.read? (q.text ++ post) = some (q, post) :=
    QualifiedName.read?_text_append hq fun c hc => QualifiedName.isWordPart_eq_false (hPost c hc)
  have hName (before : Option Char) (hOpen : isOpen before = true) :
      nameAt? before (q.text ++ post) = some (q, post) :=
    nameAt?_eq_some_iff.mpr ⟨hRead, isBounded_iff.mpr ⟨hOpen, hPost⟩⟩
  fun_induction atoms before t generalizing i pre with
  | case1 => exact absurd hText.symm (by simp)
  | case2 before c t s after hl ih =>
    obtain ⟨hSource, hs⟩ := eq_append_of_literal? hl
    -- The name lies behind the literal, as it is not empty.
    have hBehind : s.length ≤ pre.length := by
      have hLength : 0 < q.text.length := List.length_pos_iff.mpr q.text_ne_nil
      have hFirst := hClear i s (mem_literalSpans.mpr List.mem_cons_self)
      omega
    rw [hSource] at hText
    obtain ⟨rest, rfl⟩ := List.prefix_of_prefix_length_le ⟨after, hText⟩ ⟨_, rfl⟩ hBehind
    rw [List.append_assoc] at hText
    rw [Text.getLast?_append_or hs] at hOpen
    exact mem_spans_cons (literal s) (ih (List.append_cancel_left hText) hOpen hClear.behind)
  | case3 before c t hl u after hu ih =>
    obtain ⟨hSource, hWellFormed, -⟩ := nameAt?_some hu
    rw [hSource] at hText
    rcases List.append_eq_append_iff.mp hText with ⟨rest, rfl, hAfter⟩ | ⟨rest, hInside, hTail⟩
    · rw [Text.getLast?_append_or u.text_ne_nil, hWellFormed.getLast?_text] at hOpen
      exact mem_spans_cons (qualified u) (ih hAfter hOpen hClear.behind)
    · rcases pre.eq_nil_or_concat' with rfl | ⟨p, d, rfl⟩
      · rw [hSource, hText, List.nil_append, hName before hOpen] at hu
        cases hu
        exact List.mem_cons_self
      · -- Inside a name no name is open.
        have hd := hWellFormed.chain d (by rw [hInside]; simp)
        rw [List.getLast?_concat, Option.some_or, isOpen_of_isChainPart hd] at hOpen
        cases hOpen
  | case4 before c t hl hu ih =>
    cases pre with
    | nil =>
      rw [hText, List.nil_append, hName before hOpen] at hu
      cases hu
    | cons d pre =>
      obtain ⟨rfl, hRest⟩ := List.cons.inj hText
      rw [← List.singleton_append, Text.getLast?_append_or (List.cons_ne_nil c [])] at hOpen
      exact mem_spans_cons (text [c]) (ih hRest hOpen hClear.behind)

/-- The literals of a line are the matches of a search for literals alone. What they leave of the
line holds a qualified name wherever a name of the grammar stands that follows no identifier and no
dot and is followed by no identifier, and nowhere else. -/
theorem segments_by_grammar (line : Text) :
    (∀ found, Matches IsLiteral 0 line found ↔ found = literalSpans line) ∧
      ∀ pre w post, line = pre ++ (w ++ post) →
        IsClear (literalSpans line) pre.length w.length → ∀ q,
          (pre.length, qualified q) ∈ spans 0 (ofLine line) ∧ q.text = w ↔
            IsToken w ∧ (∀ c ∈ pre.getLast?, Text.isIdentifier c = false ∧ c ≠ '.') ∧
              (∀ c ∈ post.head?, Text.isIdentifier c = false) ∧
              w = q.package ++ '.' :: q.name ∧ '.' ∉ q.name := by
  constructor
  · intro found
    have hMatches := matches_atoms 0 none line
    rw [← literalSpans_eq] at hMatches
    constructor
    · exact fun h => h.unique hMatches
    · rintro rfl
      exact hMatches
  · intro pre w post hLine hClear q
    rw [qualified_mem_spans_ofLine]
    constructor
    · rintro ⟨hMem, rfl⟩
      obtain ⟨pre', post', hText, hLength, hq, hOpen, hPost⟩ := qualified_mem_spans hMem
      rw [hLine, List.append_assoc] at hText
      rw [Nat.zero_add] at hLength
      obtain ⟨rfl, hRest⟩ := List.append_inj hText hLength
      obtain rfl := List.append_cancel_left hRest
      rw [Option.or_none] at hOpen
      obtain ⟨hToken, hDot⟩ := QualifiedName.wellFormed_iff.mp hq
      exact ⟨hToken, isOpen_iff.mp hOpen, hPost, rfl, hDot⟩
    · rintro ⟨hToken, hPre, hPost, rfl, hDot⟩
      have hq := QualifiedName.wellFormed_iff.mpr ⟨hToken, hDot⟩
      refine ⟨?_, rfl⟩
      rw [← Nat.zero_add pre.length] at hClear ⊢
      rw [literalSpans_eq] at hClear
      apply mem_spans_of_bounded hq hLine _ hPost hClear
      rw [Option.or_none]
      exact isOpen_iff.mpr hPre

/-- A name behind a literal that holds a quotation mark, and before a name that is a member. -/
theorem segments_by_grammar_of_quoted_mark :
    let line := "f('\"', a.b.C, x$d.E, \"g.H\")".toList
    (7, qualified ⟨"a.b".toList, "C".toList⟩) ∈ spans 0 (ofLine line) := by
  intro line
  have hClear : IsClear (literalSpans line) 7 5 := by
    have hFound : literalSpans line = [(2, "'\"'".toList), (21, "\"g.H\"".toList)] := by
      decide +kernel
    rw [hFound]
    intro k s hMem
    simp only [List.mem_cons, List.not_mem_nil, or_false, Prod.mk.injEq] at hMem
    rcases hMem with ⟨rfl, rfl⟩ | ⟨rfl, rfl⟩
    · decide
    · decide
  have hPackage : QualifiedName.IsPackage (('a' :: []) ++ '.' :: ['b']) :=
    .member rfl (List.forall_mem_nil _) (.word rfl (List.forall_mem_nil _))
  have hToken : IsToken "a.b.C".toList :=
    ⟨"a.b".toList, "C".toList, hPackage, ⟨'C', [], rfl, rfl, List.forall_mem_nil _⟩, rfl⟩
  have hBefore : ∀ c ∈ ("f('\"', ".toList).getLast?, Text.isIdentifier c = false ∧ c ≠ '.' := by
    intro c hc
    obtain rfl : ' ' = c := Option.some.inj hc
    decide
  have hBehind : ∀ c ∈ (", x$d.E, \"g.H\")".toList).head?, Text.isIdentifier c = false := by
    intro c hc
    obtain rfl : ',' = c := Option.some.inj hc
    decide
  exact (((segments_by_grammar line).2 "f('\"', ".toList "a.b.C".toList
    ", x$d.E, \"g.H\")".toList rfl hClear ⟨"a.b".toList, "C".toList⟩).mpr
      ⟨hToken, hBefore, hBehind, rfl, by decide⟩).1

end Segment

end ShortNames
