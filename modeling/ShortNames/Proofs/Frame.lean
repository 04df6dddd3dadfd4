import ShortNames.Proofs.Layout

/-!
# What a revision leaves as it is

A revision adds one block of imports and writes names of code lines short. `Frame` says that nothing
else happens to the lines: each keeps its body and its ending, save a last line that lacked its
ending and has imports behind it. The header of a revision is the old one with the new imports.
-/

namespace ShortNames

open Line (EndsOpen endsOpen_append endsOpen_concat)

/-- The lines but for the `n` lines from line `k` on. -/
def Line.without (k n : Nat) (lines : List Line) : List Line :=
  lines.take k ++ lines.drop (k + n)

/-- Imports of `names` in front of line `k` follow a last line that lacks its ending. -/
def FollowsOpenEnd (k : Nat) (names : List Text) (lines : List Line) : Prop :=
  names ≠ [] ∧ k = lines.length ∧ EndsOpen lines

instance (k : Nat) (names : List Text) (lines : List Line) :
    Decidable (FollowsOpenEnd k names lines) :=
  inferInstanceAs (Decidable (_ ∧ _ ∧ _))

/-- The lines `revised` are those of a text, with the names of `f` written short, and a block of
imports of `names` in front of line `k`. -/
structure Frame (f : QualifiedName → Bool) (k : Nat) (names : List Text)
    (lines revised : List Line) : Prop where
  place : k ≤ lines.length
  length : revised.length = lines.length + names.length
  block : ((revised.drop k).take names.length).map Line.body = names.map importLine
  kept : ¬ FollowsOpenEnd k names lines →
    Line.without k names.length revised = lines.map (Line.shorten f)
  /-- The last line gains an ending, which takes a carriage return from it if it is a line feed. -/
  closed : FollowsOpenEnd k names lines → ∃ first body e,
    lines = first ++ [⟨body, .none⟩] ∧ e ≠ .none ∧
      Line.without k names.length revised =
        first.map (Line.shorten f) ++ [Line.absorb ⟨body, e⟩]
  openEnd : EndsOpen revised ↔ EndsOpen lines

section Placed

variable {e : Ending} {f : QualifiedName → Bool} {k : Nat} {names : List Text}
  {lines revised : List Line}

open Revision (Placed importLines map_body_importLines)

theorem without_of_parts {first block : List Line} {n : Nat} (hFirst : first.length = k)
    (hBlock : block.length = n) (rest : List Line) :
    Line.without k n (first ++ block ++ rest) = first ++ rest ∧
      ((first ++ block ++ rest).drop k).take n = block := by
  have hBoth : (first ++ block).length = k + n := by rw [List.length_append, hFirst, hBlock]
  constructor
  · rw [Line.without, List.drop_left' hBoth, List.append_assoc, List.take_left' hFirst]
  · rw [List.append_assoc, List.drop_left' hFirst, List.take_left' hBlock]

@[simp] theorem endsOpen_map_shorten : EndsOpen (lines.map (Line.shorten f)) ↔ EndsOpen lines := by
  rw [EndsOpen, List.getLast?_map, Option.map_map, EndsOpen]
  rfl

theorem endsOpen_between (he : e ≠ .none) (hPlace : k ≤ lines.length)
    (hNot : ¬ FollowsOpenEnd k names lines) :
    EndsOpen (lines.take k ++ importLines e names ++ lines.drop k) ↔ EndsOpen lines := by
  by_cases hDrop : lines.drop k = []
  · rw [hDrop, List.append_nil, List.take_of_length_le (List.drop_eq_nil_iff.mp hDrop)]
    rcases names.eq_nil_or_concat' with rfl | ⟨others, last, rfl⟩
    · rw [importLines, List.map_nil, List.append_nil]
    · rw [importLines, List.map_append, List.map_singleton, ← List.append_assoc, endsOpen_concat]
      apply iff_of_false he
      intro hOpen
      have hEnd := le_antisymm hPlace (List.drop_eq_nil_iff.mp hDrop)
      exact hNot ⟨List.concat_ne_nil last others, hEnd, hOpen⟩
  · rw [endsOpen_append _ hDrop, ← endsOpen_append (lines.take k) hDrop,
      List.take_append_drop]

theorem Frame.of_between (he : e ≠ .none) (hPlace : k ≤ lines.length)
    (hNot : ¬ FollowsOpenEnd k names lines) :
    Frame f k names lines ((lines.map (Line.shorten f)).take k ++ importLines e names ++
      (lines.map (Line.shorten f)).drop k) := by
  have hTake : ((lines.map (Line.shorten f)).take k).length = k := by
    rw [← List.map_take, List.length_map, List.length_take_of_le hPlace]
  have hLength : (importLines e names).length = names.length := List.length_map _
  obtain ⟨hKept, hBlock⟩ := without_of_parts hTake hLength
    ((lines.map (Line.shorten f)).drop k)
  constructor
  case place => exact hPlace
  case length =>
    rw [List.length_append, List.length_append, hTake, hLength, List.length_drop, List.length_map]
    omega
  case block =>
    rw [hBlock]
    exact map_body_importLines (g := id)
  case kept =>
    intro _
    rw [hKept, List.take_append_drop]
  case closed => exact fun hFollows => absurd hFollows hNot
  case openEnd =>
    rw [endsOpen_between he, endsOpen_map_shorten]
    · rwa [List.length_map]
    · rwa [FollowsOpenEnd, List.length_map, endsOpen_map_shorten]

theorem Frame.of_behind {first : List Line} {body : Text} {others : List Text} {last : Text}
    (he : e ≠ .none) :
    Frame f (first.length + 1) (others ++ [last]) (first ++ [⟨body, .none⟩])
      (first.map (Line.shorten f) ++ [Line.absorb ⟨body, e⟩] ++ importLines e others ++
        [⟨importLine last, .none⟩]) := by
  have hFollows : FollowsOpenEnd (first.length + 1) (others ++ [last])
      (first ++ [⟨body, .none⟩]) := by
    refine ⟨List.concat_ne_nil last others, ?_, endsOpen_concat.mpr rfl⟩
    rw [List.length_append, List.length_singleton]
  have hFirst : (first.map (Line.shorten f) ++ [Line.absorb ⟨body, e⟩]).length =
      first.length + 1 := by
    rw [List.length_append, List.length_map, List.length_singleton]
  have hLength : (importLines e others ++ [Line.mk (importLine last) .none]).length =
      (others ++ [last]).length := by
    rw [List.length_append, List.length_append, importLines, List.length_map,
      List.length_singleton, List.length_singleton]
  obtain ⟨hKept, hBlock⟩ := without_of_parts hFirst hLength []
  rw [List.append_nil, List.append_nil, ← List.append_assoc] at hKept
  rw [List.append_nil, ← List.append_assoc] at hBlock
  constructor
  case place => exact hFollows.2.1.le
  case length =>
    rw [List.append_assoc _ (importLines e others), List.length_append, hFirst, hLength,
      hFollows.2.1]
  case block =>
    rw [hBlock, List.map_append, List.map_append, List.map_singleton, List.map_singleton]
    exact congrArg (· ++ [importLine last]) (map_body_importLines (g := id))
  case kept => exact fun hNot => absurd hFollows hNot
  case closed => exact fun _ => ⟨first, body, e, rfl, he, hKept⟩
  case openEnd => exact iff_of_true (endsOpen_concat.mpr rfl) hFollows.2.2

theorem Frame.of_placed (he : e ≠ .none) (hPlace : k ≤ lines.length)
    (hOpen : ∀ l, lines.getLast? = some l → k = lines.length → l.shorten f = l)
    (h : Placed e k names (lines.map (Line.shorten f)) revised) :
    Frame f k names lines revised := by
  cases h with
  | between hBefore =>
    apply Frame.of_between he hPlace
    rintro ⟨hne, hEnd, hOpenEnd⟩
    rw [List.take_of_length_le (by rw [List.length_map, hEnd])] at hBefore
    obtain ⟨l, hl, hNone⟩ := Option.map_eq_some_iff.mp (endsOpen_map_shorten.mpr hOpenEnd)
    exact (hBefore.resolve_right hne l (List.mem_of_getLast? hl)).2 hNone
  | @behind first body others last hLines hEnd hNames =>
    rw [List.length_map] at hEnd
    obtain ⟨before, tail, rfl, rfl, hTail⟩ := List.map_eq_append_iff.mp hLines
    obtain ⟨l, rfl, hLast⟩ := List.map_eq_singleton_iff.mp hTail
    have hk : k = before.length + 1 := by
      rw [List.length_append, List.length_singleton] at hPlace hEnd
      omega
    subst hk hNames
    have hSame := hOpen l List.getLast?_concat (by simp)
    rw [← hSame, hLast]
    exact Frame.of_behind he

end Placed

section Content

variable {o : Options} {source : Text} {r : Revision}

theorem split_ne_nil_of_revise (h : revise o source = some r) : Line.split source ≠ [] := by
  intro hNil
  have hNone : revise o source = none := by
    rw [revise_eq_none_iff, Line.bodies, hNil]
    intro q hq
    cases hq
  cases hNone.symm.trans h

theorem isLine_of_insertAt {l : Line} (hLast : (Line.split source).getLast? = some l)
    (hEnd : (Header.ofText source).insertAt = (Line.split source).length) :
    Declaration.isLine l.body = true := by
  apply Header.isLine_of_getLast?_take (Line.bodies source)
  rw [List.take_of_length_le (by rw [Line.bodies, List.length_map]; exact hEnd.ge), Line.bodies,
    List.getLast?_map, hLast, Option.map_some]

theorem Line.isCode_eq_false_of_isLine {body : Text} (h : Declaration.isLine body = true) :
    isCode body = false := by
  rw [isCode, h]
  rfl

theorem frame_content (h : revise o source = some r) :
    Frame (Reading.shortens o (Line.bodies source)) (Header.ofText source).insertAt r.newImports
      (Line.split source) (Line.split r.content) := by
  have hPlace : (Header.ofText source).insertAt ≤ (Line.split source).length := by
    have hLength := Header.insertAt_le_length (Line.bodies source)
    rwa [Line.bodies, List.length_map] at hLength
  apply Frame.of_placed (Revision.blockEnding_ne_none _ _) hPlace _ (placed_content h)
  intro l hLast hEnd
  exact Line.shorten_of_not_isCode (Line.isCode_eq_false_of_isLine (isLine_of_insertAt hLast hEnd))

theorem getLast?_content_eq_lf_iff (h : revise o source = some r) :
    r.content.getLast? = some '\n' ↔ source.getLast? = some '\n' := by
  have hLines := split_ne_nil_of_revise h
  have hFrame := frame_content h
  have hRevised : Line.split r.content ≠ [] := by
    rw [← List.length_pos_iff, hFrame.length]
    exact Nat.add_pos_left (List.length_pos_iff.mpr hLines) _
  have hSource : source ≠ [] := by
    rintro rfl
    exact hLines rfl
  have hContent : r.content ≠ [] := by
    intro hNil
    rw [hNil] at hRevised
    exact hRevised rfl
  rw [Line.getLast?_eq_lf_iff hContent, Line.getLast?_eq_lf_iff hSource, hFrame.openEnd]

/-- Line by line a revised text is the text with some names written short, and one block of
imports behind the header. It ends in a line feed exactly if the text does. -/
theorem revise_layout (h : revise o source = some r) :
    Frame (Reading.shortens o (Line.bodies source)) (Header.ofText source).insertAt r.newImports
        (Line.split source) (Line.split r.content) ∧
      (r.content.getLast? = some '\n' ↔ source.getLast? = some '\n') :=
  ⟨frame_content h, getLast?_content_eq_lf_iff h⟩

/-- A last import that lacks its ending and has a carriage return at its end. -/
theorem revise_layout_of_open_import :
    let source := "class A { com.acme.Foo f; }\nimport java.util.List;\r".toList
    let content := "class A { Foo f; }\nimport java.util.List;\r\nimport com.acme.Foo;".toList
    let f := Reading.shortens .standard (Line.bodies source)
    ∃ r, revise .standard source = some r ∧ r.content = content ∧
      FollowsOpenEnd 2 r.newImports (Line.split source) ∧
      Frame f 2 r.newImports (Line.split source) (Line.split r.content) ∧
      (r.content.getLast? = some '\n' ↔ source.getLast? = some '\n') := by
  intro source content f
  have hr : revise .standard source = some ⟨content, ["com.acme.Foo".toList], 1⟩ := by
    decide +kernel
  have hPlace : (Header.ofText source).insertAt = 2 := by decide +kernel
  have hLayout := revise_layout hr
  rw [hPlace] at hLayout
  exact ⟨_, hr, rfl, by decide +kernel, hLayout⟩

theorem get?_map_key (key : Text → Text) (names : List Text) (x : Text) :
    Bindings.get? (names.map fun n => (key n, n)) x = names.find? fun n => key n = x := by
  induction names with
  | nil => rfl
  | cons n names ih =>
    rw [List.map_cons, Bindings.get?_cons, ih, List.find?_cons]
    by_cases hx : x = key n
    · simp [hx]
    · simp [hx, Ne.symm hx]

theorem imported?_content_eq_or (h : revise o source = some r) (x : Text) :
    (Header.ofText r.content).names.imported? x =
      ((Header.ofText source).names.imported? x).or
        (r.newImports.find? fun n => n.lastSegment = x) := by
  cases hImport : (Header.ofText source).names.imported? x with
  | some path => rw [imported?_content_of_imported h hImport, Option.some_or]
  | none =>
    rw [names_content h, NameTable.imported?_addImports _ (nodup_bindings h), hImport,
      Option.or_none, Option.none_or, Revision.bindings, get?_map_key]

theorem insertAt_content (h : revise o source = some r) :
    (Header.ofText r.content).insertAt =
      (Header.ofText source).insertAt + r.newImports.length := by
  have hBlock : ∀ line ∈ r.newImports.map importLine,
      ∃ name path, Declaration.ofLine? line = some (.single name path) := by
    rw [List.forall_mem_map]
    intro n hn
    obtain ⟨u, hu, rfl⟩ := exists_of_mem_newImports h hn
    exact ⟨_, _, Declaration.ofLine?_importLine (Reading.wellFormed_of_mem_codeNames hu)⟩
  rw [ofText_content h, Header.ofText, Header.insertAt_insert _ _ hBlock, List.length_map]

/-- The header of a revised text is the old header with the new imports, each under its last
segment, and they move the place of further imports behind themselves. -/
theorem revise_header (h : revise o source = some r) :
    let old := Header.ofText source
    let new := Header.ofText r.content
    new.names.package = old.names.package ∧
      (r.newImports.map Text.lastSegment).Nodup ∧
      (∀ x, new.names.imported? x =
        (old.names.imported? x).or (r.newImports.find? fun n => n.lastSegment = x)) ∧
      (∀ package, new.names.hasOnDemand package = old.names.hasOnDemand package) ∧
      new.insertAt = old.insertAt + r.newImports.length := by
  refine ⟨package_content h, ?_, imported?_content_eq_or h, ?_, insertAt_content h⟩
  · have hNodup := nodup_bindings h
    rwa [Revision.bindings, List.map_map] at hNodup
  · intro package
    rw [NameTable.hasOnDemand, onDemand_content h, NameTable.hasOnDemand]

/-- A new import behind a static import that has bound another simple name. -/
theorem revise_header_of_static_import :
    let source := "package p;\nimport static q.T.Foo;\nclass A { c.Bar x; d.Foo y; }".toList
    ∃ r, revise .standard source = some r ∧
      (Header.ofText r.content).names.imported? "Foo".toList = some "q.T.Foo".toList ∧
      (Header.ofText r.content).names.imported? "Bar".toList = some "c.Bar".toList ∧
      (Header.ofText r.content).insertAt = 3 := by
  intro source
  have hSome : ((revise .standard source).map Revision.newImports) =
      some ["c.Bar".toList] := by decide +kernel
  obtain ⟨r, hr, hNew⟩ := Option.map_eq_some_iff.mp hSome
  obtain ⟨-, -, hImports, -, hPlace⟩ := revise_header hr
  rw [hNew] at hImports hPlace
  refine ⟨r, hr, ?_, ?_, ?_⟩
  · rw [hImports]
    decide +kernel
  · rw [hImports]
    decide +kernel
  · rw [hPlace]
    decide +kernel

end Content

end ShortNames
