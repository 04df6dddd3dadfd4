import ShortNames.Proofs.Alike
import ShortNames.Proofs.Frame

/-!
# Comment lines say nothing

The comment lines of a text can be replaced by others without an effect on anything else: the
revisions have the same imports and the same replacements, and each has the comments of its text.
-/

namespace ShortNames

theorem Comment.ofLine?_eq_none {c : Text} (h : isLine c = true) :
    Declaration.ofLine? c = none := by
  rw [isLine_iff] at h
  rw [Declaration.ofLine?]
  generalize c.trim = t at h
  cases h <;> rfl

theorem Comment.isCode_eq_false {c : Text} (h : isLine c = true) : Line.isCode c = false := by
  rw [Line.isCode, h]
  exact Bool.and_false _

namespace Line

/-- The lines with new bodies for some of them, by line number. -/
def recomment (comments : ℕ → Option Text) (lines : List Line) : List Line :=
  lines.mapIdx fun i l => ⟨(comments i).getD l.body, l.ending⟩

/-- Comment lines take the places of comment lines, and are single lines. -/
structure Recomments (comments : ℕ → Option Text) (lines : List Line) : Prop where
  old : ∀ i, (comments i).isSome = true → ∃ l, lines[i]? = some l ∧ Comment.isLine l.body = true
  new : ∀ i c, comments i = some c → Comment.isLine c = true ∧ '\r' ∉ c ∧ '\n' ∉ c

section Recomment

variable {comments : ℕ → Option Text} {lines : List Line}

theorem getElem?_recomment (comments : ℕ → Option Text) (lines : List Line) (i : ℕ) :
    (recomment comments lines)[i]? =
      lines[i]?.map fun l => ⟨(comments i).getD l.body, l.ending⟩ :=
  List.getElem?_mapIdx

@[simp] theorem recomment_append (comments : ℕ → Option Text) (lines rest : List Line) :
    recomment comments (lines ++ rest) =
      recomment comments lines ++ recomment (fun i => comments (i + lines.length)) rest :=
  List.mapIdx_append

theorem recomment_congr {comments' : ℕ → Option Text}
    (h : ∀ i < lines.length, comments i = comments' i) :
    recomment comments lines = recomment comments' lines := by
  apply List.ext_getElem?
  intro i
  rw [getElem?_recomment, getElem?_recomment]
  apply Option.map_congr
  intro l hl
  rw [h i (List.getElem?_eq_some_iff.mp hl).1]

theorem recomment_of_none (h : ∀ i < lines.length, comments i = none) :
    recomment comments lines = lines := by
  rw [recomment_congr h]
  apply List.ext_getElem?
  intro i
  rw [getElem?_recomment]
  exact Option.map_id'

@[simp] theorem map_ending_recomment (comments : ℕ → Option Text) (lines : List Line) :
    (recomment comments lines).map ending = lines.map ending := by
  apply List.ext_getElem?
  intro i
  rw [List.getElem?_map, List.getElem?_map, getElem?_recomment, Option.map_map]
  rfl

/-- What is the same for all comments is not changed by new comments. -/
theorem Recomments.map_body {α : Type} {g : Text → α} (h : Recomments comments lines)
    (hg : ∀ c d, Comment.isLine c = true → Comment.isLine d = true → g c = g d) :
    (recomment comments lines).map (fun l => g l.body) = lines.map fun l => g l.body := by
  apply List.ext_getElem?
  intro i
  rw [List.getElem?_map, List.getElem?_map, getElem?_recomment, Option.map_map]
  apply Option.map_congr
  intro l hl
  cases hc : comments i with
  | none => rfl
  | some c =>
    obtain ⟨m, hm, hOld⟩ := h.old i (Option.isSome_of_mem hc)
    rw [hl] at hm
    cases hm
    exact hg _ _ (h.new i c hc).1 hOld

theorem Recomments.map_shorten (h : Recomments comments lines) (f : QualifiedName → Bool) :
    (recomment comments lines).map (shorten f) = recomment comments (lines.map (shorten f)) := by
  apply List.ext_getElem?
  intro i
  rw [List.getElem?_map, getElem?_recomment, getElem?_recomment, List.getElem?_map,
    Option.map_map, Option.map_map]
  apply Option.map_congr
  intro l _
  cases hc : comments i with
  | none => rfl
  | some c => exact shorten_of_not_isCode (Comment.isCode_eq_false (h.new i c hc).1)

theorem getD_of {P : Text → Prop} {c? : Option Text} {t : Text} (hOld : P t)
    (hNew : ∀ c, c? = some c → P c) : P (c?.getD t) := by
  cases c? with
  | none => exact hOld
  | some c => exact hNew c rfl

theorem joinable_recomment (hNew : ∀ i c, comments i = some c → '\n' ∉ c ∧ c ≠ [])
    (h : Joinable lines) : Joinable (recomment comments lines) := by
  induction lines generalizing comments with
  | nil => trivial
  | cons l lines ih =>
    obtain ⟨hBody, hLast, hRest⟩ := h
    have hCons : recomment comments (l :: lines) = ⟨(comments 0).getD l.body, l.ending⟩ ::
        recomment (fun i => comments (i + 1)) lines := List.mapIdx_cons
    rw [hCons]
    refine ⟨?_, ?_, ih (fun i => hNew (i + 1)) hRest⟩
    · exact getD_of hBody fun c hc => (hNew 0 c hc).1
    · intro hNone
      obtain ⟨hne, rfl⟩ := hLast hNone
      exact ⟨getD_of (P := (· ≠ [])) hne fun c hc => (hNew 0 c hc).2, rfl⟩

theorem Recomments.absorb (h : Recomments comments lines) (hFixed : ∀ l ∈ lines, l.absorb = l) :
    ∀ l ∈ recomment comments lines, l.absorb = l := by
  intro l hl
  obtain ⟨i, hi, rfl⟩ := List.mem_mapIdx.mp hl
  cases hc : comments i with
  | none => exact hFixed _ (List.getElem_mem hi)
  | some c =>
    rw [Line.absorb, if_neg]
    rintro ⟨-, hLast⟩
    exact (h.new i c hc).2.1 (List.mem_of_getLast? hLast)

theorem Recomments.split_join {t : Text} (h : Recomments comments (split t)) :
    split (join (recomment comments (split t))) = recomment comments (split t) := by
  apply split_join_of_fixed
  · apply joinable_recomment _ (joinable_split t)
    intro i c hc
    obtain ⟨hLine, -, hFeed⟩ := h.new i c hc
    refine ⟨hFeed, ?_⟩
    rintro rfl
    cases hLine
  · exact h.absorb absorb_of_mem_split

end Recomment

end Line

section Revise

open Line (Recomments recomment)

variable {source : Text} {comments : ℕ → Option Text}

theorem Line.Recomments.readAlike (h : Recomments comments (Line.split source)) :
    ReadAlike source (Line.join (recomment comments (Line.split source))) := by
  have hBodies {α : Type} {g : Text → α}
      (hg : ∀ c d, Comment.isLine c = true → Comment.isLine d = true → g c = g d) :
      (Line.bodies (Line.join (recomment comments (Line.split source)))).map g =
        (Line.bodies source).map g := by
    rw [Line.bodies, Line.bodies, h.split_join, List.map_map, List.map_map]
    exact h.map_body hg
  constructor
  · apply Header.ofLines_congr
    apply hBodies
    intro c d hc hd
    rw [Comment.ofLine?_eq_none hc, Comment.ofLine?_eq_none hd]
  · have hCode := hBodies (g := Option.guard Line.isCode) fun c d hc hd => by
      simp [Option.guard, Comment.isCode_eq_false hc, Comment.isCode_eq_false hd]
    have hFilter := congrArg (List.filterMap id) hCode
    rwa [List.filterMap_map, List.filterMap_map, Function.id_comp,
      List.filterMap_eq_filter] at hFilter

/-- The comments as they are numbered when `n` lines have been put in front of line `k`. -/
def movedComments (k n : ℕ) (comments : ℕ → Option Text) (i : ℕ) : Option Text :=
  if i < k then comments i else if i < k + n then none else comments (i - n)

namespace Revision

variable {e : Ending} {k : ℕ} {names : List Text} {lines new : List Line}

theorem blockEnding_recomment (comments : ℕ → Option Text) (k : ℕ) (lines : List Line) :
    blockEnding ((recomment comments lines).take k) (recomment comments lines) =
      blockEnding (lines.take k) lines := by
  rw [blockEnding_eq, blockEnding_eq, Line.firstEnding?, Line.firstEnding?, List.map_take,
    List.map_take, Line.map_ending_recomment]

theorem terminated_recomment (hNew : ∀ i c, comments i = some c → '\n' ∉ c)
    (h : Line.Terminated lines) : Line.Terminated (recomment comments lines) := by
  intro l hl
  obtain ⟨i, hi, rfl⟩ := List.mem_mapIdx.mp hl
  obtain ⟨hBody, hEnding⟩ := h _ (List.getElem_mem hi)
  exact ⟨Line.getD_of hBody (hNew i), hEnding⟩

theorem recomment_between (comments : ℕ → Option Text) {before block : List Line} {n : ℕ}
    (hBefore : before.length = k) (hBlock : block.length = n) (rest : List Line) :
    recomment (movedComments k n comments) (before ++ block ++ rest) =
      recomment comments before ++ block ++ recomment (fun i => comments (i + k)) rest := by
  rw [Line.recomment_append, Line.recomment_append, List.length_append, hBefore, hBlock]
  congr 1
  · congr 1
    · apply Line.recomment_congr
      intro i hi
      rw [movedComments, if_pos (by omega)]
    · apply Line.recomment_of_none
      intro i hi
      rw [movedComments, if_neg (by omega), if_pos (by omega)]
  · apply Line.recomment_congr
    intro i hi
    rw [movedComments, if_neg (by omega), if_neg (by omega)]
    congr 1
    omega

theorem recomment_concat (hFree : comments lines.length = none) (l : Line) :
    recomment comments (lines ++ [l]) = recomment comments lines ++ [l] := by
  have hLast : recomment (fun i => comments (i + lines.length)) [l] = [l] := by
    apply Line.recomment_of_none
    intro i hi
    rw [List.length_singleton, Nat.lt_one_iff] at hi
    rw [hi, Nat.zero_add, hFree]
  rw [Line.recomment_append, hLast]

theorem recomment_behind {first block : List Line} {n : ℕ} (hFirst : first.length + 1 = k)
    (hBlock : block.length = n) (hFree : comments first.length = none) (l : Line) :
    recomment (movedComments k n comments) (first ++ [l] ++ block) =
      recomment comments first ++ [l] ++ block := by
  have hBefore : (first ++ [l]).length = k := by
    rwa [List.length_append, List.length_singleton]
  have hNone : recomment (fun i => comments (i + k)) [] = [] := rfl
  have hMoved := recomment_between comments hBefore hBlock []
  rwa [hNone, List.append_nil, List.append_nil, recomment_concat hFree] at hMoved

theorem placed_between {first rest : List Line} (hFirst : first.length = k)
    (hBefore : Line.Terminated first ∨ names = []) :
    Placed e k names (first ++ rest) (first ++ importLines e names ++ rest) := by
  have hPlaced : Placed e k names (first ++ rest)
      ((first ++ rest).take k ++ importLines e names ++ (first ++ rest).drop k) :=
    .between (by rwa [List.take_left' hFirst])
  rwa [List.take_left' hFirst, List.drop_left' hFirst] at hPlaced

/-- New comments move with their lines, if the line in front of the new imports has none. -/
theorem Placed.recomment (hNew : ∀ i c, comments i = some c → '\n' ∉ c) (hk : k ≤ lines.length)
    (hFree : ∀ i, i + 1 = k → comments i = none) (h : Placed e k names lines new) :
    Placed e k names (recomment comments lines)
      (recomment (movedComments k names.length comments) new) := by
  have hImports (names : List Text) : (importLines e names).length = names.length :=
    List.length_map _
  cases h with
  | between hBefore =>
    have hTake : (lines.take k).length = k := List.length_take_of_le hk
    have hLines : recomment comments lines = recomment comments (lines.take k) ++
        recomment (fun i => comments (i + k)) (lines.drop k) := by
      conv_lhs => rw [← List.take_append_drop k lines, Line.recomment_append, hTake]
    rw [hLines, recomment_between comments hTake (hImports names)]
    exact placed_between (List.length_mapIdx.trans hTake)
      (hBefore.imp_left (terminated_recomment hNew))
  | @behind first body others last hLines hEnd hNames =>
    subst hLines hNames
    have hFirst : first.length + 1 = k := by
      rw [List.length_append, List.length_singleton] at hk hEnd
      exact le_antisymm hEnd hk
    have hLast : comments first.length = none := hFree _ hFirst
    have hBlock : (importLines e others ++ [Line.mk (importLine last) .none]).length =
        (others ++ [last]).length := by
      rw [List.length_append, List.length_append, hImports, List.length_singleton,
        List.length_singleton]
    rw [recomment_concat hLast, List.append_assoc _ (importLines e others),
      recomment_behind hFirst hBlock hLast, ← List.append_assoc]
    apply Placed.behind rfl _ rfl
    rw [List.length_append, List.length_singleton, Line.recomment, List.length_mapIdx]
    exact hFirst.le

end Revision

open Revision (movedLine)

@[simp] theorem movedComments_movedLine (k n : ℕ) (comments : ℕ → Option Text) (i : ℕ) :
    movedComments k n comments (movedLine k n i) = comments i := by
  rw [movedLine]
  split
  · rw [movedComments, if_pos ‹_›]
  · rw [movedComments, if_neg (by omega), if_neg (by omega), Nat.add_sub_cancel]

theorem Line.Recomments.eq_none_of_insertAt (h : Recomments comments (Line.split source)) {i : ℕ}
    (hi : i + 1 = (Header.ofText source).insertAt) : comments i = none := by
  cases hc : comments i with
  | none => rfl
  | some c =>
    obtain ⟨l, hl, hComment⟩ := h.old i (Option.isSome_of_mem hc)
    have hLast : ((Line.bodies source).take (Header.ofText source).insertAt).getLast? =
        some l.body := by
      rw [← hi, List.getLast?_take, if_neg (Nat.succ_ne_zero i), Nat.add_sub_cancel, Line.bodies,
        List.getElem?_map, hl]
      rfl
    have hHeader := Header.isLine_of_getLast?_take _ hLast
    rw [Declaration.isLine, Comment.ofLine?_eq_none hComment] at hHeader
    cases hHeader

section Content

variable {o : Options} {r r' : Revision}

theorem Line.Recomments.split_content (h : Recomments comments (Line.split source))
    (hr : revise o source = some r)
    (hr' : revise o (Line.join (recomment comments (Line.split source))) = some r')
    (hImports : r'.newImports = r.newImports) :
    Line.split r'.content =
      recomment (movedComments (Header.ofText source).insertAt r.newImports.length comments)
        (Line.split r.content) := by
  have hPlace := (frame_content hr).place
  rw [← List.length_map (Line.shorten (Reading.shortens o (Line.bodies source)))] at hPlace
  have hPlaced := placed_content hr
  have hPlaced' := placed_content hr'
  simp only [h.split_join, h.readAlike.shortens, h.readAlike.header, h.map_shorten, hImports,
    Revision.blockEnding_recomment] at hPlaced'
  apply hPlaced'.unique
  apply hPlaced.recomment _ hPlace
  · exact fun i hi => h.eq_none_of_insertAt hi
  · exact fun i c hc => (h.new i c hc).2.2

theorem Line.Recomments.getElem?_content (h : Recomments comments (Line.split source))
    (hr : revise o source = some r) {i : ℕ} (hi : (comments i).isSome = true) :
    (Line.split r.content)[movedLine (Header.ofText source).insertAt r.newImports.length i]? =
      (Line.split source)[i]? := by
  have hPlace := (frame_content hr).place
  rw [← List.length_map (Line.shorten (Reading.shortens o (Line.bodies source)))] at hPlace
  obtain ⟨l, hl, hComment⟩ := h.old i hi
  rw [(placed_content hr).getElem?_movedLine hPlace, List.getElem?_map, hl, Option.map_some,
    Line.shorten_of_not_isCode (Comment.isCode_eq_false hComment)]
  intro hEnd
  rw [h.eq_none_of_insertAt hEnd] at hi
  cases hi

end Content

/-- A revision does not depend on what the comment lines say. With other comments in their places
a text has the same imports added and as many names shortened, and line by line the contents are
the same up to these comments, each as it stands in its own text. -/
theorem revise_recomment (h : Recomments comments (Line.split source)) (o : Options) :
    let source' := Line.join (recomment comments (Line.split source))
    let k := (Header.ofText source).insertAt
    (revise o source' = none ↔ revise o source = none) ∧
      ∀ r, revise o source = some r → ∃ r', revise o source' = some r' ∧
        r'.newImports = r.newImports ∧ r'.replacements = r.replacements ∧
        Line.split r'.content =
          recomment (movedComments k r.newImports.length comments) (Line.split r.content) ∧
        ∀ i, (comments i).isSome = true →
          (Line.split r.content)[movedLine k r.newImports.length i]? = (Line.split source)[i]? ∧
          (Line.split r'.content)[movedLine k r.newImports.length i]? =
            (Line.split source')[i]? := by
  intro source' k
  have hAlike : ReadAlike source source' := h.readAlike
  constructor
  · rw [hAlike.revise]
    exact Option.map_eq_none_iff
  intro r hr
  obtain ⟨r', hr', hImports, hCount⟩ : ∃ r', revise o source' = some r' ∧
      r'.newImports = r.newImports ∧ r'.replacements = r.replacements := by
    rw [hAlike.revise, hr]
    exact ⟨_, rfl, rfl, rfl⟩
  have hContent := h.split_content hr hr' hImports
  refine ⟨r', hr', hImports, hCount, hContent, ?_⟩
  intro i hi
  have hMoved := h.getElem?_content hr hi
  refine ⟨hMoved, ?_⟩
  rw [hContent, Line.getElem?_recomment, hMoved, movedComments_movedLine, h.split_join,
    Line.getElem?_recomment]

/-- New comments that name imports, one of them behind a revised line. -/
theorem revise_recomment_of_named_imports :
    let source := "import java.util.List;\n/** a */\nclass A { com.acme.Foo f; }\n* a".toList
    let comments : ℕ → Option Text := fun
      | 1 => some "// import org.Foo;".toList
      | 3 => some "/* import org.*; Foo".toList
      | _ => none
    let source' := Line.join (recomment comments (Line.split source))
    Recomments comments (Line.split source) ∧
      ∃ r', revise .standard source' = some r' ∧ r'.newImports = ["com.acme.Foo".toList] ∧
        r'.replacements = 1 ∧
        (Line.split r'.content)[2]? = some ⟨"// import org.Foo;".toList, .lf⟩ ∧
        (Line.split r'.content)[4]? = some ⟨"/* import org.*; Foo".toList, .none⟩ := by
  intro source comments source'
  have hComments : Recomments comments (Line.split source) := by
    constructor
    · intro i hi
      match i with
      | 1 => exact ⟨⟨"/** a */".toList, .lf⟩, by decide +kernel, by decide +kernel⟩
      | 3 => exact ⟨⟨"* a".toList, .none⟩, by decide +kernel, by decide +kernel⟩
      | 0 | 2 | _ + 4 => cases hi
    · intro i c hc
      match i with
      | 1 | 3 =>
        cases hc
        decide +kernel
      | 0 | 2 | _ + 4 => cases hc
  have hPlace : (Header.ofText source).insertAt = 1 := by decide +kernel
  let content :=
    "import java.util.List;\nimport com.acme.Foo;\n/** a */\nclass A { Foo f; }\n* a".toList
  have hr : revise .standard source = some ⟨content, ["com.acme.Foo".toList], 1⟩ := by
    decide +kernel
  obtain ⟨r', hr', hImports, hCount, -, hLines⟩ :=
    (revise_recomment hComments .standard).2 _ hr
  rw [hPlace] at hLines
  have hNew : Line.split source' = recomment comments (Line.split source) := hComments.split_join
  refine ⟨hComments, r', hr', hImports, hCount, ?_, ?_⟩
  · refine (hLines 1 rfl).2.trans ?_
    rw [hNew]
    decide +kernel
  · refine (hLines 3 rfl).2.trans ?_
    rw [hNew]
    decide +kernel

end Revise

end ShortNames
