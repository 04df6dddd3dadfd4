import ShortNames.Proofs.Headers
import ShortNames.Proofs.Lines

/-!
# Lines with imports between them

New imports come to lie between two lines, or behind a last line that lacks its ending and then
gets one. `Placed` lists the two cases. Either way the ends of all lines can be told, so the text
splits into these lines again.
-/

namespace ShortNames.Revision

open Line (Joinable Terminated absorb joinable_append_iff)

theorem blockEnding_eq (before lines : List Line) : blockEnding before lines =
    ((((before.map Line.ending).getLast?.filter (· ≠ .none)).or
      (Line.firstEnding? lines)).getD .lf) := by
  rw [blockEnding, List.getLast?_map]
  cases before.getLast? with
  | none => rfl
  | some l =>
    obtain ⟨body, e⟩ := l
    cases e <;> rfl

theorem blockEnding_ne_none (before lines : List Line) : blockEnding before lines ≠ .none := by
  unfold blockEnding Line.firstEnding?
  split
  · nofun
  · nofun
  · cases hFirst : (lines.map Line.ending).find? (· ≠ .none) with
    | none => nofun
    | some e => simpa using List.find?_some hFirst

section Attach

variable {e : Ending} {before block : List Line}

theorem attach_of_terminated (h : Terminated before) : attach e before block = before ++ block := by
  unfold attach
  split
  · rename_i hLast _
    exact absurd rfl (h _ (List.mem_of_getLast? hLast)).2
  · rfl

@[simp] theorem attach_nil : attach e before [] = before := by
  unfold attach
  split
  · contradiction
  · exact List.append_nil before

@[simp] theorem attach_unterminated (body : Text) (last : Line) :
    attach e (before ++ [⟨body, .none⟩]) (block ++ [last]) =
      (before ++ [⟨body, e⟩]) ++ block ++ [⟨last.body, .none⟩] := by
  simp [attach]

end Attach

def importLines (e : Ending) (names : List Text) : List Line :=
  names.map fun n => ⟨importLine n, e⟩

/-- The ways in which imports of `names`, with the ending `e`, lie in front of line `k` when the
text is read again. -/
inductive Placed (e : Ending) (k : Nat) (names : List Text) (lines : List Line) : List Line → Prop
  | between (hBefore : Terminated (lines.take k) ∨ names = []) :
    Placed e k names lines (lines.take k ++ importLines e names ++ lines.drop k)
  | behind {first : List Line} {body : Text} {others : List Text} {last : Text}
    (hLines : lines = first ++ [⟨body, .none⟩]) (hEnd : lines.length ≤ k)
    (hNames : names = others ++ [last]) :
    Placed e k names lines
      (first ++ [absorb ⟨body, e⟩] ++ importLines e others ++ [⟨importLine last, .none⟩])

section Insert

variable {e : Ending} {k : Nat} {names : List Text} {lines : List Line}

theorem not_mem_importLine {n : Text} (hn : '\n' ∉ n) : '\n' ∉ importLine n := by
  simp [importLine, Declaration.importKeyword, hn]

theorem terminated_importLines (he : e ≠ .none) (hNames : ∀ n ∈ names, '\n' ∉ n) :
    Terminated (importLines e names) := by
  intro l hl
  obtain ⟨n, hn, rfl⟩ := List.mem_map.mp hl
  exact ⟨not_mem_importLine (hNames n hn), he⟩

@[simp] theorem absorb_importLine (n : Text) (e : Ending) :
    absorb ⟨importLine n, e⟩ = ⟨importLine n, e⟩ := by
  rw [absorb, if_neg]
  rintro ⟨-, hLast⟩
  rw [importLine, List.getLast?_concat] at hLast
  exact absurd (Option.some.inj hLast) (by decide)

theorem absorb_of_mem_importLines : ∀ l ∈ importLines e names, l.absorb = l := by
  rw [importLines, List.forall_mem_map]
  exact fun n _ => absorb_importLine n e

theorem split_join_between (he : e ≠ .none) (hJoin : Joinable lines)
    (hFixed : ∀ l ∈ lines, l.absorb = l) (hNames : ∀ n ∈ names, '\n' ∉ n)
    (hBefore : Terminated (lines.take k) ∨ names = []) :
    Line.split (Line.join (lines.take k ++ importLines e names ++ lines.drop k)) =
      lines.take k ++ importLines e names ++ lines.drop k := by
  rw [← List.take_append_drop k lines] at hJoin hFixed
  obtain ⟨hTake, hDrop⟩ := List.forall_mem_append.mp hFixed
  apply Line.split_join_of_fixed
  · rcases hBefore with hBefore | rfl
    · exact (hBefore.append (terminated_importLines he hNames)).append_joinable hJoin.right
    · rwa [importLines, List.map_nil, List.append_nil]
  · rw [List.forall_mem_append, List.forall_mem_append]
    exact ⟨⟨hTake, absorb_of_mem_importLines⟩, hDrop⟩

/-- A last line without an ending leaves its lack of one to the last of the new imports. -/
theorem split_join_behind {first : List Line} {body : Text} {others : List Text} {last : Text}
    (he : e ≠ .none) (hFirst : Terminated first) (hBody : '\n' ∉ body)
    (hFixed : ∀ l ∈ first, l.absorb = l) (hNames : ∀ n ∈ others ++ [last], '\n' ∉ n) :
    Line.split (Line.join
        (first ++ [⟨body, e⟩] ++ importLines e others ++ [⟨importLine last, .none⟩])) =
      first ++ [absorb ⟨body, e⟩] ++ importLines e others ++ [⟨importLine last, .none⟩] := by
  rw [List.forall_mem_append, List.forall_mem_singleton] at hNames
  have hLast : Joinable [⟨importLine last, .none⟩] :=
    ⟨not_mem_importLine hNames.2, fun _ => ⟨List.cons_ne_nil _ _, rfl⟩, trivial⟩
  have hOpen : Terminated [⟨body, e⟩] := List.forall_mem_singleton.mpr ⟨hBody, he⟩
  have hBlock := (hFirst.append hOpen).append (terminated_importLines he hNames.1)
  rw [Line.split_join (hBlock.append_joinable hLast), List.map_append, List.map_append,
    List.map_append, Line.map_absorb_of_fixed hFixed,
    Line.map_absorb_of_fixed absorb_of_mem_importLines, List.map_singleton, List.map_singleton,
    absorb_importLine]

theorem placed_split_join_attach (he : e ≠ .none) (hJoin : Joinable lines)
    (hFixed : ∀ l ∈ lines, l.absorb = l) (hNames : ∀ n ∈ names, '\n' ∉ n) :
    Placed e k names lines (Line.split (Line.join
      (attach e (lines.take k) (importLines e names) ++ lines.drop k))) := by
  have hSplit := List.take_append_drop k lines
  have hParts := hJoin
  rw [← hSplit] at hParts
  rcases names.eq_nil_or_concat' with rfl | ⟨others, last, rfl⟩
  · have hNone : attach e (lines.take k) (importLines e []) = lines.take k ++ importLines e [] :=
      attach_nil.trans (List.append_nil _).symm
    rw [hNone, split_join_between he hJoin hFixed hNames (.inr rfl)]
    exact .between (.inr rfl)
  rcases hParts.left.terminated_or with
    hBefore | ⟨first, body, hTake, hFirst, hBody, -⟩
  · rw [attach_of_terminated hBefore, split_join_between he hJoin hFixed hNames (.inl hBefore)]
    exact .between (.inl hBefore)
  · -- Only the last line of all lacks its ending, so nothing lies behind it.
    have hDrop : lines.drop k = [] := by
      by_contra hMore
      have hTerminated := ((joinable_append_iff hMore).mp hParts).1
      rw [hTake] at hTerminated
      exact (hTerminated _ List.mem_concat_self).2 rfl
    have hLines : lines = first ++ [⟨body, .none⟩] := by
      rw [← hSplit, hDrop, hTake, List.append_nil]
    have hAttach : attach e (first ++ [⟨body, .none⟩]) (importLines e (others ++ [last])) =
        first ++ [⟨body, e⟩] ++ importLines e others ++ [⟨importLine last, .none⟩] := by
      rw [importLines, List.map_append, List.map_singleton, attach_unterminated]
      rfl
    rw [hLines] at hFixed
    rw [hTake, hDrop, List.append_nil, hAttach, split_join_behind he hFirst hBody
      (List.forall_mem_append.mp hFixed).1 hNames]
    exact .behind hLines (List.drop_eq_nil_iff.mp hDrop) rfl

theorem placed_split_join_insertImports (k : Nat) (hJoin : Joinable lines)
    (hFixed : ∀ l ∈ lines, l.absorb = l) (hNames : ∀ n ∈ names, '\n' ∉ n) :
    Placed (blockEnding (lines.take k) lines) k names lines
      (Line.split (Line.join (insertImports k names lines))) :=
  placed_split_join_attach (blockEnding_ne_none (lines.take k) lines) hJoin hFixed hNames

end Insert

section Placed

variable {e : Ending} {k : Nat} {names : List Text} {lines new new' : List Line}

theorem not_between {first : List Line} {body last : Text} {others : List Text}
    (hLines : lines = first ++ [⟨body, .none⟩]) (hEnd : lines.length ≤ k)
    (hNames : names = others ++ [last]) : ¬ (Terminated (lines.take k) ∨ names = []) := by
  rw [List.take_of_length_le hEnd, hLines, hNames]
  rintro (hBefore | hNil)
  · exact (hBefore _ List.mem_concat_self).2 rfl
  · exact List.concat_ne_nil last others hNil

theorem Placed.unique (h : Placed e k names lines new) (h' : Placed e k names lines new') :
    new = new' := by
  cases h with
  | between hBefore =>
    cases h' with
    | between _ => rfl
    | behind hLines hEnd hNames => exact absurd hBefore (not_between hLines hEnd hNames)
  | behind hLines hEnd hNames =>
    cases h' with
    | between hBefore => exact absurd hBefore (not_between hLines hEnd hNames)
    | behind hLines' _ hNames' =>
      obtain ⟨rfl, hBody⟩ := List.append_inj' (hLines.symm.trans hLines') rfl
      obtain ⟨rfl, hLast⟩ := List.append_inj' (hNames.symm.trans hNames') rfl
      cases hBody
      cases hLast
      rfl

/-- Where a line is when `n` lines have been put in front of line `k`. -/
def movedLine (k n i : Nat) : Nat :=
  if i < k then i else i + n

/-- All lines but the one in front of the new imports are only moved. -/
theorem Placed.getElem?_movedLine (h : Placed e k names lines new) (hk : k ≤ lines.length)
    {i : Nat} (hi : i + 1 ≠ k) : new[movedLine k names.length i]? = lines[i]? := by
  rw [movedLine]
  cases h with
  | between _ =>
    have hBoth : (lines.take k ++ importLines e names).length = k + names.length := by
      rw [List.length_append, List.length_take_of_le hk, importLines, List.length_map]
    split
    · rw [List.getElem?_append_left (by omega), List.getElem?_append_left (by
        rw [List.length_take_of_le hk]; omega), List.getElem?_take_of_lt ‹_›]
    · rw [List.getElem?_append_right (by omega), hBoth, List.getElem?_drop]
      congr 1
      omega
  | @behind first body others last hLines hEnd hNames =>
    subst hLines hNames
    rw [List.length_append, List.length_singleton] at hk hEnd
    split
    · have hFirst : i < first.length := by omega
      rw [List.append_assoc, List.append_assoc, List.getElem?_append_left hFirst,
        List.getElem?_append_left hFirst]
    · rw [List.getElem?_eq_none, List.getElem?_eq_none]
      · rw [List.length_append, List.length_singleton]
        omega
      · simp only [List.length_append, List.length_singleton, importLines, List.length_map]
        omega

end Placed

end ShortNames.Revision
