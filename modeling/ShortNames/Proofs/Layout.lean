import ShortNames.Proofs.Insertion
import ShortNames.Proofs.Shortening

/-!
# The revised text read again

The lines of a revised text are the shortened lines with the new imports between them. Reading them
again gives them back, save that a header line can lose a carriage return. So the header of a
revision is the old header with the staged bindings, and its code lines are the shortened ones.
-/

namespace ShortNames

namespace Revision

section Bodies

variable {α : Type} {g : Text → α} {e : Ending} {k : Nat} {names : List Text}
  {lines new : List Line}

/-- A line that is given an ending may give it a carriage return. -/
theorem body_absorb {body : Text} (hg : ∀ b, body = b ++ ['\r'] → g b = g body) (e : Ending) :
    g (Line.absorb ⟨body, e⟩).body = g body := by
  unfold Line.absorb
  split
  · rename_i h
    obtain ⟨b, rfl⟩ := List.getLast?_eq_some_iff.mp h.2
    simp only [List.dropLast_concat]
    exact hg b rfl
  · rfl

@[simp] theorem map_body_importLines :
    (importLines e names).map (fun l => g l.body) = names.map fun n => g (importLine n) := by
  rw [importLines, List.map_map]
  rfl

/-- The bodies of lines with imports between them. What is asked about a body must not see a
carriage return at the end of the line in front of the imports. -/
theorem Placed.map_body (hPlaced : Placed e k names lines new)
    (hg : ∀ l, (lines.take k).getLast? = some l → ∀ b, l.body = b ++ ['\r'] → g b = g l.body) :
    new.map (fun l => g l.body) =
      (lines.take k).map (fun l => g l.body) ++ names.map (fun n => g (importLine n)) ++
        (lines.drop k).map fun l => g l.body := by
  cases hPlaced with
  | between _ => simp
  | @behind first body others last hLines hEnd hNames =>
    rw [List.take_of_length_le hEnd, hLines, List.getLast?_concat] at hg
    rw [List.take_of_length_le hEnd, List.drop_of_length_le hEnd, hLines, hNames]
    simp [body_absorb (hg _ rfl) e]

end Bodies

def bindings (r : Revision) : Bindings :=
  r.newImports.map fun n => (Text.lastSegment n, n)

end Revision

section Reread

variable {o : Options} {source : Text} {r : Revision}

theorem Reading.exists_of_mem_staged {p : Text × Text}
    (hp : p ∈ (ofText o source).names.staged) :
    ∃ u ∈ codeNames (Line.bodies source), p = (u.name, u.text) := by
  have hs := settled_ofText o source
  have hGet := (Bindings.get?_eq_some_iff hs.nodup).mpr hp
  rw [hs.staged] at hGet
  obtain ⟨u, hu, hText⟩ := Option.map_eq_some_iff.mp hGet
  obtain ⟨hMem, hName, -⟩ := firstEligible?_some (Option.filter_eq_some_iff.mp hu).1
  exact ⟨u, hMem, Prod.ext hName.symm hText.symm⟩

theorem perm_newImports (h : revise o source = some r) :
    r.newImports.Perm ((Reading.ofText o source).names.staged.map (·.2)) := by
  rw [(revise_eq_some h).1]
  exact List.mergeSort_perm _ _

theorem exists_of_mem_newImports (h : revise o source = some r) {n : Text}
    (hn : n ∈ r.newImports) : ∃ u ∈ Reading.codeNames (Line.bodies source), u.text = n := by
  obtain ⟨p, hp, rfl⟩ := List.mem_map.mp ((perm_newImports h).mem_iff.mp hn)
  obtain ⟨u, hu, rfl⟩ := Reading.exists_of_mem_staged hp
  exact ⟨u, hu, rfl⟩

theorem perm_bindings (h : revise o source = some r) :
    r.bindings.Perm (Reading.ofText o source).names.staged := by
  have hPerm := (perm_newImports h).map fun n => (Text.lastSegment n, n)
  have hSame : ∀ p ∈ (Reading.ofText o source).names.staged,
      (Text.lastSegment p.2, p.2) = id p := by
    intro p hp
    obtain ⟨u, hu, rfl⟩ := Reading.exists_of_mem_staged hp
    rw [(Reading.wellFormed_of_mem_codeNames hu).lastSegment_text, id]
  rw [List.map_map, ← Revision.bindings] at hPerm
  exact hPerm.trans (((List.map_congr_left hSame).trans (List.map_id _)).symm ▸ List.Perm.refl _)

theorem nodup_bindings (h : revise o source = some r) : (r.bindings.map (·.1)).Nodup :=
  ((perm_bindings h).map (·.1)).nodup_iff.mpr (Reading.settled_ofText o source).nodup

theorem declarations_newImports (h : revise o source = some r) :
    (r.newImports.map importLine).filterMap Declaration.ofLine? =
      r.bindings.map fun p => .single p.1 p.2 := by
  rw [Revision.bindings, List.filterMap_map, List.map_map, ← List.filterMap_eq_map]
  apply List.filterMap_congr
  intro n hn
  obtain ⟨u, hu, rfl⟩ := exists_of_mem_newImports h hn
  have hq := Reading.wellFormed_of_mem_codeNames hu
  simp [Declaration.ofLine?_importLine hq, hq.lastSegment_text]

theorem not_mem_newImports (h : revise o source = some r) : ∀ n ∈ r.newImports, '\n' ∉ n := by
  intro n hn
  obtain ⟨u, hu, rfl⟩ := exists_of_mem_newImports h hn
  exact (Reading.wellFormed_of_mem_codeNames hu).not_mem_text rfl

/-- A revised text is read again as the shortened lines with the new imports placed in them. -/
theorem placed_content (h : revise o source = some r) :
    let lines := (Line.split source).map (Line.shorten (Reading.shortens o (Line.bodies source)))
    let k := (Header.ofText source).insertAt
    Revision.Placed (Revision.blockEnding (lines.take k) lines) k r.newImports lines
      (Line.split r.content) := by
  intro lines k
  have hFixed : ∀ l ∈ lines, l.absorb = l := by
    rw [List.forall_mem_map]
    exact fun l hl => Line.absorb_shorten (Line.absorb_of_mem_split l hl)
  rw [(revise_eq_some h).2.1]
  exact Revision.placed_split_join_insertImports k
    (Line.joinable_shorten _ (Line.joinable_split source)) hFixed (not_mem_newImports h)

/-- The bodies of a revised text, asked for something that does not see a carriage return at the
end of a header line. -/
theorem map_bodies_content {α : Type} {g : Text → α} (h : revise o source = some r)
    (hg : ∀ b, Declaration.isLine (b ++ ['\r']) = true → g b = g (b ++ ['\r'])) :
    let f := Reading.shortens o (Line.bodies source)
    let k := (Header.ofText source).insertAt
    (Line.bodies r.content).map g =
      ((Line.split source).take k).map (fun l => g (l.shorten f).body) ++
        r.newImports.map (fun n => g (importLine n)) ++
        ((Line.split source).drop k).map fun l => g (l.shorten f).body := by
  intro f k
  rw [Line.bodies, List.map_map]
  refine ((placed_content h).map_body (g := g) ?_).trans ?_
  · intro l hl b hb
    rw [← List.map_take, List.getLast?_map] at hl
    obtain ⟨m, hm, rfl⟩ := Option.map_eq_some_iff.mp hl
    have hLine : Declaration.isLine m.body = true := by
      apply Header.isLine_of_getLast?_take (Line.bodies source)
      rw [Line.bodies, ← List.map_take, List.getLast?_map]
      exact Option.map_eq_some_iff.mpr ⟨m, hm, rfl⟩
    rw [hb]
    apply hg b
    rw [← hb, Declaration.isLine, Line.ofLine?_shorten]
    exact hLine
  · rw [← List.map_take, ← List.map_drop, List.map_map, List.map_map]
    rfl

theorem ofText_content (h : revise o source = some r) :
    let bodies := Line.bodies source
    let k := (Header.ofText source).insertAt
    Header.ofText r.content =
      Header.ofLines (bodies.take k ++ r.newImports.map importLine ++ bodies.drop k) := by
  have hRead := map_bodies_content (g := Declaration.ofLine?) h
    fun b _ => (Declaration.ofLine?_concat_cr b).symm
  apply Header.ofLines_congr
  rw [hRead]
  simp only [Line.ofLine?_shorten, List.map_append, List.map_map, Line.bodies, ← List.map_take,
    ← List.map_drop]
  rfl

theorem names_content (h : revise o source = some r) :
    (Header.ofText r.content).names = (Header.ofText source).names.addImports r.bindings := by
  rw [ofText_content h, Header.ofText,
    ← Header.names_insert _ _ r.bindings (declarations_newImports h)]

theorem Line.filterMap_guard_shorten (f : QualifiedName → Bool) (lines : List Line) :
    lines.filterMap (fun l => Option.guard isCode (l.shorten f).body) =
      ((lines.map body).filter isCode).map fun body =>
        (Segment.ofLine body).flatMap (Segment.shorten f) := by
  induction lines with
  | nil => rfl
  | cons l lines ih =>
    rw [List.filterMap_cons, Option.guard, isCode_shorten, ih, List.map_cons, List.filter_cons]
    by_cases hCode : isCode l.body = true
    · simp [hCode, shorten_of_isCode hCode]
    · simp [hCode]

theorem filter_isCode_content (h : revise o source = some r) :
    (Line.bodies r.content).filter Line.isCode =
      ((Line.bodies source).filter Line.isCode).map fun body =>
        (Segment.ofLine body).flatMap
          (Segment.shorten (Reading.shortens o (Line.bodies source))) := by
  -- Asked through the guard, header lines and the new imports are all alike.
  have hHeader {body : Text} (hLine : Declaration.isLine body = true) :
      Option.guard Line.isCode body = none := by
    simp [Option.guard, Line.isCode, hLine]
  have hRead := map_bodies_content (g := Option.guard Line.isCode) h fun b hLine => by
    rw [hHeader hLine]
    rw [Declaration.isLine, Declaration.ofLine?_concat_cr] at hLine
    exact hHeader hLine
  have hImports : r.newImports.map (fun n => Option.guard Line.isCode (importLine n)) =
      r.newImports.map fun _ => none := by
    apply List.map_congr_left
    intro n hn
    apply hHeader
    obtain ⟨u, hu, rfl⟩ := exists_of_mem_newImports h hn
    rw [Declaration.isLine, Declaration.ofLine?_importLine (Reading.wellFormed_of_mem_codeNames hu),
      Option.isSome_some]
  rw [hImports] at hRead
  have hFilter := congrArg (List.filterMap id) hRead
  simp only [List.filterMap_append, List.filterMap_map, Function.id_comp] at hFilter
  rw [List.filterMap_eq_filter] at hFilter
  rw [hFilter]
  simp only [Line.filterMap_guard_shorten, List.filterMap_none, List.append_nil]
  rw [← List.map_append, ← List.filter_append, ← List.map_append, List.take_append_drop]
  rfl

section Names

variable (h : revise o source = some r)
include h

theorem package_content :
    (Header.ofText r.content).names.package = (Header.ofText source).names.package := by
  simp [names_content h]

theorem onDemand_content :
    (Header.ofText r.content).names.onDemand = (Header.ofText source).names.onDemand := by
  simp [names_content h]

theorem soleOnDemand?_content : (Header.ofText r.content).names.soleOnDemand? =
    (Header.ofText source).names.soleOnDemand? := by
  simp [names_content h]

/-- A revision imports what the text imported, and the first claims that no import on demand
covers. -/
theorem imported?_content (x : Text) :
    (Header.ofText r.content).names.imported? x =
      (((Reading.claimant? o (Line.bodies source) x).filter
        ((Header.ofText source).names.soleOnDemand? ≠ some ·.package)).map (·.text)).or
          ((Header.ofText source).names.imported? x) := by
  have hNodup := nodup_bindings h
  rw [names_content h, NameTable.imported?_addImports _ hNodup,
    Bindings.get?_eq_of_perm (perm_bindings h) hNodup, (Reading.settled_ofText o source).staged]
  rfl

theorem imported?_content_of_imported {x path : Text}
    (hImport : (Header.ofText source).names.imported? x = some path) :
    (Header.ofText r.content).names.imported? x = some path := by
  have hNobody : Reading.claimant? o (Line.bodies source) x = none :=
    firstEligible?_of_imported hImport
  rw [imported?_content h, hNobody, hImport]
  rfl

theorem imported?_content_of_staged {x : Text} {u : QualifiedName}
    (hFirst : Reading.claimant? o (Line.bodies source) x = some u)
    (hSole : (Header.ofText source).names.soleOnDemand? ≠ some u.package) :
    (Header.ofText r.content).names.imported? x = some u.text := by
  rw [imported?_content h, hFirst, Option.filter_some, if_pos (decide_eq_true hSole)]
  rfl

theorem imported?_content_of_covered {x : Text} {u : QualifiedName}
    (hFirst : Reading.claimant? o (Line.bodies source) x = some u)
    (hSole : (Header.ofText source).names.soleOnDemand? = some u.package) :
    (Header.ofText r.content).names.imported? x = none := by
  obtain ⟨-, rfl, hu⟩ := firstEligible?_some hFirst
  rw [imported?_content h, hFirst, Option.filter_some, if_neg (by simp [hSole])]
  exact hu.2.1

theorem imported?_content_cases {x path : Text}
    (hPath : (Header.ofText r.content).names.imported? x = some path) :
    (Header.ofText source).names.imported? x = some path ∨
      ∃ u, Reading.claimant? o (Line.bodies source) x = some u ∧ u.text = path := by
  rw [imported?_content h] at hPath
  rcases Option.or_eq_some_iff.mp hPath with hNew | ⟨-, hOld⟩
  · obtain ⟨u, hu, hText⟩ := Option.map_eq_some_iff.mp hNew
    exact .inr ⟨u, (Option.filter_eq_some_iff.mp hu).1, hText⟩
  · exact .inl hOld

theorem imported?_of_content_eq_none {x : Text}
    (hNone : (Header.ofText r.content).names.imported? x = none) :
    (Header.ofText source).names.imported? x = none := by
  cases hImport : (Header.ofText source).names.imported? x with
  | none => rfl
  | some path => cases hNone.symm.trans (imported?_content_of_imported h hImport)

theorem foreign_content {q : QualifiedName} :
    Foreign o (Header.ofText r.content).names q ↔ Foreign o (Header.ofText source).names q := by
  rw [Foreign, package_content h, Foreign]

end Names

end Reread

end ShortNames
