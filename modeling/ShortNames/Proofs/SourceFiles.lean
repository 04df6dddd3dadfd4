import Mathlib
import ShortNames.Proofs.FileSystems
import ShortNames.Proofs.Leaves
import ShortNames.Proofs.Texts

/-!
# The source files of a directory

What is listed for a directory is the files below it with the extension that is asked for, each
once, by its place below the directory. Links are followed on the way to the directory and not
below it.
-/

namespace ShortNames

namespace Path

/-- Whether `extension` is what the file name has behind its last dot. A dot that opens the name is
none of these. -/
def IsExtensionOf (extension name : Text) : Prop :=
  '.' ∉ extension ∧ ∃ stem, stem ≠ [] ∧ name = stem ++ '.' :: extension

theorem extensionOf?_eq_some_iff {name extension : Text} :
    extensionOf? name = some extension ↔ IsExtensionOf extension name := by
  rw [extensionOf?]
  constructor
  · intro h
    split at h
    · rename_i d e rest hDrop
      obtain rfl := Option.some.inj h
      have hDot : d = '.' := by
        simpa using Text.head?_dropWhile (· ≠ '.') name.reverse d (by rw [hDrop]; rfl)
      have hName := name.reverse.takeWhile_append_dropWhile (p := (· ≠ '.'))
      rw [hDrop, hDot] at hName
      refine ⟨?_, rest.reverse ++ [e], List.concat_ne_nil e _, ?_⟩
      · rw [Text.lastSegment, List.mem_reverse]
        intro hMem
        simpa using List.mem_takeWhile_imp hMem
      · have hText := congrArg List.reverse hName
        rw [List.reverse_append, List.reverse_reverse] at hText
        refine hText.symm.trans ?_
        simp [Text.lastSegment]
    · cases h
  · rintro ⟨hDots, stem, hStem, rfl⟩
    have hDrop : (stem ++ '.' :: extension).reverse.dropWhile (· ≠ '.') = '.' :: stem.reverse := by
      rw [List.reverse_append, List.reverse_cons, List.append_assoc]
      apply Text.dropWhile_append
      · intro c hc
        apply decide_eq_true
        rintro rfl
        exact hDots (List.mem_reverse.mp hc)
      · intro c hc
        cases hc
        rfl
    obtain ⟨first, c, rfl⟩ := (List.eq_nil_or_concat' stem).resolve_left hStem
    rw [hDrop, List.reverse_concat]
    exact congrArg some (Text.lastSegment_append hDots _)

/-- The path to a place below a directory. -/
def below (p : Path) (place : List String) : Path :=
  place.foldl (fun p n => p.join ⟨n⟩) p

/-- The text of a path as it stands before the name of an entry. -/
def opened (p : Path) : Text :=
  if p.text.isEmpty || p.text.toList.getLast? == some '/' then p.text.toList
  else p.text.toList ++ ['/']

section Below

variable {p : Path} {n : String} {place place' : List String}

theorem toList_join (hn : IsEntryName n) : (p.join ⟨n⟩).text.toList = p.opened ++ n.toList := by
  have hRelative : isAbsolute ⟨n⟩ = false := by
    rw [isAbsolute, beq_eq_false_iff_ne]
    intro hHead
    exact hn.2 (List.mem_of_head? hHead)
  rw [join, hRelative, if_neg Bool.false_ne_true, opened]
  split
  · exact String.toList_append
  · rw [String.toList_append, String.toList_append]
    rfl

theorem opened_join (hn : IsEntryName n) :
    (p.join ⟨n⟩).opened = p.opened ++ n.toList ++ ['/'] := by
  have hText : n.toList ≠ [] := by
    intro hNil
    exact hn.1 (String.toList_eq_nil_iff.mp hNil)
  have hEmpty : (p.join ⟨n⟩).text.isEmpty = false := by
    rw [String.isEmpty_eq_false_iff, Ne, ← String.toList_eq_nil_iff, toList_join hn]
    exact List.append_ne_nil_of_right_ne_nil _ hText
  rw [opened, hEmpty, toList_join hn, Bool.false_or, if_neg]
  rw [List.getLast?_append_of_ne_nil _ hText, beq_iff_eq]
  intro hLast
  exact hn.2 (List.mem_of_getLast? hLast)

theorem toList_below (hNames : ∀ n ∈ place, IsEntryName n) (hne : place ≠ []) :
    (p.below place).text.toList = p.opened ++ ['/'].intercalate (place.map String.toList) := by
  induction place generalizing p with
  | nil => exact absurd rfl hne
  | cons n place ih =>
    obtain ⟨hn, hPlace⟩ := List.forall_mem_cons.mp hNames
    cases place with
    | nil =>
      rw [List.map_singleton, List.intercalate_singleton]
      exact toList_join hn
    | cons m place =>
      have hStep : p.below (n :: m :: place) = (p.join ⟨n⟩).below (m :: place) := rfl
      rw [hStep, ih hPlace (List.cons_ne_nil m place), opened_join hn]
      simp only [List.map_cons, List.intercalate_cons_cons, List.append_assoc]

/-- Different places below a directory have different paths. -/
theorem eq_of_below_eq (hNames : ∀ n ∈ place, IsEntryName n)
    (hNames' : ∀ n ∈ place', IsEntryName n) (hne : place ≠ []) (hne' : place' ≠ [])
    (h : p.below place = p.below place') : place = place' := by
  have hText := congrArg (fun q => q.text.toList) h
  simp only [toList_below hNames hne, toList_below hNames' hne',
    List.append_cancel_left_eq] at hText
  have hSplit {place : List String} (hNames : ∀ n ∈ place, IsEntryName n) (hne : place ≠ []) :
      (['/'].intercalate (place.map String.toList)).splitOn '/' = place.map String.toList := by
    apply List.splitOn_intercalate
    · exact List.forall_mem_map.mpr fun n hn => (hNames n hn).2
    · simpa using hne
  have hLists := congrArg (List.splitOn '/') hText
  rw [hSplit hNames hne, hSplit hNames' hne'] at hLists
  exact List.map_injective_iff.mpr (fun _ _ => String.toList_inj.mp) hLists

end Below

/-- A place has the path below the root. -/
theorem pathOf_eq_below {place : List String} (hNames : ∀ n ∈ place, IsEntryName n)
    (hne : place ≠ []) : FileSystem.pathOf place = below ⟨"/"⟩ place := by
  have hText : (FileSystem.pathOf place).text = (below ⟨"/"⟩ place).text := by
    rw [← String.toList_inj, toList_below hNames hne, FileSystem.pathOf, String.toList_append,
      String.toList_intercalate]
    rfl
  exact congrArg mk hText

end Path

namespace Tree

variable {α : Type} {t : Tree α} {extension : String} {place : List String}

/-- Whether a regular file with the extension stands at a place, and no link on the way to it. -/
def IsSourcePlace (t : Tree α) (extension : String) (place : List String) : Prop :=
  (∃ content, t.get? place = some (.file content)) ∧
    ∃ name, place.getLast? = some name ∧ Path.IsExtensionOf extension.toList name.toList

theorem isSourcePlace_outline :
    t.outline.IsSourcePlace extension place ↔ t.IsSourcePlace extension place := by
  apply and_congr_left'
  rw [get?_outline]
  constructor
  · rintro ⟨content, hAt⟩
    obtain ⟨u, hu, hOutline⟩ := Option.map_eq_some_iff.mp hAt
    cases u with
    | file content => exact ⟨content, hu⟩
    | link target => cases hOutline
    | directory entries => cases hOutline
  · rintro ⟨content, hAt⟩
    exact ⟨(), by rw [hAt]; rfl⟩

/-- The places of the source files below a directory, as they are listed. -/
def sourcePlaces (t : Tree α) (extension : String) : List (List String) :=
  t.files.filter fun place =>
    place.getLast?.bind (fun n => Path.extensionOf? n.toList) == some extension.toList

theorem mem_sourcePlaces_iff (h : t.WellNamed) :
    place ∈ t.sourcePlaces extension ↔ t.IsSourcePlace extension place := by
  rw [sourcePlaces, List.mem_filter, h.mem_files_iff, IsSourcePlace, beq_iff_eq,
    Option.bind_eq_some_iff]
  simp only [Path.extensionOf?_eq_some_iff]

theorem pairwise_sourcePlaces (h : t.WellNamed) :
    (t.sourcePlaces extension).Pairwise PlaceBefore :=
  (List.pairwise_map.mpr h.pairwise_leaves).filter _

theorem nodup_map_below (h : t.WellNamed) (hDirectory : t.isDirectory = true) (path : Path) :
    ((t.sourcePlaces extension).map path.below).Nodup := by
  have hPlaces : ∀ place ∈ t.sourcePlaces extension,
      place ≠ [] ∧ ∀ name ∈ place, IsEntryName name := by
    intro place hPlace
    obtain ⟨⟨content, hAt⟩, -⟩ := (mem_sourcePlaces_iff h).mp hPlace
    refine ⟨?_, (h.get? hAt).1⟩
    rintro rfl
    cases hAt
    cases hDirectory
  apply List.Nodup.map_on
  · intro place hPlace place' hPlace' hSame
    obtain ⟨hne, hNames⟩ := hPlaces place hPlace
    obtain ⟨hne', hNames'⟩ := hPlaces place' hPlace'
    exact Path.eq_of_below_eq hNames hNames' hne hne' hSame
  · exact (pairwise_sourcePlaces h).imp PlaceBefore.ne

end Tree

section Listing

variable {fs : FileSystem} {cwd : List String} {path : Path} {t : Tree Content}

theorem run_sourceFiles (fs : FileSystem) (cwd : List String) (path : Path) (extension : String) :
    ((FileSystem.disk cwd).sourceFiles path extension).run fs =
      (if fs.kind? cwd path = some .directory then
        match fs.tree cwd path with
        | .ok t => .ok ((t.sourcePlaces extension).map path.below)
        | .error (place, cause) => .error (.walk path place cause)
      else .error (.noTree path), fs) := by
  unfold Disk.sourceFiles
  rw [← FileSystem.disk_volume, (Volume.onlyLooks_kind? _ path).run_bind, Volume.run_kind?]
  change StateT.run (if fs.kind? cwd path = some .directory then _ else _) fs = _
  split
  · rw [(Volume.onlyLooks_tree _ path).run_bind, Volume.run_tree]
    change StateT.run (match fs.tree cwd path with | .ok t => _ | .error (place, cause) => _) fs = _
    cases fs.tree cwd path <;> rfl
  · rfl

theorem exists_get?_root (h : fs.get? cwd path = some t) :
    ∃ place, fs.root.get? place = some t := by
  rw [FileSystem.get?] at h
  split at h
  · exact ⟨_, h⟩
  · cases h

/-- What is listed for a directory is the files below it with the extension, each once and in the
order of the places. What is no directory is refused, and listing changes nothing. -/
theorem sourceFiles_exact (hNames : fs.root.WellNamed) (cwd : List String) (path : Path)
    (extension : String) :
    let listed := ((FileSystem.disk cwd).sourceFiles path extension).run fs
    listed.2 = fs ∧
      (fs.kind? cwd path ≠ some .directory → listed.1 = .error (.noTree path)) ∧
      ∀ t, fs.get? cwd path = some t → t.isDirectory = true → ∃ places : List (List String),
        listed.1 = .ok (places.map path.below) ∧
          (∀ place, place ∈ places ↔ t.IsSourcePlace extension place) ∧
          (places.map path.below).Nodup ∧ places.Pairwise PlaceBefore := by
  intro listed
  have hListed := run_sourceFiles fs cwd path extension
  refine ⟨congrArg Prod.snd hListed, ?_, ?_⟩
  · intro hKind
    rw [if_neg hKind] at hListed
    exact congrArg Prod.fst hListed
  · intro t hAt hDirectory
    obtain ⟨place, hPlace⟩ := exists_get?_root hAt
    have hTree := (hNames.get? hPlace).2.outline
    have hKind : fs.kind? cwd path = some .directory ∧ t.outline.isDirectory = true := by
      rw [FileSystem.kind?, hAt]
      cases t with
      | directory entries => exact ⟨rfl, rfl⟩
      | file content => cases hDirectory
      | link target => cases hDirectory
    have hOutline : fs.tree cwd path = .ok t.outline := by rw [FileSystem.tree, hAt]
    rw [if_pos hKind.1, hOutline] at hListed
    refine ⟨t.outline.sourcePlaces extension, congrArg Prod.fst hListed, ?_,
      Tree.nodup_map_below hTree hKind.2 path, Tree.pairwise_sourcePlaces hTree⟩
    intro place
    rw [Tree.mem_sourcePlaces_iff hTree, Tree.isSourcePlace_outline]

/-- Seen through a link. `-` comes before `/`, but the place below `a` comes first. -/
theorem sourceFiles_exact_of_linked_directory :
    let code : Tree Content := .directory [("a-b.java", .file (.text [])), ("L.java", .link "a"),
      (".java", .file (.text [])), ("a", .directory [("B.java", .file (.bytes [255]))])]
    let fs : FileSystem := ⟨.directory [("src", .link "code"), ("code", code)]⟩
    let listed := ((FileSystem.disk []).sourceFiles ⟨"/src"⟩ "java").run fs
    PlaceBefore ["a", "B.java"] ["a-b.java"] ∧ listed.2 = fs ∧
      ∃ places : List (List String),
        listed.1 = .ok (places.map (Path.below ⟨"/src"⟩)) ∧
          ["a", "B.java"] ∈ places ∧ ["a-b.java"] ∈ places ∧
          ["L.java"] ∉ places ∧ [".java"] ∉ places ∧ places.Pairwise PlaceBefore := by
  intro code fs listed
  have hWell : fs.root.WellNamed := by
    have hInner : (Tree.directory [("B.java", .file (Content.bytes [255]))]).WellNamed := by
      apply Tree.WellNamed.directory (by decide) (by decide +kernel)
      exact List.forall_mem_singleton.mpr (.file _)
    have hCode : code.WellNamed := by
      apply Tree.WellNamed.directory (by decide) (by decide +kernel)
      simp only [List.forall_mem_cons]
      exact ⟨.file _, .link _, .file _, hInner, nofun⟩
    apply Tree.WellNamed.directory (by decide) (by decide +kernel)
    simp only [List.forall_mem_cons]
    exact ⟨.link _, hCode, nofun⟩
  have hAt : fs.get? [] ⟨"/src"⟩ = some code := by cbv
  obtain ⟨hState, -, hPlaces⟩ := sourceFiles_exact hWell [] ⟨"/src"⟩ "java"
  obtain ⟨places, hListed, hMem, -, hOrder⟩ := hPlaces code hAt rfl
  have hFirst : PlaceBefore ["a", "B.java"] ["a-b.java"] :=
    .rel (Text.bytesBefore_of_le (by decide +kernel) (by decide +kernel))
  refine ⟨hFirst, hState, places, hListed, ?_, ?_, ?_, ?_, hOrder⟩
  · rw [hMem]
    exact ⟨⟨_, rfl⟩, _, rfl, by decide, "B".toList, by decide, by decide⟩
  · rw [hMem]
    exact ⟨⟨_, rfl⟩, _, rfl, by decide, "a-b".toList, by decide, by decide⟩
  · rw [hMem]
    rintro ⟨⟨content, hLink⟩, -⟩
    cases hLink
  · rw [hMem]
    rintro ⟨-, name, hName, hExtension⟩
    cases hName
    exact absurd (Path.extensionOf?_eq_some_iff.mpr hExtension) (by decide)

end Listing

end ShortNames
