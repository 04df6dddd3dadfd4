import ShortNames.FileSystem
import ShortNames.Proofs.Trees
import ShortNames.Proofs.Volumes

/-!
# File systems as volumes

Where a path leads, and what directories look like, depends on the outline of a file system alone.
A write keeps the outline and changes the content of one place, so a file system is a lawful volume
whose files are told apart by their places.
-/

namespace ShortNames

namespace FileSystem

/-- What the file at a place holds. -/
def content? (fs : FileSystem) (place : List String) : Option Content :=
  fs.root.content? place

/-! ## What depends on the outline -/

section Outline

theorem follow_congr {root root' : Tree Content} (h : root'.outline = root.outline) (links : Nat)
    (here : List String) (segments : List Text) :
    follow root' links here segments = follow root links here segments := by
  fun_induction follow root links here segments with
  | case1 links here => rw [follow]
  | case2 links here s rest entries hAt hIdle ih =>
    obtain ⟨entries', hAt', -⟩ := Tree.get?_directory_of_outline_eq h hAt
    rw [follow, hAt', ← ih]
    exact if_pos hIdle
  | case3 links here rest entries hAt hIdle ih =>
    obtain ⟨entries', hAt', -⟩ := Tree.get?_directory_of_outline_eq h hAt
    rw [follow, hAt', ← ih]
    exact (if_neg hIdle).trans (if_pos rfl)
  | case4 links here s rest entries hAt hIdle hUp hNone =>
    obtain ⟨entries', hAt', hEntries⟩ := Tree.get?_directory_of_outline_eq h hAt
    have hLookup := hEntries (String.ofList s)
    rw [hNone, Option.map_none, Option.map_eq_none_iff] at hLookup
    rw [follow, hAt']
    simp only [if_neg hIdle, if_neg hUp, hLookup]
  | case5 here s rest entries hAt hIdle hUp target hLink =>
    obtain ⟨entries', hAt', hEntries⟩ := Tree.get?_directory_of_outline_eq h hAt
    have hLink' := (Tree.eq_link_iff (hEntries (String.ofList s)) target).mpr hLink
    rw [follow, hAt']
    simp only [if_neg hIdle, if_neg hUp, hLink']
  | case6 here s rest entries hAt hIdle hUp target hLink n p ih =>
    obtain ⟨entries', hAt', hEntries⟩ := Tree.get?_directory_of_outline_eq h hAt
    have hLink' := (Tree.eq_link_iff (hEntries (String.ofList s)) target).mpr hLink
    rw [dite_eq_ite] at ih
    rw [follow, hAt']
    simp only [if_neg hIdle, if_neg hUp, hLink']
    exact ih
  | case7 links here s rest entries hAt hIdle hUp u hNotLink hSome ih =>
    obtain ⟨entries', hAt', hEntries⟩ := Tree.get?_directory_of_outline_eq h hAt
    have hLookup := hEntries (String.ofList s)
    rw [hSome, Option.map_some] at hLookup
    obtain ⟨u', hSome', hOutline⟩ := Option.map_eq_some_iff.mp hLookup
    rw [follow, hAt', ← ih]
    simp only [if_neg hIdle, if_neg hUp, hSome']
    cases u' with
    | file content => rfl
    | directory entries => rfl
    | link target =>
      have hLink := (Tree.eq_link_iff (hEntries (String.ofList s)) target).mp hSome'
      exact absurd (Option.some.inj (hSome.symm.trans hLink)) (hNotLink target)
  | case8 links here s rest t hNotDirectory hAt =>
    have hSame := Tree.get?_of_outline_eq h here
    rw [hAt, Option.map_some] at hSame
    obtain ⟨t', hAt', hOutline⟩ := Option.map_eq_some_iff.mp hSame
    rw [follow, hAt']
    cases t' with
    | file content => rfl
    | link target => rfl
    | directory entries =>
      obtain ⟨entries', rfl, -⟩ := Tree.exists_directory_of_outline hOutline.symm
      exact absurd rfl (hNotDirectory entries')
  | case9 links here s rest hAt =>
    have hSame := Tree.get?_of_outline_eq h here
    rw [hAt, Option.map_none, Option.map_eq_none_iff] at hSame
    rw [follow, hSame]

variable {fs fs' : FileSystem} (h : fs'.root.outline = fs.root.outline)
include h

theorem locate_congr (cwd : List String) : fs'.locate cwd = fs.locate cwd := by
  funext p
  rw [locate, locate, follow_congr h]

theorem get?_congr (cwd : List String) (p : Path) :
    (fs'.get? cwd p).map Tree.outline = (fs.get? cwd p).map Tree.outline := by
  rw [get?, get?, locate_congr h]
  split
  · exact Tree.get?_of_outline_eq h _
  · rfl

theorem kind?_congr (cwd : List String) : fs'.kind? cwd = fs.kind? cwd := by
  have hKind (x : FileSystem) (p : Path) : x.kind? cwd p =
      ((x.get? cwd p).map Tree.outline).map fun
        | .file _ => .file
        | .directory _ => .directory
        | .link _ => .special := by
    rw [kind?, Option.map_map]
    congr 1
    funext t
    cases t <;> rfl
  funext p
  rw [hKind, hKind, get?_congr h]

theorem tree_congr (cwd : List String) : fs'.tree cwd = fs.tree cwd := by
  have hTree (x : FileSystem) (p : Path) : x.tree cwd p =
      match (x.get? cwd p).map Tree.outline with
      | some t => .ok t
      | none => .error (p, .missing) := by
    rw [tree]
    cases x.get? cwd p <;> rfl
  funext p
  rw [hTree, hTree, get?_congr h]

end Outline

/-! ## Reading and writing -/

section Access

variable {fs fs' : FileSystem} {cwd : List String} {p : Path} {t : Text}

theorem read_eq_ok_iff : fs.read cwd p = .ok t ↔
    ∃ place, fs.locate cwd p = .ok place ∧ fs.content? place = some (.text t) := by
  rw [read]
  cases hPlace : fs.locate cwd p with
  | error cause => simp
  | ok place =>
    simp only [Except.ok.injEq, exists_eq_left', content?, Tree.content?]
    cases fs.root.get? place with
    | none => simp
    | some u =>
      cases u with
      | file content => cases content <;> simp
      | link target => simp
      | directory entries => simp

theorem read_congr (h : fs'.root.outline = fs.root.outline)
    (hContent : ∀ place, fs.locate cwd p = .ok place → fs'.content? place = fs.content? place) :
    fs'.read cwd p = fs.read cwd p := by
  rw [read, read, locate_congr h]
  cases hPlace : fs.locate cwd p with
  | error cause => rfl
  | ok place =>
    have hSame := Tree.get?_of_outline_eq h place
    have hText := hContent place hPlace
    rw [content?, content?, Tree.content?, Tree.content?] at hText
    dsimp only
    cases hAt : fs.root.get? place with
    | none =>
      rw [hAt, Option.map_none, Option.map_eq_none_iff] at hSame
      rw [hSame]
    | some u =>
      rw [hAt, Option.map_some] at hSame
      obtain ⟨u', hAt', hOutline⟩ := Option.map_eq_some_iff.mp hSame
      rw [hAt, hAt'] at hText
      rw [hAt']
      cases u' with
      | link target => cases u <;> first | rfl | cases hOutline
      | directory entries => cases u <;> first | rfl | cases hOutline
      | file content =>
        cases u with
        | link target => cases hOutline
        | directory entries => cases hOutline
        | file old =>
          obtain rfl := Option.some.inj hText
          rfl

theorem write_ok (h : fs.write cwd p t = .ok fs') :
    fs'.root.outline = fs.root.outline ∧ ∃ place, fs.locate cwd p = .ok place ∧
      ∀ q, fs'.content? q = if q = place then some (.text t) else fs.content? q := by
  rw [write] at h
  split at h
  · cases h
  · rename_i place hPlace
    split at h
    · rename_i old hAt
      obtain rfl := Except.ok.inj h
      have hOld : fs.root.content? place = some old := by rw [Tree.content?, hAt]
      exact ⟨Tree.outline_put hOld _, place, hPlace, Tree.content?_put hOld _⟩
    · cases h
    · cases h

theorem exists_write {u : Text} (h : fs.read cwd p = .ok u) :
    ∃ fs', fs.write cwd p t = .ok fs' := by
  obtain ⟨place, hPlace, hText⟩ := read_eq_ok_iff.mp h
  rw [content?, Tree.content?] at hText
  split at hText
  · rename_i hAt
    refine ⟨⟨fs.root.put place (.file (.text t))⟩, ?_⟩
    rw [write, hPlace]
    simp only [hAt]
  · cases hText

end Access

def volume (cwd : List String) : Volume FileSystem (List String) where
  kind? fs := fs.kind? cwd
  tree fs := fs.tree cwd
  read fs := fs.read cwd
  write fs := fs.write cwd
  file? fs p := (fs.locate cwd p).toOption

theorem sameFile_iff {cwd : List String} {fs : FileSystem} {p q : Path} :
    (volume cwd).SameFile fs p q ↔
      ∃ place, fs.locate cwd p = .ok place ∧ fs.locate cwd q = .ok place := by
  have hFile (p : Path) (place : List String) :
      (volume cwd).file? fs p = some place ↔ fs.locate cwd p = .ok place := by
    simp only [volume]
    cases fs.locate cwd p <;> simp [Except.toOption]
  simp only [Volume.SameFile, hFile]

theorem exists_place_of_read {cwd : List String} {fs fs' : FileSystem} {p : Path} {t u : Text}
    {noRead noWrite : Path → Option Cause} (h : fs'.root.outline = fs.root.outline)
    (hOld : ((volume cwd).failing noRead noWrite).read fs p = .ok t)
    (hNew : ((volume cwd).failing noRead noWrite).read fs' p = .ok u) :
    ∃ place, fs.locate cwd p = .ok place ∧ fs.content? place = some (.text t) ∧
      fs'.content? place = some (.text u) := by
  obtain ⟨place, hPlace, hText⟩ := read_eq_ok_iff.mp (Volume.read_of_failing hOld)
  obtain ⟨other, hOther, hLast⟩ := read_eq_ok_iff.mp (Volume.read_of_failing hNew)
  rw [locate_congr h] at hOther
  obtain rfl := Except.ok.inj (hPlace.symm.trans hOther)
  exact ⟨place, hPlace, hText, hLast⟩

@[simp] theorem disk_volume (cwd : List String) : (volume cwd).disk = disk cwd := by
  unfold Volume.disk disk volume
  congr 1
  funext p t
  apply StateT.ext
  intro fs
  rw [StateT.run_bind, StateT.run_bind, StateT.run_get, pure_bind, pure_bind]
  dsimp only
  cases fs.write cwd p t <;> rfl

theorem writable_volume (cwd : List String) : (volume cwd).Writable :=
  fun _ _ _ _ => exists_write

theorem lawful_volume (cwd : List String) : (volume cwd).Lawful := by
  constructor
  case kind?_write => exact fun h => kind?_congr (write_ok h).1 cwd
  case tree_write => exact fun h => tree_congr (write_ok h).1 cwd
  case file?_write =>
    intro fs fs' p t h
    funext q
    simp only [volume, locate_congr (write_ok h).1]
  case read_write =>
    intro fs fs' p t u hRead h
    obtain ⟨hOutline, place, hPlace, hContent⟩ := write_ok h
    have hOld : fs.content? place = some (.text u) := by
      obtain ⟨other, hOther, hText⟩ := read_eq_ok_iff.mp hRead
      rwa [← Except.ok.inj (hOther.symm.trans hPlace)]
    have hNew {q : Path} (hAt : fs.locate cwd q = .ok place) : fs'.read cwd q = .ok t := by
      refine read_eq_ok_iff.mpr ⟨place, ?_, ?_⟩
      · rw [locate_congr hOutline, hAt]
      · rw [hContent, if_pos rfl]
    refine ⟨hNew hPlace, ?_⟩
    intro q
    by_cases hAt : fs.locate cwd q = .ok place
    · have hSame : (volume cwd).SameFile fs p q := sameFile_iff.mpr ⟨place, hPlace, hAt⟩
      exact .inl ⟨hSame, read_eq_ok_iff.mpr ⟨place, hAt, hOld⟩, hNew hAt⟩
    · refine .inr (read_congr hOutline ?_)
      intro other hOther
      rw [hContent, if_neg]
      rintro rfl
      exact hAt hOther

/-! ## Setting up -/

section Making

variable {fs : FileSystem} {p : Path}

@[simp] theorem content?_makeDirectory (fs : FileSystem) (p : Path) (q : List String) :
    (fs.makeDirectory p).content? q = fs.content? q :=
  Tree.content?_makeDirectories _ _ q

/-- A file that is made holds its content, and every other file holds what it held. -/
theorem content?_makeFile (h : fs.root.Admits (fs.placeOf p)) (content : Content)
    (q : List String) : (fs.makeFile p content).content? q =
      if q = fs.placeOf p then some content else fs.content? q :=
  Tree.content?_make h rfl q

theorem content?_makeLink (h : fs.root.Admits (fs.placeOf p)) (target : String)
    (q : List String) : (fs.makeLink p target).content? q =
      if q = fs.placeOf p then none else fs.content? q :=
  Tree.content?_make h rfl q

end Making

end FileSystem

end ShortNames
