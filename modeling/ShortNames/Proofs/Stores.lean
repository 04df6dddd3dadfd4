import Mathlib.Algebra.GroupWithZero.Nat
import Mathlib.Data.Set.Function
import Mathlib.Logic.Function.Iterate
import ShortNames.Proofs.Batches

/-!
# Stores

A disk whose paths are all different files, with texts that are read and written. What a visit tells
of a path depends on the text there alone, and so does what it leaves. In the end a path holds its
text revised once for each visit (`textAfter`), and a path that cannot be read or written holds the
text of the start.
-/

namespace ShortNames

/-- The text after its revision, or the text itself where there is none. -/
def revised (o : Options) (t : Text) : Text :=
  ((revise o t).map Revision.content).getD t

/-- Whether a visit found nothing to revise. -/
def Visit.isUnchanged (v : Visit) : Bool :=
  match v.result with
  | .ok none => true
  | _ => false

/-- A visit updates its file, fails or finds nothing to revise. -/
theorem Visit.length_eq (visits : List Visit) : visits.length =
    (visits.filterMap outcome?).length + (visits.filterMap failure?).length +
      visits.countP isUnchanged := by
  induction visits with
  | nil => rfl
  | cons visit visits ih =>
    rw [List.length_cons, ih, List.filterMap_cons, List.filterMap_cons, List.countP_cons]
    obtain ⟨notes, _ | _ | _⟩ := visit <;> simp [outcome?, failure?, isUnchanged] <;> omega

abbrev Store := Path → Text

namespace Store

open Batch (Visited Visits notes)

variable {ι : Type} [DecidableEq ι] (kind? : Path → Option Kind)
  (tree : Path → Except (Path × Cause) (Tree Unit))

def volume : Volume Store Path where
  kind? _ := kind?
  tree _ := tree
  read s p := .ok (s p)
  write s p t := .ok (Function.update s p t)
  file? _ p := some p

/-- Files that paths lead to, several of them perhaps to one file. -/
def linked (file : Path → ι) : Volume (ι → Text) ι where
  kind? _ := kind?
  tree _ := tree
  read s p := .ok (s (file p))
  write s p t := .ok (Function.update s (file p) t)
  file? _ p := some (file p)

theorem volume_eq_linked : volume kind? tree = linked kind? tree id :=
  rfl

theorem lawful_linked (file : Path → ι) : (linked kind? tree file).Lawful := by
  constructor
  case kind?_write => exact fun _ => rfl
  case tree_write => exact fun _ => rfl
  case file?_write => exact fun _ => rfl
  case read_write =>
    intro s s' p t u hRead hWrite
    obtain rfl := Except.ok.inj hWrite
    refine ⟨congrArg Except.ok (Function.update_self (file p) t s), ?_⟩
    intro q
    by_cases hSame : file q = file p
    · refine .inl ⟨⟨file q, congrArg some hSame.symm, rfl⟩, ?_, ?_⟩
      · rw [← hRead]
        exact congrArg (fun i => Except.ok (s i)) hSame
      · simp only [linked, hSame, Function.update_self]
    · exact .inr (congrArg Except.ok (Function.update_of_ne hSame t s))

/-! ## One visit -/

section Visit

variable (noRead noWrite : Path → Option Cause) (o : Options) (mode : Mode)

/-- What a visit tells of a path that holds a text. -/
def tells (p : Path) (t : Text) : Visit :=
  match noRead p with
  | some cause => ⟨[], .error (.read p cause)⟩
  | none =>
    match revise o t, mode, noWrite p with
    | none, _, _ => ⟨notes o t ++ [.unchanged p], .ok none⟩
    | some r, .dryRun, _ => ⟨notes o t, .ok (some (.ofRevision p false r))⟩
    | some r, .write, none => ⟨notes o t, .ok (some (.ofRevision p true r))⟩
    | some _, .write, some cause => ⟨notes o t, .error (.write p cause)⟩

/-- What a visit leaves on a path that holds a text. -/
def leaves (p : Path) (t : Text) : Text :=
  if mode = .write ∧ noRead p = none ∧ noWrite p = none then revised o t else t

/-- What a path holds after a number of visits. -/
def textAfter (s : Store) (visits : ℕ) (p : Path) : Text :=
  (leaves noRead noWrite o mode p)^[visits] (s p)

variable {kind? tree noRead noWrite o mode} {file : Path → ι} {p : Path} {c c' : ι → Text}
  {s : Store} {t : Text} {cause : Cause} {visit : Visit}

@[simp]
theorem read_eq_ok_iff : ((linked kind? tree file).failing noRead noWrite).read c p = .ok t ↔
    noRead p = none ∧ c (file p) = t := by
  simp only [Volume.failing, linked]
  cases noRead p <;> simp

@[simp] theorem read_eq_error_iff :
    ((linked kind? tree file).failing noRead noWrite).read c p = .error cause ↔
      noRead p = some cause := by
  simp only [Volume.failing, linked]
  cases noRead p <;> simp

@[simp]
theorem write_eq_ok_iff : ((linked kind? tree file).failing noRead noWrite).write c p t = .ok c' ↔
    noWrite p = none ∧ Function.update c (file p) t = c' := by
  simp only [Volume.failing, linked]
  cases noWrite p <;> simp

@[simp] theorem write_eq_error_iff :
    ((linked kind? tree file).failing noRead noWrite).write c p t = .error cause ↔
      noWrite p = some cause := by
  simp only [Volume.failing, linked]
  cases noWrite p <;> simp

theorem leaves_of_failing (h : noRead p ≠ none ∨ noWrite p ≠ none) :
    leaves noRead noWrite o mode p = id := by
  funext t
  exact if_neg fun hBoth => h.elim (absurd hBoth.2.1) (absurd hBoth.2.2)

theorem textAfter_of_failing (h : noRead p ≠ none ∨ noWrite p ≠ none) (k : ℕ) :
    textAfter noRead noWrite o mode s k p = s p := by
  rw [textAfter, leaves_of_failing h, Function.iterate_id, id]

theorem leaves_of_sound (hRead : noRead p = none) (hWrite : noWrite p = none) :
    leaves noRead noWrite o mode p = leaves (fun _ => none) (fun _ => none) o mode p := by
  funext t
  simp only [leaves, hRead, hWrite]

theorem textAfter_of_sound (hRead : noRead p = none) (hWrite : noWrite p = none) (k : ℕ) :
    textAfter noRead noWrite o mode s k p =
      textAfter (fun _ => none) (fun _ => none) o mode s k p := by
  rw [textAfter, textAfter, leaves_of_sound hRead hWrite]

theorem tells_of_sound (hRead : noRead p = none) (hWrite : noWrite p = none) :
    tells noRead noWrite o mode p t = tells (fun _ => none) (fun _ => none) o mode p t := by
  simp only [tells, hRead, hWrite]

theorem isSome_failure?_tells : (tells noRead noWrite o mode p t).failure?.isSome = true ↔
    (noRead p).isSome ∨ mode = .write ∧ (revise o t).isSome ∧ (noWrite p).isSome := by
  fun_cases tells noRead noWrite o mode p t <;> simp [Visit.failure?, *]

@[simp] theorem isUnchanged_tells : (tells noRead noWrite o mode p t).isUnchanged = true ↔
    noRead p = none ∧ revise o t = none := by
  fun_cases tells noRead noWrite o mode p t <;> simp [Visit.isUnchanged, *]

theorem visited_eq
    (h : Visited ((linked kind? tree file).failing noRead noWrite) o mode p c visit c') :
    visit = tells noRead noWrite o mode p (c (file p)) ∧
      c' = Function.update c (file p) (leaves noRead noWrite o mode p (c (file p))) := by
  cases h with
  | unreadable hRead =>
    rw [read_eq_error_iff] at hRead
    simp [tells, leaves, hRead]
  | unchanged hRead hNone =>
    obtain ⟨hReadable, rfl⟩ := read_eq_ok_iff.mp hRead
    simp [tells, leaves, revised, hReadable, hNone]
  | told hMode hRead hRevise =>
    obtain ⟨hReadable, rfl⟩ := read_eq_ok_iff.mp hRead
    simp [tells, leaves, hReadable, hRevise, hMode]
  | written hMode hRead hRevise hWrite =>
    obtain ⟨hReadable, rfl⟩ := read_eq_ok_iff.mp hRead
    obtain ⟨hWritable, rfl⟩ := write_eq_ok_iff.mp hWrite
    simp [tells, leaves, revised, hReadable, hWritable, hRevise, hMode]
  | unwritten hMode hRead hRevise hWrite =>
    obtain ⟨hReadable, rfl⟩ := read_eq_ok_iff.mp hRead
    rw [write_eq_error_iff] at hWrite
    simp [tells, leaves, hReadable, hWrite, hRevise, hMode]

end Visit

/-! ## Visits in a row -/

/-- Paths, each with how often it stands before. -/
def numbered (seen : List Path) : List Path → List (Path × ℕ)
  | [] => []
  | p :: rest => (p, seen.count p) :: numbered (p :: seen) rest

@[simp] theorem map_fst_numbered (seen files : List Path) :
    (numbered seen files).map Prod.fst = files := by
  induction files generalizing seen with
  | nil => rfl
  | cons p rest ih => rw [numbered, List.map_cons, ih]

theorem zip_map_numbered {α : Type} (f : Path × ℕ → α) (seen files : List Path) :
    files.zip ((numbered seen files).map f) = (numbered seen files).map fun x => (x.1, f x) := by
  induction files generalizing seen with
  | nil => rfl
  | cons p rest ih => rw [numbered, List.map_cons, List.zip_cons_cons, ih, List.map_cons]

section Visits

variable (noRead noWrite : Path → Option Cause) (o : Options) (mode : Mode) (s : Store)

/-- What visits tell that follow on others. -/
def told (seen files : List Path) : List Visit :=
  (numbered seen files).map fun x =>
    tells noRead noWrite o mode x.1 (textAfter noRead noWrite o mode s x.2 x.1)

/-- What the files behind `paths` hold once those of `seen` were visited, from what they held in `c`
on. Other files are as they were. -/
structure Holds (file : Path → ι) (c : ι → Text) (paths : Set Path) (seen : List Path)
    (c' : ι → Text) : Prop where
  visited : ∀ p ∈ paths, c' (file p) = textAfter noRead noWrite o mode (c ∘ file) (seen.count p) p
  other : ∀ i, i ∉ file '' paths → c' i = c i

variable {kind? tree noRead noWrite o mode s} {file : Path → ι} {c c₁ c' : ι → Text}
  {paths : Set Path} {seen files : List Path} {visits : List Visit}

theorem Holds.step (hPaths : paths.InjOn file)
    (h : Holds noRead noWrite o mode file c paths seen c₁) {p : Path} (hp : p ∈ paths) :
    Holds noRead noWrite o mode file c paths (p :: seen)
      (Function.update c₁ (file p) (leaves noRead noWrite o mode p (c₁ (file p)))) := by
  constructor
  case visited =>
    intro q hq
    by_cases hSame : q = p
    · subst hSame
      rw [Function.update_self, h.visited q hq, List.count_cons_self, textAfter, textAfter,
        Function.iterate_succ_apply']
    · have hOther : file q ≠ file p := fun hFile => hSame (hPaths hq hp hFile)
      rw [Function.update_of_ne hOther, h.visited q hq, List.count_cons_of_ne (Ne.symm hSame)]
  case other =>
    intro i hi
    rw [Function.update_of_ne, h.other i hi]
    rintro rfl
    exact hi ⟨p, hp, rfl⟩

theorem visits_eq_told (hPaths : paths.InjOn file) (hFiles : ∀ p ∈ files, p ∈ paths)
    (h : Visits ((linked kind? tree file).failing noRead noWrite) o mode files c₁ visits c')
    (hSeen : Holds noRead noWrite o mode file c paths seen c₁) :
    visits = told noRead noWrite o mode (c ∘ file) seen files ∧
      Holds noRead noWrite o mode file c paths (files.reverse ++ seen) c' := by
  induction h generalizing seen with
  | nil => exact ⟨rfl, hSeen⟩
  | @cons p files c₁ _ _ _ _ hFirst _ ih =>
    rw [List.forall_mem_cons] at hFiles
    obtain ⟨hVisit, rfl⟩ := visited_eq hFirst
    obtain ⟨hRest, hEnd⟩ := ih hFiles.2 (hSeen.step hPaths hFiles.1)
    constructor
    · rw [hVisit, hRest, hSeen.visited p hFiles.1]
      rfl
    · rwa [List.reverse_cons, List.append_assoc]

variable (files)

@[simp] theorem length_told : (told noRead noWrite o mode s [] files).length = files.length := by
  rw [told, List.length_map, ← List.length_map Prod.fst, map_fst_numbered]

theorem filter_zip_told {sound : Path → Bool}
    (hSound : ∀ p, sound p = true → noRead p = none ∧ noWrite p = none) :
    (files.zip (told noRead noWrite o mode s [] files)).filter (fun x => sound x.1) =
      (files.zip (told (fun _ => none) (fun _ => none) o mode s [] files)).filter
        (fun x => sound x.1) := by
  rw [told, told, zip_map_numbered, zip_map_numbered, List.filter_map, List.filter_map]
  apply List.map_congr_left
  intro x hx
  obtain ⟨hRead, hWrite⟩ := hSound x.1 (List.mem_filter.mp hx).2
  rw [tells_of_sound hRead hWrite, textAfter_of_sound hRead hWrite]

theorem length_failures_told :
    ((told noRead noWrite o mode s [] files).filterMap Visit.failure?).length =
      files.countP fun p => (noRead p).isSome ∨
        mode = .write ∧ (revise o (s p)).isSome ∧ (noWrite p).isSome := by
  let fails (p : Path) : Bool := (noRead p).isSome ∨
    mode = .write ∧ (revise o (s p)).isSome ∧ (noWrite p).isSome
  have hPaths : files.countP fails = (numbered [] files).countP (fails ∘ Prod.fst) := by
    rw [← List.countP_map, map_fst_numbered]
  rw [told, List.length_filterMap_eq_countP, List.countP_map]
  refine Eq.trans (List.countP_congr ?_) hPaths.symm
  intro x _
  simp only [Function.comp_apply, fails, decide_eq_true_iff, isSome_failure?_tells]
  -- A path that cannot be written still holds its first text.
  refine or_congr_right (and_congr_right fun _ => and_congr_left fun hWrite => ?_)
  rw [textAfter_of_failing (.inr (Option.isSome_iff_ne_none.mp hWrite))]

theorem countP_isUnchanged_told :
    (told noRead noWrite o mode s [] files).countP Visit.isUnchanged =
      (numbered [] files).countP fun x => noRead x.1 = none ∧
        revise o (textAfter noRead noWrite o mode s x.2 x.1) = none := by
  rw [told, List.countP_map]
  apply List.countP_congr
  intro x _
  simp

end Visits

/-! ## Batches -/

section Batch

variable {kind? tree} {noRead noWrite : Path → Option Cause} {o : Options} {mode : Mode}
  {extension : String} {targets : List Path} {s : Store}

theorem isSkippedAt_iff (hTree : ∀ p, kind? p = some .directory → ∃ t, tree p = .ok t)
    (p : Path) : Batch.isSkippedAt (volume kind? tree).disk s extension p = true ↔
      kind? p ≠ some .file ∧ kind? p ≠ some .directory := by
  let v := volume kind? tree
  have hKind : v.kind? s p = kind? p := rfl
  have hSurvey : v.tree s p = tree p := rfl
  rw [Batch.isSkippedAt, Batch.filesOf, (v.onlyLooks_kind? p).run_bind, v.run_kind?, hKind]
  by_cases hFile : kind? p = some .file
  · rw [if_pos hFile]
    exact iff_of_false Bool.false_ne_true fun h => h.1 hFile
  rw [if_neg hFile, Disk.sourceFiles, bind_assoc, (v.onlyLooks_kind? p).run_bind, v.run_kind?, hKind]
  by_cases hDirectory : kind? p = some .directory
  · obtain ⟨t, ht⟩ := hTree p hDirectory
    rw [if_pos hDirectory, bind_assoc, (v.onlyLooks_tree p).run_bind, v.run_tree, hSurvey, ht]
    exact iff_of_false Bool.false_ne_true fun h => h.2 hDirectory
  · rw [if_neg hDirectory]
    exact iff_of_true rfl ⟨hFile, hDirectory⟩

variable (kind? tree) in
theorem run_linked (file : Path → ι) (noRead noWrite : Path → Option Cause) (o : Options)
    (mode : Mode) (extension : String) (targets : List Path) (c : ι → Text) {paths : Set Path}
    (hPaths : paths.InjOn file) :
    let d := (linked kind? tree file).disk
    let files := Batch.files d c extension targets
    let end_ := (Batch.run (d.failing noRead noWrite) o mode extension targets).run c
    (∀ p ∈ files, p ∈ paths) →
      end_.1.visits = told noRead noWrite o mode (c ∘ file) [] files ∧
        Holds noRead noWrite o mode file c paths files.reverse end_.2 ∧
        end_.1.summary.skippedTrees = targets.countP (Batch.isSkippedAt d c extension) := by
  intro d files end_ hFiles
  have hv := (lawful_linked kind? tree file).failing noRead noWrite
  obtain ⟨hVisits, hSkipped⟩ := Batch.visits_run hv o mode extension targets c
  have hStart : Holds noRead noWrite o mode file c paths [] c := ⟨fun _ _ => rfl, fun _ _ => rfl⟩
  obtain ⟨hTold, hEnd⟩ := visits_eq_told hPaths hFiles hVisits hStart
  rw [Volume.disk_failing] at hTold hEnd hSkipped
  rw [List.append_nil] at hEnd
  exact ⟨hTold, hEnd, hSkipped⟩

variable (kind? tree) in
theorem run_eq (noRead noWrite : Path → Option Cause) (o : Options) (mode : Mode)
    (extension : String) (targets : List Path) (s : Store) :
    let d := (volume kind? tree).disk
    let files := Batch.files d s extension targets
    let end_ := (Batch.run (d.failing noRead noWrite) o mode extension targets).run s
    end_.1.visits = told noRead noWrite o mode s [] files ∧
      (∀ p, end_.2 p = textAfter noRead noWrite o mode s (files.count p) p) ∧
      end_.1.summary.skippedTrees = targets.countP (Batch.isSkippedAt d s extension) := by
  rw [volume_eq_linked]
  intro d files end_
  obtain ⟨hTold, hEnd, hSkipped⟩ := run_linked kind? tree id noRead noWrite o mode extension targets
    s (Set.injOn_id Set.univ) fun _ _ => Set.mem_univ _
  refine ⟨hTold, ?_, hSkipped⟩
  intro p
  rw [← List.count_reverse]
  exact hEnd.visited p (Set.mem_univ p)

/-- Failures to read and write keep to their paths, and the totals count each visit once. -/
theorem failures_stay_apart (kind? : Path → Option Kind)
    (tree : Path → Except (Path × Cause) (Tree Unit)) (noRead noWrite : Path → Option Cause)
    (o : Options) (mode : Mode) (extension : String) (targets : List Path) (s : Store)
    (hTree : ∀ p, kind? p = some .directory → ∃ t, tree p = .ok t) :
    let d := (volume kind? tree).disk
    let files := Batch.files d s extension targets
    let end_ := (Batch.run (d.failing noRead noWrite) o mode extension targets).run s
    let whole := (Batch.run d o mode extension targets).run s
    let sound (p : Path) : Bool := (noRead p).isNone && (noWrite p).isNone
    let summary := end_.1.summary
    (∀ p, sound p = false → end_.2 p = s p) ∧ (∀ p, sound p = true → end_.2 p = whole.2 p) ∧
      (files.zip end_.1.visits).filter (fun x => sound x.1) =
        (files.zip whole.1.visits).filter (fun x => sound x.1) ∧
      end_.1.visits.length = files.length ∧ whole.1.visits.length = files.length ∧
      summary.failed = files.countP (fun p => (noRead p).isSome ∨
        mode = .write ∧ (revise o (s p)).isSome ∧ (noWrite p).isSome) ∧
      summary.updated = end_.1.updates.length ∧
      summary.importsAdded = (end_.1.updates.map fun u => u.newImports.length).sum ∧
      summary.analyzed = summary.updated + summary.failed +
        (numbered [] files).countP (fun x => noRead x.1 = none ∧
          revise o (textAfter noRead noWrite o mode s x.2 x.1) = none) ∧
      summary.skippedTrees = targets.countP fun p =>
        kind? p ≠ some .file ∧ kind? p ≠ some .directory := by
  intro d files end_ whole sound summary
  obtain ⟨hVisits, hEnd, hSkipped⟩ := run_eq kind? tree noRead noWrite o mode extension targets s
  obtain ⟨hWhole, hWholeEnd, -⟩ :=
    run_eq kind? tree (fun _ => none) (fun _ => none) o mode extension targets s
  have hNone : d.failing (fun _ => none) (fun _ => none) = d := rfl
  rw [hNone] at hWhole hWholeEnd
  have hSound (p : Path) : sound p = true ↔ noRead p = none ∧ noWrite p = none := by
    simp [sound]
  have hNotSound (p : Path) : sound p = false ↔ noRead p ≠ none ∨ noWrite p ≠ none := by
    rw [← Bool.not_eq_true, hSound, not_and_or]
  refine ⟨?_, ?_, ?_, ?_, ?_, ?_, rfl, List.length_flatMap, ?_, ?_⟩
  · intro p hp
    rw [hEnd, textAfter_of_failing ((hNotSound p).mp hp)]
  · intro p hp
    obtain ⟨hRead, hWrite⟩ := (hSound p).mp hp
    rw [hEnd, hWholeEnd, textAfter_of_sound hRead hWrite]
  · rw [hVisits, hWhole]
    exact filter_zip_told files fun p => (hSound p).mp
  · rw [hVisits, length_told]
  · rw [hWhole, length_told]
  · rw [← length_failures_told, ← hVisits]
    rfl
  · rw [← countP_isUnchanged_told, ← hVisits]
    exact Visit.length_eq end_.1.visits
  · refine hSkipped.trans (List.countP_congr fun p _ => ?_)
    rw [isSkippedAt_iff hTree, decide_eq_true_iff]

/-- A file visited twice, one that cannot be read, and a target that is not there. -/
theorem failures_stay_apart_of_unreadable_file :
    let source := "class A { java.util.List a; }\n".toList
    let folder : Path := ⟨"src"⟩
    let first : Path := ⟨"A.java"⟩
    let second : Path := ⟨"B.java"⟩
    let kind? (p : Path) : Option Kind :=
      if p = folder then some .directory
      else if p = first ∨ p = second then some .file else none
    let noRead (p : Path) : Option Cause := if p = second then some .notText else none
    let d := (volume kind? fun _ => .ok (.directory [])).disk.failing noRead fun _ => none
    let targets := [folder, first, second, first, ⟨"C.java"⟩]
    let end_ := (Batch.run d .standard .write "java" targets).run fun _ => source
    end_.2 second = source ∧ end_.1.summary.failed = 1 ∧ end_.1.summary.skippedTrees = 1 := by
  intro source folder first second kind? noRead d targets end_
  obtain ⟨hKept, -, -, -, -, hFailed, -, -, -, hSkipped⟩ := failures_stay_apart kind?
    (fun _ => .ok (.directory [])) noRead (fun _ => none) .standard .write "java" targets
    (fun _ => source) (fun p _ => ⟨_, rfl⟩)
  refine ⟨hKept second (by decide), hFailed.trans ?_, hSkipped.trans ?_⟩
  · have hFiles : Batch.files (volume kind? fun _ => .ok (.directory [])).disk
        (fun _ => source) "java" targets = [first, second, first] := by decide +kernel
    rw [hFiles]
    decide +kernel
  · decide

end Batch

end Store

end ShortNames
