import ShortNames.Batch
import ShortNames.Proofs.FileSystems

/-!
# Runs of a batch

A visit of a file ends in one of five ways (`Visited`), and a batch is one visit after another
(`Visits`). On a lawful volume the files that a batch visits are those that its targets hold at the
start, since nothing that a visit writes changes what is listed.
-/

namespace ShortNames

/-- Whether a visit failed to write what it had revised. -/
def Visit.isUnwritten (v : Visit) : Bool :=
  match v.result with
  | .error (.write ..) => true
  | _ => false

namespace Batch

variable {σ ι : Type}

/-- The files that one target stands for, as a disk shows them in a state. -/
def filesAt (d : Disk (StateM σ)) (s : σ) (extension : String) (target : Path) : List Path :=
  match ((filesOf d extension target).run s).1 with
  | .ok (some files) => files
  | _ => []

/-- The files that a batch visits, each as often as it is visited. -/
def files (d : Disk (StateM σ)) (s : σ) (extension : String) (targets : List Path) : List Path :=
  targets.flatMap (filesAt d s extension)

/-- What is told while a text is read and revised. -/
def notes (o : Options) (t : Text) : List Event :=
  Event.ofReading (Reading.ofText o t)

/-! ## One visit -/

inductive Visited (v : Volume σ ι) (o : Options) (mode : Mode) (p : Path) (s : σ) :
    Visit → σ → Prop
  | unreadable {cause : Cause} (hRead : v.read s p = .error cause) :
    Visited v o mode p s ⟨[], .error (.read p cause)⟩ s
  | unchanged {t : Text} (hRead : v.read s p = .ok t) (hNone : revise o t = none) :
    Visited v o mode p s ⟨notes o t ++ [.unchanged p], .ok none⟩ s
  | told {t : Text} {r : Revision} (hMode : mode = .dryRun) (hRead : v.read s p = .ok t)
      (hRevise : revise o t = some r) :
    Visited v o mode p s ⟨notes o t, .ok (some (.ofRevision p false r))⟩ s
  | written {t : Text} {r : Revision} {s' : σ} (hMode : mode = .write)
      (hRead : v.read s p = .ok t) (hRevise : revise o t = some r)
      (hWrite : v.write s p r.content = .ok s') :
    Visited v o mode p s ⟨notes o t, .ok (some (.ofRevision p true r))⟩ s'
  | unwritten {t : Text} {r : Revision} {cause : Cause} (hMode : mode = .write)
      (hRead : v.read s p = .ok t) (hRevise : revise o t = some r)
      (hWrite : v.write s p r.content = .error cause) :
    Visited v o mode p s ⟨notes o t, .error (.write p cause)⟩ s

variable {v : Volume σ ι} {o : Options} {mode : Mode}

theorem visited_visit (p : Path) (s : σ) :
    Visited v o mode p s ((visit v.disk o mode p).run s).1
      ((visit v.disk o mode p).run s).2 := by
  rw [visit, (v.onlyLooks_read p).run_bind, Volume.run_read]
  cases hRead : v.read s p with
  | error cause => exact .unreadable hRead
  | ok t =>
    cases hRevise : revise o t with
    | none =>
      rw [revise] at hRevise
      simp only [hRevise]
      exact .unchanged hRead hRevise
    | some r =>
      have hReading := hRevise
      rw [revise] at hReading
      simp only [hReading]
      cases hMode : mode with
      | dryRun => exact .told rfl hRead hRevise
      | write =>
        simp only [StateT.run_bind, Volume.run_write]
        cases hWrite : v.write s p r.content with
        | ok s' => exact .written rfl hRead hRevise hWrite
        | error cause => exact .unwritten rfl hRead hRevise hWrite

theorem Visited.state_of_dryRun {p : Path} {s s' : σ} {visit : Visit}
    (h : Visited v o .dryRun p s visit s') : s' = s := by
  cases h with
  | unreadable | unchanged | told => rfl
  | written hMode | unwritten hMode => cases hMode

theorem Visited.shape (hv : v.Lawful) {p : Path} {s s' : σ} {visit : Visit}
    (h : Visited v o mode p s visit s') :
    v.kind? s' = v.kind? s ∧ v.tree s' = v.tree s ∧ v.file? s' = v.file? s := by
  cases h with
  | unreadable | unchanged | told | unwritten => exact ⟨rfl, rfl, rfl⟩
  | written _ _ _ hWrite =>
    exact ⟨hv.kind?_write hWrite, hv.tree_write hWrite, hv.file?_write hWrite⟩

/-! ## Visits in a row -/

inductive Visits (v : Volume σ ι) (o : Options) (mode : Mode) :
    List Path → σ → List Visit → σ → Prop
  | nil (s : σ) : Visits v o mode [] s [] s
  | cons {p : Path} {files : List Path} {s s₁ s₂ : σ} {visit : Visit} {visits : List Visit}
      (hFirst : Visited v o mode p s visit s₁) (hRest : Visits v o mode files s₁ visits s₂) :
    Visits v o mode (p :: files) s (visit :: visits) s₂

theorem visits_mapM (files : List Path) (s : σ) :
    Visits v o mode files s ((files.mapM (visit v.disk o mode)).run s).1
      ((files.mapM (visit v.disk o mode)).run s).2 := by
  induction files generalizing s with
  | nil => exact .nil s
  | cons p files ih =>
    rw [List.mapM_cons]
    exact .cons (visited_visit p s) (ih _)

namespace Visits

variable {files : List Path} {s s' : σ} {visits : List Visit}

theorem append {others : List Path} {s₁ : σ} {rest : List Visit}
    (hFirst : Visits v o mode files s visits s₁) (hRest : Visits v o mode others s₁ rest s') :
    Visits v o mode (files ++ others) s (visits ++ rest) s' := by
  induction hFirst with
  | nil s => exact hRest
  | cons hVisited _ ih => exact .cons hVisited (ih hRest)

theorem length_eq (h : Visits v o mode files s visits s') : visits.length = files.length := by
  induction h with
  | nil s => rfl
  | cons _ _ ih => rw [List.length_cons, List.length_cons, ih]

theorem state_of_dryRun (h : Visits v o .dryRun files s visits s') : s' = s := by
  induction h with
  | nil s => rfl
  | cons hFirst _ ih => rw [ih, hFirst.state_of_dryRun]

theorem shape (hv : v.Lawful) (h : Visits v o mode files s visits s') :
    v.kind? s' = v.kind? s ∧ v.tree s' = v.tree s ∧ v.file? s' = v.file? s := by
  induction h with
  | nil s => exact ⟨rfl, rfl, rfl⟩
  | cons hFirst _ ih =>
    obtain ⟨hKind, hTree, hFile⟩ := hFirst.shape hv
    exact ⟨ih.1.trans hKind, ih.2.1.trans hTree, ih.2.2.trans hFile⟩

theorem isUnwritten_eq_false (hv : v.Writable) (h : Visits v o mode files s visits s') :
    ∀ visit ∈ visits, visit.isUnwritten = false := by
  induction h with
  | nil s => exact nofun
  | cons hFirst _ ih =>
    refine List.forall_mem_cons.mpr ⟨?_, ih⟩
    cases hFirst with
    | unreadable | unchanged | told | written => rfl
    | @unwritten t r _ _ hRead _ hWrite =>
      obtain ⟨s', hWritten⟩ := hv _ _ r.content t hRead
      cases hWrite.symm.trans hWritten

/-- What every revision that is written keeps holds at the end if it holds at the start. -/
theorem invariant {Inv : σ → Prop} (h : Visits v o mode files s visits s') (hInv : Inv s)
    (hStep : ∀ {p s s' t r}, Outcome.ofRevision p true r ∈ visits.filterMap Visit.outcome? →
      v.read s p = .ok t → revise o t = some r → v.write s p r.content = .ok s' →
      Inv s → Inv s') : Inv s' := by
  induction h with
  | nil s => exact hInv
  | @cons p files s s₁ s₂ visit visits hFirst _ ih =>
    apply ih
    · cases hFirst with
      | unreadable | unchanged | told | unwritten => exact hInv
      | written _ hRead hRevise hWrite =>
        exact hStep List.mem_cons_self hRead hRevise hWrite hInv
    · intro q s s' t r hMem
      apply hStep
      rw [List.filterMap_cons]
      split
      · exact hMem
      · exact List.mem_cons_of_mem _ hMem

end Visits

/-! ## Targets -/

theorem surveys_filesOf (v : Volume σ ι) (extension : String) (target : Path) :
    v.Surveys (filesOf v.disk extension target) := by
  apply (Volume.Surveys.kind? v target).bind
  intro kind
  split
  · exact .pure _
  · exact (Volume.Surveys.sourceFiles v target extension).bind fun _ => .pure _

/-- Whether a batch passes over a target that holds no files. -/
def isSkippedAt (d : Disk (StateM σ)) (s : σ) (extension : String) (target : Path) : Bool :=
  !((filesOf d extension target).run s).1.isOk

theorem visits_runTarget (v : Volume σ ι) (o : Options) (mode : Mode) (extension : String)
    (target : Path) (s : σ) :
    let end_ := (runTarget v.disk o mode extension target).run s
    Visits v o mode (filesAt v.disk s extension target) s end_.1.visits end_.2 ∧
      end_.1.isSkipped = isSkippedAt v.disk s extension target := by
  rw [runTarget, (surveys_filesOf v extension target).onlyLooks.run_bind, filesAt, isSkippedAt]
  cases ((filesOf v.disk extension target).run s).1 with
  | error failure => exact ⟨.nil s, rfl⟩
  | ok listed =>
    cases listed with
    | none => exact ⟨.nil s, rfl⟩
    | some files => exact ⟨visits_mapM files s, rfl⟩

section Congr

variable {s s' : σ} (hKind : v.kind? s' = v.kind? s) (hTree : v.tree s' = v.tree s)
  (extension : String)
include hKind hTree

theorem filesAt_congr :
    filesAt v.disk s' extension = filesAt v.disk s extension := by
  funext target
  rw [filesAt, filesAt, (surveys_filesOf v extension target).congr hKind hTree]

theorem isSkippedAt_congr :
    isSkippedAt v.disk s' extension = isSkippedAt v.disk s extension := by
  funext target
  rw [isSkippedAt, isSkippedAt, (surveys_filesOf v extension target).congr hKind hTree]

theorem files_congr (targets : List Path) :
    files v.disk s' extension targets = files v.disk s extension targets := by
  rw [files, filesAt_congr hKind hTree, ← files]

end Congr

theorem visits_run (hv : v.Lawful) (o : Options) (mode : Mode) (extension : String)
    (targets : List Path) (s : σ) :
    let end_ := (run v.disk o mode extension targets).run s
    Visits v o mode (files v.disk s extension targets) s end_.1.visits end_.2 ∧
      end_.1.summary.skippedTrees = targets.countP (isSkippedAt v.disk s extension) := by
  induction targets generalizing s with
  | nil => exact ⟨.nil s, rfl⟩
  | cons target targets ih =>
    obtain ⟨hFirst, hSkipped⟩ := visits_runTarget v o mode extension target s
    obtain ⟨hKind, hTree, -⟩ := hFirst.shape hv
    obtain ⟨hRest, hOthers⟩ := ih ((runTarget v.disk o mode extension target).run s).2
    -- The other targets are listed as they were at the start.
    rw [files_congr hKind hTree] at hRest
    rw [isSkippedAt_congr hKind hTree] at hOthers
    rw [run, List.mapM_cons, files, List.flatMap_cons]
    refine ⟨hFirst.append hRest, ?_⟩
    rw [List.countP_cons, ← hOthers, ← hSkipped]
    exact List.countP_cons

/-! ## On a file system -/

section FileSystem

open FileSystem (volume)

variable {cwd : List String} {noRead noWrite : Path → Option Cause}

theorem Visits.frame {files : List Path} {fs fs' : FileSystem} {visits : List Visit}
    (h : Visits ((volume cwd).failing noRead noWrite) o mode files fs visits fs') :
    fs'.root.outline = fs.root.outline ∧
      ∀ place, (∀ u ∈ visits.filterMap Visit.outcome?, fs.locate cwd u.path ≠ .ok place) →
        fs'.content? place = fs.content? place := by
  apply h.invariant
  · exact ⟨rfl, fun _ _ => rfl⟩
  · intro p fs₁ fs₂ t r hMem _ _ hWrite hInv
    obtain ⟨hOutline, written, hPlace, hContent⟩ :=
      FileSystem.write_ok (Volume.write_of_failing hWrite)
    refine ⟨hOutline.trans hInv.1, ?_⟩
    intro place hApart
    have hOther : place ≠ written := by
      rintro rfl
      rw [FileSystem.locate_congr hInv.1] at hPlace
      exact hApart _ hMem hPlace
    rw [hContent, if_neg hOther, hInv.2 place hApart]

/-- On a file system a write fails only where it is made to. -/
theorem isUnwritten_eq_false (cwd : List String) (noRead : Path → Option Cause) (fs : FileSystem)
    (o : Options) (mode : Mode) (extension : String) (targets : List Path) :
    let d := (FileSystem.disk cwd).failing noRead fun _ => none
    ∀ visit ∈ ((run d o mode extension targets).run fs).1.visits, visit.isUnwritten = false := by
  rw [← FileSystem.disk_volume, ← Volume.disk_failing]
  have hv := (FileSystem.lawful_volume cwd).failing noRead fun _ => none
  obtain ⟨hVisits, -⟩ := visits_run hv o mode extension targets fs
  exact hVisits.isUnwritten_eq_false ((FileSystem.writable_volume cwd).failing noRead)

end FileSystem

end Batch

end ShortNames
