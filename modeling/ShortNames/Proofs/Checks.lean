import Mathlib
import ShortNames.CommandLine
import ShortNames.Proofs.Arguments
import ShortNames.Proofs.DryRuns

/-!
# Checks

A run of the command starts with looks at the disk, and then is a batch. The batch of a check is a dry
run, and what a dry run tells at all, a run that writes would change for good.
-/

namespace ShortNames

namespace Arguments

variable {a : Arguments}

theorem mode_of_check (h : .check ∈ a.flags) : CommandLine.mode a = .dryRun := by
  rw [CommandLine.mode, if_pos (.inr h)]

theorem mode_unchecked (h : .check ∈ a.flags)
    (hFew : (a.flags.filter (· ≠ .verbose)).length ≤ 1) :
    CommandLine.mode a.unchecked = .write := by
  have hPerm := (List.perm_cons_erase h).filter (· ≠ .verbose)
  rw [List.filter_cons_of_pos (by decide)] at hPerm
  have hLength := hPerm.length_eq
  rw [List.length_cons] at hLength
  have hNone : a.unchecked.flags.filter (· ≠ .verbose) = [] := by
    have hZero : ((a.flags.erase .check).filter (· ≠ .verbose)).length = 0 := by omega
    exact List.eq_nil_of_length_eq_zero hZero
  rw [List.filter_eq_nil_iff] at hNone
  rw [CommandLine.mode, if_neg]
  rintro (hDry | hCheck)
  · exact hNone _ hDry (by decide)
  · exact hNone _ hCheck (by decide)

end Arguments

/-! ## What a check tells -/

theorem Batch.updated_pos_iff {σ ι : Type} {v : Volume σ ι} (hv : v.Lawful) (o : Options)
    (extension : String) (targets : List Path) (s : σ) :
    0 < ((Batch.run v.disk o .dryRun extension targets).run s).1.summary.updated ↔
      ∃ p ∈ Batch.files v.disk s extension targets, ¬ Quiet v o s p := by
  obtain ⟨hDry, -⟩ := visits_run hv o .dryRun extension targets s
  rw [Report.summary, Report.updates, hDry.outcomes_of_dryRun, List.length_pos_iff_exists_mem]
  constructor
  · rintro ⟨u, hu⟩
    obtain ⟨p, hp, hTold⟩ := List.mem_filterMap.mp hu
    obtain ⟨t, r, hRead, hRevise, -⟩ := outcomeAt?_eq_some_iff.mp hTold
    exact ⟨p, hp, not_quiet_iff.mpr ⟨t, r, hRead, hRevise⟩⟩
  · rintro ⟨p, hp, hNot⟩
    obtain ⟨t, r, hRead, hRevise⟩ := not_quiet_iff.mp hNot
    refine ⟨.ofRevision p false r, List.mem_filterMap.mpr ⟨p, hp, ?_⟩⟩
    exact outcomeAt?_eq_some_iff.mpr ⟨t, r, hRead, hRevise, rfl⟩

namespace CommandLine

variable {σ ι : Type} {v : Volume σ ι} {around : Surroundings} {a : Arguments} {s : σ}

/-- A run gets as far as its batch. -/
structure Starts (d : Disk (StateM σ)) (around : Surroundings) (a : Arguments) (s : σ)
    (root : Path) (settings : Settings) : Prop where
  root_eq : ((rootOf d around a).run s).1 = root
  directory : ((d.kind? root).run s).1 = some .directory
  settings_eq : ((loadSettings d around root).run s).1 = .ok settings

theorem onlyLooks_nearest? (v : Volume σ ι) (markers : List String) (above : List Path) :
    OnlyLooks (v.disk.nearest? markers above) := by
  induction above with
  | nil => exact .pure _
  | cons p above ih =>
    apply OnlyLooks.bind
    · exact OnlyLooks.mapM (fun marker => v.onlyLooks_kind? _) markers
    · intro found
      split
      · exact .pure _
      · exact ih

theorem onlyLooks_rootOf (v : Volume σ ι) (around : Surroundings) (a : Arguments) :
    OnlyLooks (rootOf v.disk around a) := by
  rw [rootOf]
  split
  · exact .pure _
  · exact (onlyLooks_nearest? v rootMarkers _).bind fun _ => .pure _

theorem onlyLooks_firstFile? (v : Volume σ ι) (paths : List Path) :
    OnlyLooks (firstFile? v.disk paths) := by
  induction paths with
  | nil => exact .pure _
  | cons p paths ih =>
    apply (v.onlyLooks_kind? p).bind
    intro kind
    split
    · exact (v.onlyLooks_read p).bind fun _ => .pure _
    · exact ih

theorem onlyLooks_loadSettings (v : Volume σ ι) (around : Surroundings) (root : Path) :
    OnlyLooks (loadSettings v.disk around root) :=
  (onlyLooks_firstFile? v _).bind fun _ => .pure _

theorem run_runWith {root : Path} {settings : Settings}
    (h : Starts v.disk around a s root settings) :
    (runWith v.disk around a).run s =
      let end_ := (batch v.disk a root (overridden a settings)).run s
      (exitOf around.environment a root (overridden a settings) end_.1, end_.2) := by
  obtain ⟨hRoot, hDirectory, hSettings⟩ := h
  rw [runWith, (onlyLooks_rootOf v around a).run_bind, hRoot, (v.onlyLooks_kind? root).run_bind,
    hDirectory]
  simp only [ne_eq, not_true_eq_false, if_false]
  rw [(onlyLooks_loadSettings v around root).run_bind, hSettings]
  rfl

theorem overridden_unchecked (a : Arguments) (settings : Settings) :
    overridden a.unchecked settings = overridden a settings := by
  have hVerbose : .verbose ∈ a.unchecked.flags ↔ .verbose ∈ a.flags :=
    List.mem_erase_of_ne (by decide)
  simp only [overridden, hVerbose]

theorem Starts.unchecked {d : Disk (StateM σ)} {root : Path} {settings : Settings}
    (h : Starts d around a s root settings) : Starts d around a.unchecked s root settings :=
  ⟨h.root_eq, h.directory, h.settings_eq⟩

theorem status_eq_one_iff {env : Environment} {root : Path} {settings : Settings} {r : Report}
    (hCheck : .check ∈ a.flags) :
    (exitOf env a root settings r).status = 1 ↔ 0 < r.summary.updated := by
  simp only [exitOf, hCheck, true_and]
  split <;> simp_all

theorem run_check (hv : v.Lawful) {root : Path} {settings : Settings} (hCheck : .check ∈ a.flags)
    (h : Starts v.disk around a s root settings) :
    let settings := overridden a settings
    let files := Batch.files v.disk s settings.extension (targetsOf a root settings)
    let end_ := (runWith v.disk around a).run s
    end_.2 = s ∧ (end_.1.status = 1 ↔ ∃ p ∈ files, ¬ Batch.Quiet v settings.options s p) := by
  intro settings files end_
  have hRun : end_ = _ := run_runWith h
  rw [batch, Arguments.mode_of_check hCheck] at hRun
  obtain ⟨hDry, -⟩ := Batch.visits_run hv settings.options .dryRun settings.extension
    (targetsOf a root settings) s
  rw [hRun]
  refine ⟨hDry.state_of_dryRun, ?_⟩
  rw [status_eq_one_iff hCheck]
  exact Batch.updated_pos_iff hv settings.options settings.extension _ s

/-- A check tells whether the same command without `--check` changes a file. -/
theorem check_predicts_write_run (cwd : List String) (noRead noWrite : Path → Option Cause)
    (fs : FileSystem) (around : Surroundings) (words : List String) (a : Arguments) (root : Path)
    (settings : Settings) :
    let d := (FileSystem.disk cwd).failing noRead noWrite
    let checked := (run d around words).run fs
    let plain := (run d around (words.erase "--check")).run fs
    let written := (batch d a.unchecked root (overridden a settings)).run fs
    Arguments.read words = .ok (.run a) → .check ∈ a.flags →
    Starts d around a fs root settings →
    (∀ visit ∈ written.1.visits, visit.isUnwritten = false) →
      checked.2 = fs ∧
        (checked.1.status = 1 ↔ ∃ place, plain.2.content? place ≠ fs.content? place) := by
  rw [← FileSystem.disk_volume, ← Volume.disk_failing]
  intro d checked plain written hRead hCheck hStarts hWritten
  have hv := (FileSystem.lawful_volume cwd).failing noRead noWrite
  have hChecked : checked = (runWith d around a).run fs := by
    simp only [checked, run, hRead]
  have hPlain : plain.2 = written.2 := by
    simp only [plain, run, Arguments.read_erase_check hRead hCheck]
    rw [run_runWith hStarts.unchecked, overridden_unchecked]
  obtain ⟨hState, hStatus⟩ := run_check hv hCheck hStarts
  rw [hChecked, hPlain]
  refine ⟨hState, hStatus.trans ?_⟩
  have hVisits : Batch.Visits _ _ _ _ _ written.1.visits written.2 :=
    (Batch.visits_run hv (overridden a settings).options (mode a.unchecked)
      (overridden a settings).extension (targetsOf a.unchecked root (overridden a settings)) fs).1
  rw [Arguments.mode_unchecked hCheck (Arguments.filter_flags_length_le hRead)] at hVisits
  constructor
  · rintro ⟨p, hp, hTold⟩
    obtain ⟨t, r, hOld, hRevise⟩ := Batch.not_quiet_iff.mp hTold
    obtain ⟨n, u, hNew, hRevised⟩ := hVisits.exists_revised hv hWritten hp hOld hRevise
    obtain ⟨place, -, hText, hLast⟩ :=
      FileSystem.exists_place_of_read hVisits.frame.1 hOld hNew
    refine ⟨place, ?_⟩
    rw [hText, hLast]
    intro hSame
    exact hRevised.ne (Content.text.inj (Option.some.inj hSame))
  · rintro ⟨place, hChanged⟩
    by_contra hNone
    simp only [not_exists, not_and, not_not] at hNone
    obtain ⟨hSame, -⟩ := hVisits.of_quiet hNone
    rw [hSame] at hChanged
    exact hChanged rfl

/-- One file under two paths. -/
theorem check_predicts_write_run_of_file_named_twice :
    let source := "class A { java.util.List a; }\n".toList
    let fs : FileSystem := ⟨.directory [("A.java", .file (.text source)), ("r", .directory [])]⟩
    let d := (FileSystem.disk []).failing (fun _ => none) (fun _ => none)
    let around : Surroundings := ⟨⟨"/"⟩, []⟩
    let checked := (run d around ["--check", "--root=/r", "/A.java", "/./A.java"]).run fs
    let plain := (run d around ["--root=/r", "/A.java", "/./A.java"]).run fs
    (revise .standard source).isSome ∧ checked.2 = fs ∧
      (checked.1.status = 1 ↔ ∃ place, plain.2.content? place ≠ fs.content? place) := by
  intro source fs d around checked plain
  let words := ["--check", "--root=/r", "/A.java", "/./A.java"]
  let a : Arguments := ⟨["/A.java", "/./A.java"], some "/r", [.check]⟩
  have hRead : Arguments.read words = .ok (.run a) := by decide +kernel
  have hErase : words.erase "--check" = ["--root=/r", "/A.java", "/./A.java"] := by decide
  let file : Path := ⟨"/r/.mill/dequalify.toml"⟩
  have hCandidates : candidates ⟨"/"⟩ (Settings.filePath ⟨"/r"⟩) = [file] := by decide +kernel
  have hNoFile : (d.kind? file).run fs = (none, fs) := by
    have hSegments : file.segments =
        ["r".toList, ".mill".toList, "dequalify.toml".toList] := by decide +kernel
    have hMissing : fs.locate [] file = .error .missing := by
      rw [FileSystem.locate, hSegments]
      simp [FileSystem.follow, fs, file, FileSystem.linkLimit, Path.isAbsolute, Tree.get?,
        Tree.entry?, List.lookup]
    have hKind : fs.kind? [] file = none := by
      rw [FileSystem.kind?, FileSystem.get?, hMissing]
      rfl
    rw [← hKind]
    rfl
  have hSettings : ((loadSettings d around ⟨"/r"⟩).run fs).1 = .ok .standard := by
    rw [loadSettings, hCandidates]
    simp only [firstFile?, StateT.run_bind, hNoFile]
    rfl
  have hDirectory : ((d.kind? ⟨"/r"⟩).run fs).1 = some .directory := by cbv
  have hStarts : Starts d around a fs ⟨"/r"⟩ .standard := ⟨rfl, hDirectory, hSettings⟩
  have hWritten := Batch.isUnwritten_eq_false [] (fun _ => none) fs
    (overridden a .standard).options .write (overridden a .standard).extension
    (targetsOf a ⟨"/r"⟩ (overridden a .standard))
  have hPredicts := check_predicts_write_run [] (fun _ => none) (fun _ => none) fs around words a
    ⟨"/r"⟩ .standard hRead (by decide) hStarts hWritten
  rw [hErase] at hPredicts
  exact ⟨by decide +kernel, hPredicts⟩

end CommandLine

end ShortNames
