import ShortNames.Proofs.Stores

/-!
# Targets in any order

A visit sees the text of its own file and how often that file was visited before, and nothing else
of the batch. So a batch with its targets in another order makes the same visits in another order,
as long as it comes to each file on one path.
-/

namespace ShortNames

namespace Report

theorem summary_eq_of_perm {r r' : Report} (hVisits : r.visits.Perm r'.visits)
    (hSkipped : r.summary.skippedTrees = r'.summary.skippedTrees) : r.summary = r'.summary := by
  have hUpdates : r.updates.Perm r'.updates := hVisits.filterMap _
  rw [summary, summary, Summary.mk.injEq]
  refine ⟨hVisits.length_eq, hUpdates.length_eq, ?_, ?_, hSkipped⟩
  · exact (hUpdates.flatMap_right _).length_eq
  · exact (hVisits.filterMap _).length_eq

end Report

namespace Store

theorem numbered_congr {seen seen' : List Path} (hSeen : seen.Perm seen') (files : List Path) :
    numbered seen files = numbered seen' files := by
  induction files generalizing seen seen' with
  | nil => rfl
  | cons p files ih => rw [numbered, numbered, hSeen.count_eq, ih (hSeen.cons p)]

/-- Files in another order come up for the same visits: each for its first, its second and so on. -/
theorem numbered_perm {files files' : List Path} (hFiles : files.Perm files') (seen : List Path) :
    (numbered seen files).Perm (numbered seen files') := by
  induction hFiles generalizing seen with
  | nil => exact .nil
  | cons p _ ih => exact (ih (p :: seen)).cons _
  | swap p q files =>
    rw [numbered, numbered, numbered, numbered, numbered_congr (.swap p q seen)]
    rcases eq_or_ne p q with rfl | hOther
    · exact .refl _
    · rw [List.count_cons_of_ne hOther, List.count_cons_of_ne hOther.symm]
      exact .swap _ _ _
  | trans _ _ ih ih' => exact (ih seen).trans (ih' seen)

/-- What is held in the end does not depend on the order of the visits. -/
theorem Holds.eq_of_perm {ι : Type} {noRead noWrite : Path → Option Cause} {o : Options}
    {mode : Mode} {file : Path → ι} {c c₁ c₂ : ι → Text} {paths : Set Path}
    {seen seen' : List Path} (h₁ : Holds noRead noWrite o mode file c paths seen c₁)
    (h₂ : Holds noRead noWrite o mode file c paths seen' c₂) (hSeen : seen.Perm seen') :
    c₁ = c₂ := by
  funext i
  by_cases hi : i ∈ file '' paths
  · obtain ⟨p, hp, rfl⟩ := hi
    rw [h₁.visited p hp, h₂.visited p hp, hSeen.count_eq]
  · rw [h₁.other i hi, h₂.other i hi]

/-- A batch may take its targets in any order. Several paths may lead to one file, as long as the
batch comes to it on one of them only; on that one it may come more than once. -/
theorem targets_in_any_order {ι : Type} [DecidableEq ι] (kind? : Path → Option Kind)
    (tree : Path → Except (Path × Cause) (Tree Unit)) (file : Path → ι)
    (noRead noWrite : Path → Option Cause) (o : Options) (mode : Mode) (extension : String)
    (c : ι → Text) {targets targets' : List Path} (hTargets : targets.Perm targets') :
    let whole := (linked kind? tree file).disk
    let d := whole.failing noRead noWrite
    let files := Batch.files whole c extension targets
    let end_ := (Batch.run d o mode extension targets).run c
    let other := (Batch.run d o mode extension targets').run c
    (∀ p ∈ files, ∀ q ∈ files, file p = file q → p = q) →
      end_.2 = other.2 ∧ end_.1.summary = other.1.summary ∧
        end_.1.updates.Perm other.1.updates := by
  intro whole d files end_ other hFiles
  have hPerm : files.Perm (Batch.files whole c extension targets') := hTargets.flatMap_right _
  have hPaths : Set.InjOn file {p | p ∈ files} := fun p hp q hq => hFiles p hp q hq
  obtain ⟨hVisits, hEnd, hSkipped⟩ := run_linked kind? tree file noRead noWrite o mode extension
    targets c hPaths fun _ hp => hp
  obtain ⟨hVisits', hEnd', hSkipped'⟩ := run_linked kind? tree file noRead noWrite o mode extension
    targets' c hPaths fun _ hp => hPerm.mem_iff.mpr hp
  have hAll : end_.1.visits.Perm other.1.visits := by
    rw [hVisits, hVisits']
    exact (numbered_perm hPerm []).map _
  refine ⟨?_, ?_, hAll.filterMap _⟩
  · apply hEnd.eq_of_perm hEnd'
    exact (List.reverse_perm files).trans (hPerm.trans (List.reverse_perm _).symm)
  · apply Report.summary_eq_of_perm hAll
    exact hSkipped.trans ((hTargets.countP_eq _).trans hSkipped'.symm)

/-- A directory and the file in it that is a target of its own. Another path leads to that file, and
a file beside it cannot be written. -/
theorem targets_in_any_order_of_overlap :
    let source := "class A { java.util.List a; }\n".toList
    let folder : Path := ⟨"src"⟩
    let inside : Path := ⟨"src/A.java"⟩
    let beside : Path := ⟨"B.java"⟩
    let kind? (p : Path) : Option Kind :=
      if p = folder then some .directory
      else if p = inside ∨ p = beside then some .file else none
    let tree (_ : Path) : Except (Path × Cause) (Tree Unit) :=
      .ok (.directory [("A.java", .file ())])
    let file (p : Path) : Path := if p = ⟨"A.java"⟩ then inside else p
    let noWrite (p : Path) : Option Cause := if p = beside then some (.other "denied") else none
    let targets := [folder, beside, ⟨"lib"⟩, inside]
    let targets' := [inside, folder, ⟨"lib"⟩, beside]
    let whole := (linked kind? tree file).disk
    let d := whole.failing (fun _ => none) noWrite
    let end_ := (Batch.run d .standard .write "java" targets).run fun _ => source
    let other := (Batch.run d .standard .write "java" targets').run fun _ => source
    Batch.files whole (fun _ => source) "java" targets = [inside, beside, inside] ∧
      end_.2 = other.2 ∧ end_.1.summary = other.1.summary ∧
        end_.1.updates.Perm other.1.updates := by
  intro source folder inside beside kind? tree file noWrite targets targets' whole d end_ other
  have hFiles : Batch.files whole (fun _ => source) "java" targets = [inside, beside, inside] := by
    decide +kernel
  have hTargets : targets.Perm targets' := by decide
  refine ⟨hFiles, ?_⟩
  apply targets_in_any_order kind? tree file (fun _ => none) noWrite .standard .write "java"
    (fun _ => source) hTargets
  change ∀ p ∈ Batch.files whole (fun _ => source) "java" targets,
    ∀ q ∈ Batch.files whole (fun _ => source) "java" targets, file p = file q → p = q
  rw [hFiles]
  decide

end Store

end ShortNames
