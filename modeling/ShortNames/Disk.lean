import ShortNames.Failure
import ShortNames.Tree

/-!
# Disks

What the library asks of a disk. A disk works in some monad: the real one, or one whose state is a
`FileSystem`.
-/

namespace ShortNames

inductive Kind
  | file
  | directory
  | special
  deriving DecidableEq, Repr

structure Disk (m : Type → Type) where
  kind? : Path → m (Option Kind)
  /-- The outline of the directory at a path, or where listing it failed and why. -/
  tree : Path → m (Except (Path × Cause) (Tree Unit))
  read : Path → m (Except Cause Text)
  write : Path → Text → m (Except Cause Unit)

namespace Disk

variable {m : Type → Type} [Monad m]

/-- The disk on which reading the paths `noRead` and writing the paths `noWrite` fails. -/
def failing (d : Disk m) (noRead noWrite : Path → Option Cause) : Disk m :=
  { d with
    read := fun p =>
      match noRead p with
      | some cause => pure (.error cause)
      | none => d.read p
    write := fun p content =>
      match noWrite p with
      | some cause => pure (.error cause)
      | none => d.write p content }

/-- The regular files with an extension below the directory at a path. -/
def sourceFiles (d : Disk m) (path : Path) (extension : String) :
    m (Except Failure (List Path)) := do
  if (← d.kind? path) = some .directory then
    match ← d.tree path with
    | .ok t =>
      let names := t.files.filter fun names =>
        names.getLast?.bind (fun n => Path.extensionOf? n.toList) == some extension.toList
      pure (.ok (names.map fun ns => ns.foldl (fun p n => p.join ⟨n⟩) path))
    | .error (place, cause) => pure (.error (.walk path place cause))
  else
    pure (.error (.noTree path))

/-- The nearest of `start` and the directories above it that holds one of the markers. -/
def nearest? (d : Disk m) (markers : List String) : List Path → m (Option Path)
  | [] => pure none
  | p :: above => do
    let found ← markers.mapM fun marker => d.kind? (p.join ⟨marker⟩)
    if found.any Option.isSome then pure (some p) else d.nearest? markers above

/-- The directory that a project is worked on from: the nearest with a marker, or `start`. -/
def projectRoot (d : Disk m) (start : Path) (markers : List String) : m Path := do
  return (← d.nearest? markers start.ancestors).getD start

end Disk

end ShortNames
