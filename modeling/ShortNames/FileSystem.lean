import ShortNames.Disk

/-!
# File systems

A disk as a value. A path is followed segment by segment from the root or from a working directory,
through at most `linkLimit` links, to a place in the tree that no link is on the way to.
-/

namespace ShortNames

/-- What a file holds: text, or bytes that are no text. -/
inductive Content
  | text (t : Text)
  | bytes (b : List UInt8)
  deriving DecidableEq, Repr

structure FileSystem where
  root : Tree Content

namespace FileSystem

def linkLimit : Nat := 40

def follow (root : Tree Content) (links : Nat) (here : List String) :
    List Text → Except Cause (List String)
  | [] => .ok here
  | s :: rest =>
    match root.get? here with
    | some (.directory entries) =>
      if s = [] ∨ s = ['.'] then follow root links here rest
      else if s = ['.', '.'] then follow root links here.dropLast rest
      else
        match entries.lookup (String.ofList s) with
        | none => .error .missing
        | some (.link target) =>
          match links with
          | 0 => .error .tooManyLinks
          | n + 1 =>
            let target : Path := ⟨target⟩
            follow root n (if target.isAbsolute then [] else here) (target.segments ++ rest)
        | some _ => follow root links (here ++ [String.ofList s]) rest
    | some _ => .error .notDirectory
    | none => .error .missing
termination_by segments => (links, segments.length)

/-- The place that a path leads to from the working directory `cwd`. -/
def locate (fs : FileSystem) (cwd : List String) (p : Path) : Except Cause (List String) :=
  if p.text.isEmpty then .error .missing
  else follow fs.root linkLimit (if p.isAbsolute then [] else cwd) p.segments

def get? (fs : FileSystem) (cwd : List String) (p : Path) : Option (Tree Content) :=
  match fs.locate cwd p with
  | .ok place => fs.root.get? place
  | .error _ => none

def kind? (fs : FileSystem) (cwd : List String) (p : Path) : Option Kind :=
  (fs.get? cwd p).map fun
    | .file _ => .file
    | .directory _ => .directory
    | .link _ => .special

def read (fs : FileSystem) (cwd : List String) (p : Path) : Except Cause Text :=
  match fs.locate cwd p with
  | .error cause => .error cause
  | .ok place =>
    match fs.root.get? place with
    | some (.file (.text t)) => .ok t
    | some (.file (.bytes _)) => .error .notText
    | some (.directory _) => .error .isDirectory
    | _ => .error .missing

def write (fs : FileSystem) (cwd : List String) (p : Path) (t : Text) :
    Except Cause FileSystem :=
  match fs.locate cwd p with
  | .error cause => .error cause
  | .ok place =>
    match fs.root.get? place with
    | some (.file _) => .ok ⟨fs.root.put place (.file (.text t))⟩
    | some (.directory _) => .error .isDirectory
    | _ => .error .missing

def tree (fs : FileSystem) (cwd : List String) (p : Path) :
    Except (Path × Cause) (Tree Unit) :=
  match fs.get? cwd p with
  | some t => .ok t.outline
  | none => .error (p, .missing)

/-- The file system as a disk, seen from the working directory `cwd`. -/
def disk (cwd : List String) : Disk (StateM FileSystem) where
  kind? p := return (← get).kind? cwd p
  tree p := return (← get).tree cwd p
  read p := return (← get).read cwd p
  write p t := do
    match (← get).write cwd p t with
    | .ok fs => set fs; return .ok ()
    | .error cause => return .error cause

def pathOf (place : List String) : Path :=
  ⟨"/" ++ "/".intercalate place⟩

def filesBelow (fs : FileSystem) (p : Path) : List (List String × Content) :=
  ((fs.get? [] p).map Tree.leaves).getD []

/-- The files below a path that are new, changed or gone, with what they hold now. -/
def changes (before after : FileSystem) (p : Path) : List (List String × Option Content) :=
  let old := before.filesBelow p
  let new := after.filesBelow p
  ((new.filter fun (names, content) => old.lookup names ≠ some content).map
      fun (names, content) => (names, some content)) ++
    (old.filter fun (names, _) => (new.lookup names).isNone).map fun (names, _) => (names, none)

/-! ## Setting up

A place is made by its path from the root. What is on the way to it is made too. -/

def names (p : Path) : List String :=
  (p.segments.filter fun s => s ≠ [] ∧ s ≠ ['.']).map String.ofList

/-- The place of a path: as far as it exists with links followed, then by name. -/
def placeOf (fs : FileSystem) (p : Path) : List String :=
  let known := p.ancestors.findSome? fun q =>
    (fs.locate [] q).toOption.map fun place => place ++ (names p).drop (names q).length
  known.getD (names p)

def makeDirectory (fs : FileSystem) (p : Path) : FileSystem :=
  ⟨Tree.makeDirectories (fs.placeOf p) fs.root⟩

def makeFile (fs : FileSystem) (p : Path) (content : Content) : FileSystem :=
  let place := fs.placeOf p
  ⟨(Tree.makeDirectories place.dropLast fs.root).put place (.file content)⟩

def makeLink (fs : FileSystem) (p : Path) (target : String) : FileSystem :=
  let place := fs.placeOf p
  ⟨(Tree.makeDirectories place.dropLast fs.root).put place (.link target)⟩

def remove (fs : FileSystem) (p : Path) : FileSystem :=
  match p.parent?, p.fileName? with
  | some q, some name => ⟨fs.root.remove (fs.placeOf q ++ [String.ofList name])⟩
  | _, _ => fs

end FileSystem

end ShortNames
