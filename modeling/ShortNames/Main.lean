import ShortNames.CommandLine

/-!
# The command on a real disk

Reads the arguments, the environment and the disk, and writes what the run of the command says.
-/

namespace ShortNames.Main

def causeOf : IO.Error → Cause
  | .noFileOrDirectory .. => .missing
  | .inappropriateType .. => .notDirectory
  | e => .other e.toString

def attempt {α : Type} (act : IO α) : IO (Except Cause α) := do
  try
    return .ok (← act)
  catch e =>
    return .error (causeOf e)

def kind? (p : Path) : IO (Option Kind) := do
  try
    let place ← IO.FS.realPath p.text
    match (← place.metadata).type with
    | .dir => return some .directory
    | .file => return some .file
    | _ => return some .special
  catch _ =>
    return none

/-- The outline of a directory. Links are not followed. -/
partial def outline (directory : Path) : IO (Tree Unit) := do
  let place ← IO.FS.realPath directory.text
  let entries ← (← place.readDir).toList.mapM fun entry => do
    let below := directory.join ⟨entry.fileName⟩
    let t ←
      match (← entry.path.symlinkMetadata).type with
      | .dir => outline below
      | .file => pure (.file ())
      | _ => pure (.link "")
    return (entry.fileName, t)
  return .directory entries

def readText (p : Path) : IO (Except Cause Text) := do
  if (← kind? p) = some .directory then return .error .isDirectory
  match ← attempt (IO.FS.readBinFile p.text) with
  | .error cause => return .error cause
  | .ok bytes =>
    match String.fromUTF8? bytes with
    | some s => return .ok s.toList
    | none => return .error .notText

def disk : Disk IO where
  kind? := kind?
  tree p := return (← attempt (outline p)).mapError fun cause => (p, cause)
  read := readText
  write p t := attempt (IO.FS.writeFile p.text (String.ofList t))

def binding? (block : String) : Option (String × String) :=
  match block.toList.dropWhile (· ≠ '=') with
  | _ :: value => some (String.ofList (block.toList.takeWhile (· ≠ '=')), String.ofList value)
  | [] => none

def environment : IO Environment := do
  match ← attempt (IO.FS.readBinFile "/proc/self/environ") with
  | .ok bytes =>
    let blocks := (String.fromUTF8? bytes).getD ""
    return ((blocks.splitOn "\x00").filterMap binding?)
  | .error _ => return []

end ShortNames.Main

open ShortNames in
def main (words : List String) : IO UInt32 := do
  let directory ← IO.currentDir
  let around : Surroundings := ⟨⟨directory.toString⟩, ← Main.environment⟩
  let exit ← CommandLine.run Main.disk around words
  IO.print exit.output
  for e in exit.log do
    IO.eprintln (e.line exit.format)
  for message in exit.diagnostic do
    IO.eprintln message
  return UInt32.ofNat exit.status
