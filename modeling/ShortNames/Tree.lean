/-!
# Trees

What a disk holds below one place: files, links and directories. `Tree.leaves` lists the files in
depth first order with the entries of each directory in ascending order of their names, without
following a link.
-/

namespace ShortNames

inductive Tree (α : Type) where
  | file (content : α)
  | link (target : String)
  | directory (entries : List (String × Tree α))

namespace Tree

variable {α : Type}

mutual

def leaves : Tree α → List (List String × α)
  | .file content => [([], content)]
  | .link _ => []
  | .directory entries =>
    ((branches entries).mergeSort (fun a b => a.1 ≤ b.1)).flatMap (·.2)

def branches : List (String × Tree α) → List (String × List (List String × α))
  | [] => []
  | (name, t) :: rest =>
    (name, (leaves t).map fun (names, content) => (name :: names, content)) :: branches rest

end

def isDirectory : Tree α → Bool
  | .directory _ => true
  | _ => false

def entry? (name : String) : Tree α → Option (Tree α)
  | .directory entries => entries.lookup name
  | _ => none

def get? (t : Tree α) : List String → Option (Tree α)
  | [] => some t
  | name :: rest => (t.entry? name).bind fun u => u.get? rest

/-- Change, make or remove the entry of one name. -/
def alterEntry (name : String) (f : Option (Tree α) → Option (Tree α)) :
    List (String × Tree α) → List (String × Tree α)
  | [] => (f none).toList.map fun t => (name, t)
  | (n, t) :: rest =>
    if n = name then (f (some t)).toList.map (fun u => (n, u)) ++ rest
    else (n, t) :: alterEntry name f rest

/-- Change, make or remove what stands at a place. Nothing happens where a directory on the way to
it is missing. -/
def alter (f : Option (Tree α) → Option (Tree α)) : List String → Option (Tree α) → Option (Tree α)
  | [], t => f t
  | name :: rest, some (.directory entries) =>
    some (.directory (alterEntry name (alter f rest) entries))
  | _ :: _, t => t

def empty : Tree α := .directory []

def put (t : Tree α) (place : List String) (new : Tree α) : Tree α :=
  (alter (fun _ => some new) place (some t)).getD t

def remove (t : Tree α) (place : List String) : Tree α :=
  (alter (fun _ => none) place (some t)).getD t

/-- Make sure that there is a directory at a place and on the way to it. -/
def makeDirectories : List String → Tree α → Tree α
  | [], t => t
  | name :: rest, .directory entries =>
    .directory (alterEntry name (fun u => some (makeDirectories rest (u.getD empty))) entries)
  | _ :: _, t => t

mutual

def outline : Tree α → Tree Unit
  | .file _ => .file ()
  | .link target => .link target
  | .directory entries => .directory (outlineEntries entries)

def outlineEntries : List (String × Tree α) → List (String × Tree Unit)
  | [] => []
  | (name, t) :: rest => (name, outline t) :: outlineEntries rest

end

def files (t : Tree α) : List (List String) :=
  t.leaves.map (·.1)

end Tree

end ShortNames
