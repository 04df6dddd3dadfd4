import ShortNames.Declaration
import ShortNames.NameTable

/-!
# The header of a file

The header is what the declaration lines of a file say together, wherever they stand: the first
package counts, and of two imports of one simple name the last.
-/

namespace ShortNames

structure Header where
  names : NameTable
  packageAt : Option Nat
  /-- The last line that imports anything. -/
  lastImportAt : Option Nat
  deriving DecidableEq, Repr

namespace Header

def empty : Header := ⟨.empty, none, none⟩

def declare (h : Header) (i : Nat) : Declaration → Header
  | .package name =>
    if name.isEmpty || h.packageAt.isSome then h
    else { h with names := h.names.declarePackage name, packageAt := some i }
  | .single name path =>
    { h with names := h.names.addImport name path, lastImportAt := some i }
  | .onDemand package =>
    { h with names := h.names.addOnDemand package, lastImportAt := some i }
  | .unbound | .malformed _ => { h with lastImportAt := some i }

/-- The declarations among the lines, each with its line number. -/
def declarations (lines : List Text) : List (Nat × Declaration) :=
  lines.zipIdx.filterMap fun (line, i) => (Declaration.ofLine? line).map fun d => (i, d)

def ofLines (lines : List Text) : Header :=
  (declarations lines).foldl (fun h (i, d) => h.declare i d) empty

/-- Where new imports go: after the last import, else after the package, else at the top. -/
def insertAt (h : Header) : Nat :=
  match h.lastImportAt.or h.packageAt with
  | some i => i + 1
  | none => 0

inductive Remark
  | packageFound (line : Nat) (name : Text)
  | malformedImport (path : Text)
  deriving DecidableEq, Repr

def remarks (lines : List Text) : List Remark :=
  let packageAt := (ofLines lines).packageAt
  (declarations lines).filterMap fun
    | (i, .package name) =>
      if packageAt = some i then some (.packageFound i name) else none
    | (_, .malformed path) => some (.malformedImport path)
    | _ => none

end Header

end ShortNames
