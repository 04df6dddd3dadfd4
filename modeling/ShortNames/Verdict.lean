import ShortNames.NameTable
import ShortNames.QualifiedName

/-!
# Verdicts

What happens to one qualified name, given the names that the file holds so far. The first name that
claims a simple name keeps it: a verdict is never taken back, so `NameTable.claim` only adds.
-/

namespace ShortNames

structure Options where
  builtinPackages : List Text
  /-- Simple names that are always shortened and never imported. -/
  exemptNames : List Text
  deriving DecidableEq, Repr

namespace Options

/-- Only `java.lang` is in scope everywhere, and no name is exempt. -/
def standard : Options := ⟨[['j', 'a', 'v', 'a', '.', 'l', 'a', 'n', 'g']], []⟩

end Options

inductive Verdict
  | exempt
  | builtIn
  | samePackage
  /-- The only package imported on demand holds the type. -/
  | covered
  | alreadyImported
  | alreadyStaged
  /-- The type gets an import of its own. -/
  | staged
  /-- An import of the file binds the simple name to another type. -/
  | shadowConflict (existing : Text)
  /-- Another type has claimed the simple name before. -/
  | pendingConflict (claimant : Text)
  /-- The simple name stands bare in a file that imports on demand, and may be bound there. -/
  | bareConflict
  deriving DecidableEq, Repr

namespace Verdict

def shortens : Verdict → Bool
  | shadowConflict _ | pendingConflict _ | bareConflict => false
  | _ => true

def addsImport : Verdict → Bool
  | staged => true
  | _ => false

end Verdict

namespace NameTable

def verdictImported (q : QualifiedName) (existing : Text) : Verdict :=
  if existing = q.text then .alreadyImported else .shadowConflict existing

def verdictClaimed (t : NameTable) (q : QualifiedName) (claimant : Text) : Verdict :=
  if claimant ≠ q.text then .pendingConflict claimant
  else if (t.staged? q.name).isSome then .alreadyStaged
  else .covered

def verdictFree (t : NameTable) (q : QualifiedName) : Verdict :=
  if t.soleOnDemand? = some q.package then .covered
  else if !t.onDemand.isEmpty && t.isBare q.name then .bareConflict
  else .staged

def verdict (o : Options) (t : NameTable) (q : QualifiedName) : Verdict :=
  if o.exemptNames.contains q.name then .exempt
  else if o.builtinPackages.contains q.package then .builtIn
  else if t.package = some q.package then .samePackage
  else
    match t.imported? q.name with
    | some existing => verdictImported q existing
    | none =>
      match t.claimed? q.name with
      | some claimant => t.verdictClaimed q claimant
      | none => t.verdictFree q

/-- The names after a verdict: it may have claimed the simple name. -/
def claim (t : NameTable) (q : QualifiedName) : Verdict → NameTable
  | .staged => (t.stage? q.name q.text).getD t
  | .covered => (t.cover? q.name q.text).getD t
  | _ => t

end NameTable

end ShortNames
