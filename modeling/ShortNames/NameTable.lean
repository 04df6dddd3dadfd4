import ShortNames.Text

/-!
# The names of a file

A file is one flat space of simple names. `NameTable` holds what the file declares itself, the
type names it uses without qualification, and the names that were claimed while it was read:
*staged* ones get an import of their own, *covered* ones are imported by the only import on demand.
-/

namespace ShortNames

/-- Simple names with the qualified name that each stands for, each simple name once. -/
abbrev Bindings := List (Text × Text)

namespace Bindings

def get? (b : Bindings) (name : Text) : Option Text :=
  List.lookup name b

/-- Bind `name`, in place of what it stood for. -/
def insert (b : Bindings) (name qualified : Text) : Bindings :=
  (name, qualified) :: b.filter (·.1 ≠ name)

@[simp] theorem get?_insert (b : Bindings) (name qualified x : Text) :
    (b.insert name qualified).get? x = if x = name then some qualified else b.get? x := by
  unfold insert get?
  by_cases h : x = name
  · simp [h]
  · have hx : (x == name) = false := by simpa using h
    simp only [List.lookup_cons, hx, h, if_false]
    induction b with
    | nil => rfl
    | cons p b ih => by_cases hp : p.1 = name <;> grind

end Bindings

structure NameTable where
  package : Option Text
  imports : Bindings
  onDemand : List Text
  staged : Bindings
  covered : Bindings
  bare : List Text
  deriving DecidableEq, Repr

namespace NameTable

def empty : NameTable := ⟨none, [], [], [], [], []⟩

def declarePackage (t : NameTable) (package : Text) : NameTable :=
  { t with package := t.package.or (some package) }

def addImport (t : NameTable) (name qualified : Text) : NameTable :=
  { t with imports := t.imports.insert name qualified }

def addOnDemand (t : NameTable) (package : Text) : NameTable :=
  { t with onDemand := t.onDemand.insert package }

def addBare (t : NameTable) (name : Text) : NameTable :=
  { t with bare := t.bare.insert name }

def imported? (t : NameTable) (name : Text) : Option Text :=
  t.imports.get? name

def staged? (t : NameTable) (name : Text) : Option Text :=
  t.staged.get? name

def claimed? (t : NameTable) (name : Text) : Option Text :=
  (t.staged.get? name).or (t.covered.get? name)

def hasOnDemand (t : NameTable) (package : Text) : Bool :=
  t.onDemand.contains package

/-- The package imported on demand, if it is the only one. With two of them a simple name may come
from either. -/
def soleOnDemand? (t : NameTable) : Option Text :=
  match t.onDemand with
  | [package] => some package
  | _ => none

def isBare (t : NameTable) (name : Text) : Bool :=
  t.bare.contains name

def isTaken (t : NameTable) (name : Text) : Bool :=
  (t.imported? name).isSome || (t.claimed? name).isSome

/-- Claim `name` with an import of its own; `none` if it is taken. -/
def stage? (t : NameTable) (name qualified : Text) : Option NameTable :=
  if t.isTaken name then none else some { t with staged := t.staged.insert name qualified }

/-- Claim `name` under the import on demand; `none` if it is taken. -/
def cover? (t : NameTable) (name qualified : Text) : Option NameTable :=
  if t.isTaken name then none else some { t with covered := t.covered.insert name qualified }

def newImports (t : NameTable) : List Text :=
  (t.staged.map (·.2)).mergeSort Text.precedes

end NameTable

end ShortNames
