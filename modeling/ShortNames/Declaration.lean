import ShortNames.Text.Identifier

/-!
# Declarations

A header line of a source file declares the package or imports something. `Declaration.ofLine?`
reads one line; it gives `none` exactly for the lines that are no header lines.
-/

namespace ShortNames

inductive Declaration
  /-- The package of the file; an empty name declares nothing. -/
  | package (name : Text)
  | single (name path : Text)
  | onDemand (package : Text)
  /-- An import that binds no type name: the members of a type, or the types of no package. -/
  | unbound
  /-- An import whose last segment is no identifier. -/
  | malformed (path : Text)
  deriving DecidableEq, Repr

namespace Declaration

def packageKeyword : Text := ['p', 'a', 'c', 'k', 'a', 'g', 'e']

def importKeyword : Text := ['i', 'm', 'p', 'o', 'r', 't']

def staticKeyword : Text := ['s', 't', 'a', 't', 'i', 'c']

/-- What a statement says: no line comment, no closing semicolon, no blanks around it. -/
def statement (t : Text) : Text :=
  let t := (Text.before ['/', '/'] t).trim
  ((Text.withoutEnd? [';'] t).getD t).trim

def ofPath (isStatic : Bool) (path : Text) : Declaration :=
  match Text.withoutEnd? ['.', '*'] path with
  | some base => if isStatic || base.isEmpty then unbound else onDemand base
  | none =>
    let name := path.lastSegment
    if name.isEmpty || !name.all Text.isIdentifier then malformed path else single name path

def ofImport (rest : Text) : Declaration :=
  match Text.afterKeyword? staticKeyword rest with
  | some rest => ofPath true (statement rest)
  | none => ofPath false (statement rest)

def ofLine? (line : Text) : Option Declaration :=
  match Text.afterKeyword? packageKeyword line.trim with
  | some rest => some (package (statement rest))
  | none => (Text.afterKeyword? importKeyword line.trim).map ofImport

def isLine (line : Text) : Bool :=
  (ofLine? line).isSome

end Declaration

end ShortNames
