import ShortNames.Path

/-!
# Failures

What can go wrong with one file or one source tree. A failure is told and counted; it never ends a
run.
-/

namespace ShortNames

inductive Cause
  | missing
  | notDirectory
  | isDirectory
  | tooManyLinks
  | notText
  | other (text : String)
  deriving DecidableEq, Repr

namespace Cause

def message : Cause → String
  | missing => "No such file or directory (os error 2)"
  | notDirectory => "Not a directory (os error 20)"
  | isDirectory => "Is a directory (os error 21)"
  | tooManyLinks => "Too many levels of symbolic links (os error 40)"
  | notText => "stream did not contain valid UTF-8"
  | other text => text

end Cause

inductive Failure
  | read (path : Path) (cause : Cause)
  | write (path : Path) (cause : Cause)
  | noTree (path : Path)
  /-- The tree at `path` could not be listed, because of what happened at `place`. -/
  | walk (path place : Path) (cause : Cause)
  deriving DecidableEq, Repr

namespace Failure

def path : Failure → Path
  | read p _ | write p _ | noTree p | walk p _ _ => p

def message : Failure → String
  | read p cause => "Failed to read " ++ p.text ++ ": " ++ cause.message
  | write p cause => "Failed to write " ++ p.text ++ ": " ++ cause.message
  | noTree p => "Source tree not found: " ++ p.text
  | walk p place cause =>
    "Failed to walk " ++ p.text ++ ": IO error for operation on " ++ place.text ++ ": " ++
      cause.message

end Failure

end ShortNames
