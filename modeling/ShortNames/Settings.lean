import ShortNames.Failure
import ShortNames.Settings.Environment
import ShortNames.Text.Quoted
import ShortNames.Toml.Document
import ShortNames.Verdict

/-!
# Settings

Settings come from three layers: what is standard, the settings file of the project, and variables
of the environment, each over the one before. They are judged once the layers are merged, so what a
higher layer replaces does no harm.
-/

namespace ShortNames

inductive LogFormat
  | pretty
  | json
  deriving DecidableEq, Repr

structure Logging where
  level : String
  format : LogFormat
  deriving DecidableEq, Repr

structure Settings where
  sourceRoots : List Path
  extension : String
  builtinPackages : List String
  exemptNames : List String
  logging : Logging
  deriving DecidableEq, Repr

inductive Layer
  | file (path : Path)
  | environment
  deriving DecidableEq, Repr

inductive Expected
  | list
  | path
  | string
  | logging
  | format
  | variant
  | nothing
  deriving DecidableEq, Repr

inductive Fault
  | wrongType (found : Value) (expected : Expected)
  | unknownFormat (name : String)
  deriving Repr

structure SettingsFault where
  place : List Value.Step
  fault : Fault
  deriving Repr

inductive SettingsError
  /-- The settings file cannot be read, or is not written in the language of such files. -/
  | unreadable
  | faulty (layer : Layer) (fault : SettingsFault)
  deriving Repr

namespace Expected

def text : Expected → String
  | list => "a sequence"
  | path => "path string"
  | string => "a string"
  | logging => "struct LoggingConfig"
  | format => "enum LogFormat"
  | variant => "enum"
  | nothing => "unit"

end Expected

namespace Value

def description : Value → String
  | bool b => if b then "bool true" else "bool false"
  | integer i => "signed int \x60" ++ toString i ++ "\x60"
  | natural n => "unsigned int \x60" ++ toString n ++ "\x60"
  | float x => "float \x60" ++ x.text ++ "\x60"
  | string s => "string " ++ String.ofList (Text.quote s.toList)
  | list _ => "sequence"
  | table _ => "map"

end Value

namespace Fault

def detail : Fault → String
  | wrongType found expected =>
    "invalid type: found " ++ found.description ++ ", expected " ++ expected.text
  | unknownFormat name =>
    "unknown variant: found \x60" ++ name ++ "\x60, expected \x60\x60pretty\x60 or \x60json\x60\x60"

end Fault

namespace SettingsFault

def key (f : SettingsFault) : String :=
  ".".intercalate (f.place.map Value.Step.text)

end SettingsFault

namespace Layer

def keyText (key : String) : Layer → String
  | file _ => "default." ++ key
  | environment => key.map Char.toUpper

def text : Layer → String
  | file path => path.text ++ " TOML file"
  | environment => "\x60DEQUALIFY_\x60 environment variable(s)"

end Layer

namespace SettingsError

def message : SettingsError → String
  | unreadable => "unreadable settings"
  | faulty layer f =>
    "Figment error: " ++ f.fault.detail ++ " for key \"" ++ layer.keyText f.key ++ "\" in " ++
      layer.text

end SettingsError

/-! ## Judging merged values -/

abbrev Judged (α : Type) := Except SettingsFault α

namespace Settings

def wrongType {α : Type} (place : List Value.Step) (found : Value) (expected : Expected) :
    Judged α :=
  .error ⟨place, .wrongType found expected⟩

def asString (expected : Expected) (place : List Value.Step) : Value → Judged String
  | .string s => .ok s
  | v => wrongType place v expected

/-- A list of strings; the first bad item is the fault. -/
def asStrings (expected : Expected) (place : List Value.Step) : Value → Judged (List String)
  | .list items =>
    items.zipIdx.mapM fun (v, i) => asString expected (place ++ [.item i]) v
  | v => wrongType place v .list

def formatOf? (name : String) : Option LogFormat :=
  if name = "pretty" then some .pretty
  else if name = "json" then some .json
  else none

/-- The field of a table whose key comes first. -/
def firstField? (fields : List (String × Value)) : Option (String × Value) :=
  fields.foldl
    (fun best (k, v) =>
      match best with
      | some (l, w) => if k < l then some (k, v) else some (l, w)
      | none => some (k, v))
    none

/-- A format is named by a string. A table names one by its first key, but then must hold nothing,
which no value does. -/
def asFormat (place : List Value.Step) (v : Value) : Judged LogFormat :=
  match v with
  | .string s =>
    match formatOf? s with
    | some f => .ok f
    | none => .error ⟨place, .unknownFormat s⟩
  | .table fields =>
    match firstField? fields with
    | none => wrongType place v .variant
    | some (key, inner) =>
      match formatOf? key with
      | some _ => wrongType (place ++ [.field key]) inner .nothing
      | none => .error ⟨place, .unknownFormat key⟩
  | v => wrongType place v .format

def orElse {α : Type} (standard : α) (judge : List Value.Step → Value → Judged α)
    (place : List Value.Step) : Option Value → Judged α
  | some v => judge place v
  | none => .ok standard

def standardLogging : Logging := ⟨"info", .pretty⟩

/-- Logging is a table, or a list of the level and the format. -/
def asLogging (place : List Value.Step) (v : Value) : Judged Logging :=
  match v with
  | .table _ => do
    let format ← orElse standardLogging.format asFormat (place ++ [.field "format"])
      (v.field? "format")
    let level ← orElse standardLogging.level (asString .string) (place ++ [.field "level"])
      (v.field? "level")
    return ⟨level, format⟩
  | .list items => do
    let level ← orElse standardLogging.level (asString .string) (place ++ [.item 0]) items[0]?
    let format ← orElse standardLogging.format asFormat (place ++ [.item 1]) items[1]?
    return ⟨level, format⟩
  | v => wrongType place v .logging

def standard : Settings where
  sourceRoots := [⟨"backend/src/main/java"⟩, ⟨"backend/src/test/java"⟩]
  extension := "java"
  builtinPackages := ["java.lang"]
  exemptNames := []
  logging := standardLogging

/-- The settings that a merged table gives, with what is standard for a key that it lacks. Keys are
judged in ascending order and other keys mean nothing. -/
def ofValue (v : Value) : Judged Settings := do
  let get {α : Type} (key : String) (standard : α) (judge : List Value.Step → Value → Judged α) :
      Judged α :=
    orElse standard judge [.field key] (v.field? key)
  let builtinPackages ← get "builtin_packages" standard.builtinPackages (asStrings .string)
  let exemptNames ← get "exempt_names" standard.exemptNames (asStrings .string)
  let extension ← get "extension" standard.extension (asString .string)
  let logging ← get "logging" standard.logging asLogging
  let sourceRoots ← get "source_roots" (standard.sourceRoots.map Path.text) (asStrings .path)
  return ⟨sourceRoots.map Path.mk, extension, builtinPackages, exemptNames, logging⟩

def isStandard (s : Settings) : Bool :=
  s.sourceRoots.length == standard.sourceRoots.length &&
    (s.sourceRoots.zip standard.sourceRoots).all (fun (p, q) => p.sameAs q) &&
    { s with sourceRoots := standard.sourceRoots } == standard

/-! ## Layers -/

def merged (layers : List (Layer × Value)) : Value :=
  layers.foldl (fun v (_, w) => v.merge w) (.table [])

/-- The highest layer that says anything at a place. -/
def layerOf? (layers : List (Layer × Value)) (place : List Value.Step) : Option Layer :=
  (layers.reverse.find? fun (_, v) => (v.get? place).isSome).map (·.1)

def ofLayers (layers : List (Layer × Value)) : Except SettingsError Settings :=
  match ofValue (merged layers) with
  | .ok s => .ok s
  | .error f => .error (.faulty ((layerOf? layers f.place).getD .environment) f)

/-- Load settings. The settings file is given by its path and what reading it gave. -/
def load (file : Option (Path × Except Cause Text)) (env : Environment) :
    Except SettingsError Settings :=
  let top := [(Layer.environment, env.table)]
  match file with
  | none => ofLayers top
  | some (_, .error _) => .error .unreadable
  | some (path, .ok text) =>
    match Toml.read? text with
    | some v => ofLayers ((.file path, v) :: top)
    | none => .error .unreadable

/-! ## What settings are for -/

def filePath (root : Path) : Path :=
  (root.join ⟨".mill"⟩).join ⟨"dequalify.toml"⟩

def sourceTrees (s : Settings) (root : Path) : List Path :=
  s.sourceRoots.map root.join

def options (s : Settings) : Options :=
  ⟨s.builtinPackages.map String.toList, s.exemptNames.map String.toList⟩

end Settings

end ShortNames
