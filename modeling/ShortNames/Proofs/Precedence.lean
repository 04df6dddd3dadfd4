import ShortNames.Proofs.Documents
import ShortNames.Proofs.Forms
import ShortNames.Proofs.Variables

/-!
# Precedence of the layers

Of each setting the variables give the value if they give one, else the file, else it is standard.
Settings are refused exactly if a value chosen so has not the form of its setting, and what the
layers hold under other keys never shows.
-/

namespace ShortNames

open Value (Step Tidy Apart overlay? string? strings? format?)

/-- The settings one by one. -/
inductive Setting
  | sourceRoots
  | extension
  | builtinPackages
  | exemptNames
  | level
  | format
  deriving DecidableEq

namespace Setting

def key : Setting → List String
  | sourceRoots => ["source_roots"]
  | extension => ["extension"]
  | builtinPackages => ["builtin_packages"]
  | exemptNames => ["exempt_names"]
  | level => ["logging", "level"]
  | format => ["logging", "format"]

def place (k : Setting) : List Step :=
  k.key.map .field

/-- Whether a value has the form of the setting. -/
def Admits (k : Setting) (v : Value) : Prop :=
  match k with
  | sourceRoots | builtinPackages | exemptNames => (strings? v).isSome = true
  | extension | level => (string? v).isSome = true
  | format => (format? v).isSome = true

end Setting

namespace Settings

/-- The settings are the values that the layers give, each as it is given. -/
structure Follows (value? : Setting → Option Value) (s : Settings) : Prop where
  sourceRoots : given? strings? (standard.sourceRoots.map Path.text) (value? .sourceRoots) =
    some (s.sourceRoots.map Path.text)
  extension : given? string? standard.extension (value? .extension) = some s.extension
  builtinPackages : given? strings? standard.builtinPackages (value? .builtinPackages) =
    some s.builtinPackages
  exemptNames : given? strings? standard.exemptNames (value? .exemptNames) = some s.exemptNames
  level : given? string? standard.logging.level (value? .level) = some s.logging.level
  format : given? format? standard.logging.format (value? .format) = some s.logging.format

instance (value? : Setting → Option Value) (s : Settings) : Decidable (Follows value? s) :=
  decidable_of_iff
    (given? strings? (standard.sourceRoots.map Path.text) (value? .sourceRoots) =
        some (s.sourceRoots.map Path.text) ∧
      given? string? standard.extension (value? .extension) = some s.extension ∧
      given? strings? standard.builtinPackages (value? .builtinPackages) =
        some s.builtinPackages ∧
      given? strings? standard.exemptNames (value? .exemptNames) = some s.exemptNames ∧
      given? string? standard.logging.level (value? .level) = some s.logging.level ∧
      given? format? standard.logging.format (value? .format) = some s.logging.format)
    ⟨fun ⟨hRoots, hExtension, hBuiltin, hExempt, hLevel, hFormat⟩ =>
      ⟨hRoots, hExtension, hBuiltin, hExempt, hLevel, hFormat⟩,
      fun h => ⟨h.sourceRoots, h.extension, h.builtinPackages, h.exemptNames, h.level, h.format⟩⟩

theorem isSome_given? {α : Type} {read? : Value → Option α} {standard : α} {v? : Option Value} :
    (given? read? standard v?).isSome = true ↔ ∀ v, v? = some v → (read? v).isSome = true := by
  cases v? <;> simp [given?]

theorem exists_follows_iff {value? : Setting → Option Value} :
    (∃ s, Follows value? s) ↔ ∀ k v, value? k = some v → k.Admits v := by
  constructor
  · rintro ⟨s, h⟩ k
    have hGiven {α : Type} {read? : Value → Option α} {standard a : α}
        (hk : given? read? standard (value? k) = some a) :
        ∀ v, value? k = some v → (read? v).isSome = true :=
      isSome_given?.mp (Option.isSome_of_mem hk)
    cases k with
    | sourceRoots => exact hGiven h.sourceRoots
    | extension => exact hGiven h.extension
    | builtinPackages => exact hGiven h.builtinPackages
    | exemptNames => exact hGiven h.exemptNames
    | level => exact hGiven h.level
    | format => exact hGiven h.format
  · intro h
    have hGiven {α : Type} {read? : Value → Option α} (standard : α) (k : Setting)
        (hk : ∀ v, value? k = some v → (read? v).isSome = true) :
        ∃ a, given? read? standard (value? k) = some a :=
      Option.isSome_iff_exists.mp (isSome_given?.mpr hk)
    obtain ⟨roots, hRoots⟩ :=
      hGiven (standard.sourceRoots.map Path.text) .sourceRoots (h .sourceRoots)
    obtain ⟨extension, hExtension⟩ := hGiven standard.extension .extension (h .extension)
    obtain ⟨builtin, hBuiltin⟩ :=
      hGiven standard.builtinPackages .builtinPackages (h .builtinPackages)
    obtain ⟨exempt, hExempt⟩ := hGiven standard.exemptNames .exemptNames (h .exemptNames)
    obtain ⟨level, hLevel⟩ := hGiven standard.logging.level .level (h .level)
    obtain ⟨format, hFormat⟩ := hGiven standard.logging.format .format (h .format)
    refine ⟨⟨roots.map Path.mk, extension, builtin, exempt, ⟨level, format⟩⟩, ?_, hExtension,
      hBuiltin, hExempt, hLevel, hFormat⟩
    rw [hRoots, List.map_map]
    simp [Function.comp_def]

/-! ## Judging key by key -/

/-- The settings judged from the values at their keys, in the order of the keys. -/
def judge (value? : Setting → Option Value) : Judged Settings := do
  let builtinPackages ← orElse standard.builtinPackages (asStrings .string)
    (Setting.place .builtinPackages) (value? .builtinPackages)
  let exemptNames ← orElse standard.exemptNames (asStrings .string)
    (Setting.place .exemptNames) (value? .exemptNames)
  let extension ← orElse standard.extension (asString .string)
    (Setting.place .extension) (value? .extension)
  let format ← orElse standard.logging.format asFormat (Setting.place .format) (value? .format)
  let level ← orElse standard.logging.level (asString .string)
    (Setting.place .level) (value? .level)
  let sourceRoots ← orElse (standard.sourceRoots.map Path.text) (asStrings .path)
    (Setting.place .sourceRoots) (value? .sourceRoots)
  return ⟨sourceRoots.map Path.mk, extension, builtinPackages, exemptNames, ⟨level, format⟩⟩

theorem orElse_logging {v : Value} (hLogging : ∀ w, v.field? "logging" = some w → w.IsTable) :
    orElse standard.logging asLogging [.field "logging"] (v.field? "logging") = do
      let format ← orElse standard.logging.format asFormat (Setting.place .format)
        (v.at? (Setting.key .format))
      let level ← orElse standard.logging.level (asString .string) (Setting.place .level)
        (v.at? (Setting.key .level))
      return ⟨level, format⟩ := by
  rw [Setting.key, Setting.key, Value.at?_cons, Value.at?_cons]
  cases hField : v.field? "logging" with
  | none => rfl
  | some w =>
    obtain ⟨fields, rfl⟩ := hLogging w hField
    simp only [Option.bind_some, Value.at?_singleton]
    rfl

theorem ofValue_eq_judge {v : Value} (hLogging : ∀ w, v.field? "logging" = some w → w.IsTable) :
    ofValue v = judge fun k => v.at? k.key := by
  unfold ofValue judge
  simp only [orElse_logging hLogging, bind_assoc, pure_bind, Setting.key, Value.at?_singleton]
  rfl

theorem judge_overlay_eq_ok_iff {old? v? : Setting → Option Value} {s : Settings} :
    judge (fun k => overlay? (old? k) (v? k)) = .ok s ↔
      Follows (fun k => (v? k).or (old? k)) s := by
  simp only [judge, bind_eq_ok_iff, (judges_strings _).orElse_overlay,
    (judges_string _).orElse_overlay, judges_format.orElse_overlay]
  constructor
  · rintro ⟨builtin, hBuiltin, exempt, hExempt, extension, hExtension, format, hFormat, level,
      hLevel, roots, hRoots, h⟩
    cases h
    refine ⟨?_, hExtension, hBuiltin, hExempt, hLevel, hFormat⟩
    rw [hRoots, List.map_map]
    simp [Function.comp_def]
  · intro h
    refine ⟨_, h.builtinPackages, _, h.exemptNames, _, h.extension, _, h.format, _, h.level, _,
      h.sourceRoots, ?_⟩
    rw [List.map_map]
    simp [Function.comp_def, Pure.pure, Except.pure]

/-- A fault of the settings lies at the key of one of them, or within its value. -/
theorem place_of_judge {value? : Setting → Option Value} {f : SettingsFault}
    (h : judge value? = .error f) : ∃ k : Setting, k.place <+: f.place := by
  rw [judge] at h
  rcases bind_eq_error_iff.mp h with h | ⟨builtin, -, h⟩
  · exact ⟨_, (judges_strings _).orElse_blames h⟩
  rcases bind_eq_error_iff.mp h with h | ⟨exempt, -, h⟩
  · exact ⟨_, (judges_strings _).orElse_blames h⟩
  rcases bind_eq_error_iff.mp h with h | ⟨extension, -, h⟩
  · exact ⟨_, (judges_string _).orElse_blames h⟩
  rcases bind_eq_error_iff.mp h with h | ⟨format, -, h⟩
  · exact ⟨_, judges_format.orElse_blames h⟩
  rcases bind_eq_error_iff.mp h with h | ⟨level, -, h⟩
  · exact ⟨_, (judges_string _).orElse_blames h⟩
  rcases bind_eq_error_iff.mp h with h | ⟨roots, -, h⟩
  · exact ⟨_, (judges_strings _).orElse_blames h⟩
  · cases h

/-! ## The file under the variables -/

/-- What a file and variables have to be for each setting to be told by one key of each. -/
structure Layered (file : Value) (env : Environment) : Prop where
  apart : env.keys.Pairwise Apart
  fileLogging : ∀ w ∈ file.field? "logging", w.IsTable
  logging : ∀ w ∈ env.table.field? "logging", w.IsTable

instance (file : Value) (env : Environment) : Decidable (Layered file env) :=
  decidable_of_iff (env.keys.Pairwise Apart ∧ (∀ w ∈ file.field? "logging", w.IsTable) ∧
      ∀ w ∈ env.table.field? "logging", w.IsTable)
    ⟨fun ⟨hApart, hFile, hTop⟩ => ⟨hApart, hFile, hTop⟩,
      fun h => ⟨h.apart, h.fileLogging, h.logging⟩⟩

/-- The value that counts for a setting: that of the variables, else that of the file. -/
def chosen? (file : Value) (env : Environment) (k : Setting) : Option Value :=
  (env.table.at? k.key).or (file.at? k.key)

section Layers

variable {file : Value} {env : Environment} {path : Path}

theorem at?_merge_nil {fields : List (String × Value)} (hKeys : (fields.map (·.1)).Nodup)
    {key : List String} (hKey : key ≠ []) :
    ((Value.table []).merge (.table fields)).at? key = (Value.table fields).at? key := by
  obtain ⟨k, rest, rfl⟩ := List.exists_cons_of_ne_nil hKey
  rw [Value.at?_cons, Value.field?_merge ⟨[], rfl⟩ hKeys, Value.at?_cons]
  exact congrArg (Option.bind · _) (Value.overlay?_none_left _)

theorem Layered.ofValue_merged (h : Layered file env) (path : Path)
    {fields : List (String × Value)} (hFile : file = .table fields)
    (hKeys : (fields.map (·.1)).Nodup) :
    ofValue (merged [(.file path, file), (.environment, env.table)]) =
      judge fun k => overlay? (file.at? k.key) (env.table.at? k.key) := by
  have hMerged : merged [(.file path, file), (.environment, env.table)] =
      ((Value.table []).merge file).merge env.table := rfl
  obtain ⟨top, hTop⟩ := env.isTable_table
  have hTidy := env.tidy_table
  have hLogging := h.logging
  rw [hTop] at hTidy hLogging
  rw [hMerged, hTop, hFile]
  have hBase : ((Value.table []).merge (.table fields)).IsTable := .merge ⟨fields, rfl⟩ _
  have hOld : ∀ w, ((Value.table []).merge (.table fields)).field? "logging" = some w →
      w.IsTable := by
    rw [← Value.at?_singleton, at?_merge_nil hKeys (List.cons_ne_nil _ _), Value.at?_singleton,
      ← hFile]
    exact h.fileLogging
  rw [ofValue_eq_judge fun w =>
    Value.isTable_of_field?_merge hBase hOld hLogging hTidy.keys]
  congr 1
  funext k
  have hKey : k.key ≠ [] := by cases k <;> exact List.cons_ne_nil _ _
  rw [← at?_merge_nil hKeys hKey]
  cases k with
  | level | format => exact Value.at?_merge_pair hBase hOld hLogging hTidy _
  | _ =>
    simpa [Setting.key] using Value.field?_merge hBase hTidy.keys _

theorem load_of_read? {text : Text} (hRead : Toml.read? text = some file) :
    load (some (path, .ok text)) env =
      ofLayers [(.file path, file), (.environment, env.table)] := by
  simp only [load, hRead]

@[simp] theorem ofLayers_eq_ok_iff {layers : List (Layer × Value)} {s : Settings} :
    ofLayers layers = .ok s ↔ ofValue (merged layers) = .ok s := by
  rw [ofLayers]
  cases ofValue (merged layers) <;> simp

theorem isSome_get?_congr {v v' : Value} {k : Setting} {place : List Step}
    (hAt : v'.at? k.key = v.at? k.key) (hPlace : k.place <+: place) :
    (v'.get? place).isSome = (v.get? place).isSome := by
  obtain ⟨rest, rfl⟩ := hPlace
  simp only [Value.get?_append]
  exact congrArg (fun w => (w.bind fun u => u.get? rest).isSome) hAt

theorem layerOf?_congr {k : Setting} {place : List Step} (hPlace : k.place <+: place)
    {file file' v v' : Value} (hFile : file'.at? k.key = file.at? k.key)
    (hAt : v'.at? k.key = v.at? k.key) :
    layerOf? [(.file path, file'), (.environment, v')] place =
      layerOf? [(.file path, file), (.environment, v)] place := by
  have hBottom := isSome_get?_congr hFile hPlace
  have hTop := isSome_get?_congr hAt hPlace
  have hReverse (w u : Value) : [(Layer.file path, w), (.environment, u)].reverse =
      [(.environment, u), (.file path, w)] := rfl
  simp only [layerOf?, hReverse, List.find?_cons, List.find?_nil, hBottom, hTop]
  cases (v.get? place).isSome
  · cases (file.get? place).isSome <;> rfl
  · rfl

end Layers

/-- For each setting the value of the variables counts, else that of the file, else what is
standard; settings are refused exactly if a value that counts has not the form of its setting; and
a file and variables that say the same of the settings give the same result, whatever else they
hold. What the variables say is what each of them gives its own key. -/
theorem load_by_precedence {path : Path} {text : Text} {file : Value} {env : Environment}
    (hRead : Toml.read? text = some file) (hLayered : Layered file env) :
    env.Speaks env.table ∧
      (∀ s, load (some (path, .ok text)) env = .ok s ↔ Follows (chosen? file env) s) ∧
      ((∃ e, load (some (path, .ok text)) env = .error e) ↔
        ∃ k v, chosen? file env k = some v ∧ ¬ k.Admits v) ∧
      ∀ text' file' env', Toml.read? text' = some file' → Layered file' env' →
        (∀ k : Setting, file'.at? k.key = file.at? k.key) →
        (∀ k : Setting, env'.table.at? k.key = env.table.at? k.key) →
        load (some (path, .ok text')) env' = load (some (path, .ok text)) env := by
  obtain ⟨fields, hFile, hKeys⟩ := Toml.exists_of_read? hRead
  have hJudged := hLayered.ofValue_merged path hFile hKeys
  have hLoad (s : Settings) :
      load (some (path, .ok text)) env = .ok s ↔ Follows (chosen? file env) s := by
    rw [load_of_read? hRead, ofLayers_eq_ok_iff, hJudged, judge_overlay_eq_ok_iff]
    rfl
  refine ⟨Environment.speaks_table hLayered.apart, hLoad, ?_, ?_⟩
  · have hTaken : (∃ s, load (some (path, .ok text)) env = .ok s) ↔
        ∀ k v, chosen? file env k = some v → k.Admits v :=
      (exists_congr hLoad).trans exists_follows_iff
    rw [exists_error_iff, hTaken]
    simp only [not_forall, exists_prop]
  · intro text' file' env' hRead' hLayered' hFileSame hSame
    obtain ⟨fields', hFile', hKeys'⟩ := Toml.exists_of_read? hRead'
    have hJudged' := hLayered'.ofValue_merged path hFile' hKeys'
    simp only [hFileSame, hSame, ← hJudged] at hJudged'
    rw [load_of_read? hRead, load_of_read? hRead', ofLayers, ofLayers, hJudged']
    cases hFault : ofValue (merged [(.file path, file), (.environment, env.table)]) with
    | ok s => rfl
    | error f =>
      rw [hJudged] at hFault
      obtain ⟨k, hPlace⟩ := place_of_judge hFault
      dsimp only
      rw [layerOf?_congr hPlace (hFileSame k) (hSame k)]

/-- A number for the extension does no harm in the file, as a variable gives another, and a table
of logging takes its level from one layer and its format from the other. -/
theorem load_by_precedence_of_two_layers :
    let text := "extension = 3\n[logging]\nlevel = \"warn\"\nlines = 5".toList
    let env := [("DEQUALIFY_EXTENSION", "jav"), ("DEQUALIFY_LOGGING__FORMAT", "json")]
    load (some (⟨"dequalify.toml"⟩, .ok text)) env =
      .ok { standard with extension := "jav", logging := ⟨"warn", .json⟩ } := by
  intro text env
  have hAll : (Toml.read? text).any (fun file => decide (Layered file env ∧
      Follows (chosen? file env)
        { standard with extension := "jav", logging := ⟨"warn", .json⟩ })) = true := by
    decide +kernel
  obtain ⟨file, hRead, hFile⟩ := (Option.any_eq_true _ _).mp hAll
  obtain ⟨hLayered, hFollows⟩ := of_decide_eq_true hFile
  exact ((load_by_precedence hRead hLayered).2.1 _).mpr hFollows

/-! ## Standard settings -/

theorem isStandard_iff {s : Settings} : s.isStandard = true ↔
    List.Forall₂ (fun p q => p.sameAs q = true) s.sourceRoots standard.sourceRoots ∧
      { s with sourceRoots := standard.sourceRoots } = standard := by
  rw [isStandard, List.forall₂_iff_zip]
  simp only [Bool.and_eq_true, beq_iff_eq, List.all_eq_true, Prod.forall]

/-- Without a file and without a variable that sets anything, the settings are standard. -/
theorem load_of_silent {env : Environment} (hSilent : env.keys = []) :
    ∃ s, load none env = .ok s ∧ s.isStandard = true := by
  refine ⟨standard, ?_, by decide⟩
  rw [load, Environment.table_of_silent hSilent]
  rfl

end Settings

end ShortNames
