import ShortNames.Proofs.Values
import ShortNames.Settings.Environment

/-!
# What variables say

Variables whose keys are apart from each other speak each for itself: a variable gives its key its
own value, whatever the others give, and a key that no variable touches is left open.
-/

namespace ShortNames.Environment

open Value (Tidy Apart)

/-! ## Values of variables -/

section Readers

variable {item : Toml.Reader Value}

theorem forall_of_items? {α : Type} {P : α → Prop} {item : Toml.Reader α}
    (hItem : ∀ t a rest, item t = some (a, rest) → P a) {close : Char} {t rest : Text}
    {as : List α} (h : items? item close t = some (as, rest)) : ∀ a ∈ as, P a := by
  fun_induction items? item close t generalizing as rest with
  | case1 t hClose =>
    cases h
    exact List.forall_mem_nil P
  | case4 t hClose a after hLength hRead ih =>
    obtain ⟨⟨others, last⟩, hOthers, hResult⟩ := Option.map_eq_some_iff.mp h
    cases hResult
    exact List.forall_mem_cons.mpr ⟨hItem _ _ _ hRead, ih hOthers⟩
  | case6 t hClose a after hComma hRead =>
    cases h
    exact List.forall_mem_singleton.mpr (hItem _ _ _ hRead)
  | _ => cases h

theorem tidy_of_pair? (hItem : ∀ t v rest, item t = some (v, rest) → Tidy v) {t rest : Text}
    {p : String × Value} (h : pair? item t = some (p, rest)) : Tidy p.2 := by
  obtain ⟨⟨key, after⟩, -, h⟩ := Option.bind_eq_some_iff.mp h
  dsimp only at h
  split at h
  · obtain ⟨⟨v, last⟩, hRead, h⟩ := Option.bind_eq_some_iff.mp h
    cases h
    exact hItem _ _ _ hRead
  · cases h

theorem tidy_foldl_setField {pairs : List (String × Value)} (hPairs : ∀ p ∈ pairs, Tidy p.2)
    {fields : List (String × Value)} (hFields : Tidy (.table fields)) :
    Tidy (.table (pairs.foldl (fun fields p => Value.setField p.1 p.2 fields) fields)) := by
  induction pairs generalizing fields with
  | nil => exact hFields
  | cons p pairs ih =>
    rw [List.forall_mem_cons] at hPairs
    exact ih hPairs.2 (hFields.setField hPairs.1 p.1)

theorem tidy_of_enclosed? (hItem : ∀ t v rest, item t = some (v, rest) → Tidy v) {t rest : Text}
    {v : Value} (h : enclosed? item t = some (v, rest)) : Tidy v := by
  unfold enclosed? at h
  split at h
  · obtain ⟨⟨pairs, after⟩, hPairs, h⟩ := Option.map_eq_some_iff.mp h
    cases h
    exact tidy_foldl_setField (forall_of_items? (fun _ _ _ => tidy_of_pair? hItem) hPairs) .nil
  · obtain ⟨⟨vs, after⟩, -, h⟩ := Option.map_eq_some_iff.mp h
    cases h
    exact .other (by simp [Value.IsTable])
  · obtain ⟨⟨s, after⟩, -, h⟩ := Option.map_eq_some_iff.mp h
    cases h
    exact .other (by simp [Value.IsTable])
  · cases h
    exact .other (by simp [Value.IsTable])
  · cases h

end Readers

theorem tidy_ofWord (w : Text) : Tidy (ofWord w) := by
  unfold ofWord
  split
  · exact .other (by simp [Value.IsTable])
  · split
    · exact .other (by simp [Value.IsTable])
    · split <;> exact .other (by simp [Value.IsTable])

theorem tidy_of_value? {depth : Nat} {t rest : Text} {v : Value}
    (h : value? depth t = some (v, rest)) : Tidy v := by
  induction depth generalizing t v rest with
  | zero => cases h
  | succ d ih =>
    rw [value?] at h
    split at h
    · cases h
      exact .other (by simp [Value.IsTable])
    · cases h
      exact .other (by simp [Value.IsTable])
    · split at h
      case h_5 =>
        cases h
        exact tidy_ofWord _
      all_goals
        obtain ⟨⟨w, after⟩, hRead, h⟩ := Option.map_eq_some_iff.mp h
        cases h
        exact tidy_of_enclosed? (fun _ _ _ => ih) hRead

theorem tidy_value (s : String) : Tidy (value s) := by
  unfold value
  split
  · rename_i v hRead
    exact tidy_of_value? hRead
  · exact .other (by simp [Value.IsTable])

/-! ## The table of all variables -/

/-- The keys that variables set. -/
def keys (env : Environment) : List (List String) :=
  env.filterMap fun e => settingKey? e.1

theorem parts_ne_nil (mark : Char) (t : Text) : Text.parts mark t ≠ [] := by
  cases t with
  | nil => exact List.cons_ne_nil _ _
  | cons c t =>
    rw [Text.parts]
    split
    · exact List.cons_ne_nil _ _
    · split <;> exact List.cons_ne_nil _ _

theorem settingKey?_ne_nil {name : String} {key : List String} (h : settingKey? name = some key) :
    key ≠ [] := by
  unfold settingKey? at h
  dsimp only at h
  split at h
  · cases h
  · split at h
    · cases h
    · cases h
      rw [ne_eq, List.map_eq_nil_iff]
      exact parts_ne_nil _ _

theorem table_concat (env : Environment) (name s : String) :
    table (env ++ [(name, s)]) =
      match settingKey? name with
      | some key => env.table.merge ((value s).nest key)
      | none => env.table := by
  rw [table, List.foldl_append]
  rfl

theorem isTable_table (env : Environment) : env.table.IsTable := by
  induction env using List.reverseRecOn with
  | nil => exact ⟨[], rfl⟩
  | append_singleton env e ih =>
    obtain ⟨name, s⟩ := e
    rw [table_concat]
    cases hKey : settingKey? name with
    | none => exact ih
    | some key =>
      cases key with
      | nil => exact absurd rfl (settingKey?_ne_nil hKey)
      | cons k key => exact Value.IsTable.merge ⟨_, rfl⟩ _

theorem tidy_table (env : Environment) : Tidy env.table := by
  induction env using List.reverseRecOn with
  | nil => exact .nil
  | append_singleton env e ih =>
    obtain ⟨name, s⟩ := e
    rw [table_concat]
    cases settingKey? name with
    | none => exact ih
    | some key => exact ih.merge ((tidy_value s).nest key)

/-- What a table says that holds what the variables give, each for itself. -/
structure Speaks (env : Environment) (v : Value) : Prop where
  given : ∀ name s key, (name, s) ∈ env → settingKey? name = some key →
    ∀ rest, v.at? (key ++ rest) = (value s).at? rest
  silent : ∀ key, key ≠ [] → (∀ other ∈ env.keys, Apart other key) → v.at? key = none

section Speaks

variable {env : Environment} {v : Value} {name s : String}

@[simp] theorem keys_concat (env : Environment) (name s : String) :
    keys (env ++ [(name, s)]) = env.keys ++ (settingKey? name).toList := by
  rw [keys, List.filterMap_append, keys]
  cases hKey : settingKey? name <;> simp [hKey]

theorem table_of_silent (hSilent : env.keys = []) : env.table = .table [] := by
  induction env using List.reverseRecOn with
  | nil => rfl
  | append_singleton env e ih =>
    obtain ⟨name, s⟩ := e
    rw [keys_concat, List.append_eq_nil_iff] at hSilent
    rw [table_concat, Option.toList_eq_nil_iff.mp hSilent.2]
    exact ih hSilent.1

theorem mem_keys {key : List String} (hMem : (name, s) ∈ env)
    (hKey : settingKey? name = some key) : key ∈ env.keys :=
  List.mem_filterMap.mpr ⟨(name, s), hMem, hKey⟩

theorem Speaks.skip (h : Speaks env v) (hKey : settingKey? name = none) :
    Speaks (env ++ [(name, s)]) v := by
  constructor
  · intro name' s' key hMem hKey' rest
    rcases List.mem_append.mp hMem with hMem | hMem
    · exact h.given name' s' key hMem hKey' rest
    · obtain ⟨rfl, rfl⟩ := Prod.mk.inj (List.mem_singleton.mp hMem)
      rw [hKey] at hKey'
      cases hKey'
  · intro key hNil hApart
    rw [keys_concat, hKey, Option.toList_none, List.append_nil] at hApart
    exact h.silent key hNil hApart

theorem Speaks.merge (h : Speaks env v) {key : List String} (hKey : settingKey? name = some key)
    (hApart : ∀ other ∈ env.keys, Apart other key) :
    Speaks (env ++ [(name, s)]) (v.merge ((value s).nest key)) := by
  have hNil := settingKey?_ne_nil hKey
  constructor
  · intro name' s' other hMem hOther rest
    rcases List.mem_append.mp hMem with hMem | hMem
    · have hBoth := (hApart other (mem_keys hMem hOther)).symm
      rw [Value.at?_merge_nest_of_apart _ (hBoth.append rest)]
      exact h.given name' s' other hMem hOther rest
    · obtain ⟨rfl, rfl⟩ := Prod.mk.inj (List.mem_singleton.mp hMem)
      rw [hKey] at hOther
      cases hOther
      exact Value.at?_merge_nest hNil (h.silent key hNil hApart) rest
  · intro other hOther hOthers
    rw [keys_concat, hKey, Option.toList_some, List.forall_mem_append] at hOthers
    rw [Value.at?_merge_nest_of_apart _ (hOthers.2 key List.mem_cons_self)]
    exact h.silent other hOther hOthers.1

theorem speaks_table (hKeys : env.keys.Pairwise Apart) : Speaks env env.table := by
  induction env using List.reverseRecOn with
  | nil =>
    constructor
    · intro name s key hMem
      cases hMem
    · intro key hKey _
      obtain ⟨k, key, rfl⟩ := List.exists_cons_of_ne_nil hKey
      rfl
  | append_singleton env e ih =>
    obtain ⟨name, s⟩ := e
    rw [keys_concat, List.pairwise_append] at hKeys
    obtain ⟨hOlder, -, hNew⟩ := hKeys
    rw [table_concat]
    cases hKey : settingKey? name with
    | none => exact (ih hOlder).skip hKey
    | some key =>
      rw [hKey, Option.toList_some] at hNew
      exact (ih hOlder).merge hKey fun other hOther => hNew other hOther key List.mem_cons_self

end Speaks

/-! ## Setting a variable -/

section Assign

variable (env : Environment) (name s : String)

theorem lookup_map_assign (x : String) :
    List.lookup x (env.map fun e => if e.1 = name then (e.1, s) else e) =
      if x = name then (env.lookup x).map fun _ => s else env.lookup x := by
  induction env with
  | nil => split <;> rfl
  | cons e env ih =>
    obtain ⟨n, old⟩ := e
    have hHead : (if n = name then (n, s) else (n, old)) = (n, if n = name then s else old) := by
      split <;> rfl
    rw [List.map_cons, hHead, lookup_cons, lookup_cons, ih]
    by_cases hx : x = n
    · subst hx
      by_cases hn : x = name <;> simp [hn]
    · rw [if_neg hx, if_neg hx]

/-- A variable that is set has its new value, and every other keeps its own. -/
@[simp] theorem lookup_assign (x : String) :
    (env.assign name s).lookup x = if x = name then some s else env.lookup x := by
  rw [assign]
  split
  · rename_i hFound
    refine (lookup_map_assign env name s x).trans ?_
    by_cases hx : x = name
    · obtain ⟨old, hOld⟩ := Option.isSome_iff_exists.mp hFound
      rw [if_pos hx, if_pos hx, hx, hOld, Option.map_some]
    · rw [if_neg hx, if_neg hx]
  · rename_i hNone
    rw [Bool.not_eq_true, Option.isSome_eq_false_iff, Option.isNone_iff_eq_none] at hNone
    rw [List.lookup_append, lookup_cons, List.lookup_nil]
    by_cases hx : x = name
    · rw [if_pos hx, if_pos hx, hx, hNone, Option.none_or]
    · rw [if_neg hx, if_neg hx, Option.or_none]

/-- Setting a variable keeps the names apart. -/
theorem nodup_assign {env : Environment} (hNames : (env.map (·.1)).Nodup) (name s : String) :
    ((env.assign name s).map (·.1)).Nodup := by
  rw [assign]
  split
  · rw [List.map_map]
    refine (congrArg List.Nodup (List.map_congr_left fun e _ => ?_)).mpr hNames
    dsimp only [Function.comp]
    split <;> rfl
  · rename_i hNone
    rw [Bool.not_eq_true, Option.isSome_eq_false_iff, Option.isNone_iff_eq_none] at hNone
    exact nodup_keys_concat hNames hNone s

end Assign

end ShortNames.Environment
