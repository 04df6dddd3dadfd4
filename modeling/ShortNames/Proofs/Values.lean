import Mathlib.Data.List.Infix
import ShortNames.Proofs.Lookups
import ShortNames.Value

/-!
# Laws of merged values

What stands at a key once one value is laid over another: both layers speak where both are tables,
and elsewhere the upper one does. A value that is nested under a key touches no other key.
-/

namespace ShortNames.Value

/-- What stands at a dotted key. -/
def at? (v : Value) (key : List String) : Option Value :=
  v.get? (key.map .field)

theorem at?_cons (v : Value) (k : String) (key : List String) :
    v.at? (k :: key) = (v.field? k).bind fun w => w.at? key :=
  rfl

@[simp] theorem at?_singleton (v : Value) (k : String) : v.at? [k] = v.field? k := by
  rw [at?_cons]
  cases v.field? k <;> rfl

@[simp] theorem get?_append (v : Value) (place rest : List Step) :
    v.get? (place ++ rest) = (v.get? place).bind fun w => w.get? rest := by
  induction place generalizing v with
  | nil => rfl
  | cons step place ih =>
    cases step with
    | field k =>
      simp only [List.cons_append, get?, Option.bind_assoc]
      exact Option.bind_congr fun w _ => ih w
    | item i =>
      cases v with
      | list items =>
        simp only [List.cons_append, get?, Option.bind_assoc]
        exact Option.bind_congr fun w _ => ih w
      | _ => rfl

/-! ## Fields -/

def IsTable (v : Value) : Prop :=
  ∃ fields, v = .table fields

instance : (v : Value) → Decidable v.IsTable
  | .table fields => .isTrue ⟨fields, rfl⟩
  | .bool _ | .integer _ | .natural _ | .float _ | .string _ | .list _ => .isFalse nofun

theorem field?_of_not_isTable {v : Value} (h : ¬ v.IsTable) (k : String) : v.field? k = none := by
  cases v with
  | table fields => exact absurd ⟨fields, rfl⟩ h
  | _ => rfl

theorem isTable_of_field? {v w : Value} {k : String} (h : v.field? k = some w) : v.IsTable := by
  by_contra hTable
  rw [field?_of_not_isTable hTable] at h
  cases h

@[simp]
theorem lookup_setField (k : String) (v : Value) (fields : List (String × Value)) (x : String) :
    (setField k v fields).lookup x = if x = k then some v else fields.lookup x := by
  induction fields with
  | nil => exact lookup_cons k v [] x
  | cons p fields ih =>
    obtain ⟨l, w⟩ := p
    rw [setField, lookup_cons l w]
    split
    · rename_i hl
      rw [lookup_cons, hl]
      split <;> rfl
    · rename_i hl
      rw [lookup_cons, ih]
      by_cases hx : x = l
      · rw [if_pos hx, if_pos hx, if_neg (hx ▸ hl)]
      · rw [if_neg hx, if_neg hx]

theorem mem_setField {k : String} {v : Value} {fields : List (String × Value)}
    {p : String × Value} (hp : p ∈ setField k v fields) : p = (k, v) ∨ p ∈ fields := by
  induction fields with
  | nil => exact .inl (List.mem_singleton.mp hp)
  | cons q fields ih =>
    rw [setField] at hp
    split at hp
    · rename_i hq
      rcases List.mem_cons.mp hp with rfl | hp
      · exact .inl (by rw [hq])
      · exact .inr (List.mem_cons_of_mem q hp)
    · rcases List.mem_cons.mp hp with rfl | hp
      · exact .inr List.mem_cons_self
      · exact (ih hp).imp_right (List.mem_cons_of_mem q)

theorem nodup_setField (k : String) (v : Value) {fields : List (String × Value)}
    (hNodup : (fields.map (·.1)).Nodup) : ((setField k v fields).map (·.1)).Nodup := by
  induction fields with
  | nil => exact List.nodup_singleton k
  | cons q fields ih =>
    rw [List.map_cons, List.nodup_cons] at hNodup
    rw [setField]
    split
    · exact List.nodup_cons.mpr hNodup
    · rename_i hq
      rw [List.map_cons, List.nodup_cons]
      refine ⟨?_, ih hNodup.2⟩
      intro hMem
      obtain ⟨p, hp, hpq⟩ := List.mem_map.mp hMem
      rcases mem_setField hp with rfl | hp
      · exact hq hpq.symm
      · exact hNodup.1 (List.mem_map.mpr ⟨p, hp, hpq⟩)

/-! ## Values without a key given twice -/

/-- No table of the value, however deep in other tables, has a key twice. -/
inductive Tidy : Value → Prop
  | other {v : Value} (hOther : ¬ v.IsTable) : Tidy v
  | table {fields : List (String × Value)} (hKeys : (fields.map (·.1)).Nodup)
      (hFields : ∀ p ∈ fields, Tidy p.2) : Tidy (.table fields)

theorem Tidy.keys {fields : List (String × Value)} (h : Tidy (.table fields)) :
    (fields.map (·.1)).Nodup := by
  cases h with
  | other hOther => exact absurd ⟨fields, rfl⟩ hOther
  | table hKeys hFields => exact hKeys

theorem Tidy.field {fields : List (String × Value)} (h : Tidy (.table fields)) :
    ∀ p ∈ fields, Tidy p.2 := by
  cases h with
  | other hOther => exact absurd ⟨fields, rfl⟩ hOther
  | table hKeys hFields => exact hFields

theorem Tidy.nil : Tidy (.table []) :=
  .table List.nodup_nil (List.forall_mem_nil _)

theorem Tidy.setField {fields : List (String × Value)} (h : Tidy (.table fields)) {v : Value}
    (hv : Tidy v) (k : String) : Tidy (.table (setField k v fields)) := by
  refine .table (nodup_setField k v h.keys) ?_
  intro p hp
  rcases mem_setField hp with rfl | hp
  · exact hv
  · exact h.field p hp

theorem Tidy.field? {v w : Value} (h : Tidy v) {k : String} (hk : v.field? k = some w) :
    Tidy w := by
  obtain ⟨fields, rfl⟩ := isTable_of_field? hk
  exact h.field _ (mem_of_lookup hk)

theorem Tidy.nest {v : Value} (h : Tidy v) (key : List String) : Tidy (v.nest key) := by
  induction key with
  | nil => exact h
  | cons k key ih =>
    refine .table (List.nodup_singleton k) ?_
    intro p hp
    rw [List.mem_singleton.mp hp]
    exact ih

/-! ## One value over another -/

/-- What stands at a key under which the lower layer holds `old` and the upper one `v`. -/
def overlay? : Option Value → Option Value → Option Value
  | some old, some v => some (old.merge v)
  | old, v => v.or old

@[simp] theorem merge_table (old fields : List (String × Value)) :
    merge (.table old) (.table fields) = .table (mergeFields old fields) := by
  rw [merge]

theorem merge_of_base {base : Value} (hBase : ¬ base.IsTable) (v : Value) : merge base v = v := by
  cases v with
  | table fields =>
    cases base with
    | table old => exact absurd ⟨old, rfl⟩ hBase
    | _ => rfl
  | _ => rfl

theorem merge_of_top {v : Value} (hTop : ¬ v.IsTable) (base : Value) : merge base v = v := by
  cases v with
  | table fields => exact absurd ⟨fields, rfl⟩ hTop
  | _ => rfl

theorem IsTable.merge {v : Value} (h : v.IsTable) (base : Value) : (base.merge v).IsTable := by
  obtain ⟨fields, rfl⟩ := h
  by_cases hBase : base.IsTable
  · obtain ⟨old, rfl⟩ := hBase
    exact ⟨_, merge_table old fields⟩
  · exact ⟨fields, merge_of_base hBase _⟩

theorem mergeFields_cons (base : List (String × Value)) (k : String) (v : Value)
    (fields : List (String × Value)) :
    mergeFields base ((k, v) :: fields) =
      mergeFields (setField k ((base.lookup k).elim v (merge · v)) base) fields := by
  rw [mergeFields]
  cases base.lookup k <;> rfl

theorem lookup_mergeFields {fields : List (String × Value)} (hNodup : (fields.map (·.1)).Nodup)
    (base : List (String × Value)) (x : String) :
    (mergeFields base fields).lookup x = overlay? (base.lookup x) (fields.lookup x) := by
  induction fields generalizing base with
  | nil =>
    rw [mergeFields, List.lookup_nil]
    cases base.lookup x <;> rfl
  | cons p fields ih =>
    obtain ⟨k, v⟩ := p
    rw [List.map_cons, List.nodup_cons] at hNodup
    rw [mergeFields_cons, ih hNodup.2, lookup_setField, lookup_cons]
    by_cases hx : x = k
    · -- No later field has this key.
      have hLater : fields.lookup x = none := by
        exact hx ▸ lookup_eq_none_iff_keys.mpr hNodup.1
      rw [if_pos hx, if_pos hx, hLater, hx]
      cases base.lookup k <;> rfl
    · rw [if_neg hx, if_neg hx]

theorem Tidy.merge {base v : Value} (hBase : Tidy base) (hv : Tidy v) : Tidy (base.merge v) := by
  induction hv generalizing base with
  | other hOther =>
    rw [merge_of_top hOther]
    exact .other hOther
  | @table fields hKeys hFields ih =>
    by_cases hTable : base.IsTable
    · obtain ⟨old, rfl⟩ := hTable
      rw [merge_table]
      clear hKeys
      induction fields generalizing old with
      | nil => rwa [mergeFields]
      | cons p fields ihFields =>
        obtain ⟨k, v⟩ := p
        rw [mergeFields_cons]
        refine ihFields (fun p hp => hFields p (List.mem_cons_of_mem _ hp))
          (fun p hp => ih p (List.mem_cons_of_mem _ hp)) _ (hBase.setField ?_ k)
        cases hOld : old.lookup k with
        | none => exact hFields _ List.mem_cons_self
        | some w => exact ih _ List.mem_cons_self (hBase.field _ (mem_of_lookup hOld))
    · rw [merge_of_base hTable]
      exact .table hKeys hFields

@[simp] theorem overlay?_none_left (v? : Option Value) : overlay? none v? = v? := by
  cases v? <;> rfl

@[simp] theorem overlay?_none_right (old? : Option Value) : overlay? old? none = old? := by
  cases old? <;> rfl

section Merge

variable {base : Value} (hBase : base.IsTable) {fields : List (String × Value)}
include hBase

theorem field?_merge (hKeys : (fields.map (·.1)).Nodup) (k : String) :
    (base.merge (.table fields)).field? k =
      overlay? (base.field? k) ((Value.table fields).field? k) := by
  obtain ⟨old, rfl⟩ := hBase
  rw [merge_table]
  exact lookup_mergeFields hKeys old k

variable {k : String} (hOld : ∀ w, base.field? k = some w → w.IsTable)
  (hNew : ∀ w, (Value.table fields).field? k = some w → w.IsTable)
include hOld hNew

theorem isTable_of_field?_merge (hKeys : (fields.map (·.1)).Nodup) {w : Value}
    (hw : (base.merge (.table fields)).field? k = some w) : w.IsTable := by
  rw [field?_merge hBase hKeys] at hw
  cases hTop : (Value.table fields).field? k with
  | none =>
    rw [hTop, overlay?_none_right] at hw
    exact hOld w hw
  | some v =>
    rw [hTop] at hw
    have hv := hNew v hTop
    cases hBottom : base.field? k with
    | none =>
      rw [hBottom, overlay?_none_left] at hw
      exact Option.some.inj hw ▸ hv
    | some old =>
      rw [hBottom] at hw
      exact Option.some.inj hw ▸ hv.merge old

/-- Of two tables under one key each field stands as if they were tables of their own. -/
theorem at?_merge_pair (hTidy : Tidy (.table fields)) (l : String) :
    (base.merge (.table fields)).at? [k, l] =
      overlay? (base.at? [k, l]) ((Value.table fields).at? [k, l]) := by
  rw [at?_cons, at?_cons, at?_cons, field?_merge hBase hTidy.keys]
  cases hTop : (Value.table fields).field? k with
  | none => simp
  | some v =>
    cases hBottom : base.field? k with
    | none => simp
    | some old =>
      obtain ⟨inner, rfl⟩ := hNew v hTop
      simpa [overlay?] using field?_merge (hOld old hBottom) (hTidy.field? hTop).keys l

end Merge

/-! ## A value laid under a key -/

theorem merge_nest_cons (old : List (String × Value)) (v : Value) (k : String)
    (key : List String) :
    merge (.table old) (v.nest (k :: key)) =
      .table (setField k ((old.lookup k).elim (v.nest key) (merge · (v.nest key))) old) := by
  rw [nest, merge_table, mergeFields_cons, mergeFields]

@[simp] theorem at?_nest_append (v : Value) (key rest : List String) :
    (v.nest key).at? (key ++ rest) = v.at? rest := by
  induction key with
  | nil => rfl
  | cons k key ih =>
    simp [at?_cons, nest, field?, ih]

/-- Neither key stands in front of the other. -/
def Apart (key other : List String) : Prop :=
  ¬ key <+: other ∧ ¬ other <+: key

instance (key other : List String) : Decidable (Apart key other) :=
  inferInstanceAs (Decidable (_ ∧ _))

theorem Apart.symm {key other : List String} (h : Apart key other) : Apart other key :=
  ⟨h.2, h.1⟩

theorem Apart.append {key other : List String} (h : Apart key other) (rest : List String) :
    Apart key (other ++ rest) := by
  constructor
  · intro hPrefix
    rcases List.prefix_or_prefix_of_prefix hPrefix (List.prefix_append other rest) with h' | h'
    · exact h.1 h'
    · exact h.2 h'
  · intro hPrefix
    exact h.2 ((List.prefix_append other rest).trans hPrefix)

@[simp] theorem apart_cons {k : String} {key other : List String} :
    Apart (k :: key) (k :: other) ↔ Apart key other := by
  rw [Apart, List.prefix_cons_inj, List.prefix_cons_inj, Apart]

theorem at?_nest_of_apart (v : Value) {key other : List String} (h : Apart key other) :
    (v.nest key).at? other = none := by
  induction key generalizing other with
  | nil => exact absurd List.nil_prefix h.1
  | cons k key ih =>
    cases other with
    | nil => exact absurd List.nil_prefix h.2
    | cons l other =>
      rw [at?_cons, nest, field?, lookup_cons]
      by_cases hl : l = k
      · subst hl
        rw [if_pos rfl, Option.bind_some, ih (apart_cons.mp h)]
      · rw [if_neg hl]
        rfl

/-- A value laid under a key that holds nothing stands there. -/
theorem at?_merge_nest {base : Value} {v : Value} {key : List String} (hKey : key ≠ [])
    (hFree : base.at? key = none) (rest : List String) :
    (base.merge (v.nest key)).at? (key ++ rest) = v.at? rest := by
  induction key generalizing base with
  | nil => exact absurd rfl hKey
  | cons k key ih =>
    by_cases hTable : base.IsTable
    · obtain ⟨old, rfl⟩ := hTable
      rw [at?_cons, field?] at hFree
      rw [merge_nest_cons, List.cons_append, at?_cons, field?, lookup_setField, if_pos rfl,
        Option.bind_some]
      cases hOld : old.lookup k with
      | none => exact at?_nest_append v key rest
      | some w =>
        rw [hOld, Option.bind_some] at hFree
        apply ih _ hFree
        rintro rfl
        cases hFree
    · rw [merge_of_base hTable]
      exact at?_nest_append v _ rest

/-- A value laid under a key leaves every key alone that is apart from it. -/
theorem at?_merge_nest_of_apart {base : Value} (v : Value) {key other : List String}
    (h : Apart key other) : (base.merge (v.nest key)).at? other = base.at? other := by
  induction key generalizing base other with
  | nil => exact absurd List.nil_prefix h.1
  | cons k key ih =>
    cases other with
    | nil => exact absurd List.nil_prefix h.2
    | cons l other =>
      by_cases hTable : base.IsTable
      · obtain ⟨old, rfl⟩ := hTable
        rw [merge_nest_cons, at?_cons, at?_cons, field?, field?, lookup_setField]
        by_cases hl : l = k
        · subst hl
          rw [if_pos rfl, Option.bind_some]
          cases old.lookup l with
          | none => exact at?_nest_of_apart v (apart_cons.mp h)
          | some w => exact ih (apart_cons.mp h)
        · rw [if_neg hl]
      · rw [merge_of_base hTable, at?_nest_of_apart v h, at?_cons, field?_of_not_isTable hTable]
        rfl

end ShortNames.Value
