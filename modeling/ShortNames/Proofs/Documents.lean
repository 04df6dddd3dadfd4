import ShortNames.Proofs.Lookups
import ShortNames.Toml.Document

/-!
# Keys of a document

A statement of a document changes the table by one field: it adds a field under a new key, or it
puts a node in the place of another. So no key of a document is given twice.
-/

namespace ShortNames.Toml

namespace Fields

/-- What a statement does to the fields of a table. -/
inductive Changed (fields : Fields) : Fields → Prop
  | added {key : String} (hNew : fields.lookup key = none) (n : Node) :
    Changed fields (fields ++ [(key, n)])
  | replaced (key : String) (n : Node) : Changed fields (replace key n fields)

@[simp] theorem map_fst_replace (key : String) (n : Node) (fields : Fields) :
    (replace key n fields).map (·.1) = fields.map (·.1) := by
  rw [replace, List.map_map]
  apply List.map_congr_left
  rintro ⟨k, old⟩ -
  simp only [Function.comp]
  split <;> rfl

theorem Changed.nodup {fields fields' : Fields} (h : Changed fields fields')
    (hNodup : (fields.map (·.1)).Nodup) : (fields'.map (·.1)).Nodup := by
  cases h with
  | added hNew n => exact nodup_keys_concat hNodup hNew n
  | replaced key n => rwa [map_fst_replace]

theorem changed_of_map {α : Type} {fields fields' : Fields} {result : Option α} {f : α → Fields}
    (hf : ∀ a, Changed fields (f a)) (h : result.map f = some fields') :
    Changed fields fields' := by
  obtain ⟨a, -, rfl⟩ := Option.map_eq_some_iff.mp h
  exact hf a

theorem changed_insert? {v : Value} {key : Key} {fields fields' : Fields}
    (h : insert? v key fields = some fields') : Changed fields fields' := by
  fun_cases insert? v key fields with
  | case2 key fields hNew =>
    rw [insert?, hNew] at h
    cases h
    exact .added hNew _
  | case4 key next rest fields hNew =>
    rw [insert?, hNew] at h
    exact changed_of_map (fun inner => .added hNew _) h
  | case5 key next rest fields inner hOld =>
    rw [insert?, hOld] at h
    exact changed_of_map (fun inner => .replaced key _) h
  | case7 key next rest fields inner hOld hRest =>
    simp only [insert?, hOld, if_neg hRest] at h
    exact changed_of_map (fun inner => .replaced key _) h
  | case9 key next rest fields items hOld hRest =>
    simp only [insert?, hOld, if_neg hRest] at h
    obtain ⟨last, -, h⟩ := Option.bind_eq_some_iff.mp h
    exact changed_of_map (fun last => .replaced key _) h
  | _ => simp_all [insert?]

theorem changed_openTable? {key : String} {fields fields' : Fields}
    (h : openTable? key fields = some fields') : Changed fields fields' := by
  fun_cases openTable? key fields with
  | case1 hNew =>
    rw [openTable?, hNew] at h
    cases h
    exact .added hNew _
  | case2 inner hOld =>
    rw [openTable?, hOld] at h
    cases h
    exact .replaced key _
  | case3 hNew hOld => simp_all [openTable?]

theorem changed_openItem? {key : String} {fields fields' : Fields}
    (h : openItem? key fields = some fields') : Changed fields fields' := by
  fun_cases openItem? key fields with
  | case1 hNew =>
    rw [openItem?, hNew] at h
    cases h
    exact .added hNew _
  | case2 items hOld =>
    rw [openItem?, hOld] at h
    cases h
    exact .replaced key _
  | case3 hNew hOld => simp_all [openItem?]

theorem changed_alter? {f : Fields → Option Fields}
    (hf : ∀ fields fields', f fields = some fields' → Changed fields fields') {key : Key}
    {fields fields' : Fields} (h : alter? f key fields = some fields') :
    Changed fields fields' := by
  cases key with
  | nil => exact hf fields fields' h
  | cons key rest =>
    rw [alter?] at h
    split at h
    · rename_i hNew
      exact changed_of_map (fun inner => .added hNew _) h
    · exact changed_of_map (fun inner => .replaced key _) h
    · obtain ⟨last, -, h⟩ := Option.bind_eq_some_iff.mp h
      exact changed_of_map (fun last => .replaced key _) h
    · cases h

end Fields

theorem changed_perform? {current current' : Key} {root root' : Fields} {s : Statement}
    (h : perform? current root s = some (current', root')) : Fields.Changed root root' := by
  cases s with
  | pair key v =>
    obtain ⟨r, hAlter, hResult⟩ := Option.map_eq_some_iff.mp h
    obtain ⟨-, rfl⟩ := Prod.mk.inj hResult
    exact Fields.changed_alter? (fun _ _ => Fields.changed_insert?) hAlter
  | table key =>
    obtain ⟨last, -, h⟩ := Option.bind_eq_some_iff.mp h
    obtain ⟨r, hAlter, hResult⟩ := Option.map_eq_some_iff.mp h
    obtain ⟨-, rfl⟩ := Prod.mk.inj hResult
    exact Fields.changed_alter? (fun _ _ => Fields.changed_openTable?) hAlter
  | tableItem key =>
    obtain ⟨last, -, h⟩ := Option.bind_eq_some_iff.mp h
    obtain ⟨r, hAlter, hResult⟩ := Option.map_eq_some_iff.mp h
    obtain ⟨-, rfl⟩ := Prod.mk.inj hResult
    exact Fields.changed_alter? (fun _ _ => Fields.changed_openItem?) hAlter

theorem nodup_foldlM_perform? {statements : List Statement} {current current' : Key}
    {root root' : Fields}
    (h : statements.foldlM (fun state s => perform? state.1 state.2 s) (current, root) =
      some (current', root'))
    (hNodup : (root.map (·.1)).Nodup) : (root'.map (·.1)).Nodup := by
  induction statements generalizing current root with
  | nil =>
    obtain ⟨-, rfl⟩ := Prod.mk.inj (Option.some.inj h)
    exact hNodup
  | cons s statements ih =>
    obtain ⟨⟨middle, changed⟩, hPerform, hRest⟩ := Option.bind_eq_some_iff.mp h
    exact ih hRest ((changed_perform? hPerform).nodup hNodup)

@[simp] theorem map_fst_toFields (fields : Fields) :
    (Node.toFields fields).map (·.1) = fields.map (·.1) := by
  induction fields with
  | nil => rfl
  | cons p fields ih => rw [Node.toFields, List.map_cons, List.map_cons, ih]

/-- A document is a table that gives no key twice. -/
theorem exists_of_read? {t : Text} {v : Value} (h : read? t = some v) :
    ∃ fields, v = .table fields ∧ (fields.map (·.1)).Nodup := by
  obtain ⟨statements, -, h⟩ := Option.bind_eq_some_iff.mp h
  obtain ⟨⟨current, root⟩, hRun, h⟩ := Option.bind_eq_some_iff.mp h
  cases h
  refine ⟨Node.toFields root, rfl, ?_⟩
  rw [map_fst_toFields]
  exact nodup_foldlM_perform? hRun List.nodup_nil

end ShortNames.Toml
