import ShortNames.Proofs.Results
import ShortNames.Proofs.Values
import ShortNames.Settings

/-!
# What a setting may be

Each setting has a key and a form of value that it takes. The settings that are judged from the
values at their keys are those values, read in their forms, with what is standard for a key that
has none; one value of another form refuses them all.
-/

namespace ShortNames

namespace Value

def string? : Value → Option String
  | string s => some s
  | _ => none

/-- The strings of a list that holds nothing else. -/
def strings? : Value → Option (List String)
  | list items => items.mapM string?
  | _ => none

def format? (v : Value) : Option LogFormat :=
  v.string?.bind Settings.formatOf?

end Value

open Value (string? strings? format? overlay? IsTable)

namespace Settings

/-- A judgement that takes exactly what `read?` reads, and finds fault only in the value. -/
structure Judges {α : Type} (judge : List Value.Step → Value → Judged α)
    (read? : Value → Option α) : Prop where
  takes : ∀ place v a, judge place v = .ok a ↔ read? v = some a
  blames : ∀ place v f, judge place v = .error f → place <+: f.place
  noTable : ∀ v, v.IsTable → read? v = none

theorem judges_string (expected : Expected) : Judges (asString expected) string? := by
  constructor
  · intro place v a
    cases v <;> simp [asString, wrongType, string?]
  · intro place v f h
    cases v with
    | string s => cases h
    | _ =>
      cases h
      exact List.prefix_rfl
  · rintro v ⟨fields, rfl⟩
    rfl

section Strings

variable {expected : Expected} {place : List Value.Step} {items : List Value} {n : Nat}

theorem mapM_asString_eq_ok_iff {ss : List String} :
    ((items.zipIdx n).mapM fun (v, i) => asString expected (place ++ [Value.Step.item i]) v) =
      .ok ss ↔ items.mapM string? = some ss := by
  induction items generalizing n ss with
  | nil => simp [Pure.pure, Except.pure]
  | cons v items ih =>
    rw [List.zipIdx_cons, List.mapM_cons, List.mapM_cons, bind_eq_ok_iff, Option.bind_eq_bind,
      Option.bind_eq_some_iff]
    apply exists_congr
    intro s
    rw [(judges_string expected).takes, bind_eq_ok_iff, Option.bind_eq_bind,
      Option.bind_eq_some_iff]
    apply and_congr_right
    intro _
    apply exists_congr
    intro others
    rw [ih]
    simp [Pure.pure, Except.pure]

theorem place_of_mapM_asString {f : SettingsFault}
    (h : ((items.zipIdx n).mapM fun (v, i) => asString expected (place ++ [Value.Step.item i]) v) =
      .error f) : place <+: f.place := by
  induction items generalizing n with
  | nil => cases h
  | cons v items ih =>
    rw [List.zipIdx_cons, List.mapM_cons] at h
    rcases bind_eq_error_iff.mp h with hFirst | ⟨s, -, h⟩
    · exact (List.prefix_append place _).trans ((judges_string expected).blames _ _ _ hFirst)
    · rcases bind_eq_error_iff.mp h with hRest | ⟨others, -, h⟩
      · exact ih hRest
      · cases h

end Strings

theorem judges_strings (expected : Expected) : Judges (asStrings expected) strings? := by
  constructor
  · intro place v a
    cases v with
    | list items => exact mapM_asString_eq_ok_iff
    | _ => simp [asStrings, wrongType, strings?]
  · intro place v f h
    cases v with
    | list items => exact place_of_mapM_asString h
    | _ =>
      cases h
      exact List.prefix_rfl
  · rintro v ⟨fields, rfl⟩
    rfl

theorem judges_format : Judges asFormat format? := by
  constructor
  · intro place v a
    cases v with
    | string s =>
      simp only [asFormat, format?, string?, Option.bind_some]
      cases formatOf? s <;> simp
    | table fields =>
      have hNone : format? (.table fields) = none := rfl
      rw [hNone, asFormat]
      cases firstField? fields with
      | none => simp [wrongType]
      | some p => cases hFormat : formatOf? p.1 <;> simp [wrongType, hFormat]
    | _ => simp [asFormat, wrongType, format?, string?]
  · intro place v f h
    cases v with
    | string s =>
      rw [asFormat] at h
      cases hFormat : formatOf? s with
      | none =>
        rw [hFormat] at h
        cases h
        exact List.prefix_rfl
      | some format =>
        rw [hFormat] at h
        cases h
    | table fields =>
      rw [asFormat] at h
      cases hFirst : firstField? fields with
      | none =>
        rw [hFirst] at h
        cases h
        exact List.prefix_rfl
      | some p =>
        obtain ⟨key, inner⟩ := p
        rw [hFirst] at h
        cases hFormat : formatOf? key with
        | none =>
          simp only [hFormat] at h
          cases h
          exact List.prefix_rfl
        | some format =>
          simp only [hFormat] at h
          cases h
          exact List.prefix_append place _
    | _ =>
      cases h
      exact List.prefix_rfl
  · rintro v ⟨fields, rfl⟩
    rfl

/-- What a setting is: what the value at its key reads as, and what is standard without one. -/
def given? {α : Type} (read? : Value → Option α) (standard : α) : Option Value → Option α
  | some v => read? v
  | none => some standard

section Given

variable {α : Type} {judge : List Value.Step → Value → Judged α} {read? : Value → Option α}
  (h : Judges judge read?)
include h

/-- A value over another reads as the upper one does: of two tables neither has a form that a
setting takes, nor has the table they make. -/
theorem Judges.read?_merge (old v : Value) : read? (old.merge v) = read? v := by
  by_cases hTable : v.IsTable
  · rw [h.noTable _ (hTable.merge old), h.noTable v hTable]
  · rw [Value.merge_of_top hTable]

theorem Judges.orElse_overlay {standard a : α} {place : List Value.Step} (old? v? : Option Value) :
    orElse standard judge place (overlay? old? v?) = .ok a ↔
      given? read? standard (v?.or old?) = some a := by
  cases old? with
  | none =>
    cases v? with
    | none => simp [overlay?, orElse, given?]
    | some v => exact h.takes place v a
  | some old =>
    cases v? with
    | none => exact h.takes place old a
    | some v =>
      rw [overlay?, orElse, h.takes, h.read?_merge]
      rfl

theorem Judges.orElse_blames {standard : α} {place : List Value.Step} {v? : Option Value}
    {f : SettingsFault} (hFault : orElse standard judge place v? = .error f) :
    place <+: f.place := by
  cases v? with
  | none => cases hFault
  | some v => exact h.blames place v f hFault

end Given

end Settings

end ShortNames
