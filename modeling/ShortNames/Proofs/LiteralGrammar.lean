import ShortNames.Segment

/-!
# The grammar of literals

`Segment.literal?` takes exactly the literals of the grammar off the front of a text. A literal is
closed by the first mark that no backslash escapes, so no two literals start at one place.
-/

namespace ShortNames.Segment

/-- A character as it is written between the marks of a literal: by itself, or behind a backslash.
A mark and a backslash are not written by themselves, a line feed not behind a backslash. -/
inductive IsUnit (mark : Char) : Text → Prop
  | plain {c : Char} (hMark : c ≠ mark) (hEscape : c ≠ '\\') : IsUnit mark [c]
  | escaped {c : Char} (hLine : c ≠ '\n') : IsUnit mark ['\\', c]

inductive IsLiteral : Text → Prop
  | string {units : List Text} (hUnits : ∀ u ∈ units, IsUnit '"' u) :
    IsLiteral ('"' :: (units.flatten ++ ['"']))
  | character {u : Text} (hUnit : IsUnit '\'' u) : IsLiteral ('\'' :: (u ++ ['\'']))

variable {t s after : Text}

theorem stringRest?_cons {c : Char} (hQuote : c ≠ '"') (hEscape : c ≠ '\\') (t : Text) :
    stringRest? (c :: t) = (stringRest? t).map fun (s, after) => (c :: s, after) := by
  rw [stringRest?]
  · rw [if_neg hEscape]
  · exact hQuote
  · intro d u hc
    exact absurd hc hEscape

theorem stringRest?_units {units : List Text} (hUnits : ∀ u ∈ units, IsUnit '"' u)
    (after : Text) : stringRest? (units.flatten ++ '"' :: after) =
      some (units.flatten ++ ['"'], after) := by
  induction units with
  | nil => rfl
  | cons u units ih =>
    rw [List.forall_mem_cons] at hUnits
    have hRest := ih hUnits.2
    rw [List.flatten_cons, List.append_assoc]
    cases hUnits.1 with
    | plain hMark hEscape =>
      rw [List.singleton_append, stringRest?_cons hMark hEscape, hRest]
      rfl
    | escaped hLine =>
      rw [List.cons_append, List.singleton_append, stringRest?, if_neg hLine, hRest]
      rfl

theorem units_of_stringRest? (h : stringRest? t = some (s, after)) :
    ∃ units : List Text, (∀ u ∈ units, IsUnit '"' u) ∧ s = units.flatten ++ ['"'] := by
  fun_induction stringRest? t generalizing s after with
  | case1 => cases h
  | case2 =>
    cases h
    exact ⟨[], List.forall_mem_nil _, rfl⟩
  | case3 => cases h
  | case4 c t hc ih =>
    obtain ⟨⟨u, v⟩, hTail, hEq⟩ := Option.map_eq_some_iff.mp h
    cases hEq
    obtain ⟨units, hUnits, rfl⟩ := ih hTail
    exact ⟨['\\', c] :: units, List.forall_mem_cons.mpr ⟨.escaped hc, hUnits⟩, rfl⟩
  | case5 => cases h
  | case6 c t hQuote _ hc ih =>
    obtain ⟨⟨u, v⟩, hTail, hEq⟩ := Option.map_eq_some_iff.mp h
    cases hEq
    obtain ⟨units, hUnits, rfl⟩ := ih hTail
    exact ⟨[c] :: units, List.forall_mem_cons.mpr ⟨.plain hQuote hc, hUnits⟩, rfl⟩

theorem charRest?_plain {c : Char} (hc : ¬ (c = '\\' ∨ c = '\'')) (rest : Text) :
    charRest? (c :: '\'' :: rest) = some ([c, '\''], rest) := by
  rw [charRest?]
  · rw [if_neg hc]
  · intro u hEscape _
    exact absurd (.inl hEscape) hc

theorem charRest?_unit {u : Text} (hUnit : IsUnit '\'' u) (after : Text) :
    charRest? (u ++ '\'' :: after) = some (u ++ ['\''], after) := by
  cases hUnit with
  | plain hMark hEscape => exact charRest?_plain (not_or.mpr ⟨hEscape, hMark⟩) after
  | escaped hLine =>
    rw [List.cons_append, List.singleton_append, charRest?, if_neg hLine]
    rfl

theorem unit_of_charRest? (h : charRest? t = some (s, after)) :
    ∃ u, IsUnit '\'' u ∧ s = u ++ ['\''] := by
  unfold charRest? at h
  split at h
  · rename_i c _
    split at h
    · cases h
    · cases h
      exact ⟨['\\', c], .escaped ‹_›, rfl⟩
  · rename_i c _ _
    split at h
    · cases h
    · rename_i hc
      cases h
      exact ⟨[c], .plain (fun hMark => hc (.inr hMark)) (fun hEscape => hc (.inl hEscape)), rfl⟩
  · cases h

/-- The reader takes the literals of the grammar, whatever follows them. -/
theorem literal?_eq_some_iff : literal? t = some (s, after) ↔ t = s ++ after ∧ IsLiteral s := by
  constructor
  · intro h
    refine ⟨(eq_append_of_literal? h).1, ?_⟩
    unfold literal? at h
    split at h
    · obtain ⟨⟨u, v⟩, hTail, hEq⟩ := Option.map_eq_some_iff.mp h
      cases hEq
      obtain ⟨units, hUnits, rfl⟩ := units_of_stringRest? hTail
      exact .string hUnits
    · obtain ⟨⟨u, v⟩, hTail, hEq⟩ := Option.map_eq_some_iff.mp h
      cases hEq
      obtain ⟨u, hUnit, rfl⟩ := unit_of_charRest? hTail
      exact .character hUnit
    · cases h
  · rintro ⟨rfl, hLiteral⟩
    cases hLiteral with
    | string hUnits =>
      rw [List.cons_append, List.append_assoc, List.singleton_append, literal?,
        stringRest?_units hUnits]
      rfl
    | character hUnit =>
      rw [List.cons_append, List.append_assoc, List.singleton_append, literal?,
        charRest?_unit hUnit]
      rfl

theorem literal?_append (h : literal? t = some (s, after)) (rest : Text) :
    literal? (s ++ rest) = some (s, rest) :=
  literal?_eq_some_iff.mpr ⟨rfl, (literal?_eq_some_iff.mp h).2⟩

theorem literal?_eq_none_iff : literal? t = none ↔ ∀ s, s <+: t → ¬ IsLiteral s := by
  rw [Option.eq_none_iff_forall_ne_some]
  constructor
  · rintro hNone s ⟨after, hText⟩ hLiteral
    exact hNone (s, after) (literal?_eq_some_iff.mpr ⟨hText.symm, hLiteral⟩)
  · rintro hNone ⟨s, after⟩ hSome
    obtain ⟨hText, hLiteral⟩ := literal?_eq_some_iff.mp hSome
    exact hNone s ⟨after, hText.symm⟩ hLiteral

end ShortNames.Segment
