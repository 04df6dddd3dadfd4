import ShortNames.BareName
import ShortNames.Proofs.Texts

/-!
# Runs and their places

The reader of bare names jumps behind every run that it finds. `placedRuns` reads the same runs with
the places where they start, and `placedNames` the bare names among them. A border that no run goes
over can be cut: the runs of the whole text are then those of its parts. So a run is found if and
only if it is a longest one.
-/

namespace ShortNames.BareName

/-- `run` is a longest run of identifier characters between `pre` and `post`. -/
structure IsRun (pre run post : Text) : Prop where
  ne_nil : run ≠ []
  inside : ∀ c ∈ run, Text.isIdentifier c = true
  left : ∀ c ∈ pre.getLast?, Text.isIdentifier c = false
  right : ∀ c ∈ post.head?, Text.isIdentifier c = false

/-- The runs of a text that starts at place `i`, each with its place and the character before it. -/
def placedRuns (i : Nat) (before : Option Char) : Text → List (Nat × Option Char × Text)
  | [] => []
  | c :: t =>
    if Text.isIdentifier c then
      (i, before, c :: t.takeWhile Text.isIdentifier) ::
        placedRuns (i + (t.takeWhile Text.isIdentifier).length + 1) none
          (t.dropWhile Text.isIdentifier)
    else placedRuns (i + 1) (some c) t
termination_by t => t.length
decreasing_by
  · have := (t.dropWhile_sublist Text.isIdentifier).length_le
    grind
  · simp

variable {i j : Nat} {before b : Option Char} {c : Char} {t u run pre post : Text}

@[simp] theorem map_placedRuns (i : Nat) (before : Option Char) (t : Text) :
    (placedRuns i before t).map (·.2) = runs before t := by
  fun_induction placedRuns i before t with
  | case1 => rw [List.map_nil, runs]
  | case2 i before c t hc ih => rw [List.map_cons, ih, runs, if_pos hc]
  | case3 i before c t hc ih => rw [ih, runs, if_neg hc]

theorem placedRuns_run (hne : run ≠ []) (hInside : ∀ c ∈ run, Text.isIdentifier c = true)
    (i : Nat) (before : Option Char) : placedRuns i before run = [(i, before, run)] := by
  obtain ⟨c, w, rfl⟩ := List.exists_cons_of_ne_nil hne
  rw [List.forall_mem_cons] at hInside
  rw [placedRuns, if_pos hInside.1, List.takeWhile_eq_self_iff.mpr hInside.2,
    List.dropWhile_eq_nil_iff.mpr hInside.2, placedRuns]

/-- The character before a text matters only to a run at its start. -/
theorem placedRuns_congr (h : ∀ c ∈ t.head?, Text.isIdentifier c = false) (i : Nat)
    (before b : Option Char) : placedRuns i before t = placedRuns i b t := by
  cases t with
  | nil => rw [placedRuns, placedRuns]
  | cons c t =>
    have hc := h c rfl
    rw [placedRuns, placedRuns, if_neg (Bool.not_eq_true _ ▸ hc), if_neg (Bool.not_eq_true _ ▸ hc)]

/-- No run goes on from the end of `t` to the start of `u`. -/
def IsBorder (t u : Text) : Prop :=
  ∀ c ∈ t.getLast?, ∀ d ∈ u.head?, Text.isIdentifier c = true → Text.isIdentifier d = false

theorem isBorder_of_getLast? (h : ∀ c ∈ t.getLast?, Text.isIdentifier c = false) :
    IsBorder t u := by
  intro c hc d _ hIdentifier
  rw [h c hc] at hIdentifier
  cases hIdentifier

theorem isBorder_of_head? (h : ∀ d ∈ u.head?, Text.isIdentifier d = false) : IsBorder t u :=
  fun _ _ d hd _ => h d hd

theorem placedRuns_append (h : IsBorder t u) (i : Nat) (before : Option Char) :
    placedRuns i before (t ++ u) =
      placedRuns i before t ++ placedRuns (i + t.length) (t.getLast?.or before) u := by
  fun_induction placedRuns i before t with
  | case1 => rfl
  | case2 i before c t hc ih =>
    have hSplit := t.takeWhile_append_dropWhile (p := Text.isIdentifier)
    by_cases hDrop : t.dropWhile Text.isIdentifier = []
    · -- The run goes up to the border.
      rw [hDrop, List.append_nil] at hSplit
      have hInside := List.takeWhile_eq_self_iff.mp hSplit
      have hAll : ∀ d ∈ c :: t, Text.isIdentifier d = true :=
        List.forall_mem_cons.mpr ⟨hc, hInside⟩
      have hu : ∀ d ∈ u.head?, Text.isIdentifier d = false := by
        intro d hd
        obtain ⟨e, he⟩ := Option.isSome_iff_exists.mp
          (List.getLast?_isSome.mpr (List.cons_ne_nil c t))
        exact h e he d hd (hAll e (List.mem_of_getLast? he))
      rw [List.cons_append, placedRuns, if_pos hc, Text.takeWhile_append hInside hu,
        Text.dropWhile_append hInside hu, hSplit, hDrop, placedRuns, List.singleton_append,
        List.length_cons, ← Nat.add_assoc, placedRuns_congr hu _ none]
    · -- The run ends before the border.
      have hLast : (c :: t).getLast? = (t.dropWhile Text.isIdentifier).getLast? := by
        conv_lhs => rw [← hSplit, ← List.cons_append, List.getLast?_append_of_ne_nil _ hDrop]
      have hLength := congrArg List.length hSplit
      rw [List.length_append] at hLength
      have hPos := List.length_pos_iff.mpr hDrop
      have hPlace : i + (t.takeWhile Text.isIdentifier).length + 1 +
          (t.dropWhile Text.isIdentifier).length = i + (t.length + 1) := by omega
      obtain ⟨e, he⟩ := Option.isSome_iff_exists.mp (List.getLast?_isSome.mpr hDrop)
      rw [IsBorder, hLast] at h
      rw [List.cons_append, placedRuns, if_pos hc, List.takeWhile_append, if_neg (by omega),
        List.dropWhile_append, if_neg (by simpa using hDrop), ih h, hLast, he, Option.some_or,
        Option.some_or, List.cons_append, List.length_cons, hPlace]
  | case3 i before c t hc ih =>
    have hTail : IsBorder t u := by
      cases t with
      | nil => nofun
      | cons d t => rwa [IsBorder, List.getLast?_cons_cons] at h
    have hLast : (c :: t).getLast?.or before = t.getLast?.or (some c) :=
      Text.getLast?_append_or (List.cons_ne_nil c []) t before
    rw [List.cons_append, placedRuns, if_neg hc, ih hTail, hLast, List.length_cons,
      Nat.add_right_comm, Nat.add_assoc]

theorem exists_of_mem_placedRuns (h : (j, b, run) ∈ placedRuns i before t) :
    ∃ pre post, t = pre ++ run ++ post ∧ IsRun pre run post ∧ b = pre.getLast?.or before ∧
      j = i + pre.length := by
  fun_induction placedRuns i before t with
  | case1 => cases h
  | case2 i before c t hc ih =>
    have hSplit := t.takeWhile_append_dropWhile (p := Text.isIdentifier)
    have hRest := Text.head?_dropWhile Text.isIdentifier t
    rcases List.mem_cons.mp h with hFirst | hLater
    · cases hFirst
      refine ⟨[], t.dropWhile Text.isIdentifier, ?_, ⟨List.cons_ne_nil _ _, ?_, nofun, hRest⟩,
        rfl, rfl⟩
      · rw [List.nil_append, List.cons_append, hSplit]
      · exact List.forall_mem_cons.mpr ⟨hc, fun d hd => List.mem_takeWhile_imp hd⟩
    · obtain ⟨pre, post, hText, hRun, rfl, rfl⟩ := ih hLater
      rcases pre.eq_nil_or_concat' with rfl | ⟨p, e, rfl⟩
      · -- No run starts where the run before it ended.
        obtain ⟨d, w, rfl⟩ := List.exists_cons_of_ne_nil hRun.ne_nil
        have hd := hRest d (by rw [hText]; rfl)
        exact absurd (hRun.inside d List.mem_cons_self) (by simp [hd])
      · refine ⟨c :: t.takeWhile Text.isIdentifier ++ (p ++ [e]), post, ?_, ⟨hRun.ne_nil,
          hRun.inside, ?_, hRun.right⟩, ?_, ?_⟩
        · rw [List.append_assoc, List.append_assoc, ← List.append_assoc _ run, ← hText,
            List.cons_append, hSplit]
        · rw [List.getLast?_append_of_ne_nil _ (by simp)]
          exact hRun.left
        · rw [← List.append_assoc, List.getLast?_concat, List.getLast?_concat, Option.some_or,
            Option.some_or]
        · simp only [List.length_append, List.length_cons, List.length_nil]
          omega
  | case3 i before c t hc ih =>
    obtain ⟨pre, post, rfl, hRun, rfl, rfl⟩ := ih h
    refine ⟨c :: pre, post, rfl, ⟨hRun.ne_nil, hRun.inside, ?_, hRun.right⟩, ?_, ?_⟩
    · cases pre with
      | nil =>
        rintro d ⟨⟩
        exact Bool.eq_false_iff.mpr hc
      | cons d pre =>
        rw [List.getLast?_cons_cons]
        exact hRun.left
    · exact (Text.getLast?_append_or (List.cons_ne_nil c []) pre before).symm
    · rw [List.length_cons]
      omega

theorem mem_placedRuns (h : IsRun pre run post) (i : Nat) (before : Option Char) :
    (i + pre.length, pre.getLast?.or before, run) ∈ placedRuns i before (pre ++ run ++ post) := by
  have hLeft : IsBorder pre (run ++ post) := isBorder_of_getLast? h.left
  have hRight : IsBorder run post := isBorder_of_head? h.right
  rw [List.append_assoc, placedRuns_append hLeft, placedRuns_append hRight,
    placedRuns_run h.ne_nil h.inside]
  apply List.mem_append_right
  exact List.mem_append_left _ List.mem_cons_self

theorem mem_placedRuns_iff : (j, b, run) ∈ placedRuns i before t ↔
    ∃ pre post, t = pre ++ run ++ post ∧ IsRun pre run post ∧ b = pre.getLast?.or before ∧
      j = i + pre.length := by
  refine ⟨exists_of_mem_placedRuns, ?_⟩
  rintro ⟨pre, post, rfl, hRun, rfl, rfl⟩
  exact mem_placedRuns hRun i before

theorem pairwise_placedRuns (i : Nat) (before : Option Char) (t : Text) :
    (placedRuns i before t).Pairwise fun r s => r.1 < s.1 := by
  fun_induction placedRuns i before t with
  | case1 => exact .nil
  | case2 i before c t hc ih =>
    refine List.pairwise_cons.mpr ⟨?_, ih⟩
    rintro ⟨j, b, run⟩ hLater
    obtain ⟨pre, -, -, -, -, rfl⟩ := exists_of_mem_placedRuns hLater
    show i < _
    omega
  | case3 i before c t hc ih => exact ih

theorem runs_append (h : IsBorder t u) (before : Option Char) :
    runs before (t ++ u) = runs before t ++ runs (t.getLast?.or before) u := by
  rw [← map_placedRuns 0, placedRuns_append h, List.map_append, map_placedRuns, map_placedRuns]

/-- The place and the text of a run that names a type. -/
def named? : Nat × Option Char × Text → Option (Nat × Text)
  | (i, before, run) =>
    if before ≠ some '.' ∧ run.head?.any Char.isUpper then some (i, run) else none

/-- The bare names of a text that starts at place `i`, behind the character `before`. -/
def placedNames (i : Nat) (before : Option Char) (t : Text) : List (Nat × Text) :=
  (placedRuns i before t).filterMap named?

variable {x : Text}

/-- A text reads the same behind any character but a dot. -/
theorem ofText_eq {before : Option Char} (hBefore : before ≠ some '.') (t : Text) :
    ofText t = (runs before t).filterMap fun (before, run) =>
      if before ≠ some '.' ∧ run.head?.any Char.isUpper then some run else none := by
  cases t with
  | nil => rw [ofText, runs, runs]
  | cons c t =>
    by_cases hc : Text.isIdentifier c = true
    · rw [ofText, runs, runs, if_pos hc, if_pos hc, List.filterMap_cons, List.filterMap_cons]
      simp [hBefore]
    · rw [ofText, runs, runs, if_neg hc, if_neg hc]

theorem map_placedNames (hBefore : before ≠ some '.') (i : Nat) (t : Text) :
    (placedNames i before t).map (·.2) = ofText t := by
  rw [ofText_eq hBefore, ← map_placedRuns i, List.filterMap_map, placedNames, List.map_filterMap]
  apply List.filterMap_congr
  rintro ⟨j, b, run⟩ _
  simp only [named?, Function.comp_apply]
  split <;> rfl

theorem placedNames_append (h : IsBorder t u) (i : Nat) (before : Option Char) :
    placedNames i before (t ++ u) =
      placedNames i before t ++ placedNames (i + t.length) (t.getLast?.or before) u := by
  rw [placedNames, placedRuns_append h, List.filterMap_append]
  rfl

theorem mem_placedNames_iff : (j, x) ∈ placedNames i before t ↔
    ∃ pre post, t = pre ++ x ++ post ∧ j = i + pre.length ∧ IsRun pre x post ∧
      pre.getLast?.or before ≠ some '.' ∧ x.head?.any Char.isUpper = true := by
  rw [placedNames, List.mem_filterMap]
  constructor
  · rintro ⟨⟨k, b, run⟩, hMem, hNamed⟩
    simp only [named?, Option.ite_none_right_eq_some, Option.some.injEq, Prod.mk.injEq] at hNamed
    obtain ⟨⟨hMember, hUpper⟩, rfl, rfl⟩ := hNamed
    obtain ⟨pre, post, hText, hRun, rfl, hPlace⟩ := mem_placedRuns_iff.mp hMem
    exact ⟨pre, post, hText, hPlace, hRun, hMember, hUpper⟩
  · rintro ⟨pre, post, hText, hPlace, hRun, hMember, hUpper⟩
    refine ⟨(j, pre.getLast?.or before, x), ?_, if_pos ⟨hMember, hUpper⟩⟩
    exact mem_placedRuns_iff.mpr ⟨pre, post, hText, hRun, rfl, hPlace⟩

theorem pairwise_placedNames (i : Nat) (before : Option Char) (t : Text) :
    (placedNames i before t).Pairwise fun p q => p.1 < q.1 := by
  apply (pairwise_placedRuns i before t).filterMap
  rintro ⟨j, b, x⟩ ⟨k, d, y⟩ hBefore p hp q hq
  simp only [named?, Option.ite_none_right_eq_some, Option.some.injEq] at hp hq
  rw [← hp.2, ← hq.2]
  exact hBefore

/-- A bare name lies in its text. -/
theorem bounds_of_mem_placedNames (h : (j, x) ∈ placedNames i before t) :
    i ≤ j ∧ 0 < x.length ∧ j + x.length ≤ i + t.length := by
  obtain ⟨pre, post, rfl, rfl, hRun, -⟩ := mem_placedNames_iff.mp h
  have hLength := List.length_pos_iff.mpr hRun.ne_nil
  simp only [List.length_append]
  omega

end ShortNames.BareName
