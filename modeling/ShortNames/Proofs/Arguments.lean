import Mathlib.Data.List.Basic
import ShortNames.CommandLine.Arguments
import ShortNames.Proofs.Results

/-!
# Leaving out a flag

Words that are read with `--check` among them are read without it as the same arguments but for the
flag. Where the flag stands it ends a run of paths, or the value of `--root`, earlier than the words
without it do; nothing that is read later depends on that (`Early`).
-/

namespace ShortNames

namespace Arguments

/-! ## Settling -/

namespace State

/-- What settling a state comes to. -/
inductive Settles (s : State) : State → Prop
  | nothing (h : s.pending = .nothing) : Settles s s
  | root {value : String} (h : s.pending = .root (some value))
      (hFirst : ¬ s.arguments.root.isSome = true) (hValue : ¬ value.isEmpty = true) :
    Settles s ⟨{ s.arguments with root := some value }, .nothing⟩
  | paths {paths : List String} (h : s.pending = .paths paths)
      (hPaths : ¬ paths.any String.isEmpty = true) :
    Settles s ⟨{ s.arguments with paths := s.arguments.paths ++ paths }, .nothing⟩

variable {s t : State} {f : Flag}

theorem settle_eq_ok_iff : s.settle = .ok t ↔ Settles s t := by
  constructor
  · fun_cases settle s with
    | case1 hPending =>
      rintro ⟨⟩
      exact .nothing hPending
    | case5 value hPending hFirst hValue =>
      rintro ⟨⟩
      exact .root hPending hFirst hValue
    | case7 paths hPending hPaths =>
      rintro ⟨⟩
      exact .paths hPending hPaths
    | case2 | case3 | case4 | case6 => exact nofun
  · intro h
    cases h with
    | nothing h => rw [settle, h]
    | root h hFirst hValue =>
      rw [settle, h]
      exact (if_neg hFirst).trans (if_neg hValue)
    | paths h hPaths =>
      rw [settle, h]
      exact if_neg hPaths

theorem pending_of_settle (h : s.settle = .ok t) : t.pending = .nothing := by
  cases settle_eq_ok_iff.mp h with
  | nothing hPending => exact hPending
  | root | paths => rfl

theorem flags_of_settle (h : s.settle = .ok t) : t.arguments.flags = s.arguments.flags := by
  cases settle_eq_ok_iff.mp h <;> rfl

theorem settle_of_nothing (h : s.pending = .nothing) : s.settle = .ok s := by
  rw [settle, h]

theorem settle_paths_eq_ok_iff {paths : List String} (h : s.pending = .paths paths) :
    s.settle = .ok t ↔ ¬ paths.any String.isEmpty = true ∧
      t = ⟨{ s.arguments with paths := s.arguments.paths ++ paths }, .nothing⟩ := by
  rw [settle_eq_ok_iff]
  constructor
  · intro hSettles
    cases hSettles with
    | nothing hOther | root hOther => cases h.symm.trans hOther
    | paths hSame hPaths =>
      cases h.symm.trans hSame
      exact ⟨hPaths, rfl⟩
  · rintro ⟨hPaths, rfl⟩
    exact .paths h hPaths

theorem addFlag_eq_ok_iff : s.addFlag f = .ok t ↔
    ∃ u, s.settle = .ok u ∧ f ∉ u.arguments.flags ∧
      t = { u with arguments := { u.arguments with flags := u.arguments.flags ++ [f] } } := by
  rw [addFlag, bind_eq_ok_iff]
  refine exists_congr fun u => and_congr_right fun _ => ?_
  by_cases hFlag : f ∈ u.arguments.flags <;> simp [hFlag, eq_comm]

theorem addPath_eq_ok_iff {path : String} : s.addPath path = .ok t ↔
    (∃ paths, s.pending = .paths paths ∧ t = { s with pending := .paths (paths ++ [path]) }) ∨
      (∀ paths, s.pending ≠ .paths paths) ∧
        ∃ u, s.settle = .ok u ∧ t = { u with pending := .paths [path] } := by
  rw [addPath]
  split
  · rename_i paths hPending
    simp [hPending, eq_comm]
  · rename_i hPending
    have hOther (paths : List String) : s.pending ≠ .paths paths := hPending paths
    rw [bind_eq_ok_iff]
    simp [hOther, Pure.pure, Except.pure, eq_comm]

theorem flags_of_addPath {path : String} (h : s.addPath path = .ok t) :
    t.arguments.flags = s.arguments.flags := by
  rcases addPath_eq_ok_iff.mp h with ⟨paths, -, rfl⟩ | ⟨-, u, hSettle, rfl⟩
  · rfl
  · exact (flags_of_settle hSettle :)

end State

/-! ## What a word does -/

theorem proceed_eq_ok_iff {x : Except ArgumentError State} {s : State} :
    proceed x = .ok (.inl s) ↔ x = .ok s := by
  rw [proceed]
  cases x <;> simp [Except.map]

/-- No state is left to go on from, and nothing is to be run. -/
def Ends (p : Progress) : Prop :=
  ∀ x, p = .ok x → x = .inr .help ∨ x = .inr .version

theorem ends_error (e : ArgumentError) : Ends (.error e) :=
  nofun

theorem ends_finish {s : State} {r : Request} (hr : r = .help ∨ r = .version) :
    Ends (finish s r) := by
  intro x hx
  rw [finish] at hx
  cases hSettle : s.settle with
  | error e => simp [hSettle, Except.map] at hx
  | ok t =>
    rw [hSettle] at hx
    obtain rfl := Except.ok.inj hx
    simpa using hr

/-- What one word does, in whatever state it is read. -/
inductive WordForm (word : String) : Prop
  | flag (f : Flag) (hCheck : f = .check → word = "--check")
      (h : ∀ s, step s word = proceed (s.addFlag f))
  | root (value : String)
      (h : ∀ s : State, step s word =
        s.settle >>= fun s => proceed (State.settle { s with pending := .root (some value) }))
  | openRoot
      (h : ∀ s : State, step s word =
        s.settle >>= fun s => pure (.inl { s with pending := .root none }))
  | bare (h : ∀ s, step s word = bare s word)
  | last (h : ∀ s, Ends (step s word))

theorem wordForm_of_long {word name : String} {value : Option String}
    (h : ∀ s, step s word = long s name value)
    (hCheck : name = "--check" → value = none → word = "--check") : WordForm word := by
  fun_cases long State.start name value with
  | case1 =>
    cases value with
    | some v => exact .last fun s => by rw [h]; exact ends_error _
    | none => exact .flag .dryRun nofun h
  | case2 =>
    cases value with
    | some v => exact .last fun s => by rw [h]; exact ends_error _
    | none => exact .flag .check (fun _ => hCheck rfl rfl) h
  | case3 =>
    cases value with
    | some v => exact .last fun s => by rw [h]; exact ends_error _
    | none => exact .flag .verbose nofun h
  | case4 | case5 =>
    cases value with
    | some v => exact .last fun s => by rw [h]; exact ends_error _
    | none => exact .last fun s => by rw [h]; exact ends_finish (by simp)
  | case6 value => exact .root value h
  | case7 => exact .openRoot h
  | case8 =>
    refine .last fun s => ?_
    rw [h, long]
    · exact ends_error _
    all_goals assumption

theorem ends_short {s : State} (hVerbose : .verbose ∈ s.arguments.flags)
    (hSettled : s.settle = .ok s) {letters : List Char} (hLetters : letters ≠ []) :
    Ends (short s letters) := by
  fun_cases short s letters with
  | case1 => exact absurd rfl hLetters
  | case2 rest =>
    have hRefused : s.addFlag .verbose = .error (.repeated Flag.verbose.name) := by
      rw [State.addFlag, hSettled]
      exact if_pos hVerbose
    rw [hRefused]
    exact ends_error _
  | case3 => exact ends_finish (by simp)
  | case4 => exact ends_finish (by simp)
  | case5 => exact ends_error _

theorem wordForm_of_short {word : String} {letters : List Char}
    (h : ∀ s, step s word = short s letters) (hLetters : letters ≠ []) : WordForm word := by
  fun_cases short State.start letters with
  | case1 => exact absurd rfl hLetters
  | case2 rest =>
    cases rest with
    | nil =>
      refine .flag .verbose nofun fun s => ?_
      rw [h, short, proceed]
      cases s.addFlag .verbose <;> rfl
    | cons c rest =>
      refine .last fun s => ?_
      rw [h, short]
      cases hAdd : s.addFlag .verbose with
      | error e => exact ends_error e
      | ok t =>
        obtain ⟨u, hSettle, -, hState⟩ := State.addFlag_eq_ok_iff.mp hAdd
        have hVerbose : .verbose ∈ t.arguments.flags := by simp [hState]
        have hNothing : t.pending = .nothing := by
          rw [hState]
          exact (State.pending_of_settle hSettle :)
        have hMore : c :: rest ≠ [] := nofun
        exact ends_short hVerbose (State.settle_of_nothing hNothing) hMore
  | case3 => exact .last fun s => by rw [h]; exact ends_finish (by simp)
  | case4 => exact .last fun s => by rw [h]; exact ends_finish (by simp)
  | case5 =>
    refine .last fun s => ?_
    rw [h, short]
    · exact ends_error _
    all_goals assumption

theorem splitValue_none {word : List Char} (h : (splitValue word).2 = none) :
    (splitValue word).1 = String.ofList word := by
  rw [splitValue] at h ⊢
  split at h
  · rfl
  · cases h

theorem wordForm (word : String) : WordForm word := by
  fun_cases step State.start word
  case case1 rest hWord name value hSplit =>
    have hName : (splitValue word.toList).1 = name := by rw [hWord, hSplit]
    have hValue : (splitValue word.toList).2 = value := by rw [hWord, hSplit]
    have hLong (s : State) : step s word = long s name value := by
      rw [step, hWord]
      simp only [hSplit]
    apply wordForm_of_long hLong
    rintro rfl rfl
    rw [splitValue_none hValue] at hName
    rwa [String.ofList_toList] at hName
  case case2 c rest hDash hWord =>
    have hShort (s : State) : step s word = short s (c :: rest) := by
      rw [step, hWord]
      split
      · rename_i hTwo
        cases hTwo
        exact absurd rfl hDash
      · rename_i hOne
        cases hOne
        rfl
      · rename_i hNone
        exact (hNone _ _ rfl).elim
    exact wordForm_of_short hShort nofun
  case case3 hTwo hOne =>
    refine .bare fun s => ?_
    rw [step]
    split
    · exact (hTwo _ ‹_›).elim
    · exact (hOne _ _ ‹_›).elim
    · rfl

theorem proceed_ne_inr (x : Except ArgumentError State) (r : Request) :
    proceed x ≠ .ok (.inr r) := by
  rw [proceed]
  cases x <;> nofun

theorem step_ne_run (s : State) (word : String) (a : Arguments) :
    step s word ≠ .ok (.inr (.run a)) := by
  cases wordForm word with
  | flag f _ h =>
    rw [h]
    exact proceed_ne_inr _ _
  | root value h =>
    intro hRun
    rw [h] at hRun
    obtain ⟨t, -, hRun⟩ := bind_eq_ok_iff.mp hRun
    exact proceed_ne_inr _ _ hRun
  | openRoot h =>
    intro hRun
    rw [h] at hRun
    obtain ⟨t, -, hRun⟩ := bind_eq_ok_iff.mp hRun
    cases hRun
  | bare h =>
    rw [h, bare]
    split
    · nofun
    · exact proceed_ne_inr _ _
  | last h =>
    intro hRun
    rcases h s _ hRun with hEnd | hEnd <;> cases hEnd

theorem conclude_eq_run_iff {s : State} {a : Arguments} : conclude s = .ok (.run a) ↔
    ∃ t, s.settle = .ok t ∧ t.arguments = a ∧ (a.flags.filter (· ≠ .verbose)).length ≤ 1 := by
  rw [conclude, bind_eq_ok_iff]
  refine exists_congr fun t => and_congr_right fun _ => ?_
  split
  · rename_i hMany
    refine iff_of_false nofun ?_
    rintro ⟨rfl, hFew⟩
    rw [hMany] at hFew
    simp at hFew
  · rename_i hNot
    have hFew : (t.arguments.flags.filter (· ≠ .verbose)).length ≤ 1 := by
      rcases hFlags : t.arguments.flags.filter (· ≠ .verbose) with _ | ⟨first, _ | ⟨second, rest⟩⟩
      · rw [hFlags]
        exact Nat.zero_le 1
      · rw [hFlags]
        exact Nat.le_refl 1
      · exact (hNot _ _ _ hFlags).elim
    constructor
    · rintro ⟨⟩
      exact ⟨rfl, hFew⟩
    · rintro ⟨rfl, -⟩
      rfl

theorem exists_step_of_readFrom {s : State} {word : String} {words : List String} {a : Arguments}
    (hWord : word ≠ "--") (h : readFrom s (word :: words) = .ok (.run a)) :
    ∃ t, step s word = .ok (.inl t) ∧ readFrom t words = .ok (.run a) := by
  rw [readFrom, if_neg hWord] at h
  cases hStep : step s word with
  | error e => simp [hStep] at h
  | ok x =>
    rw [hStep] at h
    cases x with
    | inl t => exact ⟨t, rfl, h⟩
    | inr r =>
      obtain rfl := Except.ok.inj h
      exact absurd hStep (step_ne_run s word a)

theorem readFrom_of_step {s t : State} {word : String} (hWord : word ≠ "--")
    (hStep : step s word = .ok (.inl t)) (words : List String) :
    readFrom s (word :: words) = readFrom t words := by
  rw [readFrom, if_neg hWord, hStep]

/-! ## Settling early -/

/-- The second state has settled some of what the first one waits to settle. -/
inductive Early (s : State) : State → Prop
  | same : Early s s
  | settled {t : State} (h : s.settle = .ok t) : Early s t
  | cut {ps qs : List String} (hPending : s.pending = .paths (ps ++ qs))
      (hNone : ¬ ps.any String.isEmpty = true) :
    Early s ⟨{ s.arguments with paths := s.arguments.paths ++ ps }, .paths qs⟩

namespace Early

variable {s t u : State}

theorem settle (h : Early s t) (hSettle : t.settle = .ok u) : s.settle = .ok u := by
  cases h with
  | same => exact hSettle
  | settled h =>
    rw [State.settle_of_nothing (State.pending_of_settle h)] at hSettle
    rwa [← Except.ok.inj hSettle]
  | cut hPending hNone =>
    obtain ⟨hOthers, rfl⟩ := (State.settle_paths_eq_ok_iff rfl).mp hSettle
    refine (State.settle_paths_eq_ok_iff hPending).mpr ⟨?_, ?_⟩
    · rw [List.any_append, Bool.or_eq_true]
      exact not_or_intro hNone hOthers
    · rw [List.append_assoc]

theorem addPath {path : String} (h : Early s t) (hAdd : t.addPath path = .ok u) :
    ∃ s', s.addPath path = .ok s' ∧ Early s' u := by
  cases h with
  | same => exact ⟨u, hAdd, .same⟩
  | settled h =>
    have hNothing := State.pending_of_settle h
    rw [State.addPath, hNothing] at hAdd
    simp only [State.settle_of_nothing hNothing] at hAdd
    obtain rfl := Except.ok.inj hAdd
    rw [State.addPath]
    split
    · rename_i ps hPending
      obtain ⟨hNone, rfl⟩ := (State.settle_paths_eq_ok_iff hPending).mp h
      exact ⟨_, rfl, .cut rfl hNone⟩
    · rw [h]
      exact ⟨_, rfl, .same⟩
  | @cut ps qs hPending hNone =>
    obtain rfl := Except.ok.inj hAdd
    refine ⟨_, by rw [State.addPath, hPending], ?_⟩
    exact .cut (by rw [List.append_assoc]) hNone

theorem pending_eq_iff (h : Early s t) : s.pending = .root none ↔ t.pending = .root none := by
  cases h with
  | same => rfl
  | settled hSettle =>
    rw [State.pending_of_settle hSettle]
    refine iff_of_false (fun hOpen => ?_) nofun
    rw [State.settle, hOpen] at hSettle
    cases hSettle
  | cut hPending => simp [hPending]

theorem eq_of_open (h : Early s t) (hOpen : t.pending = .root none) : s = t := by
  cases h with
  | same => rfl
  | settled hSettle => cases (State.pending_of_settle hSettle).symm.trans hOpen
  | cut => cases hOpen

end Early

/-! ## Without the flag -/

/-- The arguments without `--check`. -/
def unchecked (a : Arguments) : Arguments :=
  { a with flags := a.flags.erase .check }

namespace State

variable {s t : State}

def unchecked (s : State) : State :=
  { s with arguments := s.arguments.unchecked }

theorem settle_unchecked (h : s.settle = .ok t) : s.unchecked.settle = .ok t.unchecked := by
  rw [settle_eq_ok_iff] at h ⊢
  cases h with
  | nothing h => exact .nothing h
  | root h hFirst hValue => exact .root h hFirst hValue
  | paths h hPaths => exact .paths h hPaths

theorem addPath_unchecked {path : String} (h : s.addPath path = .ok t) :
    s.unchecked.addPath path = .ok t.unchecked := by
  rw [addPath_eq_ok_iff] at h ⊢
  rcases h with ⟨paths, hPending, rfl⟩ | ⟨hPending, u, hSettle, rfl⟩
  · exact .inl ⟨paths, hPending, rfl⟩
  · exact .inr ⟨hPending, u.unchecked, settle_unchecked hSettle, rfl⟩

end State

/-- The first state has read the same words as the second, but for one `--check`. -/
structure Omits (s u : State) : Prop where
  checked : .check ∈ u.arguments.flags
  early : Early s u.unchecked

namespace Omits

variable {s u u' : State}

theorem settle (h : Omits s u) (hSettle : u.settle = .ok u') :
    s.settle = .ok u'.unchecked ∧ .check ∈ u'.arguments.flags := by
  refine ⟨h.early.settle (State.settle_unchecked hSettle), ?_⟩
  rw [State.flags_of_settle hSettle]
  exact h.checked

theorem addFlag {f : Flag} (h : Omits s u) (hAdd : u.addFlag f = .ok u') :
    ∃ s', s.addFlag f = .ok s' ∧ Omits s' u' := by
  obtain ⟨t, hSettle, hNew, rfl⟩ := State.addFlag_eq_ok_iff.mp hAdd
  obtain ⟨hSettled, hChecked⟩ := h.settle hSettle
  have hOther : f ∉ t.unchecked.arguments.flags := fun hOld => hNew (List.mem_of_mem_erase hOld)
  refine ⟨_, State.addFlag_eq_ok_iff.mpr ⟨_, hSettled, hOther, rfl⟩, ?_, ?_⟩
  · exact List.mem_append_left _ hChecked
  · have hErase := List.erase_append_left [f] hChecked
    simp only [State.unchecked, Arguments.unchecked, hErase]
    exact .same

theorem addPath {path : String} (h : Omits s u) (hAdd : u.addPath path = .ok u') :
    ∃ s', s.addPath path = .ok s' ∧ Omits s' u' := by
  obtain ⟨s', hAdded, hEarly⟩ := h.early.addPath (State.addPath_unchecked hAdd)
  refine ⟨s', hAdded, ?_, hEarly⟩
  rw [State.flags_of_addPath hAdd]
  exact h.checked

theorem bare {word : String} (h : Omits s u) (hBare : bare u word = .ok (.inl u')) :
    ∃ s', Arguments.bare s word = .ok (.inl s') ∧ Omits s' u' := by
  have hPending : s.pending = .root none ↔ u.pending = .root none := h.early.pending_eq_iff
  rw [Arguments.bare] at hBare
  split at hBare
  · rename_i hOpen
    obtain rfl := Sum.inl.inj (Except.ok.inj hBare)
    refine ⟨{ u.unchecked with pending := .root (some word) }, ?_, h.checked, .same⟩
    rw [← h.early.eq_of_open hOpen, Arguments.bare, hPending.mpr hOpen]
  · rename_i hOther
    obtain ⟨s', hAdded, hOmits⟩ := h.addPath (proceed_eq_ok_iff.mp hBare)
    refine ⟨s', ?_, hOmits⟩
    rw [Arguments.bare]
    split
    · exact absurd (hPending.mp ‹_›) hOther
    · exact proceed_eq_ok_iff.mpr hAdded

theorem step {word : String} (h : Omits s u) (hStep : step u word = .ok (.inl u')) :
    ∃ s', Arguments.step s word = .ok (.inl s') ∧ Omits s' u' := by
  cases wordForm word with
  | flag f _ hForm =>
    rw [hForm, proceed_eq_ok_iff] at hStep
    obtain ⟨s', hAdded, hOmits⟩ := h.addFlag hStep
    exact ⟨s', by rw [hForm, hAdded]; rfl, hOmits⟩
  | root value hForm =>
    rw [hForm] at hStep
    obtain ⟨t, hSettle, hNext⟩ := bind_eq_ok_iff.mp hStep
    obtain ⟨hSettled, hChecked⟩ := h.settle hSettle
    have hAgain := proceed_eq_ok_iff.mp hNext
    refine ⟨u'.unchecked, ?_, ?_, .same⟩
    · rw [hForm, hSettled]
      exact proceed_eq_ok_iff.mpr (State.settle_unchecked hAgain)
    · rw [State.flags_of_settle hAgain]
      exact hChecked
  | openRoot hForm =>
    rw [hForm] at hStep
    obtain ⟨t, hSettle, hNext⟩ := bind_eq_ok_iff.mp hStep
    obtain ⟨hSettled, hChecked⟩ := h.settle hSettle
    obtain rfl := Sum.inl.inj (Except.ok.inj hNext)
    refine ⟨{ t.unchecked with pending := .root none }, ?_, hChecked, .same⟩
    rw [hForm, hSettled]
    rfl
  | bare hForm =>
    rw [hForm] at hStep
    obtain ⟨s', hBare, hOmits⟩ := h.bare hStep
    exact ⟨s', by rw [hForm, hBare], hOmits⟩
  | last hForm => rcases hForm u _ hStep with hEnd | hEnd <;> cases hEnd

theorem conclude {a : Arguments} (h : Omits s u) (hRun : conclude u = .ok (.run a)) :
    Arguments.conclude s = .ok (.run a.unchecked) := by
  obtain ⟨t, hSettle, rfl, hFew⟩ := conclude_eq_run_iff.mp hRun
  refine conclude_eq_run_iff.mpr ⟨t.unchecked, (h.settle hSettle).1, rfl, ?_⟩
  exact Nat.le_trans (List.erase_sublist.filter _).length_le hFew

theorem readPaths {a : Arguments} {words : List String} (h : Omits s u)
    (hRun : readPaths u words = .ok (.run a)) :
    Arguments.readPaths s words = .ok (.run a.unchecked) := by
  induction words generalizing s u with
  | nil => exact h.conclude hRun
  | cons word words ih =>
    obtain ⟨u', hAdd, hRest⟩ := bind_eq_ok_iff.mp hRun
    obtain ⟨s', hAdded, hOmits⟩ := h.addPath hAdd
    rw [Arguments.readPaths, hAdded]
    exact ih hOmits hRest

theorem readFrom {a : Arguments} {words : List String} (h : Omits s u)
    (hRun : readFrom u words = .ok (.run a)) :
    Arguments.readFrom s words = .ok (.run a.unchecked) := by
  induction words generalizing s u with
  | nil => exact h.conclude hRun
  | cons word words ih =>
    by_cases hWord : word = "--"
    · rw [Arguments.readFrom, if_pos hWord] at hRun ⊢
      exact h.readPaths hRun
    · obtain ⟨u', hStep, hRest⟩ := exists_step_of_readFrom hWord hRun
      obtain ⟨s', hStepped, hOmits⟩ := h.step hStep
      rw [readFrom_of_step hWord hStepped]
      exact ih hOmits hRest

end Omits

/-! ## Reading -/

section Read

variable {s : State} {words : List String} {a : Arguments}

theorem flags_of_readPaths (h : readPaths s words = .ok (.run a)) :
    a.flags = s.arguments.flags := by
  induction words generalizing s with
  | nil =>
    obtain ⟨t, hSettle, rfl, -⟩ := conclude_eq_run_iff.mp h
    exact State.flags_of_settle hSettle
  | cons word words ih =>
    obtain ⟨t, hAdd, hRest⟩ := bind_eq_ok_iff.mp h
    rw [ih hRest, State.flags_of_addPath hAdd]

theorem flags_of_step {t : State} {word : String} (hStep : step s word = .ok (.inl t)) :
    t.arguments.flags = s.arguments.flags ∨
      ∃ f, (f = .check → word = "--check") ∧ t.arguments.flags = s.arguments.flags ++ [f] := by
  cases wordForm word with
  | flag f hCheck hForm =>
    rw [hForm, proceed_eq_ok_iff] at hStep
    obtain ⟨u, hSettle, -, rfl⟩ := State.addFlag_eq_ok_iff.mp hStep
    exact .inr ⟨f, hCheck, congrArg (· ++ [f]) (State.flags_of_settle hSettle)⟩
  | root value hForm =>
    rw [hForm] at hStep
    obtain ⟨u, hSettle, hNext⟩ := bind_eq_ok_iff.mp hStep
    have hFirst := State.flags_of_settle hSettle
    have hAgain := State.flags_of_settle (proceed_eq_ok_iff.mp hNext)
    exact .inl (hAgain.trans hFirst)
  | openRoot hForm =>
    rw [hForm] at hStep
    obtain ⟨u, hSettle, hNext⟩ := bind_eq_ok_iff.mp hStep
    have hFirst := State.flags_of_settle hSettle
    obtain rfl := Sum.inl.inj (Except.ok.inj hNext)
    exact .inl hFirst
  | bare hForm =>
    rw [hForm, bare] at hStep
    split at hStep
    · obtain rfl := Sum.inl.inj (Except.ok.inj hStep)
      exact .inl rfl
    · exact .inl (State.flags_of_addPath (proceed_eq_ok_iff.mp hStep))
  | last hForm => rcases hForm s _ hStep with hEnd | hEnd <;> cases hEnd

theorem readFrom_erase (h : readFrom s words = .ok (.run a))
    (hFlags : .check ∉ s.arguments.flags) (hCheck : .check ∈ a.flags) :
    readFrom s (words.erase "--check") = .ok (.run a.unchecked) := by
  induction words generalizing s with
  | nil =>
    obtain ⟨t, hSettle, rfl, -⟩ := conclude_eq_run_iff.mp h
    rw [State.flags_of_settle hSettle] at hCheck
    exact absurd hCheck hFlags
  | cons word words ih =>
    by_cases hPaths : word = "--"
    · rw [readFrom, if_pos hPaths] at h
      rw [flags_of_readPaths h] at hCheck
      exact absurd hCheck hFlags
    obtain ⟨t, hStep, hRest⟩ := exists_step_of_readFrom hPaths h
    by_cases hWord : word = "--check"
    · subst hWord
      rw [List.erase_cons_head]
      have hAdd : s.addFlag .check = .ok t := proceed_eq_ok_iff.mp hStep
      obtain ⟨u, hSettle, hNew, rfl⟩ := State.addFlag_eq_ok_iff.mp hAdd
      have hErase : (u.arguments.flags ++ [Flag.check]).erase .check = u.arguments.flags := by
        rw [List.erase_append_right _ hNew, List.erase_cons_head, List.append_nil]
      refine Omits.readFrom ⟨List.mem_append_right _ List.mem_cons_self, .settled ?_⟩ hRest
      simp only [State.unchecked, unchecked, hErase]
      exact hSettle
    · rw [List.erase_cons_tail (by simpa using hWord), readFrom_of_step hPaths hStep]
      refine ih hRest ?_
      rcases flags_of_step hStep with hSame | ⟨f, hf, hMore⟩
      · rwa [hSame]
      · rw [hMore, List.mem_append, List.mem_singleton]
        exact not_or_intro hFlags fun hSame => hWord (hf hSame.symm)

/-- Words with `--check` among them are read without it too. -/
theorem read_erase_check (h : read words = .ok (.run a)) (hCheck : .check ∈ a.flags) :
    read (words.erase "--check") = .ok (.run a.unchecked) :=
  readFrom_erase h nofun hCheck

theorem exists_conclude_of_readPaths (h : readPaths s words = .ok (.run a)) :
    ∃ t, conclude t = .ok (.run a) := by
  induction words generalizing s with
  | nil => exact ⟨s, h⟩
  | cons word words ih =>
    obtain ⟨t, -, hRest⟩ := bind_eq_ok_iff.mp h
    exact ih hRest

theorem exists_conclude_of_readFrom (h : readFrom s words = .ok (.run a)) :
    ∃ t, conclude t = .ok (.run a) := by
  induction words generalizing s with
  | nil => exact ⟨s, h⟩
  | cons word words ih =>
    by_cases hPaths : word = "--"
    · rw [readFrom, if_pos hPaths] at h
      exact exists_conclude_of_readPaths h
    · obtain ⟨t, -, hRest⟩ := exists_step_of_readFrom hPaths h
      exact ih hRest

/-- At most one flag says what to do with the files. -/
theorem filter_flags_length_le (h : read words = .ok (.run a)) :
    (a.flags.filter (· ≠ .verbose)).length ≤ 1 := by
  obtain ⟨s, hEnd⟩ := exists_conclude_of_readFrom h
  obtain ⟨t, -, -, hFew⟩ := conclude_eq_run_iff.mp hEnd
  exact hFew

end Read

end Arguments

end ShortNames
