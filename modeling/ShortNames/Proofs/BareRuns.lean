import ShortNames.Proofs.BareNames
import ShortNames.Proofs.Borders
import ShortNames.Proofs.Spans

/-!
# Bare names of a whole line

Bare names are read off one piece of text after the other, each as if nothing stood before it. As no
run goes over the border of two segments, and no literal or name ends in a dot, they are the runs of
the whole line that no literal and no qualified name touches.
-/

namespace ShortNames.Segment

variable {i j n : Nat} {s : Segment} {segments : List Segment}

/-- The place and the text of a segment that is no text. -/
def tokenSpan? : Nat × Segment → Option (Nat × Text)
  | (_, text _) => none
  | (i, s) => some (i, s.source)

/-- The literals and the qualified names among the segments, the first of which starts at `i`. -/
def tokenSpans (i : Nat) (segments : List Segment) : List (Nat × Text) :=
  (spans i segments).filterMap tokenSpan?

instance (found : List (Nat × Text)) (j n : Nat) : Decidable (IsClear found j n) :=
  decidable_of_iff (∀ p ∈ found, p.1 + p.2.length ≤ j ∨ j + n ≤ p.1) Prod.forall

@[simp] theorem tokenSpans_text (i : Nat) (t : Text) (segments : List Segment) :
    tokenSpans i (text t :: segments) = tokenSpans (i + t.length) segments :=
  rfl

theorem tokenSpans_token (hs : ∀ t, s ≠ .text t) (i : Nat) (segments : List Segment) :
    tokenSpans i (s :: segments) = (i, s.source) :: tokenSpans (i + s.source.length) segments := by
  cases s with
  | text t => exact absurd rfl (hs t)
  | literal | qualified => rfl

theorem le_of_mem_tokenSpans {p : Nat × Text} (hp : p ∈ tokenSpans i segments) : i ≤ p.1 := by
  induction segments generalizing i with
  | nil => cases hp
  | cons s rest ih =>
    cases s with
    | text t =>
      have := ih hp
      omega
    | literal | qualified =>
      rcases List.mem_cons.mp hp with rfl | hp
      · exact Nat.le_refl i
      · have := ih hp
        omega

/-- What ends before the first segment is clear of all of them. -/
theorem isClear_tokenSpans (h : j + n ≤ i) : IsClear (tokenSpans i segments) j n :=
  fun _ _ hMem => .inr (h.trans (le_of_mem_tokenSpans hMem))

@[simp]
theorem isClear_cons {found : List (Nat × Text)} {t : Text} : IsClear ((i, t) :: found) j n ↔
    (i + t.length ≤ j ∨ j + n ≤ i) ∧ IsClear found j n := by
  unfold IsClear
  constructor
  · intro h
    exact ⟨h i t List.mem_cons_self, fun k s hMem => h k s (List.mem_cons_of_mem _ hMem)⟩
  · rintro ⟨hFirst, hRest⟩ k s hMem
    rcases List.mem_cons.mp hMem with hEq | hMem
    · cases hEq
      exact hFirst
    · exact hRest k s hMem

/-- A segment does not reach behind its end. -/
theorem isClear_behind (h : i + s.source.length ≤ j) :
    IsClear (tokenSpans i (s :: segments)) j n ↔
      IsClear (tokenSpans (i + s.source.length) segments) j n := by
  cases s with
  | text => rfl
  | literal | qualified => exact isClear_cons.trans (and_iff_right (.inl h))

theorem not_isClear_inside (hs : ∀ t, s ≠ .text t) (hj : i ≤ j) (hn : 0 < n)
    (hEnd : j + n ≤ i + s.source.length) : ¬ IsClear (tokenSpans i (s :: segments)) j n := by
  rw [tokenSpans_token hs, isClear_cons]
  omega

end ShortNames.Segment

namespace ShortNames.BareName

open Segment (IsClear tokenSpans Borders IsSound)

/-- `x` stands bare in `t` at place `i`. -/
def StandsBareAt (t : Text) (i : Nat) (x : Text) : Prop :=
  ∃ pre post, t = pre ++ x ++ post ∧ i = pre.length ∧ IsRun pre x post ∧
    pre.getLast? ≠ some '.' ∧ x.head?.any Char.isUpper = true

variable {i : Nat} {before : Option Char} {s : Segment} {segments rest : List Segment}

theorem isBorder_of_isChain (hSound : ∀ r ∈ rest, IsSound r)
    (hChain : (s :: rest).IsChain Borders) : IsBorder s.source (rest.flatMap Segment.source) := by
  cases rest with
  | nil => nofun
  | cons r rest =>
    have hr := (hSound r List.mem_cons_self).source_ne_nil
    rw [IsBorder, List.flatMap_cons, List.head?_append_of_ne_nil _ hr]
    exact ((List.isChain_cons.mp hChain).1 r rfl).run

/-- Inside a segment the bare names of the line are its own: those of a text, and none of a literal
or a name. -/
theorem placedNames_segment (hBefore : ∀ t, s = .text t → before ≠ some '.') :
    ((placedNames i before s.source).filter fun p =>
      IsClear (tokenSpans i (s :: rest)) p.1 p.2.length).map (·.2) = ofSegment s := by
  cases s with
  | text t =>
    rw [List.filter_eq_self.mpr, Segment.source, map_placedNames (hBefore t rfl), ofSegment]
    rintro ⟨j, x⟩ hMem
    obtain ⟨-, -, hEnd⟩ := bounds_of_mem_placedNames hMem
    simp only [Segment.tokenSpans_text]
    exact decide_eq_true (Segment.isClear_tokenSpans hEnd)
  | literal | qualified =>
    rw [List.filter_eq_nil_iff.mpr, List.map_nil, ofSegment]
    rintro ⟨j, x⟩ hMem
    obtain ⟨hStart, hLength, hEnd⟩ := bounds_of_mem_placedNames hMem
    rw [decide_eq_true_eq]
    exact Segment.not_isClear_inside (by simp) hStart hLength hEnd

theorem placedNames_behind (i : Nat) (s : Segment) (rest : List Segment) (before : Option Char)
    (t : Text) :
    (placedNames (i + s.source.length) before t).filter (fun p =>
      IsClear (tokenSpans i (s :: rest)) p.1 p.2.length) =
    (placedNames (i + s.source.length) before t).filter fun p =>
      IsClear (tokenSpans (i + s.source.length) rest) p.1 p.2.length := by
  apply List.filter_congr
  rintro ⟨j, x⟩ hMem
  obtain ⟨hStart, -⟩ := bounds_of_mem_placedNames hMem
  exact decide_eq_decide.mpr (Segment.isClear_behind hStart)

theorem placedNames_segments (hSound : ∀ s ∈ segments, IsSound s)
    (hChain : segments.IsChain Borders) (i : Nat) (before : Option Char)
    (hBefore : ∀ t, segments.head? = some (.text t) → before ≠ some '.') :
    ((placedNames i before (segments.flatMap Segment.source)).filter fun p =>
      IsClear (tokenSpans i segments) p.1 p.2.length).map (·.2) =
        segments.flatMap ofSegment := by
  induction segments generalizing i before with
  | nil =>
    rw [List.flatMap_nil, placedNames, placedRuns]
    rfl
  | cons s rest ih =>
    obtain ⟨hs, hRest⟩ := List.forall_mem_cons.mp hSound
    obtain ⟨hNext, hRestChain⟩ := List.isChain_cons.mp hChain
    obtain ⟨c, hc⟩ := Option.isSome_iff_exists.mp (List.getLast?_isSome.mpr hs.source_ne_nil)
    have hFirst : ∀ t, s = .text t → before ≠ some '.' := fun t ht => hBefore t (congrArg some ht)
    -- Text is read behind a literal or a name, and neither ends in a dot.
    have hBehind : ∀ t, rest.head? = some (.text t) → some c ≠ some '.' := by
      intro t ht
      rw [← hc]
      apply hs.getLast?_ne_dot
      rintro u rfl
      exact (hNext _ ht).text u t rfl rfl
    rw [List.flatMap_cons, List.flatMap_cons, placedNames_append (isBorder_of_isChain hRest hChain),
      List.filter_append, List.map_append, placedNames_segment hFirst, placedNames_behind, hc,
      Option.some_or, ih hRest hRestChain _ _ hBehind]

/-- The bare names of a line are, in the order of their places and as often as they occur, its
longest runs of identifier characters that start with an ASCII capital, follow no dot and share
nothing with a literal or a qualified name. -/
theorem ofLine_eq_standing (line : Text) :
    ∃ places : List (Nat × Text), ofLine line = places.map (·.2) ∧
      places.Pairwise (fun p q => p.1 < q.1) ∧
      ∀ i x, (i, x) ∈ places ↔ StandsBareAt line i x ∧
        IsClear (tokenSpans 0 (Segment.ofLine line)) i x.length := by
  refine ⟨(placedNames 0 none line).filter fun p =>
    IsClear (tokenSpans 0 (Segment.ofLine line)) p.1 p.2.length, ?_, ?_, ?_⟩
  · have hNames := placedNames_segments Segment.isSound_of_mem_ofLine
      (Segment.isChain_ofLine line) 0 none nofun
    rw [Segment.source_ofLine] at hNames
    rw [ofLine_eq, hNames]
  · exact (pairwise_placedNames 0 none line).filter _
  · intro i x
    rw [List.mem_filter, decide_eq_true_eq, mem_placedNames_iff, StandsBareAt]
    simp only [Nat.zero_add, Option.or_none]

example : ofLine "List<String> x = Foo.Of(\"Bar\"), com.acme.Baz.Q;".toList =
    ["List".toList, "String".toList, "Foo".toList] := by
  decide +kernel

end ShortNames.BareName
