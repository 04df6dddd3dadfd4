import Mathlib.Data.List.Chain
import ShortNames.Proofs.QualifiedNames
import ShortNames.Segment

/-!
# Scanning character by character

The scanner reads a name first and tests its boundaries afterwards, so a rejected name is passed
over as a whole. `atoms` tests first and passes over one character at a time. Both find the same
segments: nothing inside a rejected name could have been a name or a literal of its own.
-/

namespace ShortNames.Segment

open QualifiedName (isWordPart isChainPart)

/-- Whether a qualified name may start behind the character `before`. -/
def isOpen (before : Option Char) : Bool :=
  before.all fun c => !Text.isIdentifier c && c != '.'

def nameAt? (before : Option Char) (t : Text) : Option (QualifiedName × Text) :=
  (QualifiedName.read? t).filter fun p => isBounded before p.2

theorem isBounded_iff {before : Option Char} {after : Text} : isBounded before after = true ↔
    isOpen before = true ∧ ∀ c ∈ after.head?, Text.isIdentifier c = false := by
  rw [isBounded, Bool.and_eq_true]
  apply and_congr Iff.rfl
  simp only [Option.all_eq_true, Bool.not_eq_true', Option.mem_def]

theorem nameAt?_eq_some_iff {before : Option Char} {t after : Text} {q : QualifiedName} :
    nameAt? before t = some (q, after) ↔
      QualifiedName.read? t = some (q, after) ∧ isBounded before after = true := by
  simp [nameAt?, Option.filter_eq_some_iff]

theorem nameAt?_some {before : Option Char} {t after : Text} {q : QualifiedName}
    (hq : nameAt? before t = some (q, after)) :
    t = q.text ++ after ∧ q.WellFormed ∧ isOpen before = true ∧
      ∀ c ∈ after.head?, Text.isIdentifier c = false := by
  obtain ⟨hRead, hBounded⟩ := nameAt?_eq_some_iff.mp hq
  obtain ⟨hText, hWellFormed, -⟩ := QualifiedName.read?_eq_some_iff.mp hRead
  exact ⟨hText, hWellFormed, isBounded_iff.mp hBounded⟩

/-- The segments of the rest of a line, with text cut into its characters. -/
def atoms (before : Option Char) : Text → List Segment
  | [] => []
  | c :: t =>
    match _hl : literal? (c :: t) with
    | some (s, after) => literal s :: atoms s.getLast? after
    | none =>
      match _hq : nameAt? before (c :: t) with
      | some (q, after) => qualified q :: atoms q.name.getLast? after
      | none => text [c] :: atoms (some c) t
termination_by t => t.length
decreasing_by
  · exact length_lt_of_literal? _hl
  · exact QualifiedName.length_lt_of_read? (nameAt?_eq_some_iff.mp _hq).1
  · simp

def spelled (w : Text) : List Segment :=
  w.map fun c => text [c]

section Atoms

variable {before : Option Char} {c : Char} {t after : Text}

theorem atoms_literal {s : Text} (hl : literal? t = some (s, after)) :
    atoms before t = literal s :: atoms s.getLast? after := by
  cases t with
  | nil => cases hl
  | cons c t =>
    rw [atoms]
    split
    · rename_i s' after' h
      rw [hl] at h
      cases h
      rfl
    · rename_i h
      rw [hl] at h
      cases h

theorem atoms_qualified {q : QualifiedName} (hl : literal? t = none)
    (hq : nameAt? before t = some (q, after)) :
    atoms before t = qualified q :: atoms q.name.getLast? after := by
  cases t with
  | nil => simp [nameAt?, QualifiedName.read?] at hq
  | cons c t =>
    rw [atoms]
    split
    · rename_i h
      rw [hl] at h
      cases h
    split
    · rename_i q' after' h
      rw [hq] at h
      cases h
      rfl
    · rename_i h
      rw [hq] at h
      cases h

theorem atoms_text (hl : literal? (c :: t) = none) (hq : nameAt? before (c :: t) = none) :
    atoms before (c :: t) = text [c] :: atoms (some c) t := by
  rw [atoms]
  split
  · rename_i h
    rw [hl] at h
    cases h
  split
  · rename_i h
    rw [hq] at h
    cases h
  · rfl

@[simp] theorem source_atoms (before : Option Char) (t : Text) :
    (atoms before t).flatMap source = t := by
  fun_induction atoms before t with
  | case1 => rfl
  | case2 before c t s after h ih =>
    rw [List.flatMap_cons, ih, source, ← (eq_append_of_literal? h).1]
  | case3 before c t h q after hq ih =>
    rw [List.flatMap_cons, ih, source,
      ← QualifiedName.eq_append_of_read? (nameAt?_eq_some_iff.mp hq).1]
  | case4 before c t h hq ih => rw [List.flatMap_cons, ih, source, List.singleton_append]

theorem nameAt?_of_not_open (h : isOpen before = false) (t : Text) : nameAt? before t = none := by
  rw [← Option.not_isSome_iff_eq_none, Option.isSome_iff_exists]
  rintro ⟨⟨q, after⟩, hq⟩
  obtain ⟨-, -, hOpen, -⟩ := nameAt?_some hq
  exact Bool.false_ne_true (h.symm.trans hOpen)

theorem isOpen_of_isChainPart (hc : isChainPart c = true) : isOpen (some c) = false := by
  rw [isChainPart, Bool.or_eq_true] at hc
  rcases hc with hWord | hDot
  · simp [isOpen, QualifiedName.isIdentifier_of_isWordPart hWord]
  · simp [isOpen, beq_iff_eq.mp hDot]

theorem literal?_of_isChainPart (hc : isChainPart c = true) (t : Text) :
    literal? (c :: t) = none := by
  unfold literal?
  split
  · rename_i heq
    rw [(List.cons.inj heq).1] at hc
    exact absurd hc (by decide)
  · rename_i heq
    rw [(List.cons.inj heq).1] at hc
    exact absurd hc (by decide)
  · rfl

theorem atoms_chain {w : Text} (hw : ∀ x ∈ w, isChainPart x = true)
    (hBefore : isOpen before = false) (t : Text) :
    atoms before (w ++ t) = spelled w ++ atoms (w.getLast?.or before) t := by
  induction w generalizing before with
  | nil => rfl
  | cons c w ih =>
    have hc := hw c List.mem_cons_self
    rw [List.cons_append,
      atoms_text (literal?_of_isChainPart hc _) (nameAt?_of_not_open hBefore _),
      ih (fun x hx => hw x (List.mem_cons_of_mem c hx)) (isOpen_of_isChainPart hc)]
    cases w <;> simp [spelled, List.getLast?_cons]

theorem atoms_unbounded {q : QualifiedName} (hq : QualifiedName.read? t = some (q, after))
    (hBounded : isBounded before after = false) :
    atoms before t = spelled q.text ++ atoms q.name.getLast? after := by
  obtain ⟨rfl, hWellFormed, -⟩ := QualifiedName.read?_eq_some_iff.mp hq
  obtain ⟨c, w, hText, hStart⟩ := hWellFormed.exists_text_cons
  have hChain := hWellFormed.chain
  have hLast := hWellFormed.getLast?_text
  rw [hText] at hChain hq hLast ⊢
  have hc := hChain c List.mem_cons_self
  have hNone : nameAt? before (c :: w ++ after) = none := by
    rw [nameAt?, hq, Option.filter_some, if_neg (Bool.not_eq_true _ ▸ hBounded)]
  rw [List.cons_append] at hNone ⊢
  rw [atoms_text (literal?_of_isChainPart hc _) hNone,
    atoms_chain (fun x hx => hChain x (List.mem_cons_of_mem c hx)) (isOpen_of_isChainPart hc),
    ← hLast]
  cases w <;> simp [spelled, List.getLast?_cons]

end Atoms

@[simp] theorem push_text_push_text (t u : Text) {segments : List Segment} :
    push (text t) (push (text u) segments) = push (text (t ++ u)) segments := by
  cases segments with
  | nil => rfl
  | cons s segments =>
    cases s with
    | text v => simp [push]
    | literal v => rfl
    | qualified q => rfl

@[simp] theorem joinText_cons (s : Segment) (segments : List Segment) :
    joinText (s :: segments) = push s (joinText segments) :=
  rfl

theorem joinText_spelled {w : Text} (hw : w ≠ []) (segments : List Segment) :
    joinText (spelled w ++ segments) = push (text w) (joinText segments) := by
  induction w with
  | nil => exact absurd rfl hw
  | cons c w ih =>
    cases w with
    | nil => rfl
    | cons d w =>
      have hTail := ih (List.cons_ne_nil d w)
      rw [spelled, List.map_cons, List.cons_append, joinText_cons, ← spelled, hTail,
        push_text_push_text]
      rfl

/-- The scanner finds the segments that the scan of single characters finds. -/
@[simp] theorem joinText_pieces (before : Option Char) (t : Text) :
    joinText (pieces before t) = joinText (atoms before t) := by
  fun_induction pieces before t with
  | case1 => rw [atoms]
  | case2 before c t s after h ih => simp [atoms_literal h, ih]
  | case3 before c t h q after hq ih =>
    by_cases hBounded : isBounded before after = true
    · simp [atoms_qualified h (nameAt?_eq_some_iff.mpr ⟨hq, hBounded⟩), hBounded, ih]
    · simp [atoms_unbounded hq (Bool.eq_false_iff.mpr hBounded), joinText_spelled q.text_ne_nil,
        hBounded, ih]
  | case4 before c t h hq ih =>
    have hNone : nameAt? before (c :: t) = none := by rw [nameAt?, hq, Option.filter_none]
    simp [atoms_text h hNone, ih]

theorem ofLine_eq_joinText_atoms (line : Text) : ofLine line = joinText (atoms none line) :=
  joinText_pieces none line

/-- What is read off character by character does not see how text is cut. -/
theorem flatMap_joinText {α : Type} {g : Segment → List α}
    (hg : ∀ t u, g (text (t ++ u)) = g (text t) ++ g (text u)) (segments : List Segment) :
    (joinText segments).flatMap g = segments.flatMap g := by
  have hPush (s : Segment) (rest : List Segment) :
      (push s rest).flatMap g = g s ++ rest.flatMap g := by
    unfold push
    split
    · rw [List.flatMap_cons, List.flatMap_cons, hg, List.append_assoc]
    · rfl
  induction segments with
  | nil => rfl
  | cons s segments ih => simp [hPush, ih]

theorem filterMap_push {α : Type} {g : Segment → Option α} (hg : ∀ t, g (text t) = none)
    (s : Segment) (segments : List Segment) :
    (push s segments).filterMap g = (s :: segments).filterMap g := by
  unfold push
  split
  · rw [List.filterMap_cons_none (hg _), List.filterMap_cons_none (hg _),
      List.filterMap_cons_none (hg _)]
  · rfl

/-- What is found in single segments, but not in text, does not see the text at all. -/
theorem filterMap_joinText {α : Type} {g : Segment → Option α} (hg : ∀ t, g (text t) = none)
    (segments : List Segment) : (joinText segments).filterMap g = segments.filterMap g := by
  induction segments with
  | nil => rfl
  | cons s segments ih =>
    simp [filterMap_push hg, List.filterMap_cons, ih]

theorem filterMap_spelled {α : Type} {g : Segment → Option α} (hg : ∀ t, g (text t) = none)
    (w : Text) : (spelled w).filterMap g = [] := by
  rw [spelled, List.filterMap_map]
  exact List.filterMap_eq_nil_iff.mpr fun c _ => hg [c]

@[simp] theorem mem_filterMap_qualifiedName? {segments : List Segment} {q : QualifiedName} :
    q ∈ segments.filterMap qualifiedName? ↔ qualified q ∈ segments := by
  rw [List.mem_filterMap]
  constructor
  · rintro ⟨s, hs, hSome⟩
    cases s with
    | qualified u => rwa [← Option.some.inj hSome]
    | text t | literal t => cases hSome
  · exact fun hq => ⟨_, hq, rfl⟩

theorem wellFormed_of_mem_atoms {before : Option Char} {t : Text} {q : QualifiedName}
    (hq : q ∈ (atoms before t).filterMap qualifiedName?) : q.WellFormed := by
  fun_induction atoms before t with
  | case1 => cases hq
  | case2 before c t s after h ih => exact ih hq
  | case3 before c t h u after hu ih =>
    rw [List.filterMap_cons] at hq
    rcases List.mem_cons.mp hq with rfl | hq
    · exact (nameAt?_some hu).2.1
    · exact ih hq
  | case4 before c t h hu ih => exact ih hq

theorem qualifiedNames_eq (line : Text) :
    qualifiedNames line = (atoms none line).filterMap qualifiedName? := by
  rw [qualifiedNames, ofLine_eq_joinText_atoms, filterMap_joinText fun _ => rfl]

theorem wellFormed_of_mem_qualifiedNames {line : Text} {q : QualifiedName}
    (hq : q ∈ qualifiedNames line) : q.WellFormed := by
  rw [qualifiedNames_eq] at hq
  exact wellFormed_of_mem_atoms hq

section Apart

def IsWordy : Segment → Prop
  | text t => ∃ c ∈ t, Text.isIdentifier c = true
  | literal _ => False
  | qualified _ => True

/-- Neighbours of which a qualified name touches no identifier and follows no dot. -/
structure Apart (r s : Segment) : Prop where
  left : ∀ q, r = qualified q → ¬ IsWordy s
  right : ∀ q, s = qualified q → ¬ IsWordy r ∧ r ≠ text ['.']

variable {before : Option Char} {t : Text}

@[simp] theorem isWordy_text {c : Char} : IsWordy (text [c]) ↔ Text.isIdentifier c = true := by
  simp [IsWordy]

theorem atoms_head? {s : Segment} (hs : (atoms before t).head? = some s) :
    (∀ q, s = qualified q → isOpen before = true) ∧
      (IsWordy s → ∃ c ∈ t.head?, Text.isIdentifier c = true) := by
  revert hs
  fun_cases atoms before t with
  | case1 => nofun
  | case2 c t s' after h =>
    rintro ⟨⟩
    exact ⟨nofun, False.elim⟩
  | case3 c t h q after hq =>
    rintro ⟨⟩
    obtain ⟨hText, hWellFormed, hOpen, -⟩ := nameAt?_some hq
    obtain ⟨d, w, hName, hStart⟩ := hWellFormed.exists_text_cons
    refine ⟨fun _ _ => hOpen, fun _ => ⟨d, ?_, ?_⟩⟩
    · rw [hText, hName]
      rfl
    · apply QualifiedName.isIdentifier_of_isWordPart
      exact QualifiedName.isWordPart_of_isWordStart hStart
  | case4 c t h hq =>
    rintro ⟨⟩
    exact ⟨nofun, fun hWordy => ⟨c, rfl, isWordy_text.mp hWordy⟩⟩

theorem isChain_atoms (before : Option Char) (t : Text) : (atoms before t).IsChain Apart := by
  fun_induction atoms before t with
  | case1 => exact .nil
  | case2 before c t s after h ih => exact ih.cons fun _ _ => ⟨nofun, fun _ _ => ⟨id, nofun⟩⟩
  | case3 before c t h q after hq ih =>
    -- Behind a name stands no identifier, and a name ends in a character that opens none.
    obtain ⟨-, hWellFormed, -, hAfter⟩ := nameAt?_some hq
    apply ih.cons
    intro s hs
    constructor
    · intro _ _ hWordy
      obtain ⟨d, hd, hIdentifier⟩ := (atoms_head? hs).2 hWordy
      rw [hAfter d hd] at hIdentifier
      cases hIdentifier
    · intro u hu
      have hOpen := (atoms_head? hs).1 u hu
      obtain ⟨w, d, hLast⟩ := List.eq_nil_or_concat' q.name |>.resolve_left hWellFormed.name.ne_nil
      have hd := hWellFormed.name.chain d (by rw [hLast]; simp)
      rw [hLast, List.getLast?_concat, isOpen_of_isChainPart hd] at hOpen
      cases hOpen
  | case4 before c t h hq ih =>
    apply ih.cons
    intro s hs
    refine ⟨nofun, ?_⟩
    intro u hu
    have hOpen := (atoms_head? hs).1 u hu
    simp only [isOpen, Option.all_some, Bool.and_eq_true, Bool.not_eq_true', bne_iff_ne] at hOpen
    exact ⟨by simp [hOpen.1], by simpa using hOpen.2⟩

end Apart

end ShortNames.Segment
