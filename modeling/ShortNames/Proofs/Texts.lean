import Mathlib.Data.List.DropRight
import Mathlib.Data.List.TakeWhile
import ShortNames.Text

/-!
# Laws of the operations on text

Trimming, cutting and keywords by the characters that a text holds. A text without blanks is left
as it stands, and only the ends of a text decide what trimming does to it.
-/

namespace ShortNames.Text

section Run

variable {p : Char → Bool} {w after : Text}

theorem takeWhile_append (hw : ∀ c ∈ w, p c = true) (hAfter : ∀ c ∈ after.head?, p c = false) :
    (w ++ after).takeWhile p = w := by
  rw [List.takeWhile_append_of_pos hw]
  cases after with
  | nil => simp
  | cons c after => simp [hAfter c rfl]

theorem dropWhile_append (hw : ∀ c ∈ w, p c = true) (hAfter : ∀ c ∈ after.head?, p c = false) :
    (w ++ after).dropWhile p = after := by
  rw [List.dropWhile_append_of_pos hw]
  cases after with
  | nil => rfl
  | cons c after => simp [hAfter c rfl]

theorem head?_dropWhile (p : Char → Bool) (t : Text) :
    ∀ c ∈ (t.dropWhile p).head?, p c = false := by
  intro c hc
  have h := List.head?_dropWhile_not p t
  rwa [Option.mem_def.mp hc] at h

end Run

/-- The last character of a text, where one stands before it. -/
theorem getLast?_append_or {s : Text} (hs : s ≠ []) (pre : Text) (before : Option Char) :
    (s ++ pre).getLast?.or before = pre.getLast?.or s.getLast? := by
  obtain ⟨d, hd⟩ := Option.isSome_iff_exists.mp (List.getLast?_isSome.mpr hs)
  rw [List.getLast?_append, hd, Option.or_assoc, Option.some_or]

def IsSolid (t : Text) : Prop :=
  ∀ c ∈ t, isBlank c = false

@[simp] theorem trimStart_cons (c : Char) (t : Text) :
    trimStart (c :: t) = if isBlank c then trimStart t else c :: t :=
  List.dropWhile_cons

@[simp] theorem trimEnd_concat (t : Text) (c : Char) :
    trimEnd (t ++ [c]) = if isBlank c then trimEnd t else t ++ [c] := by
  simp only [trimEnd, List.reverse_append, List.reverse_singleton, List.singleton_append,
    List.dropWhile_cons]
  split
  · rfl
  · simp

theorem trimEnd_cons (c : Char) (t : Text) :
    trimEnd (c :: t) = if isBlank c ∧ trimEnd t = [] then [] else c :: trimEnd t := by
  induction t using List.reverseRecOn with
  | nil => by_cases hc : isBlank c = true <;> simp [trimEnd, hc]
  | append_singleton t d ih =>
    rw [← List.cons_append, trimEnd_concat, trimEnd_concat]
    by_cases hd : isBlank d = true
    · rw [if_pos hd, if_pos hd, ih]
    · have hne : t ++ [d] ≠ [] := by simp
      rw [if_neg hd, if_neg hd, if_neg fun h => hne h.2, List.cons_append]

theorem trimEnd_append_of_solid {w : Text} (hw : IsSolid w) (t : Text) :
    trimEnd (w ++ t) = w ++ trimEnd t := by
  induction w with
  | nil => rfl
  | cons c w ih =>
    have hc : isBlank c = false := hw c List.mem_cons_self
    rw [List.cons_append, trimEnd_cons, ih fun x hx => hw x (List.mem_cons_of_mem c hx),
      if_neg (by simp [hc]), List.cons_append]

@[simp] theorem trimEnd_eq_nil_iff {t : Text} : trimEnd t = [] ↔ ∀ c ∈ t, isBlank c = true := by
  simp [trimEnd, List.dropWhile_eq_nil_iff]

theorem trim_concat_of_blank {c : Char} (hc : isBlank c = true) (t : Text) :
    trim (t ++ [c]) = trim t := by
  unfold trim
  induction t with
  | nil => simp [trimStart, hc]
  | cons d t ih =>
    rw [List.cons_append, trimStart_cons, trimStart_cons]
    by_cases hd : isBlank d = true
    · rw [if_pos hd, if_pos hd, ih]
    · rw [if_neg hd, if_neg hd, ← List.cons_append, trimEnd_concat, if_pos hc]

theorem trim_eq_self {c d : Char} (hc : isBlank c = false) (hd : isBlank d = false) (t : Text) :
    trim (c :: t ++ [d]) = c :: t ++ [d] := by
  rw [trim, List.cons_append, trimStart_cons, if_neg (by simp [hc]), ← List.cons_append,
    trimEnd_concat, if_neg (by simp [hd])]

theorem trim_of_solid {t : Text} (ht : IsSolid t) : trim t = t := by
  have hEnd : trimEnd t = t := by
    have h := trimEnd_append_of_solid ht []
    rwa [List.append_nil, show trimEnd [] = [] from rfl, List.append_nil] at h
  cases t with
  | nil => rfl
  | cons c t =>
    rw [trim, trimStart_cons, if_neg (by simp [ht c List.mem_cons_self]), hEnd]

theorem before_of_not_mem {m : Char} {mark t : Text} (hm : m ∉ t) : before (m :: mark) t = t := by
  have hCut : cut? (m :: mark) t = none := by
    induction t with
    | nil => rfl
    | cons c t ih =>
      have hc : (m == c) = false := by
        rw [beq_eq_false_iff_ne]
        rintro rfl
        exact hm List.mem_cons_self
      rw [cut?, List.isPrefixOf?, hc, if_neg Bool.false_ne_true]
      simp [ih fun h => hm (List.mem_cons_of_mem c h)]
  rw [before, hCut]

@[simp] theorem withoutEnd?_eq_some_iff {mark t base : Text} :
    withoutEnd? mark t = some base ↔ base ++ mark = t :=
  List.isSuffixOf?_eq_some_iff_append_eq

theorem afterKeyword?_isSome {word t : Text} :
    (afterKeyword? word t).isSome ↔ ∃ b rest, t = word ++ b :: rest ∧ isBlank b = true := by
  unfold afterKeyword?
  constructor
  · intro h
    split at h
    · rename_i b rest hPrefix
      split at h
      · exact ⟨b, rest, (List.isPrefixOf?_eq_some_iff_append_eq.mp hPrefix).symm, ‹_›⟩
      · cases h
    · cases h
  · rintro ⟨b, rest, ht, hb⟩
    rw [List.isPrefixOf?_eq_some_iff_append_eq.mpr ht.symm]
    simp [hb]

theorem afterKeyword?_append {word rest : Text} {b : Char} (hb : isBlank b = true) :
    afterKeyword? word (word ++ b :: rest) = some (trimStart rest) := by
  rw [afterKeyword?, List.isPrefixOf?_eq_some_iff_append_eq.mpr rfl]
  simp [hb]

theorem afterKeyword?_of_solid {word t : Text} (ht : IsSolid t) : afterKeyword? word t = none := by
  rw [← Option.not_isSome_iff_eq_none, afterKeyword?_isSome]
  rintro ⟨b, rest, rfl, hb⟩
  exact Bool.false_ne_true ((ht b (by simp)).symm.trans hb)

theorem lastSegment_append {t : Text} (ht : '.' ∉ t) (p : Text) :
    lastSegment (p ++ '.' :: t) = t := by
  have hDots : ∀ x ∈ t.reverse, decide (x ≠ '.') = true := by
    intro x hx
    apply decide_eq_true
    rintro rfl
    exact ht (List.mem_reverse.mp hx)
  rw [lastSegment, List.reverse_append, List.reverse_cons, List.append_assoc,
    List.takeWhile_append_of_pos hDots]
  simp

end ShortNames.Text
