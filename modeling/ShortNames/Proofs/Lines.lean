import Mathlib.Data.List.Infix
import ShortNames.Line

/-!
# Lines of a joined text

Joining lines and splitting the text again gives the lines back, up to one thing: a carriage return
at the end of a body belongs to the bare line feed behind it. `absorb` does the same to a line, and
the lines of a text have nothing left to absorb. So `split` and `join` are inverse to each other on
the lists of lines that `LieInText` describes.
-/

namespace ShortNames.Line

/-- The line as it is read again, with a carriage return before a bare line feed in the ending. -/
def absorb (l : Line) : Line :=
  if l.ending = .lf ∧ l.body.getLast? = some '\r' then ⟨l.body.dropLast, .crlf⟩ else l

/-- Lines whose ends can be told: no body holds a line feed, and only the last line lacks its
ending, if it has a body. -/
def Joinable : List Line → Prop
  | [] => True
  | l :: rest => '\n' ∉ l.body ∧ (l.ending = .none → l.body ≠ [] ∧ rest = []) ∧ Joinable rest

def Terminated (lines : List Line) : Prop :=
  ∀ l ∈ lines, '\n' ∉ l.body ∧ l.ending ≠ .none

theorem push_absorb (c : Char) (body : Text) (e : Ending) (he : e ≠ .none) (rest : List Line) :
    push c (absorb ⟨body, e⟩ :: rest) = absorb ⟨c :: body, e⟩ :: rest := by
  cases e with
  | none => exact absurd rfl he
  | crlf => simp [absorb, push]
  | lf =>
    cases body with
    | nil =>
      by_cases hc : c = '\r'
      · simp [absorb, push, hc]
      · simp [absorb, push, hc]
    | cons d body =>
      by_cases hLast : (d :: body).getLast? = some '\r'
      · simp [absorb, push, hLast]
      · simp [absorb, push, hLast]

theorem split_text_append {l : Line} (hBody : '\n' ∉ l.body) (hEnding : l.ending ≠ .none)
    (t : Text) : split (l.text ++ t) = l.absorb :: split t := by
  obtain ⟨body, e⟩ := l
  simp only at hBody hEnding
  induction body with
  | nil =>
    cases e with
    | none => exact absurd rfl hEnding
    | lf => simp [text, Ending.text, split, absorb]
    | crlf => simp [text, Ending.text, split, absorb, push]
  | cons c body ih =>
    rw [List.mem_cons, not_or] at hBody
    have hTail := ih hBody.2
    have hText : text ⟨c :: body, e⟩ ++ t = c :: (text ⟨body, e⟩ ++ t) := rfl
    rw [hText, split, if_neg (Ne.symm hBody.1), hTail, push_absorb c body e hEnding]

theorem split_of_not_mem {body : Text} (hBody : '\n' ∉ body) (hne : body ≠ []) :
    split body = [⟨body, .none⟩] := by
  induction body with
  | nil => exact absurd rfl hne
  | cons c body ih =>
    rw [List.mem_cons, not_or] at hBody
    rw [split, if_neg (Ne.symm hBody.1)]
    cases body with
    | nil => rfl
    | cons d body =>
      rw [ih hBody.2 (List.cons_ne_nil d body)]
      simp [push]

theorem absorb_of_unterminated {l : Line} (h : l.ending = .none) : l.absorb = l := by
  rw [absorb, if_neg]
  rintro ⟨hEnding, -⟩
  rw [h] at hEnding
  cases hEnding

theorem join_cons (l : Line) (lines : List Line) : join (l :: lines) = l.text ++ join lines :=
  rfl

theorem split_join {lines : List Line} (h : Joinable lines) :
    split (join lines) = lines.map absorb := by
  induction lines with
  | nil => rfl
  | cons l lines ih =>
    obtain ⟨hBody, hLast, hRest⟩ := h
    by_cases hEnding : l.ending = .none
    · obtain ⟨hne, rfl⟩ := hLast hEnding
      have hText : join [l] = l.body := by simp [join, text, hEnding, Ending.text]
      rw [hText, split_of_not_mem hBody hne, List.map_singleton, absorb_of_unterminated hEnding,
        ← hEnding]
    · rw [join_cons, split_text_append hBody hEnding, ih hRest, List.map_cons]

theorem map_absorb_of_fixed {lines : List Line} (h : ∀ l ∈ lines, l.absorb = l) :
    lines.map absorb = lines :=
  (List.map_congr_left h).trans (List.map_id lines)

theorem split_join_of_fixed {lines : List Line} (hJoin : Joinable lines)
    (hFixed : ∀ l ∈ lines, l.absorb = l) : split (join lines) = lines := by
  rw [split_join hJoin, map_absorb_of_fixed hFixed]

section Split

theorem joinable_push {c : Char} (hc : c ≠ '\n') {lines : List Line} (h : Joinable lines) :
    Joinable (push c lines) := by
  cases lines with
  | nil => exact ⟨by simpa using hc.symm, fun _ => ⟨by simp, rfl⟩, trivial⟩
  | cons l rest =>
    obtain ⟨hBody, hLast, hRest⟩ := h
    rw [push]
    split
    · refine ⟨by simp, ?_, hRest⟩
      intro hNone
      cases hNone
    · exact ⟨by simpa using ⟨hc.symm, hBody⟩,
        fun hNone => ⟨List.cons_ne_nil c l.body, (hLast hNone).2⟩, hRest⟩

theorem joinable_split (t : Text) : Joinable (split t) := by
  induction t with
  | nil => trivial
  | cons c t ih =>
    rw [split]
    split
    · refine ⟨by simp, ?_, ih⟩
      intro hNone
      cases hNone
    · exact joinable_push ‹_› ih

theorem absorb_push (c : Char) {lines : List Line} (h : ∀ l ∈ lines, l.absorb = l) :
    ∀ l ∈ push c lines, l.absorb = l := by
  cases lines with
  | nil =>
    intro l hl
    rw [push, List.mem_singleton] at hl
    rw [hl, absorb_of_unterminated rfl]
  | cons l rest =>
    have hRest : ∀ m ∈ rest, m.absorb = m := fun m hm => h m (List.mem_cons_of_mem l hm)
    rw [push]
    split
    · intro m hm
      rcases List.mem_cons.mp hm with rfl | hm
      · simp [absorb]
      · exact hRest m hm
    · rename_i hPlain
      intro m hm
      rcases List.mem_cons.mp hm with rfl | hm
      · have hFixed := h l List.mem_cons_self
        obtain ⟨body, e⟩ := l
        cases e with
        | none => exact absorb_of_unterminated rfl
        | crlf => simp [absorb]
        | lf =>
          have hPush := push_absorb c body .lf (by decide) []
          rw [hFixed, push, if_neg hPlain] at hPush
          exact (List.cons.inj hPush).1.symm
      · exact hRest m hm

theorem absorb_of_mem_split {t : Text} : ∀ l ∈ split t, l.absorb = l := by
  induction t with
  | nil => intro l hl; cases hl
  | cons c t ih =>
    rw [split]
    split
    · intro l hl
      rcases List.mem_cons.mp hl with rfl | hl
      · simp [absorb]
      · exact ih l hl
    · exact absorb_push c ih

end Split

section Append

theorem Terminated.joinable {lines : List Line} (h : Terminated lines) : Joinable lines := by
  induction lines with
  | nil => trivial
  | cons l lines ih =>
    obtain ⟨hBody, hEnding⟩ := h l List.mem_cons_self
    exact ⟨hBody, fun hNone => absurd hNone hEnding, ih fun m hm => h m (List.mem_cons_of_mem l hm)⟩

theorem joinable_append_iff {lines rest : List Line} (hne : rest ≠ []) :
    Joinable (lines ++ rest) ↔ Terminated lines ∧ Joinable rest := by
  induction lines with
  | nil => simp [Terminated]
  | cons l lines ih =>
    rw [List.cons_append, Joinable, ih]
    unfold Terminated
    rw [List.forall_mem_cons]
    constructor
    · rintro ⟨hBody, hLast, hLines, hRest⟩
      refine ⟨⟨⟨hBody, ?_⟩, hLines⟩, hRest⟩
      intro hNone
      exact hne (List.append_eq_nil_iff.mp (hLast hNone).2).2
    · rintro ⟨⟨⟨hBody, hEnding⟩, hLines⟩, hRest⟩
      exact ⟨hBody, fun hNone => absurd hNone hEnding, hLines, hRest⟩

theorem Terminated.append {lines rest : List Line} (h : Terminated lines)
    (hRest : Terminated rest) : Terminated (lines ++ rest) :=
  List.forall_mem_append.mpr ⟨h, hRest⟩

theorem Terminated.append_joinable {lines rest : List Line} (h : Terminated lines)
    (hRest : Joinable rest) : Joinable (lines ++ rest) := by
  by_cases hne : rest = []
  · rw [hne, List.append_nil]
    exact h.joinable
  · exact (joinable_append_iff hne).mpr ⟨h, hRest⟩

theorem Joinable.left {lines rest : List Line} (h : Joinable (lines ++ rest)) : Joinable lines := by
  by_cases hne : rest = []
  · rwa [hne, List.append_nil] at h
  · exact ((joinable_append_iff hne).mp h).1.joinable

theorem Joinable.right {lines rest : List Line} (h : Joinable (lines ++ rest)) : Joinable rest := by
  by_cases hne : rest = []
  · rw [hne]
    trivial
  · exact ((joinable_append_iff hne).mp h).2

theorem Joinable.not_mem_body {lines : List Line} (h : Joinable lines) :
    ∀ l ∈ lines, '\n' ∉ l.body := by
  induction lines with
  | nil => exact nofun
  | cons l lines ih => exact List.forall_mem_cons.mpr ⟨h.1, ih h.2.2⟩

/-- Only the last of joinable lines can lack its ending. -/
theorem Joinable.terminated_or {lines : List Line} (h : Joinable lines) :
    Terminated lines ∨ ∃ first body, lines = first ++ [⟨body, .none⟩] ∧ Terminated first ∧
      '\n' ∉ body ∧ body ≠ [] := by
  rcases lines.eq_nil_or_concat' with rfl | ⟨first, ⟨body, e⟩, rfl⟩
  · exact .inl nofun
  · obtain ⟨hFirst, hBody, hLast, -⟩ := (joinable_append_iff (List.cons_ne_nil _ _)).mp h
    by_cases he : e = .none
    · subst he
      exact .inr ⟨first, body, rfl, hFirst, hBody, (hLast rfl).1⟩
    · exact .inl (hFirst.append (List.forall_mem_singleton.mpr ⟨hBody, he⟩))

def EndsOpen (lines : List Line) : Prop :=
  lines.getLast?.map ending = some .none

instance (lines : List Line) : Decidable (EndsOpen lines) :=
  inferInstanceAs (Decidable (_ = _))

theorem endsOpen_concat {lines : List Line} {l : Line} :
    EndsOpen (lines ++ [l]) ↔ l.ending = .none := by
  rw [EndsOpen, List.getLast?_concat, Option.map_some, Option.some_inj]

theorem endsOpen_append (lines : List Line) {rest : List Line} (hne : rest ≠ []) :
    EndsOpen (lines ++ rest) ↔ EndsOpen rest := by
  rw [EndsOpen, List.getLast?_append_of_ne_nil _ hne, EndsOpen]

theorem getLast?_text {l : Line} (h : l.ending ≠ .none) : l.text.getLast? = some '\n' := by
  obtain ⟨body, e⟩ := l
  cases e with
  | none => exact absurd rfl h
  | lf | crlf => simp [text, Ending.text]

theorem getLast?_eq_lf_iff {t : Text} (ht : t ≠ []) :
    t.getLast? = some '\n' ↔ ¬ EndsOpen (split t) := by
  have hText := join_split t
  rcases (joinable_split t).terminated_or with hAll | ⟨first, body, hLines, -, hBody, hne⟩
  · rcases (split t).eq_nil_or_concat' with hNil | ⟨first, l, hLines⟩
    · rw [hNil] at hText
      exact absurd hText.symm ht
    · have hEnding := (hAll l (by simp [hLines])).2
      rw [hLines, endsOpen_concat, ← hText, hLines, join, List.flatMap_append,
        List.flatMap_singleton, List.getLast?_append, getLast?_text hEnding]
      exact iff_of_true rfl hEnding
  · rw [hLines, endsOpen_concat, ← hText, hLines, join, List.flatMap_append,
      List.flatMap_singleton, text, Ending.text, List.append_nil,
      List.getLast?_append_of_ne_nil _ hne]
    apply iff_of_false _ (not_not_intro rfl)
    exact fun hLast => hBody (List.mem_of_getLast? hLast)

end Append

section Parting

theorem absorb_eq_self_iff {l : Line} :
    l.absorb = l ↔ (l.ending = .lf → l.body.getLast? ≠ some '\r') := by
  constructor
  · intro hFixed hEnding hLast
    rw [absorb, if_pos ⟨hEnding, hLast⟩] at hFixed
    rw [← hFixed] at hEnding
    cases hEnding
  · intro hPlain
    rw [absorb, if_neg]
    rintro ⟨hEnding, hLast⟩
    exact hPlain hEnding hLast

/-- Lines as they lie in a text: no body goes on behind a line feed, only the last line can lack
its ending, and then it has a body, and a carriage return directly before a line feed is part of
the ending. -/
structure LieInText (lines : List Line) : Prop where
  unbroken : ∀ l ∈ lines, '\n' ∉ l.body
  ended : ∀ l ∈ lines.dropLast, l.ending ≠ .none
  last : ∀ l ∈ lines.getLast?, l.ending = .none → l.body ≠ []
  whole : ∀ l ∈ lines, l.ending = .lf → l.body.getLast? ≠ some '\r'

theorem lieInText_iff {lines : List Line} :
    LieInText lines ↔ Joinable lines ∧ ∀ l ∈ lines, l.absorb = l := by
  rcases lines.eq_nil_or_concat' with rfl | ⟨first, l, rfl⟩
  · exact iff_of_true ⟨nofun, nofun, nofun, nofun⟩ ⟨trivial, nofun⟩
  · rw [joinable_append_iff (List.cons_ne_nil l [])]
    simp only [absorb_eq_self_iff]
    constructor
    · rintro ⟨hUnbroken, hEnded, hLast, hWhole⟩
      rw [List.dropLast_concat] at hEnded
      rw [List.getLast?_concat] at hLast
      rw [List.forall_mem_append] at hUnbroken
      refine ⟨⟨fun m hm => ⟨hUnbroken.1 m hm, hEnded m hm⟩, ?_⟩, hWhole⟩
      exact ⟨hUnbroken.2 l List.mem_cons_self, fun hNone => ⟨hLast l rfl hNone, rfl⟩, trivial⟩
    · rintro ⟨⟨hFirst, hBody, hLast, -⟩, hWhole⟩
      constructor
      case unbroken =>
        exact List.forall_mem_append.mpr
          ⟨fun m hm => (hFirst m hm).1, List.forall_mem_singleton.mpr hBody⟩
      case ended =>
        rw [List.dropLast_concat]
        exact fun m hm => (hFirst m hm).2
      case last =>
        rw [List.getLast?_concat]
        rintro m ⟨⟩ hNone
        exact (hLast hNone).1
      case whole => exact hWhole

/-- The lines of a text are the one list of lines that lie as in a text and make it up. -/
theorem split_eq_iff (t : Text) (lines : List Line) :
    split t = lines ↔ LieInText lines ∧ join lines = t := by
  rw [lieInText_iff]
  constructor
  · rintro rfl
    exact ⟨⟨joinable_split t, absorb_of_mem_split⟩, join_split t⟩
  · rintro ⟨⟨hJoinable, hFixed⟩, rfl⟩
    exact split_join_of_fixed hJoinable hFixed

example : split "a\r\r\n\n\rb\r".toList =
    [⟨['a', '\r'], .crlf⟩, ⟨[], .lf⟩, ⟨['\r', 'b', '\r'], .none⟩] := by
  decide

end Parting

end ShortNames.Line
