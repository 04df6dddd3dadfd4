import ShortNames.Proofs.LiteralGrammar
import ShortNames.Proofs.Shortening

/-!
# Scanning a shortened line again

A shortened line has the segments of the line it came from, with short names as text: no new name
arises, and no new literal either as long as no name of one letter comes to stand between
apostrophes. There it can: `'a.B'` is text and a name, `'B'` is a character.
-/

namespace ShortNames

open QualifiedName (isWordPart isChainPart isWordStart)

/-- A name that is written short before such a text cannot become the inside of a literal. -/
def NoApostrophe (t : Text) : Prop :=
  t.head? ≠ some '\''

instance : DecidablePred NoApostrophe :=
  fun t => inferInstanceAs (Decidable (t.head? ≠ _))

namespace Segment

/-- Every qualified name of the segments stands before a text that is `ok`. -/
def NamesBefore (ok : Text → Prop) : List Segment → Prop
  | [] => True
  | .qualified _ :: rest => ok (rest.flatMap source) ∧ NamesBefore ok rest
  | .text _ :: rest | .literal _ :: rest => NamesBefore ok rest

instance namesBefore_decidable (ok : Text → Prop) [DecidablePred ok] :
    DecidablePred (NamesBefore ok)
  | [] => .isTrue trivial
  | .qualified _ :: rest =>
    have := namesBefore_decidable ok rest
    inferInstanceAs (Decidable (_ ∧ _))
  | .text _ :: rest | .literal _ :: rest => namesBefore_decidable ok rest

/-- The text ends in what can open a character literal. -/
def OpensQuote (t : Text) : Prop :=
  ['\''] <:+ t ∨ ['\'', '\\'] <:+ t

instance : DecidablePred OpensQuote :=
  fun _ => inferInstanceAs (Decidable (_ ∨ _))

/-- The segments start with a name that `f` shortens to one letter, before an apostrophe. -/
def ClosesQuote (f : QualifiedName → Bool) : List Segment → Prop
  | .qualified q :: rest =>
    f q = true ∧ q.name.length = 1 ∧ (rest.flatMap source).head? = some '\''
  | _ => False

instance closesQuote_decidable (f : QualifiedName → Bool) : DecidablePred (ClosesQuote f)
  | .qualified _ :: _ => inferInstanceAs (Decidable (_ ∧ _ ∧ _))
  | [] | .text _ :: _ | .literal _ :: _ => .isFalse id

/-- No name becomes the inside of a character literal when the names of `f` are written short. -/
def NoneQuoted (f : QualifiedName → Bool) : List Segment → Prop
  | [] => True
  | .text t :: rest => ¬ (OpensQuote t ∧ ClosesQuote f rest) ∧ NoneQuoted f rest
  | .qualified _ :: rest | .literal _ :: rest => NoneQuoted f rest

instance noneQuoted_decidable (f : QualifiedName → Bool) : DecidablePred (NoneQuoted f)
  | [] => .isTrue trivial
  | .text _ :: rest =>
    have := noneQuoted_decidable f rest
    inferInstanceAs (Decidable (_ ∧ _))
  | .qualified _ :: rest | .literal _ :: rest => noneQuoted_decidable f rest

/-- Once the names of `f` are written short, the segments start with the rest `s` of a character
literal whose apostrophe stands before them. -/
inductive QuotesName (f : QualifiedName → Bool) : List Segment → Text → Prop
  | plain {q : QualifiedName} {rest : List Segment} (h : ClosesQuote f (qualified q :: rest)) :
    QuotesName f (qualified q :: rest) (q.name ++ ['\''])
  | escaped {q : QualifiedName} {rest : List Segment} (h : ClosesQuote f (qualified q :: rest)) :
    QuotesName f (text ['\\'] :: qualified q :: rest) ('\\' :: (q.name ++ ['\'']))

section Quotes

variable {f : QualifiedName → Bool} {segments : List Segment} {t : Text}

theorem noneQuoted_of_namesBefore (h : NamesBefore NoApostrophe segments) :
    NoneQuoted f segments := by
  induction segments with
  | nil => trivial
  | cons s segments ih =>
    cases s with
    | qualified q => exact ih h.2
    | literal u => exact ih h
    | text u =>
      refine ⟨?_, ih h⟩
      rintro ⟨-, hCloses⟩
      cases segments with
      | nil => exact hCloses
      | cons s segments =>
        cases s with
        | qualified q => exact h.1 hCloses.2.2
        | text v | literal v => exact hCloses

theorem noneQuoted_of_push_text (h : NoneQuoted f (push (text t) segments)) :
    NoneQuoted f segments := by
  cases segments with
  | nil => trivial
  | cons s segments =>
    cases s with
    | text u =>
      refine ⟨?_, h.2⟩
      rintro ⟨hOpens, hCloses⟩
      have hSuffix := List.suffix_append t u
      exact h.1 ⟨hOpens.imp (·.trans hSuffix) (·.trans hSuffix), hCloses⟩
    | literal u | qualified q => exact h.2

theorem not_closesQuote (hOpens : OpensQuote t)
    (h : NoneQuoted f (push (text t) (joinText segments))) : ¬ ClosesQuote f segments := by
  intro hCloses
  cases segments with
  | nil => exact hCloses
  | cons s segments =>
    cases s with
    | text u | literal u => exact hCloses
    | qualified q =>
      apply h.1
      refine ⟨hOpens, hCloses.1, hCloses.2.1, ?_⟩
      rw [← hCloses.2.2]
      exact congrArg List.head? (source_joinText segments)

theorem not_quotesName {s : Text}
    (h : NoneQuoted f (push (text ['\'']) (joinText segments))) : ¬ QuotesName f segments s := by
  rintro (hCloses | hCloses)
  · exact not_closesQuote (.inl (List.suffix_refl _)) h hCloses
  · rw [joinText_cons, push_text_push_text] at h
    exact not_closesQuote (.inr (List.suffix_refl _)) h hCloses

theorem ClosesQuote.exists_name {c : Char} {u : Text} (h : ClosesQuote f segments)
    (hText : segments.flatMap (shorten f) = c :: u) :
    ∃ q rest, segments = qualified q :: rest ∧ q.name = [c] := by
  cases segments with
  | nil => exact h.elim
  | cons s rest =>
    cases s with
    | text v | literal v => exact h.elim
    | qualified q =>
      obtain ⟨hf, hLength, -⟩ := h
      obtain ⟨d, hName⟩ := List.length_eq_one_iff.mp hLength
      rw [List.flatMap_cons, shorten, if_pos hf, hName] at hText
      exact ⟨q, rest, rfl, by rw [hName, (List.cons.inj hText).1]⟩

end Quotes

section Literals

variable {t s after : Text}

/-- Whether a text holds the end of a string that was opened before it. -/
def closesString (escaped : Bool) : Text → Bool
  | [] => false
  | c :: t =>
    if escaped then c != '\n' && closesString false t
    else c == '"' || closesString (c == '\\') t

theorem isSome_stringRest? (t : Text) : (stringRest? t).isSome = closesString false t := by
  fun_induction stringRest? t with
  | case1 => rfl
  | case2 t => simp [closesString]
  | case3 t => simp [closesString]
  | case4 c t hc ih => simp [closesString, hc, ih]
  | case5 t _ hMore =>
    cases t with
    | nil => rfl
    | cons c t => exact (hMore c t rfl rfl).elim
  | case6 c t hQuote _ hc ih =>
    have hPlain : (c == '"') = false := beq_eq_false_iff_ne.mpr hQuote
    have hFree : (c == '\\') = false := beq_eq_false_iff_ne.mpr hc
    simp [closesString, ih, hPlain, hFree]

theorem closesString_append {w : Text} (hw : w ≠ []) (hChain : ∀ c ∈ w, isChainPart c = true)
    (escaped : Bool) (t : Text) : closesString escaped (w ++ t) = closesString false t := by
  induction w generalizing escaped with
  | nil => exact absurd rfl hw
  | cons c w ih =>
    have hc := hChain c List.mem_cons_self
    have hNot {d : Char} (hd : isChainPart d = false) : (c == d) = false := by
      rw [beq_eq_false_iff_ne]
      rintro rfl
      exact Bool.false_ne_true (hd.symm.trans hc)
    have hTail : closesString false (w ++ t) = closesString false t := by
      cases w with
      | nil => rfl
      | cons d w =>
        exact ih (List.cons_ne_nil d w) (fun x hx => hChain x (List.mem_cons_of_mem c hx)) false
    rw [List.cons_append, closesString, bne, hNot rfl, hNot rfl, hNot rfl, hTail]
    simp

end Literals

end Segment

namespace Shrinks

variable {t t' : Text}

theorem closesString (h : Shrinks t t') (escaped : Bool) :
    Segment.closesString escaped t' = Segment.closesString escaped t := by
  induction h generalizing escaped with
  | nil => rfl
  | keep c _ ih => simp only [Segment.closesString, ih]
  | drop hq _ ih =>
    rw [Segment.closesString_append hq.name.ne_nil hq.name.chain,
      Segment.closesString_append (QualifiedName.text_ne_nil _) hq.chain, ih]

/-- An apostrophe behind the first character of a text that was kept was there before. -/
theorem apostrophe_of_kept {w u' : Text} {c : Char} (hw : w ≠ []) (h : Shrinks t t')
    (hText : w ++ t' = c :: '\'' :: u') : ∃ u, w ++ t = c :: '\'' :: u := by
  obtain ⟨d, w, rfl⟩ := List.exists_cons_of_ne_nil hw
  rw [List.cons_append] at hText
  obtain ⟨rfl, hTail⟩ := List.cons.inj hText
  have hRest := h.prepend w
  rw [hTail] at hRest
  obtain ⟨u, hu, -⟩ := hRest.of_cons (by decide)
  exact ⟨u, by rw [List.cons_append, hu]⟩

/-- Behind the first character of a name stands an apostrophe only if there is no second one. -/
theorem apostrophe_of_name {w u' : Text} {c : Char} (hw : QualifiedName.IsTypeName w)
    (h : Shrinks t t') (hText : w ++ t' = c :: '\'' :: u') :
    w.length = 1 ∧ t.head? = some '\'' := by
  have hWord := hw.word
  obtain ⟨x, w, rfl, -⟩ := hw
  rw [List.cons_append] at hText
  have hTail := (List.cons.inj hText).2
  cases w with
  | nil =>
    rw [List.nil_append] at hTail
    rw [hTail] at h
    obtain ⟨u, rfl, -⟩ := h.of_cons (by decide)
    exact ⟨rfl, rfl⟩
  | cons y w =>
    have hy := hWord y (by simp)
    rw [(List.cons.inj hTail).1] at hy
    exact absurd hy (by decide)

theorem head?_eq (h : Shrinks t t') (hHead : ∀ c ∈ t.head?, isWordStart c = false) :
    t'.head? = t.head? := by
  cases t with
  | nil => rw [h.eq_nil_iff.mp rfl]
  | cons c u =>
    obtain ⟨u', rfl, -⟩ := h.cons_of (hHead c rfl)
    rfl

end Shrinks

namespace Segment

variable {before : Option Char} {t t' : Text} {f : QualifiedName → Bool}

/-- The segments that a segment leaves: a name that is written short is spelled as text. -/
def respell (f : QualifiedName → Bool) : Segment → List Segment
  | qualified q => if f q then spelled q.name else [qualified q]
  | s => [s]

@[simp] theorem flatMap_shorten_spelled (w : Text) : (spelled w).flatMap (shorten f) = w := by
  induction w with
  | nil => rfl
  | cons c w ih => exact congrArg (c :: ·) ih

theorem shrinks_atoms (f : QualifiedName → Bool) (before : Option Char) (t : Text) :
    Shrinks t ((atoms before t).flatMap (shorten f)) := by
  have h := Shrinks.of_segments f fun q (hq : q ∈ (atoms before t).filterMap qualifiedName?) =>
    wellFormed_of_mem_atoms hq
  rwa [source_atoms] at h

section Quoted

/-- An apostrophe comes to stand behind the first character only where a name of one letter is
written short before it. -/
theorem apostrophe_of_shorten {c : Char} {u' : Text}
    (hText : (atoms before t).flatMap (shorten f) = c :: '\'' :: u')
    (hNot : ¬ ClosesQuote f (atoms before t)) : ∃ u, t = c :: '\'' :: u := by
  revert hText hNot
  fun_cases atoms before t with
  | case1 =>
    intro hText
    cases hText
  | case2 d t s after h =>
    intro hText _
    obtain ⟨hSource, hs⟩ := eq_append_of_literal? h
    rw [hSource]
    exact (shrinks_atoms f s.getLast? after).apostrophe_of_kept hs hText
  | case3 d t h q after hq =>
    intro hText hNot
    obtain ⟨hSource, hWellFormed, -⟩ := nameAt?_some hq
    have hRest := shrinks_atoms f q.name.getLast? after
    rw [List.flatMap_cons, shorten] at hText
    split at hText
    · obtain ⟨hLength, hHead⟩ := hRest.apostrophe_of_name hWellFormed.name hText
      apply absurd _ hNot
      refine ⟨‹_›, hLength, ?_⟩
      rw [source_atoms]
      exact hHead
    · rw [hSource]
      exact hRest.apostrophe_of_kept q.text_ne_nil hText
  | case4 d t h hq =>
    intro hText _
    exact (shrinks_atoms f (some d) t).apostrophe_of_kept (List.cons_ne_nil d []) hText

@[simp] theorem atoms_backslash (before : Option Char) (t : Text) :
    atoms before ('\\' :: t) = text ['\\'] :: atoms (some '\\') t := by
  apply atoms_text rfl
  rw [nameAt?, QualifiedName.read?_cons, if_neg (by decide), Option.filter_none]

/-- A character literal that is new in the shortened text has a short name for its character. -/
theorem charRest?_shorten {w after : Text} (hNone : charRest? t = none)
    (hSome : charRest? ((atoms before t).flatMap (shorten f)) = some (w, after)) :
    QuotesName f (atoms before t) w := by
  generalize hText : (atoms before t).flatMap (shorten f) = t' at hSome
  unfold charRest? at hSome
  split at hSome
  · rename_i c u'
    have hShrinks := shrinks_atoms f before t
    rw [hText] at hShrinks
    obtain ⟨v, rfl, -⟩ := hShrinks.of_cons (c := '\\') (by decide)
    rw [atoms_backslash] at hText ⊢
    have hTail := (List.cons.inj hText).2
    split at hSome
    · cases hSome
    · cases hSome
      by_cases hCloses : ClosesQuote f (atoms (some '\\') v)
      · obtain ⟨q, rest, hAtoms, hName⟩ := hCloses.exists_name hTail
        rw [hAtoms] at hCloses ⊢
        have hQuotes := QuotesName.escaped hCloses
        rwa [hName] at hQuotes
      · obtain ⟨u, rfl⟩ := apostrophe_of_shorten hTail hCloses
        rw [charRest?, if_neg ‹_›] at hNone
        cases hNone
  · rename_i c u' _
    split at hSome
    · cases hSome
    · cases hSome
      by_cases hCloses : ClosesQuote f (atoms before t)
      · obtain ⟨q, rest, hAtoms, hName⟩ := hCloses.exists_name hText
        rw [hAtoms] at hCloses ⊢
        have hQuotes := QuotesName.plain hCloses
        rwa [hName] at hQuotes
      · obtain ⟨u, rfl⟩ := apostrophe_of_shorten hText hCloses
        rw [charRest?_plain ‹_›] at hNone
        cases hNone
  · cases hSome

theorem literal?_shorten {c : Char} {s after : Text} (hNone : literal? (c :: t) = none)
    (hSome : literal? (c :: (atoms before t).flatMap (shorten f)) = some (s, after)) :
    ∃ w, c = '\'' ∧ s = '\'' :: w ∧ QuotesName f (atoms before t) w := by
  unfold literal? at hSome
  split at hSome
  · rename_i hEq
    cases hEq
    rw [literal?, Option.map_eq_none_iff, ← Option.not_isSome_iff_eq_none, isSome_stringRest?,
      ← (shrinks_atoms f before t).closesString, ← isSome_stringRest?,
      Option.not_isSome_iff_eq_none] at hNone
    rw [hNone] at hSome
    cases hSome
  · rename_i hEq
    cases hEq
    rw [literal?, Option.map_eq_none_iff] at hNone
    obtain ⟨⟨w, u⟩, hRest, hEq⟩ := Option.map_eq_some_iff.mp hSome
    cases hEq
    exact ⟨w, rfl, rfl, charRest?_shorten hNone hRest⟩
  · cases hSome

theorem literal?_shorten_eq_none {c : Char} (hNone : literal? (c :: t) = none)
    (hQuoted : NoneQuoted f (push (text [c]) (joinText (atoms before t)))) :
    literal? (c :: (atoms before t).flatMap (shorten f)) = none := by
  rw [Option.eq_none_iff_forall_ne_some]
  rintro ⟨s, after⟩ hSome
  obtain ⟨w, rfl, -, hQuotes⟩ := literal?_shorten hNone hSome
  exact not_quotesName hQuoted hQuotes

end Quoted

/-- Whether a name is found is settled by the chain of words at the start and by one character
behind it. -/
theorem nameAt?_append_eq_none {w : Text} (hEnd : ∀ c ∈ t.head?, isChainPart c = false)
    (hHead : t'.head? = t.head?) (hNone : nameAt? before (w ++ t) = none) :
    nameAt? before (w ++ t') = none := by
  rw [← Option.not_isSome_iff_eq_none] at hNone ⊢
  apply mt _ hNone
  intro hSome
  obtain ⟨⟨q, after⟩, hq⟩ := Option.isSome_iff_exists.mp hSome
  obtain ⟨hRead, hBounded⟩ := nameAt?_eq_some_iff.mp hq
  obtain ⟨hText, hWellFormed, hAfter⟩ := QualifiedName.read?_eq_some_iff.mp hRead
  -- The name lies inside `w`: what follows `w` starts with no character of a name.
  have hInside : ∃ v, w = q.text ++ v ∧ after = v ++ t' := by
    rcases List.append_eq_append_iff.mp hText with ⟨v, hName, hTail⟩ | hInside
    · cases v with
      | nil => exact ⟨[], by rw [hName, List.append_nil, List.append_nil], by rw [hTail]; rfl⟩
      | cons d v =>
        have hd := hWellFormed.chain d (by rw [hName]; simp)
        rw [hTail, List.cons_append, List.head?_cons] at hHead
        exact absurd (hEnd d hHead.symm) (by simp [hd])
    · exact hInside
  obtain ⟨v, rfl, rfl⟩ := hInside
  have hSame : (v ++ t).head? = (v ++ t').head? := by
    rw [List.head?_append, List.head?_append, hHead]
  rw [Option.isSome_iff_exists]
  refine ⟨(q, v ++ t), nameAt?_eq_some_iff.mpr ⟨?_, ?_⟩⟩
  · rw [QualifiedName.read?_eq_some_iff]
    refine ⟨List.append_assoc _ _ _, hWellFormed, ?_⟩
    rwa [QualifiedName.EndsWord, hSame]
  · rwa [isBounded, hSame]

theorem atoms_kept {q : QualifiedName} (hq : nameAt? before t = some (q, after)) :
    atoms before (q.text ++ (atoms q.name.getLast? after).flatMap (shorten f)) =
      qualified q ::
        atoms q.name.getLast? ((atoms q.name.getLast? after).flatMap (shorten f)) := by
  obtain ⟨-, hWellFormed, hOpen, hAfter⟩ := nameAt?_some hq
  have hHead : ((atoms q.name.getLast? after).flatMap (shorten f)).head? = after.head? := by
    have hShrinks := shrinks_atoms f q.name.getLast? after
    apply hShrinks.head?_eq
    intro c hc
    exact QualifiedName.isWordStart_eq_false (QualifiedName.isWordPart_eq_false (hAfter c hc))
  rw [← hHead] at hAfter
  apply atoms_qualified
  · obtain ⟨d, w, hText, -⟩ := hWellFormed.exists_text_cons
    have hChain := hWellFormed.chain
    rw [hText] at hChain ⊢
    exact literal?_of_isChainPart (hChain d List.mem_cons_self) _
  · rw [nameAt?_eq_some_iff, isBounded_iff]
    refine ⟨QualifiedName.read?_text_append hWellFormed ?_, hOpen, hAfter⟩
    intro c hc
    exact QualifiedName.isWordPart_eq_false (hAfter c hc)

theorem nameAt?_shorten {c : Char} (hNone : nameAt? before (c :: t) = none) :
    nameAt? before (c :: (atoms (some c) t).flatMap (shorten f)) = none := by
  by_cases hc : isChainPart c = true
  · have hSplit := List.takeWhile_append_dropWhile (p := isChainPart) (l := t)
    have hEnd := Text.head?_dropWhile isChainPart t
    have hChain : ∀ d ∈ t.takeWhile isChainPart, isChainPart d = true :=
      fun d hd => List.mem_takeWhile_imp hd
    generalize t.takeWhile isChainPart = w at hSplit hChain
    generalize t.dropWhile isChainPart = u at hSplit hEnd
    subst hSplit
    have hShrinks := shrinks_atoms f (w.getLast?.or (some c)) u
    rw [atoms_chain hChain (isOpen_of_isChainPart hc), List.flatMap_append,
      flatMap_shorten_spelled, ← List.cons_append]
    apply nameAt?_append_eq_none hEnd _ hNone
    apply hShrinks.head?_eq
    intro d hd
    have hd := hEnd d hd
    rw [isChainPart, Bool.or_eq_false_iff] at hd
    exact QualifiedName.isWordStart_eq_false hd.1
  · have hEnd : ∀ d ∈ (c :: t).head?, isChainPart d = false := by
      intro d hd
      rwa [← Option.some.inj hd, ← Bool.not_eq_true]
    exact nameAt?_append_eq_none (w := []) hEnd rfl hNone

theorem atoms_typeName {w : Text} (hw : QualifiedName.IsTypeName w) (t : Text) :
    atoms before (w ++ t) = spelled w ++ atoms w.getLast? t := by
  have hChain := hw.chain
  obtain ⟨d, w, rfl, hUpper, -⟩ := hw
  have hd := hChain d List.mem_cons_self
  have hNone : nameAt? before (d :: (w ++ t)) = none := by
    rw [nameAt?, QualifiedName.read?_cons, QualifiedName.isWordStart_eq_false_of_isUpper hUpper]
    rfl
  rw [List.cons_append, atoms_text (literal?_of_isChainPart hd _) hNone,
    atoms_chain (fun x hx => hChain x (List.mem_cons_of_mem d hx)) (isOpen_of_isChainPart hd)]
  cases w <;> simp [spelled, List.getLast?_cons]

theorem atoms_shorten (hQuoted : NoneQuoted f (joinText (atoms before t))) :
    atoms before ((atoms before t).flatMap (shorten f)) = (atoms before t).flatMap (respell f) := by
  -- Along the first scan: each of its steps is the first step of the scan of what is left.
  fun_induction atoms before t with
  | case1 => rw [List.flatMap_nil, List.flatMap_nil, atoms]
  | case2 before c t s after h ih =>
    rw [List.flatMap_cons, List.flatMap_cons, ← ih hQuoted]
    exact atoms_literal (literal?_append h _)
  | case3 before c t h q after hq ih =>
    rw [List.flatMap_cons, List.flatMap_cons, ← ih hQuoted, shorten, respell]
    split
    · exact atoms_typeName (nameAt?_some hq).2.1.name _
    · exact atoms_kept hq
  | case4 before c t h hq ih =>
    rw [List.flatMap_cons, List.flatMap_cons, ← ih (noneQuoted_of_push_text hQuoted)]
    exact atoms_text (literal?_shorten_eq_none h hQuoted) (nameAt?_shorten hq)

theorem flatMap_shorten_ofLine (f : QualifiedName → Bool) (line : Text) :
    (ofLine line).flatMap (shorten f) = (atoms none line).flatMap (shorten f) := by
  rw [ofLine_eq_joinText_atoms]
  exact flatMap_joinText (fun _ _ => rfl) _

theorem atoms_shorten_ofLine {line : Text} (hQuoted : NoneQuoted f (ofLine line)) :
    atoms none ((ofLine line).flatMap (shorten f)) = (atoms none line).flatMap (respell f) := by
  rw [flatMap_shorten_ofLine]
  rw [ofLine_eq_joinText_atoms] at hQuoted
  exact atoms_shorten hQuoted

@[simp] theorem qualifiedName?_respell (f : QualifiedName → Bool) (segments : List Segment) :
    (segments.flatMap (respell f)).filterMap qualifiedName? =
      (segments.filterMap qualifiedName?).filter fun q => !f q := by
  induction segments with
  | nil => rfl
  | cons s segments ih =>
    rw [List.flatMap_cons, List.filterMap_append, ih]
    cases s with
    | text u | literal u => rfl
    | qualified q =>
      by_cases hf : f q = true
      · rw [respell, if_pos hf, filterMap_spelled fun _ => rfl]
        simp [hf, qualifiedName?]
      · simp [respell, hf, qualifiedName?]

theorem qualifiedNames_shorten {line : Text} (hQuoted : NoneQuoted f (ofLine line)) :
    qualifiedNames ((ofLine line).flatMap (shorten f)) =
      (qualifiedNames line).filter fun q => !f q := by
  rw [qualifiedNames_eq, qualifiedNames_eq, atoms_shorten_ofLine hQuoted, qualifiedName?_respell]

end Segment

end ShortNames
