import ShortNames.Proofs.Texts
import ShortNames.Segment

/-!
# The grammar of qualified names

`QualifiedName.read?` takes exactly the texts of well-formed names, and takes them whole. The
classes of characters meet as the scanner needs it: words hold no blank, no quote and no dot.
-/

namespace ShortNames.QualifiedName

/-- A chain of words, each with a start that is not in upper case. -/
inductive IsPackage : Text → Prop
  | word {c : Char} {w : Text} (hStart : isWordStart c = true)
    (hWord : ∀ x ∈ w, isWordPart x = true) : IsPackage (c :: w)
  | member {c : Char} {w p : Text} (hStart : isWordStart c = true)
    (hWord : ∀ x ∈ w, isWordPart x = true) (hRest : IsPackage p) : IsPackage (c :: w ++ '.' :: p)

def IsTypeName (t : Text) : Prop :=
  ∃ d w, t = d :: w ∧ d.isUpper = true ∧ ∀ x ∈ w, isWordPart x = true

structure WellFormed (q : QualifiedName) : Prop where
  package : IsPackage q.package
  name : IsTypeName q.name

def EndsWord (after : Text) : Prop :=
  ∀ c ∈ after.head?, isWordPart c = false

theorem isUpper_iff {c : Char} : c.isUpper = true ↔ 65 ≤ c.toNat ∧ c.toNat ≤ 90 := by
  change decide (65 ≤ c.toNat ∧ c.toNat ≤ 90) = true ↔ _
  exact decide_eq_true_iff

theorem isLower_iff {c : Char} : c.isLower = true ↔ 97 ≤ c.toNat ∧ c.toNat ≤ 122 := by
  change (decide (97 ≤ c.toNat) && decide (c.toNat ≤ 122)) = true ↔ _
  rw [Bool.and_eq_true, decide_eq_true_iff, decide_eq_true_iff]

theorem isDigit_iff {c : Char} : c.isDigit = true ↔ 48 ≤ c.toNat ∧ c.toNat ≤ 57 := by
  change (decide (48 ≤ c.toNat) && decide (c.toNat ≤ 57)) = true ↔ _
  rw [Bool.and_eq_true, decide_eq_true_iff, decide_eq_true_iff]

theorem isWordStart_iff {c : Char} : isWordStart c = true ↔
    (97 ≤ c.toNat ∧ c.toNat ≤ 122) ∨ (48 ≤ c.toNat ∧ c.toNat ≤ 57) ∨ c.toNat = 95 := by
  simp only [isWordStart, Bool.or_eq_true, isLower_iff, isDigit_iff, beq_iff_eq, ← Char.toNat_inj,
    or_assoc]
  rfl

theorem isWordPart_iff {c : Char} : isWordPart c = true ↔
    (65 ≤ c.toNat ∧ c.toNat ≤ 90) ∨ isWordStart c = true := by
  have hClasses : isWordPart c = (c.isUpper || c.isLower || c.isDigit || c == '_') := rfl
  simp only [hClasses, isWordStart, Bool.or_eq_true, isUpper_iff, or_assoc]

theorem isWordPart_of_isWordStart {c : Char} (h : isWordStart c = true) : isWordPart c = true :=
  isWordPart_iff.mpr (.inr h)

theorem isWordPart_of_isUpper {c : Char} (h : c.isUpper = true) : isWordPart c = true :=
  isWordPart_iff.mpr (.inl (isUpper_iff.mp h))

theorem isWordStart_eq_false_of_isUpper {c : Char} (h : c.isUpper = true) :
    isWordStart c = false := by
  rw [Bool.eq_false_iff, Ne, isWordStart_iff]
  rw [isUpper_iff] at h
  omega

theorem isIdentifier_of_isWordPart {c : Char} (h : isWordPart c = true) :
    Text.isIdentifier c = true := by
  have hAscii : c.toNat < 0x80 := by
    rw [isWordPart_iff, isWordStart_iff] at h
    omega
  simp only [isWordPart, Bool.or_eq_true, beq_iff_eq] at h
  rcases h with h | h
  · simp [Text.isIdentifier, Text.isAlphanumeric, hAscii, h]
  · simp [Text.isIdentifier, h]

theorem isWordPart_eq_false {c : Char} (h : Text.isIdentifier c = false) :
    isWordPart c = false := by
  rw [Bool.eq_false_iff] at h ⊢
  intro hWord
  exact h (isIdentifier_of_isWordPart hWord)

theorem isWordStart_eq_false {c : Char} (h : isWordPart c = false) : isWordStart c = false := by
  rw [Bool.eq_false_iff] at h ⊢
  intro hStart
  exact h (isWordPart_of_isWordStart hStart)

theorem isBlank_eq_false_of_isWordPart {c : Char} (h : isWordPart c = true) :
    Text.isBlank c = false := by
  rw [isWordPart_iff, isWordStart_iff] at h
  simp only [Text.isBlank, Bool.or_eq_false_iff, Bool.and_eq_false_iff, decide_eq_false_iff_not,
    beq_eq_false_iff_ne]
  omega

theorem read?_cons (c : Char) (t : Text) :
    read? (c :: t) =
      if isWordStart c then
        match t.dropWhile isWordPart with
        | '.' :: d :: rest =>
          if d.isUpper then
            some (⟨c :: t.takeWhile isWordPart, d :: rest.takeWhile isWordPart⟩,
              rest.dropWhile isWordPart)
          else
            (read? (d :: rest)).map fun (q, after) =>
              (⟨c :: t.takeWhile isWordPart ++ '.' :: q.package, q.name⟩, after)
        | _ => none
      else none := by
  rw [read?]
  split
  · split <;> simp_all
  · rfl

section Run

variable {w after : Text}

theorem takeWhile_word (hw : ∀ x ∈ w, isWordPart x = true) (hAfter : EndsWord after) :
    (w ++ after).takeWhile isWordPart = w :=
  Text.takeWhile_append hw hAfter

theorem dropWhile_word (hw : ∀ x ∈ w, isWordPart x = true) (hAfter : EndsWord after) :
    (w ++ after).dropWhile isWordPart = after :=
  Text.dropWhile_append hw hAfter

theorem endsWord_dropWhile (t : Text) : EndsWord (t.dropWhile isWordPart) :=
  Text.head?_dropWhile isWordPart t

end Run

theorem endsWord_dot (t : Text) : EndsWord ('.' :: t) := by
  rintro c ⟨⟩
  decide

theorem IsPackage.exists_cons {p : Text} (hp : IsPackage p) :
    ∃ c w, p = c :: w ∧ isWordStart c = true := by
  cases hp with
  | word hStart _ => exact ⟨_, _, rfl, hStart⟩
  | member hStart _ _ => exact ⟨_, _, rfl, hStart⟩

theorem read?_text_append {q : QualifiedName} (hq : q.WellFormed) {after : Text}
    (hAfter : EndsWord after) : read? (q.text ++ after) = some (q, after) := by
  obtain ⟨package, name⟩ := q
  obtain ⟨hPackage, d, w, rfl, hUpper, hWord⟩ := hq
  simp only at hPackage
  -- The package is read word by word, and the first word in upper case ends it.
  induction hPackage with
  | @word c v hStart hv =>
    have hText : text ⟨c :: v, d :: w⟩ ++ after = c :: (v ++ '.' :: d :: (w ++ after)) := by
      simp [text]
    rw [hText, read?_cons, if_pos hStart, dropWhile_word hv (endsWord_dot _),
      takeWhile_word hv (endsWord_dot _)]
    simp only [hUpper, if_true, takeWhile_word hWord hAfter, dropWhile_word hWord hAfter]
  | @member c v p hStart hv hp ih =>
    obtain ⟨e, u, rfl, he⟩ := hp.exists_cons
    have hText : text ⟨c :: v ++ '.' :: e :: u, d :: w⟩ ++ after =
        c :: (v ++ '.' :: (text ⟨e :: u, d :: w⟩ ++ after)) := by
      simp [text]
    have hLower : ¬ e.isUpper = true := by
      intro hu
      rw [isWordStart_eq_false_of_isUpper hu] at he
      cases he
    rw [hText, read?_cons, if_pos hStart, dropWhile_word hv (endsWord_dot _),
      takeWhile_word hv (endsWord_dot _)]
    change (if e.isUpper = true then _ else
      (read? (text ⟨e :: u, d :: w⟩ ++ after)).map _) = _
    rw [if_neg hLower, ih]
    rfl

theorem wellFormed_of_read? {t after : Text} {q : QualifiedName}
    (h : read? t = some (q, after)) : q.WellFormed ∧ EndsWord after := by
  fun_induction read? t generalizing q after with
  | case1 => cases h
  | case2 c t hc d rest hd hu =>
    cases h
    exact ⟨⟨.word hc fun x hx => List.mem_takeWhile_imp hx, d, _, rfl, hu,
      fun x hx => List.mem_takeWhile_imp hx⟩, endsWord_dropWhile rest⟩
  | case3 c t hc d rest hd hu ih =>
    obtain ⟨⟨q', after'⟩, hr, hq⟩ := Option.map_eq_some_iff.mp h
    cases hq
    obtain ⟨⟨hPackage, hName⟩, hAfter⟩ := ih hr
    exact ⟨⟨.member hc (fun x hx => List.mem_takeWhile_imp hx) hPackage, hName⟩, hAfter⟩
  | case4 => cases h
  | case5 => cases h

theorem read?_eq_some_iff {t after : Text} {q : QualifiedName} :
    read? t = some (q, after) ↔ t = q.text ++ after ∧ q.WellFormed ∧ EndsWord after := by
  constructor
  · intro h
    exact ⟨eq_append_of_read? h, wellFormed_of_read? h⟩
  · rintro ⟨rfl, hq, hAfter⟩
    exact read?_text_append hq hAfter

theorem IsTypeName.word {t : Text} (ht : IsTypeName t) : ∀ x ∈ t, isWordPart x = true := by
  obtain ⟨d, w, rfl, hUpper, hWord⟩ := ht
  intro x hx
  rcases List.mem_cons.mp hx with rfl | hx
  · exact isWordPart_of_isUpper hUpper
  · exact hWord x hx

theorem IsTypeName.not_mem_dot {t : Text} (ht : IsTypeName t) : '.' ∉ t := by
  intro hDot
  exact absurd (ht.word '.' hDot) (by decide)

theorem IsTypeName.ne_nil {t : Text} (ht : IsTypeName t) : t ≠ [] := by
  obtain ⟨d, w, rfl, -⟩ := ht
  exact List.cons_ne_nil d w

def isChainPart (c : Char) : Bool :=
  isWordPart c || c == '.'

theorem isChainPart_of_isWordPart {c : Char} (h : isWordPart c = true) : isChainPart c = true := by
  rw [isChainPart, h, Bool.true_or]

theorem IsTypeName.chain {t : Text} (ht : IsTypeName t) : ∀ x ∈ t, isChainPart x = true :=
  fun x hx => isChainPart_of_isWordPart (ht.word x hx)

@[simp] theorem text_ne_nil (q : QualifiedName) : q.text ≠ [] := by
  simp [text]

theorem IsPackage.chain {p : Text} (hp : IsPackage p) : ∀ x ∈ p, isChainPart x = true := by
  induction hp with
  | word hStart hWord =>
    intro x hx
    rcases List.mem_cons.mp hx with rfl | hx
    · exact isChainPart_of_isWordPart (isWordPart_of_isWordStart hStart)
    · exact isChainPart_of_isWordPart (hWord x hx)
  | member hStart hWord _ ih =>
    intro x hx
    rcases List.mem_append.mp hx with hx | hx
    · rcases List.mem_cons.mp hx with rfl | hx
      · exact isChainPart_of_isWordPart (isWordPart_of_isWordStart hStart)
      · exact isChainPart_of_isWordPart (hWord x hx)
    · rcases List.mem_cons.mp hx with rfl | hx
      · rfl
      · exact ih x hx

section WellFormed

variable {q : QualifiedName}

theorem WellFormed.chain (hq : q.WellFormed) : ∀ x ∈ q.text, isChainPart x = true := by
  intro x hx
  rcases List.mem_append.mp hx with hx | hx
  · exact hq.package.chain x hx
  · rcases List.mem_cons.mp hx with rfl | hx
    · rfl
    · exact hq.name.chain x hx

theorem WellFormed.exists_text_cons (hq : q.WellFormed) :
    ∃ c w, q.text = c :: w ∧ isWordStart c = true := by
  obtain ⟨c, w, hPackage, hStart⟩ := hq.package.exists_cons
  exact ⟨c, w ++ '.' :: q.name, by rw [text, hPackage, List.cons_append], hStart⟩

theorem WellFormed.getLast?_text (hq : q.WellFormed) : q.text.getLast? = q.name.getLast? := by
  obtain ⟨d, w, hName, -⟩ := hq.name
  rw [text, hName, List.getLast?_append, List.getLast?_cons_cons, List.getLast?_cons,
    Option.some_or]

theorem WellFormed.lastSegment_text (hq : q.WellFormed) : q.text.lastSegment = q.name :=
  Text.lastSegment_append hq.name.not_mem_dot q.package

end WellFormed

end ShortNames.QualifiedName
