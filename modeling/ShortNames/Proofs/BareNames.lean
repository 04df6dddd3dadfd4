import ShortNames.Proofs.Rescanning
import ShortNames.Proofs.Runs

/-!
# Bare names of a shortened line

A name that is written short stands bare from then on, and the names that stood bare before still
do: a qualified name is bounded, so its simple name never joins the text beside it.
-/

namespace ShortNames.BareName

/-- `x` stands bare in `t`: as a whole run that starts with an ASCII capital and is no member of
what stands before it. -/
def StandsBare (x t : Text) : Prop :=
  ∃ pre post, t = pre ++ x ++ post ∧ IsRun pre x post ∧ pre.getLast? ≠ some '.' ∧
    x.head?.any Char.isUpper = true

section Texts

variable {x t : Text}

theorem mem_ofText_iff : x ∈ ofText t ↔ StandsBare x t := by
  have hOpen : none ≠ some '.' := nofun
  rw [← map_placedNames hOpen 0, List.mem_map]
  constructor
  · rintro ⟨⟨i, _⟩, hMem, rfl⟩
    obtain ⟨pre, post, hText, -, hRun, hMember, hUpper⟩ := mem_placedNames_iff.mp hMem
    rw [Option.or_none] at hMember
    exact ⟨pre, post, hText, hRun, hMember, hUpper⟩
  · rintro ⟨pre, post, hText, hRun, hMember, hUpper⟩
    rw [← Option.or_none (o := pre.getLast?)] at hMember
    exact ⟨_, mem_placedNames_iff.mpr ⟨pre, post, hText, rfl, hRun, hMember, hUpper⟩, rfl⟩

@[simp] theorem ofText_nil : ofText [] = [] := by
  rw [ofText, runs]
  rfl

@[simp]
theorem ofText_append_blank (t u : Text) : ofText (t ++ ' ' :: u) = ofText t ++ ofText u := by
  have hBorder : IsBorder t (' ' :: u) := by
    rintro c _ d ⟨⟩ _
    rfl
  have hBlank (before : Option Char) : runs before (' ' :: u) = runs (some ' ') u := by
    rw [runs, if_neg (by decide)]
  have hOpen : some ' ' ≠ some '.' := by decide
  rw [ofText, runs_append hBorder, hBlank, List.filterMap_append, ← ofText_eq hOpen]
  rfl

end Texts

section Lines

def ofSegment : Segment → List Text
  | .text t => ofText t
  | .literal _ | .qualified _ => []

/-- A segment with everything blotted out that holds no bare names. -/
def blot : Segment → Text
  | .text t => t
  | .literal _ | .qualified _ => [' ']

open Segment (joinText push atoms)

/-- The second half is the lemma; the first carries the induction over neighbouring texts. -/
theorem flatMap_ofSegment (segments : List Segment) :
    (∀ t, (joinText (.text t :: segments)).flatMap ofSegment =
      ofText (t ++ segments.flatMap blot)) ∧
    (joinText segments).flatMap ofSegment = ofText (segments.flatMap blot) := by
  induction segments with
  | nil =>
    refine ⟨?_, ofText_nil.symm⟩
    intro t
    rw [List.flatMap_nil, List.append_nil]
    exact List.append_nil _
  | cons s segments ih =>
    obtain ⟨ihText, ihPlain⟩ := ih
    cases s with
    | text u =>
      refine ⟨?_, ihText u⟩
      intro t
      rw [Segment.joinText_cons, Segment.joinText_cons, Segment.push_text_push_text,
        ← Segment.joinText_cons, ihText, List.append_assoc]
      rfl
    | literal u | qualified q =>
      constructor
      · intro t
        rw [List.flatMap_cons, blot, List.singleton_append, ofText_append_blank, ← ihPlain]
        rfl
      · rw [List.flatMap_cons, blot, List.singleton_append, ← List.nil_append (' ' :: _),
          ofText_append_blank, ← ihPlain, ofText_nil, List.nil_append]
        rfl

theorem ofLine_eq (line : Text) : ofLine line = (Segment.ofLine line).flatMap ofSegment := by
  apply List.flatMap_congr
  intro s _
  cases s <;> rfl

theorem mem_ofLine_iff {x line : Text} :
    x ∈ ofLine line ↔ StandsBare x ((atoms none line).flatMap blot) := by
  rw [← mem_ofText_iff, ← (flatMap_ofSegment _).2, ← Segment.ofLine_eq_joinText_atoms, ofLine_eq]

end Lines

section Shortened

open Segment (IsWordy Apart respell shorten atoms)

variable {f : QualifiedName → Bool} {r s : Segment} {first rest : List Segment}

/-- What is left of a segment in a shortened line, blotted. -/
def reblot (f : QualifiedName → Bool) (s : Segment) : Text :=
  (respell f s).flatMap blot

@[simp] theorem flatMap_blot_spelled (w : Text) : (Segment.spelled w).flatMap blot = w := by
  induction w with
  | nil => rfl
  | cons c w ih => exact congrArg (c :: ·) ih

theorem reblot_eq_blot (hs : ∀ q, s ≠ .qualified q) : reblot f s = blot s := by
  cases s with
  | text t | literal t => exact List.append_nil _
  | qualified q => exact absurd rfl (hs q)

theorem exists_blot_eq {before : Option Char} {t : Text} (hs : s ∈ atoms before t) :
    ∃ c, blot s = [c] := by
  fun_induction atoms before t with
  | case1 => cases hs
  | case2 before c t u after h ih | case3 before c t h q after hq ih =>
    rcases List.mem_cons.mp hs with rfl | hs
    · exact ⟨' ', rfl⟩
    · exact ih hs
  | case4 before c t h hq ih =>
    rcases List.mem_cons.mp hs with rfl | hs
    · exact ⟨c, rfl⟩
    · exact ih hs

theorem isIdentifier_of_mem_blot (hs : ¬ IsWordy s) :
    ∀ c ∈ blot s, Text.isIdentifier c = false := by
  intro c hc
  cases s with
  | text t => exact Bool.eq_false_iff.mpr fun hIdentifier => hs ⟨c, hc, hIdentifier⟩
  | literal t | qualified q =>
    rw [List.mem_singleton.mp hc]
    rfl

theorem exists_text_of_blot {c : Char} (hBlot : blot s = [c]) (hc : Text.isIdentifier c = true) :
    s = .text [c] := by
  cases s with
  | text t => exact congrArg _ hBlot
  | literal t | qualified q =>
    rw [← (List.cons.inj hBlot).1] at hc
    exact absurd hc (by decide)

theorem exists_append_of_blot {segments : List Segment}
    (hBlot : ∀ s ∈ segments, ∃ c, blot s = [c]) {a b : Text}
    (h : segments.flatMap blot = a ++ b) :
    ∃ first rest, segments = first ++ rest ∧ first.flatMap blot = a ∧ rest.flatMap blot = b := by
  induction segments generalizing a with
  | nil =>
    obtain ⟨rfl, rfl⟩ := List.append_eq_nil_iff.mp h.symm
    exact ⟨[], [], rfl, rfl, rfl⟩
  | cons s segments ih =>
    cases a with
    | nil => exact ⟨[], s :: segments, rfl, rfl, h⟩
    | cons d a =>
      obtain ⟨c, hc⟩ := hBlot s List.mem_cons_self
      rw [List.flatMap_cons, hc, List.cons_append, List.cons_append, List.nil_append] at h
      obtain ⟨rfl, hTail⟩ := List.cons.inj h
      have hBlotTail := (List.forall_mem_cons.mp hBlot).2
      obtain ⟨first, rest, rfl, rfl, rfl⟩ := ih hBlotTail hTail
      exact ⟨s :: first, rest, rfl, by rw [List.flatMap_cons, hc]; rfl, rfl⟩

/-- A shortened name changes nothing in front of a word. -/
theorem getLast?_reblot (hChain : (first ++ s :: rest).IsChain Apart) (hs : IsWordy s)
    (hBlot : ∀ r ∈ first, ∃ c, blot r = [c]) :
    (first.flatMap (reblot f)).getLast? = (first.flatMap blot).getLast? := by
  rcases first.eq_nil_or_concat' with rfl | ⟨others, r, rfl⟩
  · rfl
  · have hApart := (List.isChain_append.mp hChain).2.2 r List.getLast?_concat s rfl
    obtain ⟨c, hc⟩ := hBlot r (by simp)
    have hSame : reblot f r = [c] := by
      rw [reblot_eq_blot fun q hq => hApart.left q hq hs, hc]
    rw [List.flatMap_append, List.flatMap_append, List.flatMap_singleton, List.flatMap_singleton,
      hSame, hc, List.getLast?_concat, List.getLast?_concat]

theorem head?_reblot (hChain : (first ++ s :: rest).IsChain Apart) (hs : IsWordy s)
    (hBlot : ∀ r ∈ rest, ∃ c, blot r = [c]) :
    (rest.flatMap (reblot f)).head? = (rest.flatMap blot).head? := by
  cases rest with
  | nil => rfl
  | cons r rest =>
    have hApart := (List.isChain_cons.mp (List.isChain_append.mp hChain).2.1).1 r rfl
    obtain ⟨c, hc⟩ := hBlot r List.mem_cons_self
    have hSame : reblot f r = [c] := by
      rw [reblot_eq_blot fun q hq => (hApart.right q hq).1 hs, hc]
    rw [List.flatMap_cons, List.flatMap_cons, hSame, hc]
    rfl

theorem getLast?_blot {q : QualifiedName} (hChain : (first ++ .qualified q :: rest).IsChain Apart)
    (hBlot : ∀ r ∈ first, ∃ c, blot r = [c]) :
    ∀ c ∈ (first.flatMap blot).getLast?, Text.isIdentifier c = false ∧ c ≠ '.' := by
  rcases first.eq_nil_or_concat' with rfl | ⟨others, r, rfl⟩
  · nofun
  · have hApart := (List.isChain_append.mp hChain).2.2 r List.getLast?_concat _ rfl
    obtain ⟨hPlain, hDot⟩ := hApart.right q rfl
    obtain ⟨d, hd⟩ := hBlot r (by simp)
    intro c hc
    rw [List.flatMap_append, List.flatMap_singleton, hd, List.getLast?_concat] at hc
    obtain rfl := Option.some.inj hc
    refine ⟨isIdentifier_of_mem_blot hPlain d (by simp [hd]), ?_⟩
    rintro rfl
    cases r with
    | text t => exact hDot (congrArg _ hd)
    | literal t | qualified u => exact absurd (List.cons.inj hd).1 (by decide)

theorem head?_blot {q : QualifiedName} (hChain : (first ++ .qualified q :: rest).IsChain Apart)
    (hBlot : ∀ r ∈ rest, ∃ c, blot r = [c]) :
    ∀ c ∈ (rest.flatMap blot).head?, Text.isIdentifier c = false := by
  cases rest with
  | nil => nofun
  | cons r rest =>
    have hApart := (List.isChain_cons.mp (List.isChain_append.mp hChain).2.1).1 r rfl
    obtain ⟨d, hd⟩ := hBlot r List.mem_cons_self
    intro c hc
    rw [List.flatMap_cons, hd, List.cons_append, List.head?_cons] at hc
    obtain rfl := Option.some.inj hc
    exact isIdentifier_of_mem_blot (hApart.left q rfl) d (by simp [hd])

/-- Beside words a shortened line is what it was, so a run of words stays a run. -/
theorem standsBare_of_words {words : List Segment} {x : Text}
    (hChain : (first ++ words ++ rest).IsChain Apart) (hne : words ≠ [])
    (hWords : ∀ s ∈ words, IsWordy s) (hFirst : ∀ r ∈ first, ∃ c, blot r = [c])
    (hRest : ∀ r ∈ rest, ∃ c, blot r = [c]) (hText : words.flatMap (reblot f) = x)
    (hRun : IsRun (first.flatMap blot) x (rest.flatMap blot))
    (hMember : (first.flatMap blot).getLast? ≠ some '.')
    (hUpper : x.head?.any Char.isUpper = true) :
    StandsBare x ((first ++ words ++ rest).flatMap (reblot f)) := by
  have hLeft : (first.flatMap (reblot f)).getLast? = (first.flatMap blot).getLast? := by
    obtain ⟨s, others, rfl⟩ := List.exists_cons_of_ne_nil hne
    rw [List.append_assoc, List.cons_append] at hChain
    exact getLast?_reblot hChain (hWords s List.mem_cons_self) hFirst
  have hRight : (rest.flatMap (reblot f)).head? = (rest.flatMap blot).head? := by
    obtain ⟨others, s, rfl⟩ := words.eq_nil_or_concat'.resolve_left hne
    rw [← List.append_assoc, List.append_assoc, List.singleton_append] at hChain
    exact head?_reblot hChain (hWords s (by simp)) hRest
  refine ⟨first.flatMap (reblot f), rest.flatMap (reblot f), ?_,
    ⟨hRun.ne_nil, hRun.inside, ?_, ?_⟩, ?_, hUpper⟩
  · rw [List.flatMap_append, List.flatMap_append, hText]
  · rw [hLeft]
    exact hRun.left
  · rw [hRight]
    exact hRun.right
  · rwa [hLeft]

variable {segments : List Segment}

theorem StandsBare.reblot {x : Text} (hChain : segments.IsChain Apart)
    (hBlot : ∀ s ∈ segments, ∃ c, blot s = [c]) (hx : StandsBare x (segments.flatMap blot)) :
    StandsBare x (segments.flatMap (reblot f)) := by
  obtain ⟨pre, post, hText, hRun, hMember, hUpper⟩ := hx
  obtain ⟨others, last, rfl, hOthers, rfl⟩ := exists_append_of_blot hBlot hText
  obtain ⟨hBlotOthers, hBlotLast⟩ := List.forall_mem_append.mp hBlot
  obtain ⟨first, words, rfl, rfl, rfl⟩ := exists_append_of_blot hBlotOthers hOthers
  obtain ⟨hBlotFirst, hBlotWords⟩ := List.forall_mem_append.mp hBlotOthers
  have hWords : ∀ s ∈ words, IsWordy s ∧ reblot f s = blot s := by
    intro s hs
    obtain ⟨c, hc⟩ := hBlotWords s hs
    have hIdentifier := hRun.inside c (List.mem_flatMap.mpr ⟨s, hs, by simp [hc]⟩)
    rw [exists_text_of_blot hc hIdentifier]
    exact ⟨Segment.isWordy_text.mpr hIdentifier, rfl⟩
  have hSame : words.flatMap (reblot f) = words.flatMap blot :=
    List.flatMap_congr fun s hs => (hWords s hs).2
  have hne : words ≠ [] := by
    rintro rfl
    exact hRun.ne_nil rfl
  exact standsBare_of_words hChain hne (fun s hs => (hWords s hs).1) hBlotFirst hBlotLast hSame
    hRun hMember hUpper

theorem standsBare_reblot {q : QualifiedName} (hChain : segments.IsChain Apart)
    (hBlot : ∀ s ∈ segments, ∃ c, blot s = [c]) (hq : .qualified q ∈ segments)
    (hName : QualifiedName.IsTypeName q.name) (hf : f q = true) :
    StandsBare q.name (segments.flatMap (reblot f)) := by
  obtain ⟨first, rest, rfl⟩ := List.append_of_mem hq
  obtain ⟨hBlotFirst, hBlotRest⟩ := List.forall_mem_append.mp hBlot
  have hBehind := (List.forall_mem_cons.mp hBlotRest).2
  have hShort : [.qualified q].flatMap (reblot f) = q.name := by
    rw [List.flatMap_singleton, reblot, respell, if_pos hf, flatMap_blot_spelled]
  have hRun : IsRun (first.flatMap blot) q.name (rest.flatMap blot) := {
    ne_nil := hName.ne_nil
    inside := fun c hc => QualifiedName.isIdentifier_of_isWordPart (hName.word c hc)
    left := fun c hc => (getLast?_blot hChain hBlotFirst c hc).1
    right := head?_blot hChain hBehind }
  have hMember : (first.flatMap blot).getLast? ≠ some '.' := fun hDot =>
    (getLast?_blot hChain hBlotFirst '.' hDot).2 rfl
  have hUpper : q.name.head?.any Char.isUpper = true := by
    obtain ⟨d, w, hName, hUpper, -⟩ := hName
    rw [hName]
    exact hUpper
  rw [List.append_cons] at hChain ⊢
  exact standsBare_of_words hChain (List.cons_ne_nil _ _)
    (List.forall_mem_singleton.mpr trivial) hBlotFirst hBehind hShort hRun hMember hUpper

theorem mem_ofLine_shorten_iff {line x : Text}
    (hQuoted : Segment.NoneQuoted f (Segment.ofLine line)) :
    x ∈ ofLine ((Segment.ofLine line).flatMap (shorten f)) ↔
      StandsBare x ((atoms none line).flatMap (reblot f)) := by
  rw [mem_ofLine_iff, Segment.atoms_shorten_ofLine hQuoted, List.flatMap_assoc]
  rfl

theorem mem_ofLine_shorten {line x : Text}
    (hQuoted : Segment.NoneQuoted f (Segment.ofLine line)) (hx : x ∈ ofLine line) :
    x ∈ ofLine ((Segment.ofLine line).flatMap (shorten f)) := by
  rw [mem_ofLine_shorten_iff hQuoted]
  exact (mem_ofLine_iff.mp hx).reblot (Segment.isChain_atoms none line) fun _ => exists_blot_eq

theorem name_mem_ofLine_shorten {line : Text} {q : QualifiedName}
    (hQuoted : Segment.NoneQuoted f (Segment.ofLine line))
    (hq : q ∈ Segment.qualifiedNames line) (hf : f q = true) :
    q.name ∈ ofLine ((Segment.ofLine line).flatMap (shorten f)) := by
  rw [mem_ofLine_shorten_iff hQuoted]
  have hName := (Segment.wellFormed_of_mem_qualifiedNames hq).name
  rw [Segment.qualifiedNames_eq] at hq
  apply standsBare_reblot (Segment.isChain_atoms none line) (fun _ => exists_blot_eq) _ hName hf
  exact Segment.mem_filterMap_qualifiedName?.mp hq

end Shortened

end ShortNames.BareName
