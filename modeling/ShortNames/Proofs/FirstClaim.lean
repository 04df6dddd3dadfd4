import ShortNames.Proofs.Headers
import ShortNames.Proofs.Judging
import ShortNames.Proofs.Scanning

/-!
# The first claim decides

The reading of a text passes a table of claims from name to name. What it decides needs no such
table: a name is shortened by a rule that looks at the header, at the bare names and at the first
name that was free to claim its simple name. So all occurrences of one name fare alike.
-/

namespace ShortNames

/-- The rule by which a qualified name among `names` gives way to its simple name. -/
def IsShortened (o : Options) (h : NameTable) (bare : List Text) (names : List QualifiedName)
    (q : QualifiedName) : Prop :=
  q.name ∈ o.exemptNames ∨ q.package ∈ o.builtinPackages ∨ h.package = some q.package ∨
    h.imported? q.name = some q.text ∨
    (h.imported? q.name = none ∧
      (firstEligible? o h bare names q.name).map QualifiedName.text = some q.text)

instance (o : Options) (h : NameTable) (bare : List Text) (names : List QualifiedName)
    (q : QualifiedName) : Decidable (IsShortened o h bare names q) :=
  inferInstanceAs (Decidable (_ ∨ _ ∨ _ ∨ _ ∨ _))

section Rule

variable {o : Options} {h : NameTable} {bare : List Text} {names before after : List QualifiedName}
  {q : QualifiedName} {v : Verdict}

theorem map_text_firstEligible? :
    (firstEligible? o h bare names q.name).map QualifiedName.text = some q.text ↔
      firstEligible? o h bare names q.name = some q := by
  constructor
  · intro hFirst
    obtain ⟨u, hu, hText⟩ := Option.map_eq_some_iff.mp hFirst
    rw [hu, QualifiedName.eq_of_text_eq hText (firstEligible?_some hu).2.1]
  · intro hFirst
    rw [hFirst, Option.map_some]

theorem Foreign.isShortened_iff (hq : Foreign o h q) :
    IsShortened o h bare names q ↔ h.imported? q.name = some q.text ∨
      (h.imported? q.name = none ∧ firstEligible? o h bare names q.name = some q) := by
  obtain ⟨hExempt, hBuiltin, hOwn⟩ := hq
  simp only [IsShortened, hExempt, hBuiltin, hOwn, false_or, map_text_firstEligible?]

theorem not_isShortened_iff : ¬ IsShortened o h bare names q ↔ Foreign o h q ∧
    h.imported? q.name ≠ some q.text ∧
      (h.imported? q.name = none → firstEligible? o h bare names q.name ≠ some q) := by
  rw [IsShortened, map_text_firstEligible?, Foreign]
  tauto

/-- A verdict shortens exactly by the rule, whatever names come behind it. -/
theorem NameTable.Ground.shortens_iff (hv : Ground o h bare before q v) :
    v.shortens = true ↔ IsShortened o h bare (before ++ q :: after) q := by
  cases hv with
  | exempt hName => exact iff_of_true rfl (.inl hName)
  | builtIn hPackage => exact iff_of_true rfl (.inr (.inl hPackage))
  | samePackage hPackage => exact iff_of_true rfl (.inr (.inr (.inl hPackage)))
  | alreadyImported _ hImport => exact iff_of_true rfl (.inr (.inr (.inr (.inl hImport))))
  | shadowConflict hForeign hImport hOther =>
    rw [hForeign.isShortened_iff, hImport]
    simp [Verdict.shortens, hOther]
  | pendingConflict hForeign hImport hu hOther =>
    rw [hForeign.isShortened_iff, hImport, firstEligible?_append_of_some hu]
    simp [Verdict.shortens, hOther]
  | alreadyStaged hu _ | alreadyCovered hu _ =>
    have hq := (firstEligible?_some hu).2.2
    rw [hq.1.isShortened_iff]
    exact iff_of_true rfl (.inr ⟨hq.2.1, firstEligible?_append_of_some hu _⟩)
  | covered hFree hq _ | staged hFree hq _ =>
    rw [hq.1.isShortened_iff]
    exact iff_of_true rfl (.inr ⟨hq.2.1, firstEligible?_append_cons_of_free hq hFree _⟩)
  | bareConflict hForeign hImport hFree hSole hBare =>
    rw [hForeign.isShortened_iff, hImport]
    apply iff_of_false Bool.false_ne_true
    rintro (hNone | ⟨-, hu⟩)
    · cases hNone
    · exact (firstEligible?_some hu).2.2.2.2.elim hSole (· hBare)

end Rule

/-- The part of a line as it stands when the names of `f` are written short. -/
def Segment.shorten (f : QualifiedName → Bool) : Segment → Text
  | .qualified q => if f q then q.name else q.text
  | s => s.source

/-- A line with the names of `f` written short, if it is a code line. -/
def Line.shorten (f : QualifiedName → Bool) (l : Line) : Line :=
  ⟨if isCode l.body then (Segment.ofLine l.body).flatMap (Segment.shorten f) else l.body, l.ending⟩

namespace Reading

def codeNames (bodies : List Text) : List QualifiedName :=
  (bodies.filter Line.isCode).flatMap Segment.qualifiedNames

def openNames (bodies : List Text) : List Text :=
  if (Header.ofLines bodies).names.onDemand.isEmpty then [] else bareNames bodies

/-- Whether the rule shortens `q` in a file with these lines. -/
def shortens (o : Options) (bodies : List Text) (q : QualifiedName) : Bool :=
  decide (IsShortened o (Header.ofLines bodies).names (openNames bodies) (codeNames bodies) q)

/-- The name that claims the simple name `x` in a file with these lines. -/
def claimant? (o : Options) (bodies : List Text) (x : Text) : Option QualifiedName :=
  firstEligible? o (Header.ofLines bodies).names (openNames bodies) (codeNames bodies) x

section Claimant

variable {o : Options} {bodies : List Text}

theorem claimant?_some {x : Text} {u : QualifiedName} (hu : claimant? o bodies x = some u) :
    u ∈ codeNames bodies ∧ u.name = x ∧
      Eligible o (Header.ofLines bodies).names (openNames bodies) u :=
  firstEligible?_some hu

theorem shortens_of_claimant? {x : Text} {u : QualifiedName} (hu : claimant? o bodies x = some u) :
    shortens o bodies u = true := by
  obtain ⟨-, rfl, hEligible⟩ := claimant?_some hu
  exact decide_eq_true (hEligible.1.isShortened_iff.mpr (.inr ⟨hEligible.2.1, hu⟩))

theorem not_shortens_iff {q : QualifiedName} : ¬ shortens o bodies q = true ↔
    Foreign o (Header.ofLines bodies).names q ∧
      (Header.ofLines bodies).names.imported? q.name ≠ some q.text ∧
      ((Header.ofLines bodies).names.imported? q.name = none →
        claimant? o bodies q.name ≠ some q) := by
  rw [shortens, decide_eq_true_eq, not_isShortened_iff]
  rfl

end Claimant

@[simp] theorem codeNames_cons (body : Text) (bodies : List Text) :
    codeNames (body :: bodies) =
      (if Line.isCode body then Segment.qualifiedNames body else []) ++ codeNames bodies := by
  unfold codeNames
  rw [List.filter_cons]
  split
  · rfl
  · rfl

theorem mem_foldl_addBare (t : NameTable) (names : List Text) (x : Text) :
    x ∈ (names.foldl NameTable.addBare t).bare ↔ x ∈ names ∨ x ∈ t.bare := by
  induction names generalizing t with
  | nil => simp
  | cons name names ih =>
    rw [List.foldl_cons, ih, NameTable.addBare, List.mem_insert_iff, List.mem_cons]
    tauto

theorem foldl_addBare (t : NameTable) (names : List Text) :
    names.foldl NameTable.addBare t =
      { t with bare := (names.foldl NameTable.addBare t).bare } := by
  induction names generalizing t with
  | nil => rfl
  | cons name names ih => exact ih (t.addBare name)

theorem settled_startNames (o : Options) (bodies : List Text) :
    NameTable.Settled o (Header.ofLines bodies).names (openNames bodies) []
      (startNames (Header.ofLines bodies) bodies) := by
  obtain ⟨hStaged, hCovered, hBare⟩ :=
    NameTable.foldl_declare_claims .empty (bodies.filterMap Declaration.ofLine?)
  rw [← Header.names_ofLines] at hStaged hCovered hBare
  unfold startNames openNames
  generalize Header.ofLines bodies = header at hStaged hCovered hBare
  split
  · rename_i hNone
    exact {
      package := rfl
      imports := rfl
      onDemand := rfl
      bare_iff := fun x => by simp [hNone]
      staged := fun x => by rw [hStaged]; rfl
      covered := fun x => by rw [hCovered]; rfl
      nodup := by rw [hStaged]; exact List.nodup_nil }
  · rename_i hSome
    have hMem (x : Text) :
        x ∈ ((bareNames bodies).foldl NameTable.addBare header.names).bare ↔
          x ∈ bareNames bodies := by
      rw [mem_foldl_addBare, hBare]
      exact or_iff_left List.not_mem_nil
    rw [foldl_addBare]
    exact {
      package := rfl
      imports := rfl
      onDemand := rfl
      bare_iff := fun x => by
        simp only [hSome, NameTable.isBare, Bool.not_false, Bool.true_and, List.contains_eq_mem,
          hMem]
      staged := fun x => by simp only [hStaged]; rfl
      covered := fun x => by simp only [hCovered]; rfl
      nodup := by simp only [hStaged]; exact List.nodup_nil }

theorem judgeSegments_eq (o : Options) (t : NameTable) (segments : List Segment) :
    (judgeSegments o t segments).1.filterMap Piece.judgement? =
        t.judge o (segments.filterMap Segment.qualifiedName?) ∧
      (judgeSegments o t segments).2 = t.behind o (segments.filterMap Segment.qualifiedName?) := by
  induction segments generalizing t with
  | nil => exact ⟨rfl, rfl⟩
  | cons s segments ih =>
    cases s with
    | qualified q =>
      obtain ⟨hPieces, hNames⟩ := ih (t.claim q (t.verdict o q))
      exact ⟨congrArg (_ :: ·) hPieces, hNames⟩
    | text u => exact ih t
    | literal u => exact ih t

theorem judgeLine_eq (o : Options) (t : NameTable) (body : Text) :
    (judgeLine o t body).1.filterMap Piece.judgement? =
        t.judge o (if Line.isCode body then Segment.qualifiedNames body else []) ∧
      (judgeLine o t body).2 =
        t.behind o (if Line.isCode body then Segment.qualifiedNames body else []) := by
  unfold judgeLine
  split
  · exact judgeSegments_eq o t (Segment.ofLine body)
  · exact ⟨rfl, rfl⟩

theorem judgeLines_eq (o : Options) (t : NameTable) (bodies : List Text) :
    (judgeLines o t bodies).1.flatten.filterMap Piece.judgement? = t.judge o (codeNames bodies) ∧
      (judgeLines o t bodies).2 = t.behind o (codeNames bodies) := by
  induction bodies generalizing t with
  | nil => exact ⟨rfl, rfl⟩
  | cons body bodies ih =>
    obtain ⟨hLine, hNext⟩ := judgeLine_eq o t body
    obtain ⟨hLines, hLast⟩ := ih (judgeLine o t body).2
    rw [codeNames_cons, NameTable.judge_append, NameTable.behind_append, ← hNext, ← hLine,
      ← hLines, ← hLast]
    exact ⟨List.filterMap_append, rfl⟩

/-- The rule gives every verdict, with the names before and behind it only. -/
theorem shortens_of_judgement (o : Options) (bodies : List Text) {q : QualifiedName} {v : Verdict}
    (hv : (q, v) ∈ (startNames (Header.ofLines bodies) bodies).judge o (codeNames bodies)) :
    v.shortens = shortens o bodies q := by
  obtain ⟨before, after, hNames, hGround⟩ := (settled_startNames o bodies).judged hv
  rw [List.nil_append] at hGround
  rw [shortens, hNames, Bool.eq_iff_iff, decide_eq_true_eq]
  exact hGround.shortens_iff

section Revised

variable {o : Options} {t : NameTable} {f : QualifiedName → Bool}

theorem text_judgeSegments {segments : List Segment}
    (hf : ∀ j ∈ t.judge o (segments.filterMap Segment.qualifiedName?), j.2.shortens = f j.1) :
    (judgeSegments o t segments).1.flatMap Piece.text = segments.flatMap (Segment.shorten f) := by
  induction segments generalizing t with
  | nil => rfl
  | cons s segments ih =>
    cases s with
    | qualified q =>
      have hHead := hf (q, t.verdict o q) List.mem_cons_self
      have hTail := ih fun j hj => hf j (List.mem_cons_of_mem _ hj)
      simp only at hHead
      simp only [judgeSegments, List.flatMap_cons, hTail, Piece.text, Segment.shorten, hHead]
    | text u | literal u =>
      simp only [judgeSegments, List.flatMap_cons, ih hf, Piece.text, Segment.shorten]

theorem text_judgeLine {l : Line}
    (hf : ∀ j ∈ t.judge o (if Line.isCode l.body then Segment.qualifiedNames l.body else []),
      j.2.shortens = f j.1) :
    (judgeLine o t l.body).1.flatMap Piece.text = (l.shorten f).body := by
  unfold judgeLine Line.shorten
  by_cases hCode : Line.isCode l.body = true
  · rw [if_pos hCode] at hf
    simp only [if_pos hCode]
    exact text_judgeSegments hf
  · simp only [if_neg hCode]
    exact List.append_nil _

theorem zip_judgeLines {lines : List Line}
    (hf : ∀ j ∈ t.judge o (codeNames (lines.map Line.body)), j.2.shortens = f j.1) :
    ((judgeLines o t (lines.map Line.body)).1.zip lines).map
        (fun p => Line.mk (p.1.flatMap Piece.text) p.2.ending) =
      lines.map (Line.shorten f) := by
  -- The table behind the first line is where the tail starts, so `t` stays general.
  induction lines generalizing t with
  | nil => rfl
  | cons l lines ih =>
    rw [List.map_cons, codeNames_cons, NameTable.judge_append] at hf
    have hHead := text_judgeLine fun j hj => hf j (List.mem_append_left _ hj)
    have hTail := ih (t := (judgeLine o t l.body).2) fun j hj =>
      hf j (List.mem_append_right _ (by rwa [← (judgeLine_eq o t l.body).2]))
    simp only [List.map_cons, judgeLines, List.zip_cons_cons, hTail, hHead]
    rfl

theorem countP_isShortened (pieces : List Piece) :
    pieces.countP Piece.isShortened =
      (pieces.filterMap Piece.judgement?).countP (fun j => j.2.shortens) := by
  induction pieces with
  | nil => rfl
  | cons p pieces ih =>
    cases p with
    | copied u =>
      rw [List.countP_cons_of_neg (by simp [Piece.isShortened]), ih]
      rfl
    | judged q v =>
      rw [List.countP_cons, ih]
      simp only [List.filterMap_cons, Piece.judgement?, List.countP_cons, Piece.isShortened]
      rfl

end Revised

section OfText

variable (o : Options) (source : Text)

theorem judgements_ofText : (ofText o source).judgements =
    (startNames (Header.ofText source) (Line.bodies source)).judge o
      (codeNames (Line.bodies source)) :=
  (judgeLines_eq o _ _).1

theorem settled_ofText :
    NameTable.Settled o (Header.ofText source).names (openNames (Line.bodies source))
      (codeNames (Line.bodies source)) (ofText o source).names := by
  have hs := (settled_startNames o (Line.bodies source)).behind (codeNames (Line.bodies source))
  rwa [← (judgeLines_eq o _ _).2] at hs

theorem judgements_eq_map : (ofText o source).judgements.map (fun j => (j.1, j.2.shortens)) =
    (codeNames (Line.bodies source)).map fun q => (q, shortens o (Line.bodies source) q) := by
  have hRule : ∀ j ∈ (ofText o source).judgements,
      (j.1, j.2.shortens) = (j.1, shortens o (Line.bodies source) j.1) := by
    intro j hj
    rw [judgements_ofText] at hj
    exact congrArg (j.1, ·) (shortens_of_judgement o _ hj)
  rw [List.map_congr_left hRule, judgements_ofText]
  conv_rhs => rw [← NameTable.map_fst_judge o
    (startNames (Header.ofText source) (Line.bodies source)) (codeNames (Line.bodies source))]
  rw [List.map_map]
  rfl

theorem revisedLines_ofText : (ofText o source).revisedLines =
    (Line.split source).map (Line.shorten (shortens o (Line.bodies source))) :=
  zip_judgeLines fun _ hj => shortens_of_judgement o _ hj

theorem replacements_ofText : (ofText o source).replacements =
    (codeNames (Line.bodies source)).countP (shortens o (Line.bodies source)) := by
  have hCount := congrArg (List.countP Prod.snd) (judgements_eq_map o source)
  rw [List.countP_map, List.countP_map] at hCount
  exact (countP_isShortened _).trans hCount

variable {o source}

theorem staged_ofText_eq_nil (h : (ofText o source).replacements = 0) :
    (ofText o source).names.staged = [] := by
  rw [replacements_ofText, List.countP_eq_zero] at h
  have hs := settled_ofText o source
  cases hStaged : (ofText o source).names.staged with
  | nil => rfl
  | cons p staged =>
    have hGet := hs.staged p.1
    rw [hStaged, Bindings.get?_cons, if_pos rfl] at hGet
    obtain ⟨u, hu, -⟩ := Option.map_eq_some_iff.mp hGet.symm
    obtain ⟨hFirst, -⟩ := Option.filter_eq_some_iff.mp hu
    obtain ⟨hMem, hName, hEligible⟩ := firstEligible?_some hFirst
    rw [← hName] at hFirst
    apply absurd _ (h u hMem)
    apply decide_eq_true
    exact hEligible.1.isShortened_iff.mpr (.inr ⟨hEligible.2.1, hFirst⟩)

theorem wellFormed_of_mem_codeNames {bodies : List Text} {q : QualifiedName}
    (hq : q ∈ codeNames bodies) : q.WellFormed := by
  obtain ⟨body, -, hBody⟩ := List.mem_flatMap.mp hq
  exact Segment.wellFormed_of_mem_qualifiedNames hBody

theorem eq_of_text_eq_of_mem_codeNames {bodies : List Text} {q u : QualifiedName}
    (hq : q ∈ codeNames bodies) (hu : u ∈ codeNames bodies) (hText : q.text = u.text) : q = u := by
  apply QualifiedName.eq_of_text_eq hText
  rw [← (wellFormed_of_mem_codeNames hq).lastSegment_text, hText,
    (wellFormed_of_mem_codeNames hu).lastSegment_text]

theorem mem_codeNames_of_judgement {j : QualifiedName × Verdict}
    (hj : j ∈ (ofText o source).judgements) : j.1 ∈ codeNames (Line.bodies source) := by
  rw [judgements_ofText] at hj
  rw [← NameTable.map_fst_judge o (startNames (Header.ofText source) (Line.bodies source))
    (codeNames (Line.bodies source))]
  exact List.mem_map_of_mem hj

theorem shortens_of_mem_judgements {j : QualifiedName × Verdict}
    (hj : j ∈ (ofText o source).judgements) :
    j.2.shortens = shortens o (Line.bodies source) j.1 := by
  rw [judgements_ofText] at hj
  exact shortens_of_judgement o _ hj

end OfText

end Reading

section Revise

variable {o : Options} {source : Text}

theorem revise_eq_none_iff : revise o source = none ↔
    ∀ q ∈ Reading.codeNames (Line.bodies source),
      ¬ Reading.shortens o (Line.bodies source) q = true := by
  rw [← List.countP_eq_zero, ← Reading.replacements_ofText, revise, Revision.ofReading?]
  constructor
  · intro h
    split at h
    · rename_i hNothing
      exact hNothing.1
    · cases h
  · intro h
    rw [if_pos ⟨h, Reading.staged_ofText_eq_nil h⟩]

theorem revise_eq_some {r : Revision} (h : revise o source = some r) :
    r.newImports = (Reading.ofText o source).newImports ∧
      r.content = Line.join (Revision.insertImports (Header.ofText source).insertAt r.newImports
        ((Line.split source).map (Line.shorten (Reading.shortens o (Line.bodies source))))) ∧
      r.replacements = (Reading.codeNames (Line.bodies source)).countP
        (Reading.shortens o (Line.bodies source)) := by
  unfold revise Revision.ofReading? at h
  split at h
  · cases h
  · cases h
    refine ⟨rfl, ?_, Reading.replacements_ofText o source⟩
    rw [Reading.revisedLines_ofText]
    rfl

/-- The revision of a text by a rule without state. Every qualified name of a code line is judged
once and in order, and exactly those of the rule give way to their simple names: what is judged
alike is one name wherever it stands. -/
theorem revise_eq_stateless (o : Options) (source : Text) :
    let bodies := Line.bodies source
    let rule := Reading.shortens o bodies
    let judgements := (Reading.ofText o source).judgements
    judgements.map (fun j => (j.1, j.2.shortens)) =
        (Reading.codeNames bodies).map (fun q => (q, rule q)) ∧
      (Reading.ofText o source).revisedLines = (Line.split source).map (Line.shorten rule) ∧
      (∀ j ∈ judgements, ∀ k ∈ judgements, j.1.text = k.1.text → j.2.shortens = k.2.shortens) ∧
      (revise o source = none ↔ ∀ q ∈ Reading.codeNames bodies, ¬ rule q = true) ∧
      ∀ r, revise o source = some r →
        r.content = Line.join (Revision.insertImports (Header.ofText source).insertAt r.newImports
          ((Line.split source).map (Line.shorten rule))) ∧
        r.replacements = (Reading.codeNames bodies).countP rule := by
  refine ⟨Reading.judgements_eq_map o source, Reading.revisedLines_ofText o source, ?_,
    revise_eq_none_iff, fun r hr => (revise_eq_some hr).2⟩
  intro j hj k hk hText
  have hName := Reading.eq_of_text_eq_of_mem_codeNames (Reading.mem_codeNames_of_judgement hj)
    (Reading.mem_codeNames_of_judgement hk) hText
  rw [Reading.shortens_of_mem_judgements hj, Reading.shortens_of_mem_judgements hk, hName]

end Revise

end ShortNames
