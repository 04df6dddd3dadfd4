import ShortNames.Reading

/-!
# Verdicts in the order of the text

A verdict is reached with the names that were claimed before it. What it depends on is less than
that table: for each simple name only the first qualified name that was free to claim it. `Settled`
relates the table to the names already read, `Ground` lists what each verdict rests on, and
`Settled.judged` carries the relation over a whole run of names.
-/

namespace ShortNames

/-- Neither the options nor the package of the file bring `q` into scope. -/
def Foreign (o : Options) (h : NameTable) (q : QualifiedName) : Prop :=
  q.name ∉ o.exemptNames ∧ q.package ∉ o.builtinPackages ∧ h.package ≠ some q.package

instance (o : Options) (h : NameTable) (q : QualifiedName) : Decidable (Foreign o h q) :=
  inferInstanceAs (Decidable (_ ∧ _ ∧ _))

/-- Whether `q` may claim its simple name in a file with the header names `h`, where `bare` are
the names that may be bound by an import on demand. -/
def Eligible (o : Options) (h : NameTable) (bare : List Text) (q : QualifiedName) : Prop :=
  Foreign o h q ∧ h.imported? q.name = none ∧
    (h.soleOnDemand? = some q.package ∨ q.name ∉ bare)

instance (o : Options) (h : NameTable) (bare : List Text) (q : QualifiedName) :
    Decidable (Eligible o h bare q) :=
  inferInstanceAs (Decidable (_ ∧ _ ∧ _))

def firstEligible? (o : Options) (h : NameTable) (bare : List Text) (names : List QualifiedName)
    (x : Text) : Option QualifiedName :=
  names.find? fun u => u.name = x ∧ Eligible o h bare u

theorem QualifiedName.eq_of_package_eq {q u : QualifiedName} (hPackage : q.package = u.package)
    (hName : q.name = u.name) : q = u := by
  cases q
  cases u
  cases hPackage
  cases hName
  rfl

theorem QualifiedName.eq_of_text_eq {q u : QualifiedName} (hText : q.text = u.text)
    (hName : q.name = u.name) : q = u := by
  cases q with
  | mk package name =>
    cases u with
    | mk package' name' =>
      subst hName
      simp only [text, List.append_cancel_right_eq] at hText
      rw [hText]

section First

variable {o : Options} {h : NameTable} {bare : List Text} {names : List QualifiedName}

theorem firstEligible?_some {x : Text} {u : QualifiedName}
    (hu : firstEligible? o h bare names x = some u) :
    u ∈ names ∧ u.name = x ∧ Eligible o h bare u := by
  have hp := List.find?_some hu
  simp only [decide_eq_true_eq] at hp
  exact ⟨List.mem_of_find?_eq_some hu, hp⟩

theorem exists_firstEligible? {u : QualifiedName} (hu : u ∈ names) (he : Eligible o h bare u) :
    ∃ v, firstEligible? o h bare names u.name = some v := by
  apply Option.isSome_iff_exists.mp
  rw [firstEligible?, List.find?_isSome]
  exact ⟨u, hu, by simpa using he⟩

@[simp] theorem firstEligible?_append (rest : List QualifiedName) (x : Text) :
    firstEligible? o h bare (names ++ rest) x =
      (firstEligible? o h bare names x).or (firstEligible? o h bare rest x) :=
  List.find?_append

@[simp] theorem firstEligible?_singleton (q : QualifiedName) (x : Text) :
    firstEligible? o h bare [q] x = if q.name = x ∧ Eligible o h bare q then some q else none := by
  simp [firstEligible?, List.find?_singleton]

theorem firstEligible?_snoc_of_not {q : QualifiedName} (hq : ¬ Eligible o h bare q) (x : Text) :
    firstEligible? o h bare (names ++ [q]) x = firstEligible? o h bare names x := by
  simp [hq]

theorem firstEligible?_snoc_of_some {q u : QualifiedName}
    (hq : firstEligible? o h bare names q.name = some u) (x : Text) :
    firstEligible? o h bare (names ++ [q]) x = firstEligible? o h bare names x := by
  by_cases hx : q.name = x
  · simp [← hx, hq]
  · simp [hx]

theorem firstEligible?_snoc_of_free {q : QualifiedName} (hq : Eligible o h bare q)
    (hFree : firstEligible? o h bare names q.name = none) (x : Text) :
    firstEligible? o h bare (names ++ [q]) x =
      if x = q.name then some q else firstEligible? o h bare names x := by
  by_cases hx : x = q.name
  · simp [hx, hFree, hq]
  · simp [hx, Ne.symm hx]

theorem firstEligible?_append_of_some {x : Text} {u : QualifiedName}
    (hu : firstEligible? o h bare names x = some u) (rest : List QualifiedName) :
    firstEligible? o h bare (names ++ rest) x = some u := by
  simp [hu]

theorem firstEligible?_append_cons_of_free {q : QualifiedName} (hq : Eligible o h bare q)
    (hFree : firstEligible? o h bare names q.name = none) (rest : List QualifiedName) :
    firstEligible? o h bare (names ++ q :: rest) q.name = some q := by
  rw [List.append_cons]
  refine firstEligible?_append_of_some ?_ rest
  rw [firstEligible?_snoc_of_free hq hFree, if_pos rfl]

theorem firstEligible?_of_imported {x existing : Text} (hImport : h.imported? x = some existing) :
    firstEligible? o h bare names x = none := by
  cases hFirst : firstEligible? o h bare names x with
  | none => rfl
  | some u =>
    obtain ⟨-, rfl, hu⟩ := firstEligible?_some hFirst
    cases hImport.symm.trans hu.2.1

end First

theorem Bindings.nodup_insert {b : Bindings} (hb : (b.map (·.1)).Nodup) (name qualified : Text) :
    ((b.insert name qualified).map (·.1)).Nodup := by
  rw [Bindings.insert, List.map_cons, List.nodup_cons]
  refine ⟨?_, hb.sublist (List.filter_sublist.map _)⟩
  intro hMem
  obtain ⟨p, hp, hName⟩ := List.mem_map.mp hMem
  simpa [hName] using (List.mem_filter.mp hp).2

namespace NameTable

/-- `t` is the table of a file with the header names `h` behind the names `seen`: besides the
header it holds, for each simple name, the claim of the first name that was free to make one. -/
structure Settled (o : Options) (h : NameTable) (bare : List Text) (seen : List QualifiedName)
    (t : NameTable) : Prop where
  package : t.package = h.package
  imports : t.imports = h.imports
  onDemand : t.onDemand = h.onDemand
  bare_iff : ∀ x, (!t.onDemand.isEmpty && t.isBare x) = decide (x ∈ bare)
  staged : ∀ x, t.staged.get? x =
    ((firstEligible? o h bare seen x).filter (h.soleOnDemand? ≠ some ·.package)).map (·.text)
  covered : ∀ x, t.covered.get? x =
    ((firstEligible? o h bare seen x).filter (h.soleOnDemand? = some ·.package)).map (·.text)
  nodup : (t.staged.map (·.1)).Nodup

/-- What a verdict on `q` behind the names `seen` rests on. -/
inductive Ground (o : Options) (h : NameTable) (bare : List Text) (seen : List QualifiedName)
    (q : QualifiedName) : Verdict → Prop
  | exempt (hName : q.name ∈ o.exemptNames) : Ground o h bare seen q .exempt
  | builtIn (hPackage : q.package ∈ o.builtinPackages) : Ground o h bare seen q .builtIn
  | samePackage (hPackage : h.package = some q.package) : Ground o h bare seen q .samePackage
  | alreadyImported (hForeign : Foreign o h q) (hImport : h.imported? q.name = some q.text) :
    Ground o h bare seen q .alreadyImported
  | shadowConflict (hForeign : Foreign o h q) {existing : Text}
    (hImport : h.imported? q.name = some existing) (hOther : existing ≠ q.text) :
    Ground o h bare seen q (.shadowConflict existing)
  | pendingConflict (hForeign : Foreign o h q) (hImport : h.imported? q.name = none)
    {u : QualifiedName} (hFirst : firstEligible? o h bare seen q.name = some u) (hOther : u ≠ q) :
    Ground o h bare seen q (.pendingConflict u.text)
  | alreadyStaged (hFirst : firstEligible? o h bare seen q.name = some q)
    (hSole : h.soleOnDemand? ≠ some q.package) : Ground o h bare seen q .alreadyStaged
  | alreadyCovered (hFirst : firstEligible? o h bare seen q.name = some q)
    (hSole : h.soleOnDemand? = some q.package) : Ground o h bare seen q .covered
  | covered (hFree : firstEligible? o h bare seen q.name = none) (hEligible : Eligible o h bare q)
    (hSole : h.soleOnDemand? = some q.package) : Ground o h bare seen q .covered
  | bareConflict (hForeign : Foreign o h q) (hImport : h.imported? q.name = none)
    (hFree : firstEligible? o h bare seen q.name = none)
    (hSole : h.soleOnDemand? ≠ some q.package) (hBare : q.name ∈ bare) :
    Ground o h bare seen q .bareConflict
  | staged (hFree : firstEligible? o h bare seen q.name = none) (hEligible : Eligible o h bare q)
    (hSole : h.soleOnDemand? ≠ some q.package) : Ground o h bare seen q .staged

section Settled

variable {o : Options} {h t : NameTable} {bare : List Text} {seen : List QualifiedName}

theorem Settled.imported? (hs : Settled o h bare seen t) (x : Text) :
    t.imported? x = h.imported? x := by
  rw [NameTable.imported?, hs.imports, NameTable.imported?]

theorem Settled.soleOnDemand? (hs : Settled o h bare seen t) :
    t.soleOnDemand? = h.soleOnDemand? := by
  rw [NameTable.soleOnDemand?, hs.onDemand, NameTable.soleOnDemand?]

theorem Settled.claimed? (hs : Settled o h bare seen t) (x : Text) :
    t.claimed? x = (firstEligible? o h bare seen x).map (·.text) := by
  rw [NameTable.claimed?, hs.staged, hs.covered]
  cases firstEligible? o h bare seen x with
  | none => rfl
  | some u => by_cases hu : h.soleOnDemand? = some u.package <;> simp [Option.filter, hu]

theorem Settled.staged?_isSome (hs : Settled o h bare seen t) {x : Text} {u : QualifiedName}
    (hu : firstEligible? o h bare seen x = some u) :
    (t.staged? x).isSome ↔ h.soleOnDemand? ≠ some u.package := by
  rw [NameTable.staged?, hs.staged, hu]
  by_cases hSole : h.soleOnDemand? = some u.package <;> simp [Option.filter, hSole]

theorem Settled.ground_claimed (hs : Settled o h bare seen t) {q u : QualifiedName}
    (hForeign : Foreign o h q) (hImport : h.imported? q.name = none)
    (hFirst : firstEligible? o h bare seen q.name = some u) :
    Ground o h bare seen q (t.verdictClaimed q u.text) := by
  unfold verdictClaimed
  by_cases hText : u.text = q.text
  · have hu := QualifiedName.eq_of_text_eq hText (firstEligible?_some hFirst).2.1
    subst hu
    rw [if_neg (not_not_intro rfl)]
    split
    · exact .alreadyStaged hFirst ((hs.staged?_isSome hFirst).mp ‹_›)
    · rename_i hNotStaged
      apply Ground.alreadyCovered hFirst
      apply Decidable.byContradiction
      intro hSole
      exact hNotStaged ((hs.staged?_isSome hFirst).mpr hSole)
  · rw [if_pos hText]
    apply Ground.pendingConflict hForeign hImport hFirst
    rintro rfl
    exact hText rfl

theorem Settled.ground_free (hs : Settled o h bare seen t) {q : QualifiedName}
    (hForeign : Foreign o h q) (hImport : h.imported? q.name = none)
    (hFree : firstEligible? o h bare seen q.name = none) :
    Ground o h bare seen q (t.verdictFree q) := by
  unfold verdictFree
  rw [hs.soleOnDemand?, hs.bare_iff]
  by_cases hSole : h.soleOnDemand? = some q.package
  · rw [if_pos hSole]
    exact .covered hFree ⟨hForeign, hImport, .inl hSole⟩ hSole
  · rw [if_neg hSole]
    by_cases hBare : q.name ∈ bare
    · rw [if_pos (decide_eq_true hBare)]
      exact .bareConflict hForeign hImport hFree hSole hBare
    · rw [if_neg (by simpa using hBare)]
      exact .staged hFree ⟨hForeign, hImport, .inr hBare⟩ hSole

theorem Settled.ground (hs : Settled o h bare seen t) (q : QualifiedName) :
    Ground o h bare seen q (t.verdict o q) := by
  unfold verdict
  rw [hs.package, hs.imported?, hs.claimed?]
  simp only [List.contains_iff_mem]
  by_cases hExempt : q.name ∈ o.exemptNames
  · rw [if_pos hExempt]
    exact .exempt hExempt
  rw [if_neg hExempt]
  by_cases hBuiltin : q.package ∈ o.builtinPackages
  · rw [if_pos hBuiltin]
    exact .builtIn hBuiltin
  rw [if_neg hBuiltin]
  by_cases hOwn : h.package = some q.package
  · rw [if_pos hOwn]
    exact .samePackage hOwn
  rw [if_neg hOwn]
  have hForeign : Foreign o h q := ⟨hExempt, hBuiltin, hOwn⟩
  cases hImport : h.imported? q.name with
  | some existing =>
    simp only [verdictImported]
    split
    · subst existing
      exact .alreadyImported hForeign hImport
    · exact .shadowConflict hForeign hImport ‹_›
  | none =>
    cases hFirst : firstEligible? o h bare seen q.name with
    | some u => exact hs.ground_claimed hForeign hImport hFirst
    | none => exact hs.ground_free hForeign hImport hFirst

theorem Settled.isTaken (hs : Settled o h bare seen t) (x : Text) :
    t.isTaken x = ((h.imported? x).isSome || (firstEligible? o h bare seen x).isSome) := by
  rw [NameTable.isTaken, hs.imported?, hs.claimed?, Option.isSome_map]

theorem Settled.keep (hs : Settled o h bare seen t) {q : QualifiedName}
    (hSame : ∀ x, firstEligible? o h bare (seen ++ [q]) x = firstEligible? o h bare seen x) :
    Settled o h bare (seen ++ [q]) t :=
  { hs with
    staged := fun x => by rw [hSame, hs.staged]
    covered := fun x => by rw [hSame, hs.covered] }

theorem Settled.stage (hs : Settled o h bare seen t) {q : QualifiedName}
    (hFree : firstEligible? o h bare seen q.name = none) (hq : Eligible o h bare q)
    (hSole : h.soleOnDemand? ≠ some q.package) :
    Settled o h bare (seen ++ [q]) { t with staged := t.staged.insert q.name q.text } :=
  { hs with
    staged := fun x => by
      rw [Bindings.get?_insert, firstEligible?_snoc_of_free hq hFree, hs.staged]
      split
      · simp [Option.filter, hSole]
      · rfl
    covered := fun x => by
      rw [firstEligible?_snoc_of_free hq hFree, hs.covered]
      split
      · subst x
        simp [Option.filter, hSole, hFree]
      · rfl
    nodup := Bindings.nodup_insert hs.nodup q.name q.text }

theorem Settled.cover (hs : Settled o h bare seen t) {q : QualifiedName}
    (hFree : firstEligible? o h bare seen q.name = none) (hq : Eligible o h bare q)
    (hSole : h.soleOnDemand? = some q.package) :
    Settled o h bare (seen ++ [q]) { t with covered := t.covered.insert q.name q.text } :=
  { hs with
    staged := fun x => by
      rw [firstEligible?_snoc_of_free hq hFree, hs.staged]
      split
      · subst x
        simp [Option.filter, hSole, hFree]
      · rfl
    covered := fun x => by
      rw [Bindings.get?_insert, firstEligible?_snoc_of_free hq hFree, hs.covered]
      split
      · simp [Option.filter, hSole]
      · rfl }

/-- One verdict keeps the table settled: it claims a simple name exactly for the first name that
is eligible for it. -/
theorem Settled.claim (hs : Settled o h bare seen t) (q : QualifiedName) :
    Settled o h bare (seen ++ [q]) (t.claim q (t.verdict o q)) := by
  -- Only a verdict on a free name moves the table, and only then is `q` a new first claimant.
  have hGround := hs.ground q
  generalize t.verdict o q = v at hGround ⊢
  cases hGround with
  | exempt hName => exact hs.keep (firstEligible?_snoc_of_not fun hq => hq.1.1 hName)
  | builtIn hPackage => exact hs.keep (firstEligible?_snoc_of_not fun hq => hq.1.2.1 hPackage)
  | samePackage hPackage =>
    exact hs.keep (firstEligible?_snoc_of_not fun hq => hq.1.2.2 hPackage)
  | alreadyImported _ hImport | shadowConflict _ hImport _ =>
    exact hs.keep (firstEligible?_snoc_of_not fun hq => by cases hImport.symm.trans hq.2.1)
  | pendingConflict _ _ hFirst _ | alreadyStaged hFirst _ =>
    exact hs.keep (firstEligible?_snoc_of_some hFirst)
  | alreadyCovered hFirst _ =>
    have hTaken : t.isTaken q.name = true := by
      rw [hs.isTaken, hFirst, Option.isSome_some, Bool.or_true]
    rw [NameTable.claim, NameTable.cover?, if_pos hTaken]
    exact hs.keep (firstEligible?_snoc_of_some hFirst)
  | bareConflict _ _ _ hSole hBare =>
    exact hs.keep (firstEligible?_snoc_of_not fun hq => hq.2.2.elim hSole (· hBare))
  | covered hFree hEligible hSole =>
    have hTaken : t.isTaken q.name = false := by rw [hs.isTaken, hFree, hEligible.2.1]; rfl
    rw [NameTable.claim, NameTable.cover?, if_neg (Bool.not_eq_true _ ▸ hTaken)]
    exact hs.cover hFree hEligible hSole
  | staged hFree hEligible hSole =>
    have hTaken : t.isTaken q.name = false := by rw [hs.isTaken, hFree, hEligible.2.1]; rfl
    rw [NameTable.claim, NameTable.stage?, if_neg (Bool.not_eq_true _ ▸ hTaken)]
    exact hs.stage hFree hEligible hSole

end Settled

/-- The verdicts on `names` in turn, from the table `t` on. -/
def judge (o : Options) (t : NameTable) : List QualifiedName → List (QualifiedName × Verdict)
  | [] => []
  | q :: rest => (q, t.verdict o q) :: judge o (t.claim q (t.verdict o q)) rest

def behind (o : Options) (t : NameTable) (names : List QualifiedName) : NameTable :=
  names.foldl (fun t q => t.claim q (t.verdict o q)) t

@[simp] theorem judge_append (o : Options) (t : NameTable) (names rest : List QualifiedName) :
    judge o t (names ++ rest) = judge o t names ++ judge o (behind o t names) rest := by
  induction names generalizing t with
  | nil => rfl
  | cons q names ih => exact congrArg (_ :: ·) (ih _)

@[simp] theorem behind_append (o : Options) (t : NameTable) (names rest : List QualifiedName) :
    behind o t (names ++ rest) = behind o (behind o t names) rest :=
  List.foldl_append

@[simp] theorem map_fst_judge (o : Options) (t : NameTable) (names : List QualifiedName) :
    (judge o t names).map (·.1) = names := by
  induction names generalizing t with
  | nil => rfl
  | cons q names ih => exact congrArg (q :: ·) (ih _)

section Run

variable {o : Options} {h t : NameTable} {bare : List Text} {seen : List QualifiedName}

theorem Settled.behind (hs : Settled o h bare seen t) (names : List QualifiedName) :
    Settled o h bare (seen ++ names) (t.behind o names) := by
  induction names generalizing seen t with
  | nil => rwa [List.append_nil]
  | cons q names ih =>
    rw [List.append_cons]
    exact ih (hs.claim q)

theorem Settled.judged (hs : Settled o h bare seen t) {names : List QualifiedName}
    {q : QualifiedName} {v : Verdict} (hv : (q, v) ∈ judge o t names) :
    ∃ before after, names = before ++ q :: after ∧ Ground o h bare (seen ++ before) q v := by
  induction names generalizing seen t with
  | nil => cases hv
  | cons u names ih =>
    rcases List.mem_cons.mp hv with hHead | hTail
    · cases hHead
      exact ⟨[], names, rfl, by rw [List.append_nil]; exact hs.ground q⟩
    · obtain ⟨before, after, hNames, hGround⟩ := ih (hs.claim u) hTail
      refine ⟨u :: before, after, by rw [hNames, List.cons_append], ?_⟩
      rwa [List.append_cons]

end Run

end NameTable

end ShortNames
