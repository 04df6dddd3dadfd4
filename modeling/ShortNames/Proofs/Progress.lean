import ShortNames.Proofs.Batches
import ShortNames.Proofs.Convergence

/-!
# What a batch makes of the files

Whatever a batch visits, every path in the end reads what it read at the start, revised some number
of times over, and a path that could not be read still cannot be (`Advanced`). A path whose text has
no revision is quiet: visits leave it as it is.
-/

namespace ShortNames

theorem Revised.trans {o : Options} {m n : Nat} {t u w : Text} (hFirst : Revised o m t u)
    (hRest : Revised o n u w) : Revised o (m + n) t w := by
  induction hFirst with
  | refl t => rwa [Nat.zero_add]
  | step h _ ih =>
    rw [Nat.add_right_comm]
    exact .step h (ih hRest)

theorem Revised.concat {o : Options} {n : Nat} {t u : Text} {r : Revision}
    (hFirst : Revised o n t u) (h : revise o u = some r) : Revised o (n + 1) t r.content :=
  hFirst.trans (.step h (.refl _))

theorem Revised.eq_of_quiet {o : Options} {n : Nat} {t u : Text} (h : Revised o n t u)
    (hNone : revise o t = none) : u = t := by
  cases h with
  | refl => rfl
  | step hRevise => cases hNone.symm.trans hRevise

theorem Revised.ne {o : Options} {n : Nat} {t u : Text} (h : Revised o (n + 1) t u) : u ≠ t := by
  rintro rfl
  have hDots := h.codeDots_add_le
  omega

namespace Batch

variable {σ ι : Type} {v : Volume σ ι} {o : Options} {mode : Mode} {p : Path} {s s' s₀ : σ}

structure Advanced (v : Volume σ ι) (o : Options) (s s' : σ) : Prop where
  unreadable : ∀ {p cause}, v.read s p = .error cause → v.read s' p = .error cause
  revised : ∀ {p t}, v.read s p = .ok t → ∃ n u, v.read s' p = .ok u ∧ Revised o n t u

namespace Advanced

theorem refl (v : Volume σ ι) (o : Options) (s : σ) : Advanced v o s s :=
  ⟨fun hRead => hRead, fun hRead => ⟨0, _, hRead, .refl _⟩⟩

theorem trans {s₁ : σ} (hFirst : Advanced v o s s₁) (hRest : Advanced v o s₁ s') :
    Advanced v o s s' := by
  refine ⟨fun hRead => hRest.unreadable (hFirst.unreadable hRead), ?_⟩
  intro p t hRead
  obtain ⟨m, u, hMiddle, hRevised⟩ := hFirst.revised hRead
  obtain ⟨n, w, hLast, hAgain⟩ := hRest.revised hMiddle
  exact ⟨m + n, w, hLast, hRevised.trans hAgain⟩

theorem of_write (hv : v.Lawful) {t : Text} {r : Revision} (hRead : v.read s p = .ok t)
    (hRevise : revise o t = some r) (hWrite : v.write s p r.content = .ok s') :
    Advanced v o s s' := by
  constructor
  · intro q cause hError
    rcases (hv.read_write hRead hWrite).2 q with ⟨-, hOld, -⟩ | hSame
    · cases hError.symm.trans hOld
    · rw [hSame, hError]
  · intro q u hOther
    rcases (hv.read_write hRead hWrite).2 q with ⟨-, hOld, hNew⟩ | hSame
    · obtain rfl := Except.ok.inj (hOther.symm.trans hOld)
      exact ⟨1, r.content, hNew, .step hRevise (.refl _)⟩
    · exact ⟨0, u, hSame.trans hOther, .refl u⟩

theorem exists_of_read (h : Advanced v o s s') {u : Text} (hRead : v.read s' p = .ok u) :
    ∃ n t, v.read s p = .ok t ∧ Revised o n t u := by
  cases hOld : v.read s p with
  | error cause => cases (h.unreadable hOld).symm.trans hRead
  | ok t =>
    obtain ⟨n, w, hNew, hRevised⟩ := h.revised hOld
    obtain rfl := Except.ok.inj (hNew.symm.trans hRead)
    exact ⟨n, t, rfl, hRevised⟩

end Advanced

theorem Visited.advanced (hv : v.Lawful) {visit : Visit} (h : Visited v o mode p s visit s') :
    Advanced v o s s' := by
  cases h with
  | unreadable | unchanged | told | unwritten => exact .refl v o s
  | written _ hRead hRevise hWrite => exact .of_write hv hRead hRevise hWrite

theorem Visits.advanced (hv : v.Lawful) {files : List Path} {visits : List Visit}
    (h : Visits v o mode files s visits s') : Advanced v o s s' := by
  induction h with
  | nil s => exact .refl v o s
  | cons hFirst _ ih => exact (hFirst.advanced hv).trans ih

/-- Where a text has a revision, a visit that fails in nothing writes it. -/
theorem Visited.read_of_revise (hv : v.Lawful) {visit : Visit}
    (h : Visited v o .write p s visit s') (hWritten : visit.isUnwritten = false) {t : Text}
    {r : Revision} (hRead : v.read s p = .ok t) (hRevise : revise o t = some r) :
    v.read s' p = .ok r.content := by
  cases h with
  | unreadable hError => cases hError.symm.trans hRead
  | unchanged hOther hNone =>
    obtain rfl := Except.ok.inj (hOther.symm.trans hRead)
    cases hNone.symm.trans hRevise
  | told hMode => cases hMode
  | unwritten => cases hWritten
  | written _ hOther hFound hWrite =>
    obtain rfl := Except.ok.inj (hOther.symm.trans hRead)
    obtain rfl := Option.some.inj (hFound.symm.trans hRevise)
    exact (hv.read_write hRead hWrite).1

/-- A text with a revision is revised where it is visited, if not before on another path. -/
theorem Visits.exists_revised (hv : v.Lawful) {files : List Path} {visits : List Visit}
    (h : Visits v o .write files s visits s')
    (hWritten : ∀ visit ∈ visits, visit.isUnwritten = false) (hp : p ∈ files) {t : Text}
    {r : Revision} (hRead : v.read s p = .ok t) (hRevise : revise o t = some r) :
    ∃ n u, v.read s' p = .ok u ∧ Revised o (n + 1) t u := by
  induction h with
  | nil s => cases hp
  | cons hFirst hRest ih =>
    rw [List.forall_mem_cons] at hWritten
    rcases List.mem_cons.mp hp with rfl | hp
    · have hNow := hFirst.read_of_revise hv hWritten.1 hRead hRevise
      obtain ⟨n, u, hLast, hRevised⟩ := (hRest.advanced hv).revised hNow
      exact ⟨n, u, hLast, .step hRevise hRevised⟩
    · obtain ⟨n, u, hNow, hRevised⟩ := (hFirst.advanced hv).revised hRead
      cases hRevised with
      | refl => exact ih hWritten.2 hp hNow
      | @step n _ _ _ hFound hMore =>
        obtain ⟨m, w, hLast, hOthers⟩ := (hRest.advanced hv).revised hNow
        refine ⟨n + m, w, hLast, ?_⟩
        exact .step hFound (hMore.trans hOthers)

/-! ## Quiet paths -/

def Quiet (v : Volume σ ι) (o : Options) (s : σ) (p : Path) : Prop :=
  ∀ t, v.read s p = .ok t → revise o t = none

theorem not_quiet_iff :
    ¬ Quiet v o s p ↔ ∃ t r, v.read s p = .ok t ∧ revise o t = some r := by
  simp only [Quiet, not_forall, ← ne_eq, Option.ne_none_iff_exists', exists_prop, exists_and_left]

theorem Quiet.advanced (hQuiet : Quiet v o s p) (h : Advanced v o s s') : Quiet v o s' p := by
  intro u hRead
  obtain ⟨n, t, hOld, hRevised⟩ := h.exists_of_read hRead
  have hNone := hQuiet t hOld
  rwa [hRevised.eq_of_quiet hNone]

theorem Visits.of_quiet {files : List Path} {visits : List Visit}
    (h : Visits v o mode files s visits s') (hQuiet : ∀ p ∈ files, Quiet v o s p) :
    s' = s ∧ visits.filterMap Visit.outcome? = [] ∧ ∀ visit ∈ visits, visit.isUnwritten = false := by
  induction h with
  | nil s => exact ⟨rfl, rfl, nofun⟩
  | @cons p files s s₁ s₂ visit visits hFirst _ ih =>
    rw [List.forall_mem_cons] at hQuiet
    cases hFirst with
    | unreadable hRead =>
      obtain ⟨hState, hOutcomes, hWritten⟩ := ih hQuiet.2
      exact ⟨hState, hOutcomes, List.forall_mem_cons.mpr ⟨rfl, hWritten⟩⟩
    | unchanged hRead =>
      obtain ⟨hState, hOutcomes, hWritten⟩ := ih hQuiet.2
      exact ⟨hState, hOutcomes, List.forall_mem_cons.mpr ⟨rfl, hWritten⟩⟩
    | told _ hRead hRevise => cases (hQuiet.1 _ hRead).symm.trans hRevise
    | written _ hRead hRevise => cases (hQuiet.1 _ hRead).symm.trans hRevise
    | unwritten _ hRead hRevise => cases (hQuiet.1 _ hRead).symm.trans hRevise

/-! ## Failures to read -/

/-- The failure of a visit that cannot read its file. -/
def readFailure? (v : Volume σ ι) (s : σ) (p : Path) : Option Failure :=
  match v.read s p with
  | .error cause => some (.read p cause)
  | .ok _ => none

theorem Advanced.readFailure?_eq (h : Advanced v o s s') : readFailure? v s' = readFailure? v s := by
  funext p
  rw [readFailure?, readFailure?]
  cases hRead : v.read s p with
  | error cause => rw [h.unreadable hRead]
  | ok t =>
    obtain ⟨n, u, hNew, -⟩ := h.revised hRead
    rw [hNew]

theorem Visits.failures (hv : v.Lawful) {files : List Path} {visits : List Visit}
    (h : Visits v o mode files s visits s')
    (hWritten : ∀ visit ∈ visits, visit.isUnwritten = false) :
    visits.filterMap Visit.failure? = files.filterMap (readFailure? v s) := by
  induction h with
  | nil s => rfl
  | @cons p files s s₁ s₂ visit visits hFirst _ ih =>
    rw [List.forall_mem_cons] at hWritten
    rw [List.filterMap_cons, List.filterMap_cons, ih hWritten.2,
      (hFirst.advanced hv).readFailure?_eq]
    cases hFirst with
    | unreadable hRead => simp [Visit.failure?, readFailure?, hRead]
    | unchanged hRead => simp [Visit.failure?, readFailure?, hRead]
    | told _ hRead => simp [Visit.failure?, readFailure?, hRead]
    | written _ hRead => simp [Visit.failure?, readFailure?, hRead]
    | unwritten => cases hWritten.1

theorem summary_run (hv : v.Lawful) (extension : String) (targets : List Path) :
    let report := ((run v.disk o mode extension targets).run s).1
    (∀ visit ∈ report.visits, visit.isUnwritten = false) →
      report.summary =
        { analyzed := (files v.disk s extension targets).length
          updated := report.updates.length
          importsAdded := (report.updates.flatMap Outcome.newImports).length
          failed := ((files v.disk s extension targets).filterMap (readFailure? v s)).length
          skippedTrees := targets.countP (isSkippedAt v.disk s extension) } := by
  intro report hWritten
  obtain ⟨hVisits, hSkipped⟩ := visits_run hv o mode extension targets s
  rw [Report.summary, hVisits.failures hv hWritten, hVisits.length_eq]
  congr 1

end Batch

end ShortNames
