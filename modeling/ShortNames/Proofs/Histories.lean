import ShortNames.Proofs.ByteOrder
import ShortNames.Proofs.Headers
import ShortNames.Proofs.Judging

/-!
# Histories of a table of names

A table can be used in any order: declarations may come late, claims may be refused, names may be
judged under changing options. `Moved` says all that one use can do to it. Whatever the history, a
claim once made stays, and no simple name is claimed in both ways.
-/

namespace ShortNames

/-- One use of a table of names. -/
inductive Operation
  | declarePackage (package : Text)
  | addImport (name qualified : Text)
  | addOnDemand (package : Text)
  | addBare (name : Text)
  | stage (name qualified : Text)
  | cover (name qualified : Text)
  | judge (o : Options) (q : QualifiedName)

namespace Bindings

theorem insert_of_get?_eq_none {b : Bindings} {name : Text} (h : b.get? name = none)
    (qualified : Text) : b.insert name qualified = (name, qualified) :: b := by
  rw [insert, List.filter_eq_self.mpr]
  intro p hp
  apply decide_eq_true
  rintro rfl
  exact lookup_eq_none_iff_keys.mp h (List.mem_map_of_mem hp)

theorem get?_cons_of_some {b : Bindings} {name x y : Text} (hFree : b.get? name = none)
    (h : b.get? x = some y) (qualified : Text) :
    Bindings.get? ((name, qualified) :: b) x = some y := by
  rw [get?_cons, if_neg]
  · exact h
  · rintro rfl
    cases hFree.symm.trans h

end Bindings

namespace NameTable

/-- The table after one use. A claim that is refused leaves it as it was. -/
def perform (t : NameTable) : Operation → NameTable
  | .declarePackage package => t.declarePackage package
  | .addImport name qualified => t.addImport name qualified
  | .addOnDemand package => t.addOnDemand package
  | .addBare name => t.addBare name
  | .stage name qualified => (t.stage? name qualified).getD t
  | .cover name qualified => (t.cover? name qualified).getD t
  | .judge o q => t.claim q (t.verdict o q)

def performAll (t : NameTable) (history : List Operation) : NameTable :=
  history.foldl perform t

/-- The simple name is neither imported nor claimed. -/
def IsFree (t : NameTable) (x : Text) : Prop :=
  t.imported? x = none ∧ t.claimed? x = none

instance (t : NameTable) (x : Text) : Decidable (t.IsFree x) :=
  inferInstanceAs (Decidable (_ ∧ _))

def withStaged (t : NameTable) (x y : Text) : NameTable :=
  { t with staged := (x, y) :: t.staged }

def withCovered (t : NameTable) (x y : Text) : NameTable :=
  { t with covered := (x, y) :: t.covered }

variable {t u v : NameTable} {x y : Text}

theorem isTaken_iff : t.isTaken x = true ↔ ¬ t.IsFree x := by
  rw [isTaken, Bool.or_eq_true, Option.isSome_iff_ne_none, Option.isSome_iff_ne_none, IsFree]
  tauto

theorem IsFree.staged (h : t.IsFree x) : t.staged.get? x = none :=
  (Option.or_eq_none_iff.mp h.2).1

theorem IsFree.covered (h : t.IsFree x) : t.covered.get? x = none :=
  (Option.or_eq_none_iff.mp h.2).2

theorem stage?_eq (t : NameTable) (x y : Text) :
    t.stage? x y = if t.IsFree x then some (t.withStaged x y) else none := by
  by_cases h : t.IsFree x
  · rw [stage?, if_neg (isTaken_iff.not_left.mpr h), if_pos h,
      Bindings.insert_of_get?_eq_none h.staged]
    rfl
  · rw [stage?, if_pos (isTaken_iff.mpr h), if_neg h]

theorem cover?_eq (t : NameTable) (x y : Text) :
    t.cover? x y = if t.IsFree x then some (t.withCovered x y) else none := by
  by_cases h : t.IsFree x
  · rw [cover?, if_neg (isTaken_iff.not_left.mpr h), if_pos h,
      Bindings.insert_of_get?_eq_none h.covered]
    rfl
  · rw [cover?, if_pos (isTaken_iff.mpr h), if_neg h]

/-- What judging `q` does to a table, along with the verdict. -/
inductive Judged (t : NameTable) (q : QualifiedName) : Verdict → NameTable → Prop
  | staged (hFree : t.IsFree q.name) : Judged t q .staged (t.withStaged q.name q.text)
  | covered (hFree : t.IsFree q.name) : Judged t q .covered (t.withCovered q.name q.text)
  | alreadyStaged (hStaged : t.staged? q.name = some q.text) : Judged t q .alreadyStaged t
  | alreadyCovered (hCovered : t.covered.get? q.name = some q.text) : Judged t q .covered t
  | unclaimed {v : Verdict} (hStaged : v ≠ .staged) (hAlready : v ≠ .alreadyStaged)
    (hCovered : v ≠ .covered) : Judged t q v t

section Judging

variable {o : Options} {q : QualifiedName} {w : Verdict}

theorem judged_free (hFree : t.IsFree q.name) :
    Judged t q (t.verdictFree q) (t.claim q (t.verdictFree q)) := by
  unfold verdictFree
  split
  · rw [claim, cover?_eq, if_pos hFree]
    exact .covered hFree
  · split
    · exact .unclaimed (by decide) (by decide) (by decide)
    · rw [claim, stage?_eq, if_pos hFree]
      exact .staged hFree

theorem judged_claimed {claimant : Text} (hClaimed : t.claimed? q.name = some claimant) :
    Judged t q (t.verdictClaimed q claimant) (t.claim q (t.verdictClaimed q claimant)) := by
  unfold verdictClaimed
  split
  · exact .unclaimed (by simp) (by simp) (by simp)
  · rename_i hSame
    rw [not_not.mp hSame, claimed?, Option.or_eq_some_iff] at hClaimed
    rcases hClaimed with hStaged | ⟨hNone, hCovered⟩
    · rw [if_pos (by rw [staged?, hStaged, Option.isSome_some])]
      exact .alreadyStaged hStaged
    -- The claim is refused, since the name is covered by this very claim.
    · have hTaken : ¬ t.IsFree q.name := fun hFree => by cases hFree.covered.symm.trans hCovered
      rw [if_neg (by simp [staged?, hNone]), claim, cover?_eq, if_neg hTaken]
      exact .alreadyCovered hCovered

theorem judged (o : Options) (t : NameTable) (q : QualifiedName) :
    Judged t q (t.verdict o q) (t.perform (.judge o q)) := by
  rw [perform]
  unfold verdict
  split
  · exact .unclaimed (by decide) (by decide) (by decide)
  split
  · exact .unclaimed (by decide) (by decide) (by decide)
  split
  · exact .unclaimed (by decide) (by decide) (by decide)
  cases hImport : t.imported? q.name with
  | some existing =>
    simp only [verdictImported]
    split <;> exact .unclaimed (by simp) (by simp) (by simp)
  | none =>
    cases hClaimed : t.claimed? q.name with
    | some claimant => exact judged_claimed hClaimed
    | none => exact judged_free ⟨hImport, hClaimed⟩

theorem Judged.eq_of_not_shortens (h : Judged t q w u) (hKept : w.shortens = false) : u = t := by
  cases h with
  | staged | covered => cases hKept
  | alreadyStaged | alreadyCovered | unclaimed => rfl

theorem Judged.length_staged (h : Judged t q w u) :
    u.staged.length = t.staged.length + if w.addsImport then 1 else 0 := by
  cases h with
  | unclaimed hStaged => cases w <;> first | rfl | exact absurd rfl hStaged
  | staged | covered | alreadyStaged | alreadyCovered => rfl

/-- A run of judgements stages as many names as there are verdicts that add an import. -/
theorem length_staged_behind (o : Options) (t : NameTable) (names : List QualifiedName) :
    (behind o t names).staged.length =
      t.staged.length + (judge o t names).countP (·.2.addsImport) := by
  induction names generalizing t with
  | nil => rfl
  | cons q names ih =>
    have hStep : (behind o t (q :: names)).staged.length =
        (t.perform (.judge o q)).staged.length +
          (judge o (t.perform (.judge o q)) names).countP (·.2.addsImport) := ih _
    rw [hStep, (judged o t q).length_staged, judge, List.countP_cons, perform]
    dsimp only
    omega

end Judging

/-- All that one use can do to a table. -/
inductive Moved (t : NameTable) : NameTable → Prop
  | declared {u : NameTable} (hStaged : u.staged = t.staged) (hCovered : u.covered = t.covered)
    (hPackage : ∀ package, t.package = some package → u.package = some package) : Moved t u
  | staged {x : Text} (y : Text) (hFree : t.IsFree x) : Moved t (t.withStaged x y)
  | covered {x : Text} (y : Text) (hFree : t.IsFree x) : Moved t (t.withCovered x y)

theorem Moved.refl (t : NameTable) : Moved t t :=
  .declared rfl rfl fun _ => id

theorem Judged.moved {q : QualifiedName} {w : Verdict} (h : Judged t q w u) : Moved t u := by
  cases h with
  | staged hFree => exact .staged q.text hFree
  | covered hFree => exact .covered q.text hFree
  | alreadyStaged | alreadyCovered | unclaimed => exact .refl t

theorem moved_perform (t : NameTable) (use : Operation) : Moved t (t.perform use) := by
  cases use with
  | declarePackage package =>
    refine .declared rfl rfl fun first hFirst => ?_
    rw [perform, declarePackage, hFirst, Option.some_or]
  | addImport | addOnDemand | addBare => exact .declared rfl rfl fun _ => id
  | stage x y =>
    rw [perform, stage?_eq]
    split
    · exact .staged y ‹_›
    · exact .refl t
  | cover x y =>
    rw [perform, cover?_eq]
    split
    · exact .covered y ‹_›
    · exact .refl t
  | judge o q => exact (judged o t q).moved

/-- What was settled in `t` is settled alike in `u`. -/
structure Keeps (t u : NameTable) : Prop where
  package : ∀ package, t.package = some package → u.package = some package
  staged : ∀ x y, t.staged? x = some y → u.staged? x = some y
  claimed : ∀ x y, t.claimed? x = some y → u.claimed? x = some y

theorem Keeps.refl (t : NameTable) : Keeps t t :=
  ⟨fun _ => id, fun _ _ => id, fun _ _ => id⟩

theorem Keeps.trans (h : Keeps t u) (h' : Keeps u v) : Keeps t v where
  package package hPackage := h'.package package (h.package package hPackage)
  staged x y hStaged := h'.staged x y (h.staged x y hStaged)
  claimed x y hClaimed := h'.claimed x y (h.claimed x y hClaimed)

theorem Moved.keeps (h : Moved t u) : Keeps t u := by
  cases h with
  | declared hStaged hCovered hPackage =>
    refine ⟨hPackage, fun x y hx => ?_, fun x y hx => ?_⟩
    · rwa [staged?, hStaged]
    · rwa [claimed?, hStaged, hCovered]
  | @staged name qualified hFree =>
    have hKept (x y : Text) (hx : t.staged? x = some y) :
        (t.withStaged name qualified).staged? x = some y :=
      Bindings.get?_cons_of_some hFree.staged hx qualified
    refine ⟨fun _ => id, hKept, fun x y hx => ?_⟩
    rw [claimed?, Option.or_eq_some_iff] at hx ⊢
    rcases hx with hStaged | ⟨hNone, hCovered⟩
    · exact .inl (hKept x y hStaged)
    · refine .inr ⟨?_, hCovered⟩
      rw [withStaged, Bindings.get?_cons, if_neg, hNone]
      rintro rfl
      cases hFree.covered.symm.trans hCovered
  | @covered name qualified hFree =>
    refine ⟨fun _ => id, fun _ _ => id, fun x y hx => ?_⟩
    rw [claimed?, Option.or_eq_some_iff] at hx ⊢
    refine hx.imp_right (And.imp_right fun hCovered => ?_)
    exact Bindings.get?_cons_of_some hFree.covered hCovered qualified

/-- No simple name is claimed in both ways, and each has one claim. -/
structure Exclusive (t : NameTable) : Prop where
  apart : ∀ x, t.staged? x = none ∨ t.covered.get? x = none
  nodup : (t.staged.map (·.1)).Nodup

theorem exclusive_empty : Exclusive .empty :=
  ⟨fun _ => .inl rfl, .nil⟩

theorem Moved.exclusive (h : Moved t u) (ht : t.Exclusive) : u.Exclusive := by
  cases h with
  | declared hStaged hCovered _ =>
    constructor
    · rw [hCovered]
      simpa only [staged?, hStaged] using ht.apart
    · rw [hStaged]
      exact ht.nodup
  | @staged name qualified hFree =>
    constructor
    · intro x
      by_cases hx : x = name
      · exact .inr (hx ▸ hFree.covered)
      · rw [staged?, withStaged, Bindings.get?_cons, if_neg hx]
        exact ht.apart x
    · rw [withStaged, List.map_cons, List.nodup_cons]
      exact ⟨lookup_eq_none_iff_keys.mp hFree.staged, ht.nodup⟩
  | @covered name qualified hFree =>
    refine ⟨fun x => ?_, ht.nodup⟩
    by_cases hx : x = name
    · exact .inl (hx ▸ hFree.staged)
    · rw [withCovered, Bindings.get?_cons, if_neg hx]
      exact ht.apart x

theorem keeps_performAll (t : NameTable) (history : List Operation) :
    Keeps t (t.performAll history) := by
  induction history generalizing t with
  | nil => exact .refl t
  | cons use history ih => exact (moved_perform t use).keeps.trans (ih _)

theorem Exclusive.performAll (h : t.Exclusive) (history : List Operation) :
    (t.performAll history).Exclusive := by
  induction history generalizing t with
  | nil => exact h
  | cons use history ih => exact ih ((moved_perform t use).exclusive h)

/-- The new imports are the staged names, each once, in ascending order. -/
structure ListsStaged (t : NameTable) (imports : List Text) : Prop where
  perm : imports.Perm (t.staged.map (·.2))
  ascending : imports.Pairwise fun a b => a = b ∨ Text.BytesBefore a b
  nodup : (t.staged.map (·.1)).Nodup
  staged_iff : ∀ x y, t.staged? x = some y ↔ (x, y) ∈ t.staged

theorem Exclusive.listsStaged (h : t.Exclusive) : t.ListsStaged t.newImports where
  perm := List.mergeSort_perm _ _
  ascending := Text.pairwise_mergeSort _
  nodup := h.nodup
  staged_iff _ _ := Bindings.get?_eq_some_iff h.nodup

/-- In whatever way a new table has been used, its claims are exclusive and for good. A claim is
made exactly on a free name, and adds one entry; a judgement reports what was claimed. -/
theorem claims_stay (history : List Operation) :
    let t := empty.performAll history
    (∀ x, t.staged? x = none ∨ t.covered.get? x = none) ∧
    (∀ later, Keeps t (t.performAll later)) ∧
    (∀ x y, t.stage? x y = if t.IsFree x then some (t.withStaged x y) else none) ∧
    (∀ x y, t.cover? x y = if t.IsFree x then some (t.withCovered x y) else none) ∧
    (∀ x y, t.perform (.stage x y) = if t.IsFree x then t.withStaged x y else t) ∧
    (∀ x y, t.perform (.cover x y) = if t.IsFree x then t.withCovered x y else t) ∧
    (∀ o q, (t.verdict o q).shortens = false → t.perform (.judge o q) = t) ∧
    (∀ o q, Judged t q (t.verdict o q) (t.perform (.judge o q))) ∧
    ListsStaged t t.newImports := by
  intro t
  have hExclusive : t.Exclusive := exclusive_empty.performAll history
  refine ⟨hExclusive.apart, keeps_performAll t, stage?_eq t, cover?_eq t, ?_, ?_, ?_,
    fun o => judged o t, hExclusive.listsStaged⟩
  · intro x y
    rw [perform, stage?_eq]
    split <;> rfl
  · intro x y
    rw [perform, cover?_eq]
    split <;> rfl
  · intro o q
    exact (judged o t q).eq_of_not_shortens

/-- `B` is staged and `A` is covered. Neither an import of another `B` that comes late nor a second
claim moves them, and a judgement in conflict with them changes nothing. -/
theorem claims_stay_with_late_import :
    let t := empty.performAll [.addOnDemand ['p'], .stage ['B'] ['q', '.', 'B'],
      .judge .standard ⟨['p'], ['A']⟩, .declarePackage ['m']]
    let later : List Operation := [.addImport ['B'] ['r', '.', 'B'], .cover ['B'] ['p', '.', 'B'],
      .stage ['A'] ['q', '.', 'A'], .declarePackage ['n']]
    (t.package = some ['m'] ∧ (t.performAll later).package = some ['m']) ∧
    (t.staged? ['B'] = some ['q', '.', 'B'] ∧
      (t.performAll later).staged? ['B'] = some ['q', '.', 'B']) ∧
    (t.claimed? ['A'] = some ['p', '.', 'A'] ∧
      (t.performAll later).claimed? ['A'] = some ['p', '.', 'A']) ∧
    (t.verdict .standard ⟨['r'], ['B']⟩).shortens = false ∧
    t.perform (.judge .standard ⟨['r'], ['B']⟩) = t := by
  intro t later
  obtain ⟨-, hKeeps, -, -, -, -, hRefused, -⟩ := claims_stay [.addOnDemand ['p'],
    .stage ['B'] ['q', '.', 'B'], .judge .standard ⟨['p'], ['A']⟩, .declarePackage ['m']]
  have hPackage : t.package = some ['m'] := by decide
  have hStaged : t.staged? ['B'] = some ['q', '.', 'B'] := by decide
  have hClaimed : t.claimed? ['A'] = some ['p', '.', 'A'] := by decide
  have hConflict : (t.verdict .standard ⟨['r'], ['B']⟩).shortens = false := by decide
  exact ⟨⟨hPackage, (hKeeps later).package _ hPackage⟩,
    ⟨hStaged, (hKeeps later).staged _ _ hStaged⟩,
    ⟨hClaimed, (hKeeps later).claimed _ _ hClaimed⟩, hConflict, hRefused _ _ hConflict⟩

end NameTable

end ShortNames
