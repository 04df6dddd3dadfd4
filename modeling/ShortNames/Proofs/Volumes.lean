import ShortNames.Disk

/-!
# Volumes

A disk whose answers are functions of a state. On a lawful volume a write that succeeds changes
what is read on the paths to one file, and neither the kinds of things nor the outlines of
directories. So what a computation surveys there stays as it was, whatever is written meanwhile.
-/

namespace ShortNames

structure Volume (σ ι : Type) where
  kind? : σ → Path → Option Kind
  tree : σ → Path → Except (Path × Cause) (Tree Unit)
  read : σ → Path → Except Cause Text
  write : σ → Path → Text → Except Cause σ
  /-- The file that a path leads to. -/
  file? : σ → Path → Option ι

/-- A computation that leaves the state as it is. -/
def OnlyLooks {σ α : Type} (x : StateM σ α) : Prop :=
  ∀ s, (x.run s).2 = s

namespace OnlyLooks

variable {σ α β : Type}

@[simp] theorem pure (a : α) : OnlyLooks (Pure.pure a : StateM σ α) :=
  fun _ => rfl

theorem bind {x : StateM σ α} {f : α → StateM σ β} (hx : OnlyLooks x)
    (hf : ∀ a, OnlyLooks (f a)) : OnlyLooks (x >>= f) :=
  fun s => (hf _ _).trans (hx s)

theorem run_bind {x : StateM σ α} (hx : OnlyLooks x) (f : α → StateM σ β) (s : σ) :
    (x >>= f).run s = (f (x.run s).1).run s := by
  have hState := hx s
  rw [StateT.run_bind]
  change (f (x.run s).1).run (x.run s).2 = _
  rw [hState]

theorem mapM {f : α → StateM σ β} (hf : ∀ a, OnlyLooks (f a)) (as : List α) :
    OnlyLooks (as.mapM f) := by
  induction as with
  | nil => exact pure []
  | cons a as ih =>
    rw [List.mapM_cons]
    exact (hf a).bind fun b => ih.bind fun bs => pure (b :: bs)

end OnlyLooks

namespace Volume

variable {σ ι : Type}

def disk (v : Volume σ ι) : Disk (StateM σ) where
  kind? p := return v.kind? (← get) p
  tree p := return v.tree (← get) p
  read p := return v.read (← get) p
  write p t := do
    match v.write (← get) p t with
    | .ok s => set s; return .ok ()
    | .error cause => return .error cause

/-- The volume on which reading the paths `noRead` and writing the paths `noWrite` fails. -/
def failing (v : Volume σ ι) (noRead noWrite : Path → Option Cause) : Volume σ ι :=
  { v with
    read := fun s p =>
      match noRead p with
      | some cause => .error cause
      | none => v.read s p
    write := fun s p t =>
      match noWrite p with
      | some cause => .error cause
      | none => v.write s p t }

@[simp] theorem disk_failing (v : Volume σ ι) (noRead noWrite : Path → Option Cause) :
    (v.failing noRead noWrite).disk = v.disk.failing noRead noWrite := by
  unfold failing Disk.failing disk
  congr 1
  · funext p
    dsimp only
    cases noRead p <;> rfl
  · funext p t
    dsimp only
    cases noWrite p <;> rfl

section Run

variable (v : Volume σ ι) (s : σ) (p : Path)

@[simp] theorem run_kind? : (v.disk.kind? p).run s = (v.kind? s p, s) :=
  rfl

@[simp] theorem run_tree : (v.disk.tree p).run s = (v.tree s p, s) :=
  rfl

@[simp] theorem run_read : (v.disk.read p).run s = (v.read s p, s) :=
  rfl

@[simp] theorem run_write (t : Text) :
    (v.disk.write p t).run s =
      match v.write s p t with
      | .ok s' => (.ok (), s')
      | .error cause => (.error cause, s) := by
  unfold disk
  dsimp only
  rw [StateT.run_bind, StateT.run_get, pure_bind]
  cases v.write s p t <;> rfl

theorem onlyLooks_kind? : OnlyLooks (v.disk.kind? p) :=
  fun _ => rfl

theorem onlyLooks_tree : OnlyLooks (v.disk.tree p) :=
  fun _ => rfl

theorem onlyLooks_read : OnlyLooks (v.disk.read p) :=
  fun _ => rfl

end Run

/-- A computation that only looks, and only at kinds and outlines. -/
structure Surveys {α : Type} (v : Volume σ ι) (x : StateM σ α) : Prop where
  onlyLooks : OnlyLooks x
  congr : ∀ {s s'}, v.kind? s' = v.kind? s → v.tree s' = v.tree s → (x.run s').1 = (x.run s).1

namespace Surveys

variable {v : Volume σ ι} {α β : Type}

@[simp] theorem pure (a : α) : v.Surveys (Pure.pure a) :=
  ⟨.pure a, fun _ _ => rfl⟩

theorem bind {x : StateM σ α} {f : α → StateM σ β} (hx : v.Surveys x)
    (hf : ∀ a, v.Surveys (f a)) : v.Surveys (x >>= f) := by
  refine ⟨hx.onlyLooks.bind fun a => (hf a).onlyLooks, ?_⟩
  intro s s' hKind hTree
  rw [hx.onlyLooks.run_bind, hx.onlyLooks.run_bind, hx.congr hKind hTree]
  exact (hf _).congr hKind hTree

theorem kind? (v : Volume σ ι) (p : Path) : v.Surveys (v.disk.kind? p) :=
  ⟨fun _ => rfl, fun hKind _ => congrFun hKind p⟩

theorem tree (v : Volume σ ι) (p : Path) : v.Surveys (v.disk.tree p) :=
  ⟨fun _ => rfl, fun _ hTree => congrFun hTree p⟩

theorem sourceFiles (v : Volume σ ι) (p : Path) (extension : String) :
    v.Surveys (v.disk.sourceFiles p extension) := by
  apply (kind? v p).bind
  intro kind
  split
  · apply (tree v p).bind
    intro t
    split <;> exact pure _
  · exact pure _

end Surveys

/-- Whether two paths lead to one file. -/
def SameFile (v : Volume σ ι) (s : σ) (p q : Path) : Prop :=
  ∃ i, v.file? s p = some i ∧ v.file? s q = some i

theorem SameFile.symm {v : Volume σ ι} {s : σ} {p q : Path} (h : v.SameFile s p q) :
    v.SameFile s q p :=
  let ⟨i, hp, hq⟩ := h
  ⟨i, hq, hp⟩

theorem sameFile_congr {v : Volume σ ι} {s s' : σ} (h : v.file? s' = v.file? s) :
    v.SameFile s' = v.SameFile s := by
  unfold SameFile
  rw [h]

/-- A write that succeeds on a path that can be read changes what this path and others to the same
file read, as far as they can be read, and nothing else. -/
structure Lawful (v : Volume σ ι) : Prop where
  kind?_write : ∀ {s s' p t}, v.write s p t = .ok s' → v.kind? s' = v.kind? s
  tree_write : ∀ {s s' p t}, v.write s p t = .ok s' → v.tree s' = v.tree s
  file?_write : ∀ {s s' p t}, v.write s p t = .ok s' → v.file? s' = v.file? s
  read_write : ∀ {s s' p t u}, v.read s p = .ok u → v.write s p t = .ok s' →
    v.read s' p = .ok t ∧ ∀ q, v.SameFile s p q ∧ v.read s q = .ok u ∧ v.read s' q = .ok t ∨
      v.read s' q = v.read s q

section Failing

variable {v : Volume σ ι} {noRead noWrite : Path → Option Cause} {s s' : σ} {p : Path} {t : Text}

theorem read_of_failing (h : (v.failing noRead noWrite).read s p = .ok t) :
    v.read s p = .ok t := by
  simp only [Volume.failing] at h
  split at h
  · cases h
  · exact h

theorem write_of_failing (h : (v.failing noRead noWrite).write s p t = .ok s') :
    v.write s p t = .ok s' := by
  simp only [Volume.failing] at h
  split at h
  · cases h
  · exact h

end Failing

theorem Lawful.failing {v : Volume σ ι} (hv : v.Lawful) (noRead noWrite : Path → Option Cause) :
    (v.failing noRead noWrite).Lawful := by
  constructor
  case kind?_write => exact fun h => hv.kind?_write (write_of_failing h)
  case tree_write => exact fun h => hv.tree_write (write_of_failing h)
  case file?_write => exact fun h => hv.file?_write (write_of_failing h)
  case read_write =>
    intro s s' p t u hRead h
    obtain ⟨hWritten, hOthers⟩ := hv.read_write (read_of_failing hRead) (write_of_failing h)
    constructor
    · cases hNoRead : noRead p with
      | some cause => simp [Volume.failing, hNoRead] at hRead
      | none => simpa [Volume.failing, hNoRead] using hWritten
    · intro q
      simp only [Volume.failing]
      split
      · exact .inr rfl
      · exact hOthers q

/-- Whatever can be read can be written. -/
def Writable (v : Volume σ ι) : Prop :=
  ∀ s p t u, v.read s p = .ok u → ∃ s', v.write s p t = .ok s'

theorem Writable.failing {v : Volume σ ι} (hv : v.Writable) (noRead : Path → Option Cause) :
    (v.failing noRead fun _ => none).Writable :=
  fun s p t u hRead => hv s p t u (read_of_failing hRead)

end Volume

end ShortNames
