import Mathlib.Data.List.Nodup

/-!
# Pairs looked up by key

A list of pairs stands for a table, and the first pair with a key counts.
-/

namespace ShortNames

variable {α β : Type} [BEq α] [LawfulBEq α] {l : List (α × β)} {k : α} {b : β}

@[simp] theorem lookup_cons [DecidableEq α] (k : α) (b : β) (l : List (α × β)) (x : α) :
    ((k, b) :: l).lookup x = if x = k then some b else l.lookup x := by
  rw [List.lookup_cons]
  by_cases hx : x = k
  · simp [hx]
  · simp [hx, beq_false_of_ne hx]

theorem mem_of_lookup (h : l.lookup k = some b) : (k, b) ∈ l := by
  obtain ⟨before, behind, rfl, -⟩ := List.lookup_eq_some_iff.mp h
  simp

theorem lookup_eq_none_iff_keys : l.lookup k = none ↔ k ∉ l.map (·.1) := by
  rw [List.lookup_eq_none_iff, List.mem_map]
  constructor
  · rintro h ⟨p, hp, rfl⟩
    exact absurd (h p hp) (by simp)
  · intro h p hp
    rw [bne_iff_ne]
    rintro rfl
    exact h ⟨p, hp, rfl⟩

theorem lookup_eq_some_iff_mem (hNodup : (l.map (·.1)).Nodup) :
    l.lookup k = some b ↔ (k, b) ∈ l := by
  refine ⟨mem_of_lookup, ?_⟩
  intro hMem
  obtain ⟨before, behind, rfl⟩ := List.append_of_mem hMem
  rw [List.map_append, List.map_cons, List.nodup_append] at hNodup
  refine List.lookup_eq_some_iff.mpr ⟨before, behind, rfl, ?_⟩
  intro p hp
  rw [bne_iff_ne]
  exact (hNodup.2.2 p.1 (List.mem_map_of_mem hp) k List.mem_cons_self).symm

theorem nodup_keys_concat (hNodup : (l.map (·.1)).Nodup) (hNew : l.lookup k = none) (b : β) :
    ((l ++ [(k, b)]).map (·.1)).Nodup := by
  rw [List.map_append, List.nodup_append]
  refine ⟨hNodup, List.nodup_singleton k, ?_⟩
  intro x hx y hy hxy
  rw [hxy, List.mem_singleton.mp hy] at hx
  exact lookup_eq_none_iff_keys.mp hNew hx

end ShortNames
