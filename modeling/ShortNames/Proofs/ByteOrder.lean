import Mathlib.Data.List.Lex
import Mathlib.Tactic.NormNum
import ShortNames.Text

/-!
# The order of texts by their bytes

Texts are compared character by character, files and imports by the bytes of UTF-8. Both orders are
one: the first byte of a character tells how many follow it, and the bytes that follow are digits to
the base 64, the greatest first.
-/

namespace ShortNames.Text

/-- The text in UTF-8. -/
def bytes (t : Text) : List UInt8 :=
  t.flatMap String.utf8EncodeChar

/-- Whether `t` comes before `u`, byte by byte. -/
def BytesBefore (t u : Text) : Prop :=
  List.Lex (· < ·) t.bytes u.bytes

section Characters

theorem ofNat_lt_iff {m n : ℕ} (hm : m < 256) (hn : n < 256) :
    UInt8.ofNat m < UInt8.ofNat n ↔ m < n := by
  rw [UInt8.lt_iff_toNat_lt, UInt8.toNat_ofNat_of_lt' hm, UInt8.toNat_ofNat_of_lt' hn]

/-- The last `k` bytes of a character of several bytes. -/
def tailBytes (n : ℕ) : ℕ → List UInt8
  | 0 => []
  | k + 1 => UInt8.ofNat (n / 64 ^ k % 64 + 128) :: tailBytes n k

theorem lex_tailBytes {m n k : ℕ} (h : m % 64 ^ k < n % 64 ^ k) (s u : List UInt8) :
    List.Lex (· < ·) (tailBytes m k ++ s) (tailBytes n k ++ u) := by
  induction k with
  | zero => simp [Nat.mod_one] at h
  | succ k ih =>
    rw [pow_succ, Nat.mod_mul, Nat.mod_mul] at h
    have hm := Nat.mod_lt m (pow_pos (by decide : 0 < 64) k)
    have hn := Nat.mod_lt n (pow_pos (by decide : 0 < 64) k)
    rcases Nat.lt_trichotomy (m / 64 ^ k % 64) (n / 64 ^ k % 64) with hLess | hSame | hMore
    · exact .rel ((ofNat_lt_iff (by omega) (by omega)).mpr (by omega))
    · rw [hSame] at h
      rw [tailBytes, tailBytes, hSame]
      exact .cons (ih (by omega))
    · have hDigit := Nat.mul_le_mul_left (64 ^ k) hMore
      rw [Nat.mul_succ] at hDigit
      omega

/-- The first byte `b` of the character number `n`, and how many bytes follow it. -/
inductive Leads (n : ℕ) : (b k : ℕ) → Prop
  | one (hn : n < 0x80) : Leads n n 0
  | two (hLow : 0x80 ≤ n) (hn : n < 0x800) : Leads n (n / 64 + 0xC0) 1
  | three (hLow : 0x800 ≤ n) (hn : n < 0x10000) : Leads n (n / 4096 + 0xE0) 2
  | four (hLow : 0x10000 ≤ n) (hn : n < 0x110000) : Leads n (n / 262144 + 0xF0) 3

theorem Leads.lt_256 {n b k : ℕ} (h : Leads n b k) : b < 256 := by
  cases h <;> omega

theorem Leads.compare {m n a b j k : ℕ} (hm : Leads m a j) (hn : Leads n b k) (h : m < n) :
    a < b ∨ a = b ∧ j = k ∧ m % 64 ^ k < n % 64 ^ k := by
  cases hm <;> cases hn <;> norm_num <;> omega

theorem exists_leads (c : Char) : ∃ b k, Leads c.toNat b k ∧
    String.utf8EncodeChar c = UInt8.ofNat b :: tailBytes c.toNat k := by
  have hc : c.toNat < 0x110000 := by
    rcases c.valid with hLow | hHigh
    · exact hLow.trans (by decide)
    · exact hHigh.2
  have hNumber : c.val.toNat = c.toNat := rfl
  unfold String.utf8EncodeChar
  dsimp only
  rw [hNumber]
  split_ifs with hOne hTwo hThree
  · exact ⟨_, 0, .one (by omega), rfl⟩
  · have hLead : c.toNat / 64 % 32 = c.toNat / 64 := by omega
    refine ⟨_, 1, .two (by omega) (by omega), ?_⟩
    simp [tailBytes, hLead]
  · have hLead : c.toNat / 4096 % 16 = c.toNat / 4096 := by omega
    refine ⟨_, 2, .three (by omega) (by omega), ?_⟩
    simp [tailBytes, hLead]
  · have hLead : c.toNat / 262144 % 8 = c.toNat / 262144 := by omega
    refine ⟨_, 3, .four (by omega) (by omega), ?_⟩
    simp [tailBytes, hLead]

theorem lex_utf8EncodeChar {c d : Char} (h : c.toNat < d.toNat) (s u : List UInt8) :
    List.Lex (· < ·) (String.utf8EncodeChar c ++ s) (String.utf8EncodeChar d ++ u) := by
  obtain ⟨a, j, hc, hcBytes⟩ := exists_leads c
  obtain ⟨b, k, hd, hdBytes⟩ := exists_leads d
  rw [hcBytes, hdBytes]
  rcases hc.compare hd h with hLess | ⟨rfl, rfl, hTail⟩
  · exact .rel ((ofNat_lt_iff hc.lt_256 hd.lt_256).mpr hLess)
  · exact .cons (lex_tailBytes hTail s u)

end Characters

theorem bytesBefore_of_lex {t u : Text} (h : List.Lex (fun c d => c.toNat < d.toNat) t u) :
    BytesBefore t u := by
  unfold BytesBefore bytes
  induction h with
  | nil =>
    obtain ⟨b, k, -, hBytes⟩ := exists_leads ‹Char›
    rw [List.flatMap_cons, hBytes]
    exact .nil
  | rel hLess =>
    rw [List.flatMap_cons, List.flatMap_cons]
    exact lex_utf8EncodeChar hLess _ _
  | cons _ ih =>
    rw [List.flatMap_cons, List.flatMap_cons]
    exact List.Lex.append_left _ ih _

theorem bytesBefore_of_le {a b : String} (h : a ≤ b) (hne : a ≠ b) :
    BytesBefore a.toList b.toList := by
  have hNot : ¬ b ≤ a := fun hBack => hne (String.le_antisymm h hBack)
  have hLess : a.toList < b.toList := String.not_le.mp hNot
  exact bytesBefore_of_lex ((List.lt_iff_lex_lt _ _).mp hLess)

theorem precedes_iff {t u : Text} : precedes t u = true ↔
    t = u ∨ List.Lex (fun c d => c.toNat < d.toNat) t u := by
  induction t generalizing u with
  | nil =>
    cases u with
    | nil => exact iff_of_true rfl (.inl rfl)
    | cons d u => exact iff_of_true rfl (.inr .nil)
  | cons c t ih =>
    cases u with
    | nil =>
      apply iff_of_false Bool.false_ne_true
      rintro (hSame | hLess)
      · cases hSame
      · cases hLess
    | cons d u =>
      rw [precedes, Bool.or_eq_true, Bool.and_eq_true, decide_eq_true_eq, beq_iff_eq, ih,
        List.cons_lex_cons_iff, List.cons.injEq]
      tauto

theorem precedes_trans {t u w : Text} (h : precedes t u = true) (h' : precedes u w = true) :
    precedes t w = true := by
  rw [precedes_iff] at h h' ⊢
  rcases h with rfl | h
  · exact h'
  · rcases h' with rfl | h'
    · exact .inr h
    · exact .inr (List.lex_trans Nat.lt_trans h h')

theorem precedes_total (t u : Text) : (precedes t u || precedes u t) = true := by
  induction t generalizing u with
  | nil => rfl
  | cons c t ih =>
    cases u with
    | nil => rfl
    | cons d u =>
      have hTail := ih u
      rcases Nat.lt_trichotomy c.toNat d.toNat with hLess | hSame | hMore
      · simp [precedes, hLess]
      · obtain rfl := Char.toNat_inj.mp hSame
        simpa [precedes] using hTail
      · simp [precedes, hMore]

theorem pairwise_mergeSort (texts : List Text) :
    (texts.mergeSort precedes).Pairwise fun t u => t = u ∨ BytesBefore t u := by
  have hSorted : (texts.mergeSort precedes).Pairwise fun t u => precedes t u = true :=
    @List.pairwise_mergeSort _ precedes (fun _ _ _ => precedes_trans) precedes_total texts
  apply hSorted.imp
  intro t u hPrecedes
  exact (precedes_iff.mp hPrecedes).imp_right bytesBefore_of_lex

/-- Sorted texts that are all different ascend strictly, byte by byte. -/
theorem pairwise_bytesBefore_mergeSort {texts : List Text} (h : texts.Nodup) :
    (texts.mergeSort precedes).Pairwise BytesBefore := by
  have hNodup : (texts.mergeSort precedes).Nodup := (List.mergeSort_perm _ _).nodup_iff.mpr h
  apply ((pairwise_mergeSort texts).and hNodup).imp
  rintro t u ⟨hSorted, hne⟩
  exact hSorted.resolve_left hne

end ShortNames.Text
