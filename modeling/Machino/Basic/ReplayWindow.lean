import Mathlib.Data.List.Basic
import Mathlib.Data.Set.Insert

/-! A sliding window of the 64 highest indices. -/
namespace Machino

/-- The window says which of the 64 indices up to the highest one are in a set. -/
structure Tracks (high : ℕ) (mask : BitVec 64) (A : Set ℕ) : Prop where
  le : ∀ i ∈ A, i ≤ high
  bit : ∀ k, k < 64 → k ≤ high → (mask.getLsbD k = true ↔ high - k ∈ A)

namespace Tracks

theorem lowest (k : ℕ) : (1 : BitVec 64).getLsbD k = true ↔ k = 0 := by
  show (1#64).getLsbD k = true ↔ k = 0
  simp

variable {high : ℕ} {mask : BitVec 64} {A : Set ℕ}

theorem empty : Tracks 0 0 ∅ := ⟨by simp, by simp⟩

/-- A window that starts at its first index. -/
theorem singleton (index : ℕ) : Tracks index 1 {index} := by
  refine ⟨by simp, fun k hk hle => ?_⟩
  rw [lowest, Set.mem_singleton_iff]
  omega

/-- An index above the highest one shifts the window. -/
theorem shift (h : Tracks high mask A) {index : ℕ} (hlt : high < index) :
    Tracks index ((if 64 ≤ index - high then 0 else mask <<< (index - high)) ||| 1)
      (insert index A) := by
  constructor
  · intro i hi
    obtain rfl | hi := Set.mem_insert_iff.mp hi
    · exact le_rfl
    · exact (h.le i hi).trans hlt.le
  · intro k hk hle
    rw [BitVec.getLsbD_or, Bool.or_eq_true, lowest, Set.mem_insert_iff]
    by_cases hzero : k = 0
    · simp [hzero]
    · have hne : ¬ index - k = index := by omega
      rw [or_iff_left hzero, or_iff_right hne]
      by_cases hin : index - high ≤ k
      · have hbit := h.bit (k - (index - high)) (by omega) (by omega)
        have hsame : high - (k - (index - high)) = index - k := by omega
        rw [if_neg (by omega), BitVec.getLsbD_shiftLeft, ← hsame, ← hbit]
        simp [hk, Nat.not_lt.mpr hin]
      · refine iff_of_false ?_ fun hA => hin (by have := h.le _ hA; omega)
        split_ifs with hfar
        · simp
        · rw [BitVec.getLsbD_shiftLeft]
          simp
          omega

/-- An index within the window is put in. -/
theorem set (h : Tracks high mask A) {index : ℕ} (hle : index ≤ high) :
    Tracks high (mask ||| (1 : BitVec 64) <<< (high - index)) (insert index A) := by
  constructor
  · intro i hi
    obtain rfl | hi := Set.mem_insert_iff.mp hi
    · exact hle
    · exact h.le i hi
  · intro k hk hkle
    rw [BitVec.getLsbD_or, Bool.or_eq_true, h.bit k hk hkle, BitVec.getLsbD_shiftLeft,
      Bool.and_eq_true, lowest, Set.mem_insert_iff, or_comm]
    refine or_congr_left ?_
    simp
    omega

/-- What the window lets through is new. -/
theorem not_mem (h : Tracks high mask A) {index : ℕ}
    (hnew : index ≤ high → high - index < 64 ∧ mask.getLsbD (high - index) = false) :
    index ∉ A := by
  intro hA
  have hle := h.le index hA
  obtain ⟨hin, hbit⟩ := hnew hle
  have hset := (h.bit (high - index) hin (Nat.sub_le _ _)).mpr (by rwa [Nat.sub_sub_self hle])
  exact absurd hset (by simp [hbit])

end Tracks

end Machino
