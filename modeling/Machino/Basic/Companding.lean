import Mathlib.Data.Nat.Log
import Mathlib.Tactic.Ring

/-! Levels that lie the closer the smaller the number is: `2 ^ k` of them from one power of two to
the next, and evenly below `2 ^ (b + 1)`. -/
namespace Machino.Companding

variable {b k : ℕ} {s t : ℕ}

/-- The width of the cell that a number is in. -/
def width (b k s : ℕ) : ℕ := 2 ^ (max (Nat.log 2 s) b - k)

/-- The number in the middle of the cell. -/
def level (b k s : ℕ) : ℕ := s / width b k s * width b k s + width b k s / 2

theorem width_pos : 0 < width b k s := Nat.two_pow_pos _

theorem width_mono (h : s ≤ t) : width b k s ≤ width b k t := by
  apply Nat.pow_le_pow_right (by decide)
  have hlog := Nat.log_mono_right (b := 2) h
  omega

theorem lt_two_pow (b s : ℕ) : s < 2 ^ (max (Nat.log 2 s) b + 1) :=
  (Nat.lt_pow_succ_log_self (by decide) s).trans_le (Nat.pow_le_pow_right (by decide) (by omega))

theorem width_dvd {n : ℕ} (h : max (Nat.log 2 s) b ≤ n) : width b k s ∣ 2 ^ n :=
  pow_dvd_pow 2 (by omega)

theorem width_even : width b k s = 1 ∨ 2 ∣ width b k s := by
  unfold width
  cases max (Nat.log 2 s) b - k with
  | zero => exact .inl rfl
  | succ e => exact .inr ⟨2 ^ e, Nat.pow_succ'⟩

/-- Off by half a cell at most. -/
theorem level_near : s ≤ level b k s + width b k s / 2 ∧ level b k s ≤ s + width b k s / 2 := by
  have hdiv := Nat.div_add_mod' s (width b k s)
  have hmod := Nat.mod_lt s (width_pos (b := b) (k := k) (s := s))
  have heven := width_even (b := b) (k := k) (s := s)
  unfold level
  omega

theorem width_le (h : 2 ^ b ≤ s) (hk : k ≤ b) : width b k s * 2 ^ k ≤ s := by
  have hs : s ≠ 0 := by have := Nat.two_pow_pos b; omega
  have hlog : b ≤ Nat.log 2 s := Nat.le_log_of_pow_le (by decide) h
  have hpow := Nat.pow_log_le_self 2 hs
  unfold width
  rwa [max_eq_left hlog, ← pow_add, Nat.sub_add_cancel (hk.trans hlog)]

/-- The level is in the same range of powers as the number. -/
theorem level_lt : level b k s < 2 ^ (max (Nat.log 2 s) b + 1) := by
  obtain ⟨q, hq⟩ := width_dvd (k := k) (Nat.le_succ (max (Nat.log 2 s) b))
  have hlt := lt_two_pow b s
  have hdiv := Nat.div_mul_le_self s (width b k s)
  have hpos := width_pos (b := b) (k := k) (s := s)
  have hcell : s / width b k s + 1 ≤ q := by
    apply Nat.succ_le_of_lt
    apply Nat.div_lt_of_lt_mul
    omega
  have hscaled := Nat.mul_le_mul_left (width b k s) hcell
  unfold level
  rw [Nat.mul_comm (s / width b k s), hq]
  rw [Nat.mul_add, Nat.mul_one] at hscaled
  omega

theorem le_level (h : b ≤ Nat.log 2 s) (hs : s ≠ 0) : 2 ^ Nat.log 2 s ≤ level b k s := by
  obtain ⟨q, hq⟩ := width_dvd (b := b) (k := k) (le_of_eq (max_eq_left h))
  have hpow := Nat.pow_log_le_self 2 hs
  have hcell : q ≤ s / width b k s := by
    apply (Nat.le_div_iff_mul_le width_pos).mpr
    rwa [Nat.mul_comm, ← hq]
  have hscaled := Nat.mul_le_mul_left (width b k s) hcell
  unfold level
  rw [Nat.mul_comm (s / width b k s)]
  omega

/-- The level lies in cells of the same width. -/
theorem width_level : width b k (level b k s) = width b k s := by
  have hlt := level_lt (b := b) (k := k) (s := s)
  unfold width
  congr 2
  by_cases hs : b < Nat.log 2 s
  · have hne : s ≠ 0 := by
      rintro rfl
      simp at hs
    have hle := le_level (k := k) hs.le hne
    rw [max_eq_left hs.le] at hlt ⊢
    rw [Nat.log_eq_of_pow_le_of_lt_pow hle hlt, max_eq_left hs.le]
  · rw [max_eq_right (Nat.le_of_not_lt hs)] at hlt ⊢
    have hlog : Nat.log 2 (level b k s) < b + 1 := by
      by_cases hzero : level b k s = 0
      · rw [hzero, Nat.log_zero_right]
        omega
      · exact Nat.log_lt_of_lt_pow hzero hlt
    omega

/-- What is a level already stays as it is. -/
theorem level_level : level b k (level b k s) = level b k s := by
  have hwidth := width_level (b := b) (k := k) (s := s)
  have hpos := width_pos (b := b) (k := k) (s := s)
  have hdiv : level b k s / width b k s = s / width b k s := by
    unfold level
    rw [Nat.add_comm, Nat.add_mul_div_right _ _ hpos, Nat.div_eq_of_lt (by omega), Nat.zero_add]
  rw [level, hwidth, hdiv]
  rfl

theorem level_mono (h : s ≤ t) : level b k s ≤ level b k t := by
  have hlog := Nat.log_mono_right (b := 2) h
  by_cases hsame : max (Nat.log 2 s) b = max (Nat.log 2 t) b
  · unfold level width
    rw [hsame]
    exact Nat.add_le_add_right (Nat.mul_le_mul_right _ (Nat.div_le_div_right h)) _
  · have hmore : max (Nat.log 2 s) b + 1 ≤ Nat.log 2 t := by omega
    have ht : t ≠ 0 := by
      rintro rfl
      simp at hmore
    calc level b k s ≤ 2 ^ (max (Nat.log 2 s) b + 1) := level_lt.le
      _ ≤ 2 ^ Nat.log 2 t := Nat.pow_le_pow_right (by decide) hmore
      _ ≤ level b k t := le_level (by omega) ht

end Machino.Companding
