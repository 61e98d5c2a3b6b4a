import Mathlib.Data.BitVec
import Mathlib.Data.Nat.Bitwise

namespace Machino.Cidr

variable {w : ℕ}

/-- As many ones in front as the prefix is long. -/
def mask (w p : ℕ) : BitVec w := BitVec.allOnes w <<< (w - p)

/-- The block of this prefix around an address. -/
def Covers (net : BitVec w) (p : ℕ) (x : BitVec w) : Prop := x &&& mask w p = net &&& mask w p

instance (net : BitVec w) (p : ℕ) (x : BitVec w) : Decidable (Covers net p x) :=
  inferInstanceAs (Decidable (_ = _))

/-- The first address of its block. -/
def Clean (net : BitVec w) (p : ℕ) : Prop := net &&& mask w p = net

theorem and_mask (x : BitVec w) (p : ℕ) : x &&& mask w p = (x >>> (w - p)) <<< (w - p) := by
  apply BitVec.eq_of_getLsbD_eq
  intro i hi
  rw [mask, BitVec.getLsbD_and, BitVec.getLsbD_shiftLeft, BitVec.getLsbD_shiftLeft,
    BitVec.getLsbD_allOnes, BitVec.getLsbD_ushiftRight]
  by_cases hlow : i < w - p
  · simp [hlow]
  · have hback : w - p + (i - (w - p)) = i := by omega
    have hin : i - (w - p) < w := by omega
    simp [hlow, hi, hback, hin]

theorem toNat_and_mask (x : BitVec w) (p : ℕ) :
    (x &&& mask w p).toNat = x.toNat / 2 ^ (w - p) * 2 ^ (w - p) := by
  have hle : x.toNat / 2 ^ (w - p) * 2 ^ (w - p) < 2 ^ w :=
    (Nat.div_mul_le_self _ _).trans_lt x.isLt
  rw [and_mask, BitVec.toNat_shiftLeft, BitVec.toNat_ushiftRight, Nat.shiftLeft_eq,
    Nat.shiftRight_eq_div_pow, Nat.mod_eq_of_lt hle]

theorem covers_iff_div (net : BitVec w) (p : ℕ) (x : BitVec w) :
    Covers net p x ↔ x.toNat / 2 ^ (w - p) = net.toNat / 2 ^ (w - p) := by
  rw [Covers, ← BitVec.toNat_inj, toNat_and_mask, toNat_and_mask,
    Nat.mul_left_inj (Nat.two_pow_pos _).ne']

theorem covers_zero (net x : BitVec w) : Covers net 0 x := by
  rw [covers_iff_div, Nat.sub_zero, Nat.div_eq_of_lt x.isLt, Nat.div_eq_of_lt net.isLt]

theorem clean_iff_dvd (net : BitVec w) (p : ℕ) : Clean net p ↔ 2 ^ (w - p) ∣ net.toNat := by
  rw [Clean, ← BitVec.toNat_inj, toNat_and_mask, ← Nat.dvd_iff_div_mul_eq]

theorem clean_and_mask (net : BitVec w) (p : ℕ) : Clean (net &&& mask w p) p := by
  rw [Clean, BitVec.and_assoc, BitVec.and_self]

/-- A block is the range of so many addresses from its first one. -/
theorem covers_iff_range {net : BitVec w} {p : ℕ} (hnet : Clean net p) (x : BitVec w) :
    Covers net p x ↔ net.toNat ≤ x.toNat ∧ x.toNat < net.toNat + 2 ^ (w - p) := by
  obtain ⟨q, hq⟩ := (clean_iff_dvd net p).mp hnet
  have hpos := Nat.two_pow_pos (w - p)
  rw [covers_iff_div, hq, Nat.mul_div_cancel_left q hpos, Nat.div_eq_iff hpos]
  rw [Nat.mul_comm q]
  omega

theorem clean_add_le {net : BitVec w} {p : ℕ} (hnet : Clean net p) :
    net.toNat + 2 ^ (w - p) ≤ 2 ^ w := by
  obtain ⟨q, hq⟩ := (clean_iff_dvd net p).mp hnet
  have hw : 2 ^ (w - p) * 2 ^ (w - (w - p)) = 2 ^ w := by
    rw [← Nat.pow_add, Nat.add_sub_cancel' (Nat.sub_le w p)]
  have hlt := net.isLt
  rw [hq, ← hw] at hlt
  have hq' := Nat.lt_of_mul_lt_mul_left hlt
  calc net.toNat + 2 ^ (w - p) = 2 ^ (w - p) * (q + 1) := by rw [hq, Nat.mul_succ]
    _ ≤ 2 ^ (w - p) * 2 ^ (w - (w - p)) := Nat.mul_le_mul_left _ hq'
    _ = 2 ^ w := hw

/-- A block lies between its first address and the one with ones behind the prefix. -/
theorem covers_bounds {net : BitVec w} {p : ℕ} (hnet : Clean net p) {x : BitVec w}
    (hx : Covers net p x) : net ≤ x ∧ x ≤ net ||| ~~~mask w p := by
  have heq : x &&& mask w p = net := hx.trans hnet
  have hin : x &&& (net ||| ~~~mask w p) = x := by
    rw [← heq]
    apply BitVec.eq_of_getLsbD_eq
    intro i hi
    rw [BitVec.getLsbD_and, BitVec.getLsbD_or, BitVec.getLsbD_and, BitVec.getLsbD_not]
    cases x.getLsbD i <;> cases (mask w p).getLsbD i <;> simp [hi]
  constructor
  · rw [← heq, BitVec.le_def, BitVec.toNat_and]
    exact Nat.and_le_left
  · rw [BitVec.le_def, ← congrArg BitVec.toNat hin, BitVec.toNat_and]
    exact Nat.and_le_right

/-- A block lies within the one of a shorter prefix. -/
theorem Covers.of_le {net : BitVec w} {a b : ℕ} (hab : a ≤ b) {x : BitVec w}
    (h : Covers net b x) : Covers net a x := by
  rw [covers_iff_div] at h ⊢
  have hpow : 2 ^ (w - a) = 2 ^ (w - b) * 2 ^ (w - a - (w - b)) := by
    rw [← Nat.pow_add, Nat.add_sub_cancel' (Nat.sub_le_sub_left hab w)]
  rw [hpow, ← Nat.div_div_eq_div_mul, ← Nat.div_div_eq_div_mul, h]

theorem toNat_mask {p : ℕ} (hp : p ≤ w) : (mask w p).toNat + 2 ^ (w - p) = 2 ^ w := by
  have hones : (BitVec.allOnes w &&& mask w p).toNat = (mask w p).toNat := by
    rw [BitVec.allOnes_and]
  have hpow : 2 ^ w = 2 ^ p * 2 ^ (w - p) := by
    rw [← Nat.pow_add, Nat.add_sub_cancel' hp]
  have hone := Nat.two_pow_pos p
  have hdiv : (2 ^ w - 1) / 2 ^ (w - p) = 2 ^ p - 1 := by
    have hlt := Nat.mul_pos (Nat.two_pow_pos (w - p)) hone
    rw [hpow, Nat.mul_comm, Nat.mul_sub_div 0 _ _ hlt, Nat.zero_div]
  calc (mask w p).toNat + 2 ^ (w - p)
      = (2 ^ p - 1) * 2 ^ (w - p) + 2 ^ (w - p) := by
        rw [← hones, toNat_and_mask, BitVec.toNat_allOnes, hdiv]
    _ = (2 ^ p - 1 + 1) * 2 ^ (w - p) := (Nat.succ_mul _ _).symm
    _ = 2 ^ w := by rw [Nat.sub_add_cancel hone, hpow]

theorem mask_lt_mask_iff {a b : ℕ} (ha : a ≤ w) (hb : b ≤ w) : mask w a < mask w b ↔ a < b := by
  have hma := toNat_mask ha
  have hmb := toNat_mask hb
  rw [BitVec.lt_def]
  constructor
  · intro hlt
    have hpow : 2 ^ (w - b) < 2 ^ (w - a) := by omega
    have hexp := (Nat.pow_lt_pow_iff_right (by decide)).mp hpow
    omega
  · intro hlt
    have hpow : 2 ^ (w - b) < 2 ^ (w - a) :=
      (Nat.pow_lt_pow_iff_right (by decide)).mpr (by omega)
    omega

/-- Which block a range is, if it is one. -/
theorem range_eq_block_iff {s e : BitVec w} (hle : s ≤ e) (net : BitVec w) (p : ℕ) :
    (p ≤ w ∧ Clean net p ∧ ∀ x, Covers net p x ↔ s ≤ x ∧ x ≤ e) ↔
      net = s ∧ p ≤ w ∧ (e - s).toNat + 1 = 2 ^ (w - p) ∧ 2 ^ (w - p) ∣ s.toNat := by
  have hspan := BitVec.toNat_sub_of_le hle
  rw [BitVec.le_def] at hle
  constructor
  · rintro ⟨hp, hnet, hall⟩
    have hrange (x : BitVec w) : (net.toNat ≤ x.toNat ∧ x.toNat < net.toNat + 2 ^ (w - p)) ↔
        (s.toNat ≤ x.toNat ∧ x.toNat ≤ e.toNat) := (covers_iff_range hnet x).symm.trans (hall x)
    have hpos := Nat.two_pow_pos (w - p)
    have htop := clean_add_le hnet
    have hs := (hrange s).mpr ⟨Nat.le_refl _, hle⟩
    have he := (hrange e).mpr ⟨hle, Nat.le_refl _⟩
    have hn := (hrange net).mp ⟨Nat.le_refl _, by omega⟩
    have hlast := (hrange (BitVec.ofNat w (net.toNat + 2 ^ (w - p) - 1))).mp
    rw [BitVec.toNat_ofNat, Nat.mod_eq_of_lt (by omega)] at hlast
    have hlast' := hlast ⟨by omega, by omega⟩
    have heq : net = s := BitVec.eq_of_toNat_eq (by omega)
    refine ⟨heq, hp, by omega, ?_⟩
    rw [← heq]
    exact (clean_iff_dvd net p).mp hnet
  · rintro ⟨rfl, hp, hsize, hdvd⟩
    have hnet := (clean_iff_dvd net p).mpr hdvd
    refine ⟨hp, hnet, fun x => ?_⟩
    rw [covers_iff_range hnet, BitVec.le_def, BitVec.le_def]
    omega

/-- A number of ones only, as `n & (n + 1)` tells it. -/
theorem and_succ_eq_zero_iff (n : ℕ) : n &&& (n + 1) = 0 ↔ ∃ k, n + 1 = 2 ^ k := by
  rw [Nat.and_comm]
  exact Nat.and_sub_one_eq_zero_iff_isPowerOfTwo (Nat.succ_ne_zero n)

theorem and_add_one_eq_zero_iff (span : BitVec w) :
    span &&& (span + 1#w) = 0#w ↔ ∃ k ≤ w, span.toNat + 1 = 2 ^ k := by
  have hnat : (span + 1#w).toNat = (span.toNat + 1) % 2 ^ w := by
    rw [BitVec.toNat_add, BitVec.toNat_ofNat, Nat.add_mod_mod]
  rw [← BitVec.toNat_inj, BitVec.toNat_and, hnat, BitVec.toNat_ofNat, Nat.zero_mod]
  have hlt := span.isLt
  by_cases hwrap : span.toNat + 1 = 2 ^ w
  · rw [hwrap, Nat.mod_self, Nat.and_zero]
    exact iff_of_true rfl ⟨w, Nat.le_refl w, rfl⟩
  · rw [Nat.mod_eq_of_lt (by omega), and_succ_eq_zero_iff]
    refine exists_congr fun k => ⟨fun hk => ⟨?_, hk⟩, And.right⟩
    have hpow : 2 ^ k < 2 ^ w := by omega
    exact (Nat.pow_lt_pow_iff_right (by decide)).mp hpow |>.le

/-- How many ones are in front, from bit `b` on downwards. -/
def leadingOnes (m : BitVec w) : ℕ → ℕ
  | 0 => 0
  | b + 1 => if m.getLsbD b then leadingOnes m b + 1 else 0

theorem leadingOnes_le (m : BitVec w) (b : ℕ) : leadingOnes m b ≤ b := by
  induction b with
  | zero => exact Nat.le_refl 0
  | succ b ih =>
    rw [leadingOnes]
    split_ifs
    · exact Nat.succ_le_succ ih
    · exact Nat.zero_le _

theorem leadingOnes_mask {p : ℕ} (hp : p ≤ w) {b : ℕ} (hb : b ≤ w) :
    leadingOnes (mask w p) b = b - (w - p) := by
  induction b with
  | zero =>
    rw [leadingOnes]
    omega
  | succ b ih =>
    have hbit : (mask w p).getLsbD b = decide (w - p ≤ b) := by
      rw [mask, BitVec.getLsbD_shiftLeft, BitVec.getLsbD_allOnes]
      by_cases hlow : b < w - p
      · simp [hlow]
        omega
      · have hin : b - (w - p) < w := by omega
        have hbw : b < w := by omega
        simp [hlow, hin, hbw]
        omega
    rw [leadingOnes, hbit, ih (by omega)]
    by_cases hlow : w - p ≤ b
    · rw [if_pos (decide_eq_true hlow)]
      omega
    · rw [if_neg (by simpa using hlow)]
      omega

/-- How often a number can be halved before nothing is left of it, taken off `p`. -/
def countDown (span p : ℕ) : ℕ := if span = 0 then p else countDown (span / 2) (p - 1)
termination_by span

theorem countDown_ones (k p : ℕ) : countDown (2 ^ k - 1) p = p - k := by
  induction k generalizing p with
  | zero =>
    rw [countDown]
    rfl
  | succ k ih =>
    have hpos := Nat.two_pow_pos k
    have hne : 2 ^ (k + 1) - 1 ≠ 0 := by omega
    have hhalf : (2 ^ (k + 1) - 1) / 2 = 2 ^ k - 1 := by omega
    rw [countDown, if_neg hne, hhalf, ih]
    omega

end Machino.Cidr
