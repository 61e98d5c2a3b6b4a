import Mathlib.Algebra.Polynomial.OfFn
import Mathlib.RingTheory.AdjoinRoot
import Mathlib.Algebra.Field.ZMod

/-! Words as polynomials over the field of two elements, and the ring of words modulo a
polynomial. -/
namespace Machino.Gf2

noncomputable section
open Polynomial

variable {n : ℕ}

/-- A bit as a coefficient. -/
def coef (b : Bool) : ZMod 2 := if b then 1 else 0

theorem coef_xor (a b : Bool) : coef (a ^^ b) = coef a + coef b := by
  revert a b
  decide

theorem coef_injective : Function.Injective coef := by
  intro a b
  revert a b
  decide

theorem add_self (a : (ZMod 2)[X]) : a + a = 0 := CharTwo.add_self_eq_zero a

/-- Bit `i` of the word before `X ^ i`. -/
def poly (w : BitVec n) : (ZMod 2)[X] := ofFn n fun i => coef (w.getLsbD i)

theorem coeff_poly (w : BitVec n) (i : ℕ) : (poly w).coeff i = coef (w.getLsbD i) := by
  by_cases hi : i < n
  · exact ofFn_coeff_eq_val_of_lt _ hi
  · rw [poly, ofFn_coeff_eq_zero_of_ge _ (Nat.le_of_not_lt hi), BitVec.getLsbD_of_ge _ _
      (Nat.le_of_not_lt hi)]
    rfl

theorem degree_poly_lt (w : BitVec n) : (poly w).degree < n := ofFn_degree_lt _

theorem poly_xor (v w : BitVec n) : poly (v ^^^ w) = poly v + poly w := by
  ext i
  rw [coeff_add, coeff_poly, coeff_poly, coeff_poly, BitVec.getLsbD_xor, coef_xor]

theorem poly_zero : poly (0#n) = 0 := by
  ext i
  rw [coeff_poly, BitVec.getLsbD_zero, coeff_zero]
  rfl

theorem poly_one (hn : 0 < n) : poly 1#n = 1 := by
  ext i
  rw [coeff_poly, coeff_one, BitVec.getLsbD_one, coef]
  simp [hn, eq_comm]

theorem poly_injective : Function.Injective (poly : BitVec n → (ZMod 2)[X]) := by
  intro v w h
  apply BitVec.eq_of_getLsbD_eq
  intro i _
  apply coef_injective
  rw [← coeff_poly, ← coeff_poly, h]

/-- What a shift drops stands before `X ^ n`. -/
theorem X_mul_poly (w : BitVec n) (hn : 0 < n) :
    X * poly w = poly (w <<< 1) + if w.msb then X ^ n else 0 := by
  ext i
  cases i with
  | zero =>
    rw [mul_coeff_zero, coeff_X_zero, zero_mul, coeff_add, coeff_poly]
    have hlow : (w <<< 1).getLsbD 0 = false := by simp
    rw [hlow]
    split
    · rw [coeff_X_pow, if_neg hn.ne]
      decide
    · rw [coeff_zero]
      decide
  | succ i =>
    rw [coeff_X_mul, coeff_add, coeff_poly, coeff_poly]
    have hshift : (w <<< 1).getLsbD (i + 1) = (decide (i + 1 < n) && w.getLsbD i) := by
      simp
    have htop : (if w.msb then (X : (ZMod 2)[X]) ^ n else 0).coeff (i + 1) =
        if i + 1 = n then coef w.msb else 0 := by
      by_cases hmsb : w.msb = true
      · simp [hmsb, coeff_X_pow, coef]
      · simp [hmsb, coef]
    rw [hshift, htop]
    rcases Nat.lt_trichotomy (i + 1) n with hlt | heq | hgt
    · rw [decide_eq_true hlt, Bool.true_and, if_neg hlt.ne, add_zero]
    · have hlast : n - 1 = i := by omega
      rw [if_pos heq, BitVec.msb_eq_getLsbD_last, hlast, heq]
      simp [coef]
    · have hout : w.getLsbD i = false := BitVec.getLsbD_of_ge _ _ (by omega)
      rw [hout, if_neg hgt.ne']
      simp

/-- The monic polynomial with these bits below `X ^ n`. -/
def modulus (p : BitVec n) : (ZMod 2)[X] := X ^ n + poly p

theorem modulus_monic (p : BitVec n) : (modulus p).Monic := monic_X_pow_add (degree_poly_lt p)

theorem degree_modulus (p : BitVec n) : (modulus p).degree = n := by
  rw [modulus, degree_add_eq_left_of_degree_lt] <;> rw [degree_X_pow]
  exact degree_poly_lt p

/-- The element of the quotient that a word stands for. -/
def elem (p w : BitVec n) : AdjoinRoot (modulus p) := AdjoinRoot.mk _ (poly w)

theorem elem_xor (p v w : BitVec n) : elem p (v ^^^ w) = elem p v + elem p w := by
  rw [elem, poly_xor, map_add]
  rfl

theorem elem_zero (p : BitVec n) : elem p 0#n = 0 :=
  (congrArg _ poly_zero).trans (map_zero _)

theorem elem_one (p : BitVec n) (hn : 0 < n) : elem p 1#n = 1 :=
  (congrArg _ (poly_one hn)).trans (map_one _)

/-- Words below the modulus are their own remainders. -/
theorem poly_mod (p w : BitVec n) : poly w %ₘ modulus p = poly w := by
  rw [modByMonic_eq_self_iff (modulus_monic p), degree_modulus]
  exact degree_poly_lt w

theorem elem_injective (p : BitVec n) : Function.Injective (elem p) := by
  intro v w h
  apply poly_injective
  rw [← poly_mod p v, ← poly_mod p w, ← AdjoinRoot.modByMonicHom_mk (modulus_monic p),
    ← AdjoinRoot.modByMonicHom_mk (modulus_monic p)]
  exact congrArg _ h

/-- A word times `X`: the shift, and the bits of the modulus for the one it drops. -/
def mulX (p w : BitVec n) : BitVec n := (w <<< 1) ^^^ if w.msb then p else 0

theorem elem_add_self (p w : BitVec n) : elem p w + elem p w = 0 := by
  rw [elem, ← map_add, add_self, map_zero]

theorem root_pow (p : BitVec n) : AdjoinRoot.root (modulus p) ^ n = elem p p := by
  have hzero : AdjoinRoot.mk (modulus p) (X ^ n + poly p) = 0 := AdjoinRoot.mk_self
  rw [map_add, map_pow, AdjoinRoot.mk_X] at hzero
  exact add_right_cancel (hzero.trans (elem_add_self p p).symm)

theorem elem_mulX (p w : BitVec n) (hn : 0 < n) :
    elem p (mulX p w) = AdjoinRoot.root (modulus p) * elem p w := by
  have hshift := congrArg (AdjoinRoot.mk (modulus p)) (X_mul_poly w hn)
  rw [map_mul, AdjoinRoot.mk_X, map_add] at hshift
  rw [mulX, elem_xor]
  refine Eq.trans ?_ hshift.symm
  congr 1
  split
  · rw [map_pow, AdjoinRoot.mk_X, root_pow]
  · exact (elem_zero p).trans (map_zero _).symm

end

end Machino.Gf2
