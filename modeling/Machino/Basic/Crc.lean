import Machino.Basic.Gf2

/-! Cyclic redundancy checks: the remainder of a message of bits, and the register that finds it. -/
namespace Machino.Crc

noncomputable section
open Polynomial Gf2

variable {n : ℕ} (p : BitVec n)

/-- The message as a polynomial, its first bit before the highest power. -/
def message (bits : List Bool) : (ZMod 2)[X] := bits.foldl (fun q b => X * q + C (coef b)) 0

theorem foldl_message (bits : List Bool) (q : (ZMod 2)[X]) :
    bits.foldl (fun q b => X * q + C (coef b)) q = X ^ bits.length * q + message bits := by
  unfold message
  induction bits generalizing q with
  | nil => simp
  | cons b bits ih =>
    rw [List.foldl_cons, ih, List.foldl_cons, ih (X * 0 + _), List.length_cons, pow_succ]
    ring

theorem message_append (a b : List Bool) :
    message (a ++ b) = X ^ b.length * message a + message b := by
  rw [← foldl_message, message, List.foldl_append]
  rfl

theorem message_cons (b : Bool) (bits : List Bool) :
    message (b :: bits) = X ^ bits.length * C (coef b) + message bits := by
  rw [← foldl_message, message, List.foldl_cons, mul_zero, zero_add]

theorem coeff_message (bits : List Bool) (i : ℕ) :
    (message bits).coeff i = coef (bits.reverse.getD i false) := by
  induction bits with
  | nil => exact coeff_zero i
  | cons b bits ih =>
    rw [message_cons, coeff_add, ih, mul_comm, coeff_C_mul_X_pow, List.reverse_cons]
    rcases Nat.lt_trichotomy i bits.length with hlt | heq | hgt
    · rw [if_neg hlt.ne, zero_add, List.getD_append _ _ _ _ (by simpa using hlt)]
    · rw [if_pos heq, List.getD_append_right _ _ _ _ (by simp [heq]),
        List.getD_eq_default _ _ (by simp [heq])]
      simp [heq, coef]
    · rw [if_neg hgt.ne', zero_add, List.getD_eq_default _ _ (by simpa using hgt.le),
        List.getD_eq_default _ _ (by simpa using hgt)]

theorem degree_message_lt (bits : List Bool) : (message bits).degree < bits.length := by
  rw [degree_lt_iff_coeff_zero]
  intro m hm
  rw [coeff_message, List.getD_eq_default _ _ (by simpa using hm)]
  rfl

theorem message_injective {a b : List Bool} (hlen : a.length = b.length)
    (h : message a = message b) : a = b := by
  apply List.reverse_injective
  apply List.ext_getElem (by simpa using hlen)
  intro i ha hb
  have hcoeff := congrArg (fun q => q.coeff i) h
  simp only [coeff_message] at hcoeff
  rw [← List.getD_eq_getElem _ false ha, ← List.getD_eq_getElem _ false hb]
  exact coef_injective hcoeff

/-- The remainder of the message before `n` zeros, the register's start before its first bits. -/
def remainder (start : BitVec n) (bits : List Bool) : (ZMod 2)[X] :=
  (X ^ n * message bits + X ^ bits.length * poly start) %ₘ modulus p

theorem remainder_eq_of_elem {start w : BitVec n} {bits : List Bool}
    (h : elem p w = AdjoinRoot.root (modulus p) ^ n * AdjoinRoot.mk _ (message bits) +
      AdjoinRoot.root (modulus p) ^ bits.length * elem p start) :
    poly w = remainder p start bits := by
  have hmk : AdjoinRoot.mk (modulus p) (poly w) =
      AdjoinRoot.mk (modulus p) (X ^ n * message bits + X ^ bits.length * poly start) := by
    rw [map_add, map_mul, map_mul, map_pow, map_pow, AdjoinRoot.mk_X]
    exact h
  rw [← poly_mod p w, remainder, ← AdjoinRoot.modByMonicHom_mk (modulus_monic p), hmk,
    AdjoinRoot.modByMonicHom_mk]

/-- A modulus with a constant term divides no polynomial of lower degree times a power of `X`. -/
theorem not_modulus_dvd (hp : p.getLsbD 0 = true) (hn : 0 < n) {d : (ZMod 2)[X]} (hd : d ≠ 0)
    (hdeg : d.degree < n) (k : ℕ) : ¬ modulus p ∣ X ^ k * d := by
  have hconst : (modulus p).coeff 0 ≠ 0 := by
    rw [modulus, coeff_add, coeff_X_pow, if_neg hn.ne, coeff_poly, hp, zero_add]
    decide
  have hcop : IsCoprime (modulus p) (X ^ k) := by
    apply IsCoprime.pow_right
    apply IsCoprime.symm
    rw [irreducible_X.coprime_iff_not_dvd, X_dvd_iff]
    exact hconst
  intro h
  apply hd
  apply eq_zero_of_dvd_of_degree_lt (hcop.dvd_of_dvd_mul_left h)
  rwa [degree_modulus]

/-- Messages that differ within a burst no longer than the register leave different remainders. -/
theorem remainder_burst (hp : p.getLsbD 0 = true) (hn : 0 < n) (start : BitVec n)
    {a u v z : List Bool} (hlen : u.length = v.length) (hburst : u.length ≤ n) (hne : u ≠ v) :
    remainder p start (a ++ u ++ z) ≠ remainder p start (a ++ v ++ z) := by
  have hdiff : message u - message v ≠ 0 := fun h => hne (message_injective hlen (sub_eq_zero.mp h))
  have hdeg : (message u - message v).degree < n := by
    apply (degree_sub_le _ _).trans_lt
    apply max_lt
    · exact (degree_message_lt u).trans_le (by exact_mod_cast hburst)
    · exact (degree_message_lt v).trans_le (by rw [← hlen]; exact_mod_cast hburst)
  intro h
  apply not_modulus_dvd p hp hn hdiff hdeg (n + z.length)
  rw [remainder, remainder, ← sub_eq_zero, ← sub_modByMonic,
    modByMonic_eq_zero_iff_dvd (modulus_monic p)] at h
  convert h using 1
  simp only [message_append, List.length_append, hlen, pow_add]
  ring

end

end Machino.Crc
