import Mathlib.LinearAlgebra.Matrix.Notation
import Machino.Basic.Gf2

/-! The advanced encryption standard with keys of 128 bits, FIPS 197. -/
namespace Machino.Fips197

noncomputable section
open Polynomial Gf2

/-- The bytes as a field, 4.2: modulo `x ^ 8 + x ^ 4 + x ^ 3 + x + 1`. -/
abbrev reduction : BitVec 8 := 0x1b

abbrev Gf := AdjoinRoot (modulus reduction)

abbrev x : Gf := AdjoinRoot.root (modulus reduction)

/-- The coefficient of `x ^ i` in the representative of degree below eight. -/
def coord (a : Gf) (i : ℕ) : ZMod 2 :=
  (AdjoinRoot.modByMonicHom (modulus_monic reduction) a).coeff i

/-- The constant byte of the affine transformation. -/
def affineConstant : BitVec 8 := 0x63

/-- The affine transformation over the bits, 5.1.1. -/
def affine (a : Gf) : Gf :=
  AdjoinRoot.mk _ (ofFn 8 fun i => coord a i + coord a ((i + 4) % 8) + coord a ((i + 5) % 8) +
    coord a ((i + 6) % 8) + coord a ((i + 7) % 8) + coef (affineConstant.getLsbD i))

/-- The inverse, with zero for zero, and the affine transformation. -/
def sBox (a : Gf) : Gf := affine (Ring.inverse a)

/-- Row and column. -/
abbrev State := Matrix (Fin 4) (Fin 4) Gf

def subBytes (s : State) : State := s.map sBox

/-- Row `r` to the left by `r`, 5.1.2. -/
def shiftRows (s : State) : State := Matrix.of fun r c => s r (c + r)

/-- The matrix of 5.1.3. -/
def mixMatrix : Matrix (Fin 4) (Fin 4) Gf :=
  !![x, x + 1, 1, 1;
     1, x, x + 1, 1;
     1, 1, x, x + 1;
     x + 1, 1, 1, x]

def mixColumns (s : State) : State := mixMatrix * s

abbrev Word := Fin 4 → Gf

def rotWord (a : Word) : Word := fun r => a ⟨(r.val + 1) % 4, Nat.mod_lt _ (Nat.succ_pos 3)⟩

def subWord (a : Word) : Word := fun r => sBox (a r)

def rcon (j : ℕ) : Word := ![x ^ (j - 1), 0, 0, 0]

/-- The words of the key expansion, 5.2. -/
def keyWord (key : State) (i : ℕ) : Word :=
  if h : i < 4 then fun r => key r ⟨i, h⟩
  else if i % 4 = 0 then
    keyWord key (i - 4) + (subWord (rotWord (keyWord key (i - 1))) + rcon (i / 4))
  else keyWord key (i - 4) + keyWord key (i - 1)

theorem keyWord_start (key : State) (i : Fin 4) : keyWord key i = fun r => key r i := by
  rw [keyWord, dif_pos i.isLt]

theorem keyWord_turn (key : State) {i : ℕ} (hi : 4 ≤ i) (h : i % 4 = 0) :
    keyWord key i =
      keyWord key (i - 4) + (subWord (rotWord (keyWord key (i - 1))) + rcon (i / 4)) := by
  rw [keyWord, dif_neg (Nat.not_lt.mpr hi), if_pos h]

theorem keyWord_next (key : State) {i : ℕ} (hi : 4 ≤ i) (h : i % 4 ≠ 0) :
    keyWord key i = keyWord key (i - 4) + keyWord key (i - 1) := by
  rw [keyWord, dif_neg (Nat.not_lt.mpr hi), if_neg h]

def roundKey (key : State) (n : ℕ) : State := Matrix.of fun r c => keyWord key (4 * n + c) r

/-- The state behind the first `n` rounds. -/
def rounds (key s : State) : ℕ → State
  | 0 => s + roundKey key 0
  | n + 1 => mixColumns (shiftRows (subBytes (rounds key s n))) + roundKey key (n + 1)

/-- Nine rounds and the last, which mixes no columns, 5.1. -/
def cipher (key s : State) : State := shiftRows (subBytes (rounds key s 9)) + roundKey key 10

/-- The field element of a byte. -/
abbrev ofByte (b : BitVec 8) : Gf := elem reduction b

theorem coord_ofByte (b : BitVec 8) (i : ℕ) : coord (ofByte b) i = coef (b.getLsbD i) := by
  rw [coord, ofByte, elem, AdjoinRoot.modByMonicHom_mk, poly_mod, coeff_poly]

/-- One byte is the affine transformation of another when its bits are. -/
theorem affine_ofByte {a b : BitVec 8} (h : ∀ i < 8, b.getLsbD i =
    (a.getLsbD i ^^ a.getLsbD ((i + 4) % 8) ^^ a.getLsbD ((i + 5) % 8) ^^
      a.getLsbD ((i + 6) % 8) ^^ a.getLsbD ((i + 7) % 8) ^^ affineConstant.getLsbD i)) :
    affine (ofByte a) = ofByte b := by
  unfold affine
  simp only [coord_ofByte, ← coef_xor]
  apply congrArg (fun v => AdjoinRoot.mk (modulus reduction) (ofFn 8 v))
  funext i
  rw [h i i.isLt]

/-- The four rows of a mixed column. -/
theorem mixColumns_apply (s : State) (r c : Fin 4) : mixColumns s r c =
    x * (s r c + s (r + 1) c) + s (r + 1) c + s (r + 2) c + s (r + 3) c := by
  rw [mixColumns, Matrix.mul_apply, Fin.sum_univ_four]
  fin_cases r <;> simp [mixMatrix] <;> ring

end

end Machino.Fips197
