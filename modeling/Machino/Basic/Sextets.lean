import Mathlib.Algebra.Ring.Nat
import Mathlib.Data.List.Infix

namespace Machino.Sextets

/-- Six bits at a time, the most significant ones first. Zeros fill the last group. -/
def ofOctets : List ℕ → List ℕ
  | [] => []
  | [a] => [a / 4, a % 4 * 16]
  | [a, b] => [a / 4, a % 4 * 16 + b / 16, b % 16 * 4]
  | a :: b :: c :: s => a / 4 :: (a % 4 * 16 + b / 16) :: (b % 16 * 4 + c / 64) :: c % 64 :: ofOctets s

/-- An octet as soon as there are eight bits; `p` is made of the `bits` last ones. -/
def octetsFrom (p bits : ℕ) : List ℕ → List ℕ
  | [] => []
  | v :: vs =>
    if 2 ≤ bits then
      (p * 64 + v) / 2 ^ (bits - 2) :: octetsFrom ((p * 64 + v) % 2 ^ (bits - 2)) (bits - 2) vs
    else octetsFrom (p * 64 + v) (bits + 6) vs

theorem ofOctets_lt {bs : List ℕ} (h : ∀ b ∈ bs, b < 256) : ∀ v ∈ ofOctets bs, v < 64 := by
  induction bs using ofOctets.induct with
  | case1 => exact fun _ hv => absurd hv List.not_mem_nil
  | case2 a =>
    have ha := h a List.mem_cons_self
    simp only [ofOctets, List.mem_cons, List.not_mem_nil, or_false, forall_eq_or_imp, forall_eq]
    omega
  | case3 a b =>
    simp only [List.mem_cons, List.not_mem_nil, or_false, forall_eq_or_imp, forall_eq] at h
    simp only [ofOctets, List.mem_cons, List.not_mem_nil, or_false, forall_eq_or_imp, forall_eq]
    omega
  | case4 a b c s ih =>
    simp only [List.forall_mem_cons] at h
    simp only [List.forall_mem_cons, ofOctets]
    exact ⟨by omega, by omega, by omega, by omega, ih h.2.2.2⟩

/-- Four groups are three octets, and nothing is left over. -/
theorem octetsFrom_quad (u v w x : ℕ) (vs : List ℕ) :
    octetsFrom 0 0 (u :: v :: w :: x :: vs) =
      (u * 64 + v) / 16 :: ((u * 64 + v) % 16 * 64 + w) / 4 ::
        (((u * 64 + v) % 16 * 64 + w) % 4 * 64 + x) :: octetsFrom 0 0 vs := by
  simp [octetsFrom, Nat.mod_one]

theorem octetsFrom_ofOctets {bs : List ℕ} (h : ∀ b ∈ bs, b < 256) :
    octetsFrom 0 0 (ofOctets bs) = bs := by
  induction bs using ofOctets.induct with
  | case1 => rfl
  | case2 a =>
    simp only [ofOctets, octetsFrom]
    simp
    omega
  | case3 a b =>
    simp only [List.mem_cons, List.not_mem_nil, or_false, forall_eq_or_imp, forall_eq] at h
    simp only [ofOctets, octetsFrom]
    simp
    omega
  | case4 a b c s ih =>
    simp only [List.forall_mem_cons] at h
    rw [ofOctets, octetsFrom_quad, ih h.2.2.2]
    congr 1
    · omega
    · congr 1
      · omega
      · congr 1
        omega

def accumulate (acc v : ℕ) : ℕ := acc <<< 6 ||| v

theorem accumulate_eq {acc v : ℕ} (hv : v < 64) : accumulate acc v = acc * 64 + v := by
  unfold accumulate
  rw [← Nat.shiftLeft_add_eq_or_of_lt hv, Nat.shiftLeft_eq]

theorem le_accumulate (acc v : ℕ) : acc ≤ accumulate acc v := by
  unfold accumulate
  have hshift : acc ≤ acc <<< 6 := by
    rw [Nat.shiftLeft_eq]
    omega
  exact hshift.trans Nat.left_le_or

theorem le_foldl (acc : ℕ) (vs : List ℕ) : acc ≤ vs.foldl accumulate acc := by
  induction vs generalizing acc with
  | nil => exact Nat.le_refl acc
  | cons v vs ih => exact (le_accumulate acc v).trans (ih _)

/-- What it should hold before and behind each group. -/
def accumulators (vs : List ℕ) : List ℕ := vs.inits.map fun us => us.foldl accumulate 0

/-- It only grows, so that the last value decides. -/
theorem accumulators_lt_iff {vs : List ℕ} {b : ℕ} :
    (∀ n ∈ accumulators vs, n < b) ↔ vs.foldl accumulate 0 < b := by
  unfold accumulators
  rw [List.forall_mem_map]
  constructor
  · intro h
    exact h vs ((List.mem_inits _ _).mpr (List.prefix_refl _))
  · intro h us hus
    obtain ⟨ws, rfl⟩ := (List.mem_inits _ _).mp hus
    rw [List.foldl_append] at h
    exact (le_foldl _ ws).trans_lt h

/-- `n` groups behind an accumulator. -/
theorem foldl_accumulate_lt_iff {vs : List ℕ} (h : ∀ v ∈ vs, v < 64) (acc k : ℕ) :
    vs.foldl accumulate acc < k * 64 ^ vs.length ↔ acc < k := by
  induction vs generalizing acc k with
  | nil => rw [List.foldl_nil, List.length_nil, Nat.pow_zero, Nat.mul_one]
  | cons v vs ih =>
    rw [List.forall_mem_cons] at h
    have hstep : accumulate acc v < k * 64 ↔ acc < k := by
      rw [accumulate_eq h.1]
      omega
    rw [List.foldl_cons, List.length_cons, Nat.pow_succ', ← Nat.mul_assoc, ih h.2, hstep]

/-- Behind the leading zeros there are five groups at most, or six of which the first is a one. -/
def Short (vs : List ℕ) : Prop :=
  let us := vs.dropWhile (· = 0)
  us.length ≤ 5 ∨ us.length = 6 ∧ us.head? = some 1

instance (vs : List ℕ) : Decidable (Short vs) := instDecidableOr

theorem foldl_dropWhile (vs : List ℕ) :
    (vs.dropWhile (· = 0)).foldl accumulate 0 = vs.foldl accumulate 0 := by
  induction vs with
  | nil => rfl
  | cons v vs ih =>
    rw [List.dropWhile_cons]
    split_ifs with hv
    · rw [decide_eq_true_eq] at hv
      rw [ih, List.foldl_cons, hv]
      rfl
    · rfl

/-- What an `int` of 32 bits can hold. -/
theorem accumulators_lt_int_iff {vs : List ℕ} (h : ∀ v ∈ vs, v < 64) :
    (∀ n ∈ accumulators vs, n < 2 ^ 31) ↔ Short vs := by
  have hsub : ∀ v ∈ vs.dropWhile (· = 0), v < 64 :=
    fun v hv => h v ((List.dropWhile_suffix _).subset hv)
  have hhead : ∀ v ∈ (vs.dropWhile (· = 0)).head?, v ≠ 0 := by
    intro v hv hzero
    have := List.head?_dropWhile_not (p := (· = 0)) vs
    rw [Option.mem_def.mp hv] at this
    simp [hzero] at this
  rw [accumulators_lt_iff, ← foldl_dropWhile]
  unfold Short
  dsimp only
  generalize vs.dropWhile (· = 0) = us at hsub hhead ⊢
  cases us with
  | nil => simp
  | cons u us =>
    rw [List.forall_mem_cons] at hsub
    have hu : u ≠ 0 := hhead u rfl
    have hfold := foldl_accumulate_lt_iff hsub.2 (accumulate 0 u)
    have hfirst : accumulate 0 u = u := by rw [accumulate_eq hsub.1, Nat.zero_mul, Nat.zero_add]
    rw [List.foldl_cons, List.length_cons, List.head?_cons, Option.some.injEq]
    rw [hfirst] at hfold ⊢
    rcases Nat.lt_trichotomy us.length 5 with hlen | hlen | hlen
    · have hpow : 64 ^ us.length ≤ 64 ^ 4 := Nat.pow_le_pow_right (by omega) (by omega)
      have hlt := (hfold 64).mpr hsub.1
      omega
    · have hlt := hfold 2
      rw [hlen] at hlt ⊢
      omega
    · have hpow : 64 ^ 6 ≤ 64 ^ us.length := Nat.pow_le_pow_right (by omega) hlen
      have hge := hfold 1
      omega

end Machino.Sextets
