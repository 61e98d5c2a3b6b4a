import Mathlib.GroupTheory.OrderOfElement
import Mathlib.Tactic.IntervalCases
import Mathlib.Tactic.NormNum.Prime
import Machino.Basic.Fips197
import Machino.Webrtc.Srtp

namespace Machino.Webrtc

open Fips197 Gf2

def xtime (a : UInt8) : UInt8 := (a <<< 1) ^^^ (if a &&& 0x80 ≠ 0 then 0x1b else 0)

namespace Aes128

/-- What the loop over the powers of three fills. -/
structure Tables where
  exp : ℕ → UInt8
  log : UInt8 → UInt8
  x : UInt8

def Tables.pass (t : Tables) (i : ℕ) : Tables where
  exp := Function.update t.exp i t.x
  log := Function.update t.log t.x (UInt8.ofNat i)
  x := t.x ^^^ ((t.x <<< 1) ^^^ (if t.x &&& 0x80 ≠ 0 then 0x1b else 0))

/-- The loop. Nothing reads an entry that it does not write. -/
def Tables.filled (n : ℕ) : Tables :=
  (List.range n).foldl Tables.pass { exp := fun _ => 0, log := fun _ => 0, x := 1 }

def exp : ℕ → UInt8 := Function.update (Tables.filled 255).exp 255 ((Tables.filled 255).exp 0)

def inv (i : UInt8) : UInt8 := if i = 0 then 0 else exp (255 - ((Tables.filled 255).log i).toNat)

def sbox (i : UInt8) : UInt8 :=
  let inv := inv i
  inv ^^^ ((inv <<< 1) ||| (inv >>> 7)) ^^^ ((inv <<< 2) ||| (inv >>> 6)) ^^^
    ((inv <<< 3) ||| (inv >>> 5)) ^^^ ((inv <<< 4) ||| (inv >>> 4)) ^^^ 0x63

/-- A byte as an element of the field. -/
noncomputable def elemOf (b : UInt8) : Gf := ofByte b.toBitVec

theorem elemOf_xor (a b : UInt8) : elemOf (a ^^^ b) = elemOf a + elemOf b := by
  rw [elemOf, UInt8.toBitVec_xor]
  exact elem_xor _ _ _

theorem elemOf_zero : elemOf 0 = 0 := elem_zero _

theorem elemOf_one : elemOf 1 = 1 := elem_one _ (by decide)

theorem elemOf_add_self (a : UInt8) : elemOf a + elemOf a = 0 := elem_add_self _ _

theorem elemOf_injective : Function.Injective elemOf := fun _ _ h =>
  UInt8.toBitVec_inj.mp (elem_injective _ h)

theorem high_bit (b : BitVec 8) : b &&& 0x80#8 ≠ 0#8 ↔ b.msb = true := by
  revert b
  decide +kernel

theorem toBitVec_xtime (a : UInt8) : (xtime a).toBitVec = mulX reduction a.toBitVec := by
  have hbit : (a &&& 0x80 ≠ 0) ↔ a.toBitVec.msb = true := by
    rw [← high_bit, ne_eq, ← UInt8.toBitVec_inj]
    rfl
  rw [xtime, mulX, UInt8.toBitVec_xor]
  by_cases h : a.toBitVec.msb = true
  · rw [if_pos (hbit.mpr h), if_pos h]
    rfl
  · rw [if_neg (mt hbit.mp h), if_neg h]
    rfl

theorem elemOf_xtime (a : UInt8) : elemOf (xtime a) = x * elemOf a := by
  rw [elemOf, toBitVec_xtime]
  exact elem_mulX _ _ (by decide)

/-- The powers of three, in the order of the loop. -/
def pow3 (i : ℕ) : UInt8 := (fun a => a ^^^ xtime a)^[i] 1

theorem pow3_succ (i : ℕ) : pow3 (i + 1) = pow3 i ^^^ xtime (pow3 i) :=
  Function.iterate_succ_apply' _ i 1

theorem elemOf_pow3 (i : ℕ) : elemOf (pow3 i) = (x + 1) ^ i := by
  induction i with
  | zero => exact elemOf_one
  | succ i ih =>
    rw [pow3_succ, elemOf_xor, elemOf_xtime, ih]
    ring

theorem pow3_last : pow3 255 = 1 := by decide +kernel

/-- Three generates the multiplicative group. -/
theorem orderOf_three : orderOf (x + 1) = 255 := by
  apply orderOf_eq_of_pow_and_pow_div_prime (by decide)
  · rw [← elemOf_pow3, pow3_last, elemOf_one]
  · intro p hp hdvd
    have hfactor : p = 3 ∨ p = 5 ∨ p = 17 := by
      have hsplit : p ∣ 3 * (5 * 17) := hdvd
      rw [hp.dvd_mul, hp.dvd_mul] at hsplit
      exact hsplit.imp (Nat.prime_dvd_prime_iff_eq hp (by norm_num)).mp
        (Or.imp (Nat.prime_dvd_prime_iff_eq hp (by norm_num)).mp
          (Nat.prime_dvd_prime_iff_eq hp (by norm_num)).mp)
    rw [← elemOf_pow3, ← elemOf_one]
    apply elemOf_injective.ne
    obtain rfl | rfl | rfl := hfactor <;> decide +kernel

theorem pow3_injOn {i j : ℕ} (hi : i < 255) (hj : j < 255) (h : pow3 i = pow3 j) : i = j := by
  apply pow_injOn_Iio_orderOf (x := x + 1)
  · rwa [Set.mem_Iio, orderOf_three]
  · rwa [Set.mem_Iio, orderOf_three]
  · show (x + 1) ^ i = (x + 1) ^ j
    rw [← elemOf_pow3, ← elemOf_pow3, h]

theorem elemOf_mul_pow3 {i : ℕ} (hi : i ≤ 255) :
    elemOf (pow3 i) * elemOf (pow3 (255 - i)) = 1 := by
  rw [elemOf_pow3, elemOf_pow3, ← pow_add, Nat.add_sub_cancel' hi, ← elemOf_pow3, pow3_last,
    elemOf_one]

theorem pow3_ne_zero {i : ℕ} (hi : i < 255) : pow3 i ≠ 0 := by
  intro h
  have hone := elemOf_mul_pow3 hi.le
  rw [h, elemOf_zero, zero_mul, ← elemOf_zero, ← elemOf_one] at hone
  exact absurd (elemOf_injective hone) (by decide)

/-- The powers below 255 are as many as the bytes that are not zero. -/
theorem exists_pow3 {b : UInt8} (hb : b ≠ 0) : ∃ i < 255, pow3 i = b := by
  have hsub : (Finset.range 255).image (fun i => (pow3 i).toNat) ⊆ Finset.Ico 1 256 := by
    intro m hm
    obtain ⟨i, hi, rfl⟩ := Finset.mem_image.mp hm
    have hne : (pow3 i).toNat ≠ 0 := fun h =>
      pow3_ne_zero (Finset.mem_range.mp hi) (UInt8.toNat_inj.mp h)
    exact Finset.mem_Ico.mpr ⟨Nat.pos_of_ne_zero hne, UInt8.toNat_lt _⟩
  have hcard : (Finset.Ico 1 256).card ≤
      ((Finset.range 255).image fun i => (pow3 i).toNat).card := by
    rw [Finset.card_image_of_injOn, Finset.card_range, Nat.card_Ico]
    intro i hi j hj h
    exact pow3_injOn (Finset.mem_range.mp hi) (Finset.mem_range.mp hj) (UInt8.toNat_inj.mp h)
  have hmem : b.toNat ∈ Finset.Ico 1 256 :=
    Finset.mem_Ico.mpr ⟨Nat.pos_of_ne_zero fun h => hb (UInt8.toNat_inj.mp h), UInt8.toNat_lt _⟩
  rw [← Finset.eq_of_subset_of_card_le hsub hcard] at hmem
  obtain ⟨i, hi, hib⟩ := Finset.mem_image.mp hmem
  exact ⟨i, Finset.mem_range.mp hi, UInt8.toNat_inj.mp hib⟩

/-- What the loop has filled after `n` passes. -/
theorem filled_spec {n : ℕ} (hn : n ≤ 255) : (Tables.filled n).x = pow3 n ∧ ∀ i < n,
    (Tables.filled n).exp i = pow3 i ∧ (Tables.filled n).log (pow3 i) = UInt8.ofNat i := by
  induction n with
  | zero => exact ⟨rfl, fun i hi => absurd hi (Nat.not_lt_zero i)⟩
  | succ n ih =>
    obtain ⟨hx, htable⟩ := ih (Nat.le_of_succ_le hn)
    have hpass : Tables.filled (n + 1) = (Tables.filled n).pass n := by
      rw [Tables.filled, List.range_succ, List.foldl_append]
      rfl
    rw [hpass]
    refine ⟨?_, fun i hi => ?_⟩
    · rw [pow3_succ, ← hx]
      rfl
    · by_cases heq : i = n
      · subst heq
        show Function.update _ i _ i = _ ∧ Function.update _ _ _ (pow3 i) = _
        rw [← hx, Function.update_self, Function.update_self]
        exact ⟨rfl, rfl⟩
      · have hlt : i < n := by omega
        have hne : pow3 i ≠ (Tables.filled n).x := by
          rw [hx]
          exact fun h => heq (pow3_injOn (by omega) (by omega) h)
        show Function.update _ n _ i = _ ∧ Function.update _ _ _ (pow3 i) = _
        rw [Function.update_of_ne heq, Function.update_of_ne hne]
        exact htable i hlt

theorem exp_eq {i : ℕ} (hi : i ≤ 255) : exp i = pow3 i := by
  have hfilled := (filled_spec le_rfl).2
  by_cases h : i = 255
  · rw [h, exp, Function.update_self, (hfilled 0 (by decide)).1, pow3_last]
    rfl
  · rw [exp, Function.update_of_ne h]
    exact (hfilled i (by omega)).1

/-- The table holds the inverses, and zero for zero. -/
theorem elemOf_inv (b : UInt8) : elemOf (inv b) = Ring.inverse (elemOf b) := by
  by_cases hb : b = 0
  · rw [inv, if_pos hb, hb, elemOf_zero, Ring.inverse_zero]
  · obtain ⟨i, hi, rfl⟩ := exists_pow3 hb
    have hlog : ((Tables.filled 255).log (pow3 i)).toNat = i := by
      rw [((filled_spec le_rfl).2 i hi).2, UInt8.toNat_ofNat', Nat.mod_eq_of_lt (by omega)]
    rw [inv, if_neg hb, hlog, exp_eq (by omega)]
    have hone := elemOf_mul_pow3 hi.le
    exact (Ring.inverse_unit ⟨elemOf (pow3 i), elemOf (pow3 (255 - i)), hone,
      (mul_comm _ _).trans hone⟩).symm

theorem getLsbD_rotate {n : ℕ} (b : BitVec n) {k l m : ℕ} (h : k + l = n) (hm : m < n) :
    ((b <<< k) ||| (b >>> l)).getLsbD m = b.getLsbD ((m + l) % n) := by
  rw [BitVec.getLsbD_or, BitVec.getLsbD_shiftLeft, BitVec.getLsbD_ushiftRight]
  by_cases hlow : m < k
  · rw [decide_eq_true hlow, Nat.mod_eq_of_lt (by omega), Nat.add_comm]
    simp
  · have hout : b.getLsbD (l + m) = false := BitVec.getLsbD_of_ge _ _ (by omega)
    have hmod : (m + l) % n = m - k := by
      rw [show m + l = m - k + n by omega, Nat.add_mod_right, Nat.mod_eq_of_lt (by omega)]
    rw [hout, hmod]
    simp [hlow, hm]

theorem elemOf_sbox (b : UInt8) : elemOf (sbox b) = sBox (elemOf b) := by
  rw [sBox, ← elemOf_inv]
  refine (affine_ofByte fun i hi => ?_).symm
  have hbits : (sbox b).toBitVec = (inv b).toBitVec ^^^
      ((inv b).toBitVec <<< 1 ||| (inv b).toBitVec >>> 7) ^^^
      ((inv b).toBitVec <<< 2 ||| (inv b).toBitVec >>> 6) ^^^
      ((inv b).toBitVec <<< 3 ||| (inv b).toBitVec >>> 5) ^^^
      ((inv b).toBitVec <<< 4 ||| (inv b).toBitVec >>> 4) ^^^ affineConstant := rfl
  rw [hbits]
  simp only [BitVec.getLsbD_xor]
  rw [getLsbD_rotate _ (by decide : 1 + 7 = 8) hi,
    getLsbD_rotate _ (by decide : 2 + 6 = 8) hi,
    getLsbD_rotate _ (by decide : 3 + 5 = 8) hi,
    getLsbD_rotate _ (by decide : 4 + 4 = 8) hi]
  simp only [Bool.xor_assoc, Bool.xor_left_comm, Bool.xor_comm]

/-- The four bytes of a word, the high one first. -/
def byteOf (k : UInt32) (j : ℕ) : UInt8 := (k >>> UInt32.ofNat (24 - 8 * j)).toUInt8

def pack (b0 b1 b2 b3 : UInt8) : UInt32 :=
  (b0.toUInt32 <<< 24) ||| (b1.toUInt32 <<< 16) ||| (b2.toUInt32 <<< 8) ||| b3.toUInt32

theorem getLsbD_byteOf (k : UInt32) {i j : ℕ} (hj : j < 4) (hi : i < 8) :
    (byteOf k j).toBitVec.getLsbD i = k.toBitVec.getLsbD (24 - 8 * j + i) := by
  interval_cases j <;> simp [byteOf, hi]

theorem byteOf_ext {k l : UInt32} {j m : ℕ} (hj : j < 4) (hm : m < 4)
    (h : ∀ i < 8, k.toBitVec.getLsbD (24 - 8 * j + i) = l.toBitVec.getLsbD (24 - 8 * m + i)) :
    byteOf k j = byteOf l m := by
  apply UInt8.toBitVec_inj.mp
  apply BitVec.eq_of_getLsbD_eq
  intro i hi
  rw [getLsbD_byteOf k hj hi, getLsbD_byteOf l hm hi, h i hi]

theorem byteOf_xor (k l : UInt32) {j : ℕ} (hj : j < 4) :
    byteOf (k ^^^ l) j = byteOf k j ^^^ byteOf l j := by
  apply UInt8.toBitVec_inj.mp
  apply BitVec.eq_of_getLsbD_eq
  intro i hi
  rw [UInt8.toBitVec_xor, BitVec.getLsbD_xor, getLsbD_byteOf k hj hi, getLsbD_byteOf l hj hi,
    getLsbD_byteOf _ hj hi, UInt32.toBitVec_xor, BitVec.getLsbD_xor]

theorem byteOf_rotate (k : UInt32) {j : ℕ} (hj : j < 4) :
    byteOf ((k <<< 8) ||| (k >>> 24)) j = byteOf k ((j + 1) % 4) := by
  apply byteOf_ext hj (Nat.mod_lt _ (by decide))
  intro i hi
  have hrot := getLsbD_rotate k.toBitVec (by decide : 8 + 24 = 32)
    (by omega : 24 - 8 * j + i < 32)
  have hplace : (24 - 8 * j + i + 24) % 32 = 24 - 8 * ((j + 1) % 4) + i := by omega
  rw [← hplace, ← hrot]
  rfl

theorem byteOf_pack (b : ℕ → UInt8) {j : ℕ} (hj : j < 4) :
    byteOf (pack (b 0) (b 1) (b 2) (b 3)) j = b j := by
  apply UInt8.toBitVec_inj.mp
  apply BitVec.eq_of_getLsbD_eq
  intro i hi
  rw [getLsbD_byteOf _ hj hi]
  -- what is left are the bits that another byte would have in this place
  interval_cases j <;> simp (disch := omega) [pack] <;> omega

structure Schedule where
  rk : ℕ → UInt32
  rcon : UInt8

/-- What word `i` is xored with: the last one, every fourth time rotated and substituted. -/
def Schedule.temp (s : Schedule) (i : ℕ) : UInt32 :=
  let t := s.rk (i - 1)
  if i &&& 3 = 0 then
    let t := (t <<< 8) ||| (t >>> 24)
    let t := pack (sbox (byteOf t 0)) (sbox (byteOf t 1)) (sbox (byteOf t 2)) (sbox (byteOf t 3))
    t ^^^ (s.rcon.toUInt32 <<< 24)
  else t

/-- A pass of the expansion loop. -/
def Schedule.pass (s : Schedule) (i : ℕ) : Schedule where
  rk := Function.update s.rk i (s.rk (i - 4) ^^^ s.temp i)
  rcon := if i &&& 3 = 0 then xtime s.rcon else s.rcon

/-- The bytes of a block as the code indexes them. -/
def bytesOf (b : Block) (i : ℕ) : UInt8 := b.toList.getD i 0

def blockOf (f : ℕ → UInt8) : Block := Vector.ofFn fun i => f i

/-- The schedule when the loop has come to word `n`. -/
def expanded (key : Block) (n : ℕ) : Schedule :=
  (List.range' 4 (n - 4)).foldl Schedule.pass
    { rk := fun i => pack (bytesOf key (4 * i)) (bytesOf key (4 * i + 1))
        (bytesOf key (4 * i + 2)) (bytesOf key (4 * i + 3))
      rcon := 1 }

/-- The expanded round keys. -/
def rk (key : Block) : ℕ → UInt32 := (expanded key 44).rk

def addRk (rk : ℕ → UInt32) (r : ℕ) (st : Block) : Block :=
  blockOf fun i => bytesOf st i ^^^ byteOf (rk (4 * r + i / 4)) (i % 4)

def subBytes (st : Block) : Block := blockOf fun i => sbox (bytesOf st i)

/-- Column-major, `st[4c+r]`. -/
def shiftRows (st : Block) : Block := blockOf fun
  | 1 => bytesOf st 5
  | 5 => bytesOf st 9
  | 9 => bytesOf st 13
  | 13 => bytesOf st 1
  | 2 => bytesOf st 10
  | 10 => bytesOf st 2
  | 6 => bytesOf st 14
  | 14 => bytesOf st 6
  | 15 => bytesOf st 11
  | 11 => bytesOf st 7
  | 7 => bytesOf st 3
  | 3 => bytesOf st 15
  | i => bytesOf st i

/-- One column. -/
def mixed (p : ℕ → UInt8) : ℕ → UInt8 :=
  let all := p 0 ^^^ p 1 ^^^ p 2 ^^^ p 3
  fun
  | 0 => p 0 ^^^ all ^^^ xtime (p 0 ^^^ p 1)
  | 1 => p 1 ^^^ all ^^^ xtime (p 1 ^^^ p 2)
  | 2 => p 2 ^^^ all ^^^ xtime (p 2 ^^^ p 3)
  | _ => p 3 ^^^ all ^^^ xtime (p 3 ^^^ p 0)

def mixColumns (st : Block) : Block :=
  blockOf fun i => mixed (fun j => bytesOf st (4 * (i / 4) + j)) (i % 4)

def round (rk : ℕ → UInt32) (st : Block) (n : ℕ) : Block :=
  let st := shiftRows (subBytes st)
  let st := if n < 10 then mixColumns st else st
  addRk rk n st

/-- The state behind the first `n` rounds. -/
def after (rk : ℕ → UInt32) (input : Block) (n : ℕ) : Block :=
  (List.range' 1 n).foldl (round rk) (addRk rk 0 input)

def encrypt (rk : ℕ → UInt32) (input : Block) : Block := after rk input 10

end Aes128

/-- The block cipher under a key. -/
def aes128 (key : Block) : Block → Block := Aes128.encrypt (Aes128.rk key)

namespace Aes128

/-- The state of the standard, row `r` and column `c`. -/
noncomputable def stateOf (st : Block) : State :=
  Matrix.of fun r c => elemOf (bytesOf st (4 * c + r))

theorem bytesOf_blockOf (f : ℕ → UInt8) {i : ℕ} (hi : i < 16) : bytesOf (blockOf f) i = f i := by
  rw [bytesOf, blockOf, List.getD_eq_getElem?_getD, Vector.toList_ofFn, List.getElem?_ofFn]
  simp [hi]

theorem stateOf_apply (f : ℕ → UInt8) (r c : Fin 4) :
    stateOf (blockOf f) r c = elemOf (f (4 * c + r)) :=
  congrArg elemOf (bytesOf_blockOf f (by omega))

theorem stateOf_injective : Function.Injective stateOf := by
  intro a b h
  have hbyte : ∀ i < 16, bytesOf a i = bytesOf b i := by
    intro i hi
    have hentry := congrFun (congrFun h ⟨i % 4, by omega⟩) ⟨i / 4, by omega⟩
    have hplace : 4 * (i / 4) + i % 4 = i := by omega
    apply elemOf_injective
    rw [← hplace]
    exact hentry
  apply Vector.ext
  intro i hi
  simpa [bytesOf, hi] using hbyte i hi

noncomputable def wordOf (k : UInt32) : Fips197.Word := fun r => elemOf (byteOf k r)

theorem wordOf_xor (k l : UInt32) : wordOf (k ^^^ l) = wordOf k + wordOf l := by
  funext r
  rw [wordOf, byteOf_xor k l r.isLt, elemOf_xor]
  rfl

theorem wordOf_pack (b : ℕ → UInt8) :
    wordOf (pack (b 0) (b 1) (b 2) (b 3)) = fun r : Fin 4 => elemOf (b r) := by
  funext r
  rw [wordOf, byteOf_pack b r.isLt]

theorem wordOf_sbox (t : UInt32) :
    wordOf (pack (sbox (byteOf t 0)) (sbox (byteOf t 1)) (sbox (byteOf t 2)) (sbox (byteOf t 3))) =
      subWord (wordOf t) := by
  rw [wordOf_pack fun j => sbox (byteOf t j)]
  funext r
  exact elemOf_sbox _

theorem wordOf_rotate (t : UInt32) : wordOf ((t <<< 8) ||| (t >>> 24)) = rotWord (wordOf t) := by
  funext r
  rw [wordOf, byteOf_rotate t r.isLt, rotWord, wordOf]

theorem wordOf_rcon (b : UInt8) {j : ℕ} (h : elemOf b = x ^ (j - 1)) :
    wordOf (b.toUInt32 <<< 24) = rcon j := by
  have hpack : b.toUInt32 <<< 24 = pack b 0 0 0 := by
    apply UInt32.toBitVec_inj.mp
    simp [pack]
  rw [hpack]
  refine (wordOf_pack fun i => if i = 0 then b else 0).trans ?_
  funext r
  fin_cases r
  · exact h
  · exact elemOf_zero
  · exact elemOf_zero
  · exact elemOf_zero

theorem and_three (n : ℕ) : n &&& 3 = n % 4 := Nat.and_two_pow_sub_one_eq_mod n 2

theorem rk_pass_self (s : Schedule) (i : ℕ) : (s.pass i).rk i = s.rk (i - 4) ^^^ s.temp i :=
  Function.update_self i _ s.rk

theorem rk_pass_of_ne (s : Schedule) {i j : ℕ} (h : j ≠ i) : (s.pass i).rk j = s.rk j :=
  Function.update_of_ne h _ s.rk

/-- Every word that the loop has come past is the standard's, and so is the constant to come. -/
theorem expanded_spec (key : Block) {n : ℕ} (hn : 4 ≤ n) :
    (∀ i < n, wordOf ((expanded key n).rk i) = keyWord (stateOf key) i) ∧
      elemOf (expanded key n).rcon = x ^ ((n - 1) / 4) := by
  induction n, hn using Nat.le_induction with
  | base =>
    refine ⟨fun i hi => ?_, elemOf_one⟩
    rw [show i = ((⟨i, hi⟩ : Fin 4) : ℕ) from rfl, keyWord_start]
    exact wordOf_pack fun j => bytesOf key (4 * i + j)
  | succ n hn ih =>
    obtain ⟨hwords, hrcon⟩ := ih
    have hpass : expanded key (n + 1) = (expanded key n).pass n := by
      rw [expanded, Nat.sub_add_comm hn, List.range'_1_concat, List.foldl_append,
        Nat.add_sub_cancel' hn]
      rfl
    have hnew : wordOf ((expanded key n).rk (n - 4) ^^^ (expanded key n).temp n) =
        keyWord (stateOf key) n := by
      rw [wordOf_xor, hwords (n - 4) (by omega), Schedule.temp, and_three]
      by_cases hturn : n % 4 = 0
      · rw [if_pos hturn, keyWord_turn _ hn hturn, wordOf_xor, wordOf_sbox, wordOf_rotate,
          hwords (n - 1) (by omega), wordOf_rcon]
        rw [hrcon, show (n - 1) / 4 = n / 4 - 1 by omega]
      · rw [if_neg hturn, keyWord_next _ hn hturn, hwords (n - 1) (by omega)]
    rw [hpass]
    refine ⟨fun i hi => ?_, ?_⟩
    · by_cases heq : i = n
      · rw [heq, rk_pass_self, hnew]
      · rw [rk_pass_of_ne _ heq]
        exact hwords i (by omega)
    · rw [Schedule.pass, and_three, apply_ite elemOf, elemOf_xtime, hrcon, ← pow_succ']
      split
      · congr 1
        omega
      · congr 1
        omega

theorem stateOf_addRk (key : Block) {n : ℕ} (hn : n ≤ 10) (st : Block) :
    stateOf (addRk (rk key) n st) = stateOf st + roundKey (stateOf key) n := by
  ext r c
  have hword := (expanded_spec key (by decide : 4 ≤ 44)).1 (4 * n + c) (by omega)
  have hdiv : (4 * (c : ℕ) + r) / 4 = c := by omega
  have hmod : (4 * (c : ℕ) + r) % 4 = r := by omega
  rw [addRk, stateOf_apply, hdiv, hmod, elemOf_xor]
  exact congrArg (elemOf (bytesOf st (4 * c + r)) + ·) (congrFun hword r)

theorem stateOf_subBytes (st : Block) :
    stateOf (subBytes st) = Fips197.subBytes (stateOf st) := by
  ext r c
  rw [subBytes, stateOf_apply, elemOf_sbox]
  rfl

theorem stateOf_shiftRows (st : Block) :
    stateOf (shiftRows st) = Fips197.shiftRows (stateOf st) := by
  ext r c
  rw [shiftRows, stateOf_apply]
  fin_cases r <;> fin_cases c <;> rfl

/-- With `a + a = 0` the sum of the column and one doubling make a row of the matrix. -/
theorem elemOf_mixed {a b all : UInt8} {c d : Gf}
    (h : elemOf all = elemOf a + elemOf b + c + d) :
    elemOf (a ^^^ all ^^^ xtime (a ^^^ b)) =
      x * (elemOf a + elemOf b) + elemOf b + c + d := by
  rw [elemOf_xor, elemOf_xor, elemOf_xtime, elemOf_xor, h]
  linear_combination elemOf_add_self a

theorem stateOf_mixColumns (st : Block) :
    stateOf (mixColumns st) = Fips197.mixColumns (stateOf st) := by
  ext r c
  have hdiv : (4 * (c : ℕ) + r) / 4 = c := by omega
  have hmod : (4 * (c : ℕ) + r) % 4 = r := by omega
  have hall : ∀ p : ℕ → UInt8, elemOf (p 0 ^^^ p 1 ^^^ p 2 ^^^ p 3) =
      elemOf (p 0) + elemOf (p 1) + elemOf (p 2) + elemOf (p 3) := by
    intro p
    rw [elemOf_xor, elemOf_xor, elemOf_xor]
  have hturn : ∀ a b c d : Gf, a + b + c + d = b + c + d + a := by
    intro a b c d
    ring
  rw [mixColumns_apply, mixColumns, stateOf_apply, hdiv, hmod]
  have hcol := hall fun j => bytesOf st (4 * c + j)
  fin_cases r
  · exact elemOf_mixed hcol
  · exact elemOf_mixed (hcol.trans (hturn _ _ _ _))
  · exact elemOf_mixed ((hcol.trans (hturn _ _ _ _)).trans (hturn _ _ _ _))
  · exact elemOf_mixed (((hcol.trans (hturn _ _ _ _)).trans (hturn _ _ _ _)).trans
      (hturn _ _ _ _))

theorem after_succ (rk : ℕ → UInt32) (input : Block) (n : ℕ) :
    after rk input (n + 1) = round rk (after rk input n) (n + 1) := by
  rw [after, List.range'_1_concat, List.foldl_append, Nat.add_comm 1 n]
  rfl

theorem stateOf_after (key input : Block) {n : ℕ} (hn : n ≤ 9) :
    stateOf (after (rk key) input n) =
      rounds (stateOf key) (stateOf input) n := by
  induction n with
  | zero => exact stateOf_addRk key (by decide) _
  | succ n ih =>
    rw [after_succ, round, if_pos (by omega), stateOf_addRk key (by omega), stateOf_mixColumns,
      stateOf_shiftRows, stateOf_subBytes, ih (by omega), rounds]

end Aes128

/-- The code enciphers as the standard does, under every key. -/
theorem aes128_fips197 : Function.Injective Aes128.stateOf ∧ ∀ key block : Block,
    Aes128.stateOf (aes128 key block) =
      Fips197.cipher (Aes128.stateOf key) (Aes128.stateOf block) := by
  refine ⟨Aes128.stateOf_injective, fun key block => ?_⟩
  rw [aes128, Aes128.encrypt, Aes128.after_succ, Aes128.round, if_neg (by decide),
    Aes128.stateOf_addRk key le_rfl, Aes128.stateOf_shiftRows, Aes128.stateOf_subBytes,
    Aes128.stateOf_after key block le_rfl]
  rfl

end Machino.Webrtc
