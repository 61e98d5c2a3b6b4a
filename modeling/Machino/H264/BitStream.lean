import Mathlib.Tactic.Ring
import Machino.Basic.Scans
import Machino.H264.Nal

namespace Machino.H264

open Scans

/-- The highest bit of a byte is its first; past the end there is none. -/
def bitAt (b : Bytes) (i : ℕ) : Option Bool := b[i / 8]?.map fun x => x.toNat.testBit (7 - i % 8)

def bits (b : Bytes) : List Bool := (List.range (8 * b.length)).map fun i => (bitAt b i).getD false

abbrev BitReader := Scan Bytes

namespace BitReader

def bit : BitReader Bool := Scan.next bitAt false

def u : ℕ → BitReader ℕ
  | 0 => return 0
  | n + 1 => do
    let v ← u n
    let b ← bit
    return 2 * v + b.toNat

/-- The loop over the zeros in front; one bit more is read when there are 32. -/
def leadingZeros : ℕ → ℕ → BitReader ℕ
  | 0, z => do
    let _ ← bit
    return z
  | left + 1, z => do
    let b ← bit
    let bad ← Scan.isBad
    if b || bad then return z else leadingZeros left (z + 1)

def ue : BitReader ℕ := do
  let z ← leadingZeros 32 0
  if 32 ≤ z then
    Scan.spoil
    return 0
  else
    let v ← u z
    return 2 ^ z - 1 + v

def se : BitReader ℤ := do
  let k ← ue
  return if k % 2 = 1 then ((k + 1) / 2 : ℕ) else -((k / 2 : ℕ) : ℤ)

def skip {α : Type} (p : BitReader α) : BitReader Unit := do
  let _ ← p
  return ()

end BitReader

/-- `fill` bits of the last byte are used. -/
structure BitWriter where
  b : Bytes := []
  fill : ℕ := 0

namespace BitWriter

def bit (w : BitWriter) (v : Bool) : BitWriter :=
  let b := if w.fill = 0 then w.b ++ [0] else w.b
  { b := if v then b.dropLast ++ [b.getLastD 0 ||| UInt8.ofNat (2 ^ (7 - w.fill))] else b
    fill := (w.fill + 1) % 8 }

def u (w : BitWriter) (v : ℕ) : ℕ → BitWriter
  | 0 => w
  | n + 1 => (w.bit (v.testBit n)).u v n

def zeros (w : BitWriter) : ℕ → BitWriter
  | 0 => w
  | n + 1 => (w.bit false).zeros n

def ue (w : BitWriter) (v : UInt32) : BitWriter :=
  let x := (v + 1).toNat
  (w.zeros x.log2).u x (x.log2 + 1)

/-- Zeros up to the end of the byte, with so many steps left. -/
def align (w : BitWriter) : ℕ → BitWriter
  | 0 => w
  | left + 1 => if w.fill ≠ 0 then (w.bit false).align left else w

end BitWriter

@[simp]
theorem length_bits (b : Bytes) : (bits b).length = 8 * b.length := by
  rw [bits, List.length_map, List.length_range]

theorem bitAt_eq_none {b : Bytes} {i : ℕ} (h : 8 * b.length ≤ i) : bitAt b i = none := by
  rw [bitAt, List.getElem?_eq_none (by omega)]
  rfl

theorem bitAt_lt {b : Bytes} {i : ℕ} {v : Bool} (h : bitAt b i = some v) : i < 8 * b.length := by
  by_contra hge
  rw [bitAt_eq_none (by omega)] at h
  exact nomatch h

theorem getElem?_bits (b : Bytes) (i : ℕ) : (bits b)[i]? = bitAt b i := by
  by_cases hi : i < 8 * b.length
  · have hbit : bitAt b i = some ((b[i / 8]).toNat.testBit (7 - i % 8)) := by
      rw [bitAt, List.getElem?_eq_getElem]
      rfl
    rw [bits, List.getElem?_map, List.getElem?_range hi, Option.map_some, hbit, Option.getD_some]
  · rw [bitAt_eq_none (by omega), List.getElem?_eq_none (by rw [length_bits]; omega)]

theorem take_bits {b : Bytes} {n : ℕ} (h : n ≤ 8 * b.length) :
    (bits b).take n = (List.range n).map fun i => (bitAt b i).getD false := by
  rw [bits, ← List.map_take, List.take_range, Nat.min_eq_left h]

theorem eq_of_testBit {x y : UInt8} (h : ∀ j < 8, x.toNat.testBit j = y.toNat.testBit j) :
    x = y := by
  apply UInt8.toNat_inj.mp
  apply Nat.eq_of_testBit_eq
  intro j
  by_cases hj : j < 8
  · exact h j hj
  · have hpow : 2 ^ 8 ≤ 2 ^ j := Nat.pow_le_pow_right (by decide) (by omega)
    rw [Nat.testBit_lt_two_pow (x.toNat_lt.trans_le hpow),
      Nat.testBit_lt_two_pow (y.toNat_lt.trans_le hpow)]

theorem head?_eq_of_bitAt {a b : Bytes} (h : ∀ i < 8, bitAt a i = bitAt b i) :
    a.head? = b.head? := by
  match a, b with
  | [], [] => rfl
  | [], y :: b => exact nomatch h 0 (by decide)
  | x :: a, [] => exact nomatch h 0 (by decide)
  | x :: a, y :: b =>
    refine congrArg some (eq_of_testBit fun j hj => ?_)
    have hbit := h (7 - j) (by omega)
    unfold bitAt at hbit
    rw [show (7 - j) / 8 = 0 by omega, show 7 - (7 - j) % 8 = j by omega] at hbit
    exact Option.some.inj hbit

namespace BitReader

open Scan

theorem local_bit : Local bitAt bit := Local.next false

theorem local_u (n : ℕ) : Local bitAt (u n) := by
  induction n with
  | zero => exact Local.pure 0
  | succ n ih => exact ih.bind fun _ => local_bit.bind fun _ => Local.pure _

theorem local_leadingZeros (left z : ℕ) : Local bitAt (leadingZeros left z) := by
  induction left generalizing z with
  | zero => exact local_bit.bind fun _ => Local.pure z
  | succ left ih =>
    exact local_bit.bind fun _ => Local.isBad.bind fun _ => (Local.pure z).ite (ih (z + 1))

theorem local_ue : Local bitAt ue := by
  refine (local_leadingZeros 32 0).bind fun z => Local.ite ?_ ?_
  · exact Local.spoil.bind fun _ => Local.pure 0
  · exact (local_u z).bind fun _ => Local.pure _

theorem local_se : Local bitAt se := local_ue.bind fun _ => Local.pure _

theorem local_skip {α : Type} {p : BitReader α} (hp : Local bitAt p) : Local bitAt (skip p) :=
  hp.bind fun _ => Local.pure ()

end BitReader

theorem bitAt_concat (l : Bytes) (x : UInt8) (i : ℕ) : bitAt (l ++ [x]) i =
    if i < 8 * l.length then bitAt l i
    else if i < 8 * l.length + 8 then some (x.toNat.testBit (7 - i % 8)) else none := by
  unfold bitAt
  split_ifs with h1 h2
  · rw [List.getElem?_append_left (by omega)]
  · rw [List.getElem?_append_right (by omega), show i / 8 - l.length = 0 by omega]
    rfl
  · rw [List.getElem?_eq_none (by rw [List.length_append, List.length_singleton]; omega)]
    rfl

namespace BitWriter

/-- The bits that were written, and zeros up to the end of the last byte. -/
structure Holds (w : BitWriter) (bs : List Bool) : Prop where
  length : w.b.length = (bs.length + 7) / 8
  fill : w.fill = bs.length % 8
  bits : ∀ i < 8 * w.b.length, bitAt w.b i = some (bs.getD i false)

variable {w : BitWriter} {bs : List Bool}

theorem Holds.start : Holds {} [] := ⟨rfl, rfl, nofun⟩

/-- The byte that the next bit goes into. -/
theorem Holds.exists_last (h : Holds w bs) : ∃ l x,
    (if w.fill = 0 then w.b ++ [0] else w.b) = l ++ [x] ∧ bs.length = 8 * l.length + w.fill ∧
      w.fill < 8 ∧ ∀ i < 8 * l.length + 8, bitAt (l ++ [x]) i = some (bs.getD i false) := by
  have hlength := h.length
  have hfill := h.fill
  by_cases h0 : w.fill = 0
  · refine ⟨w.b, 0, if_pos h0, by omega, by omega, fun i hi => ?_⟩
    rw [bitAt_concat]
    split_ifs with hold
    · exact h.bits i hold
    · rw [List.getD_eq_default _ _ (by omega)]
      simp
  · obtain hnil | ⟨l, x, hlx⟩ := List.eq_nil_or_concat' w.b
    · rw [hnil, List.length_nil] at hlength
      omega
    · rw [hlx, List.length_append, List.length_singleton] at hlength
      refine ⟨l, x, (if_neg h0).trans hlx, by omega, by omega, fun i hi => ?_⟩
      rw [← hlx]
      refine h.bits i ?_
      rw [hlx, List.length_append, List.length_singleton]
      omega

theorem getD_concat (bs : List Bool) (v : Bool) (i : ℕ) :
    (bs ++ [v]).getD i false = (bs.getD i false || (v && decide (i = bs.length))) := by
  by_cases hlt : i < bs.length
  · rw [List.getD_append _ _ _ _ hlt, decide_eq_false (by omega), Bool.and_false, Bool.or_false]
  · rw [List.getD_append_right _ _ _ _ (by omega), List.getD_eq_default bs _ (by omega),
      Bool.false_or]
    by_cases heq : i = bs.length
    · rw [heq, Nat.sub_self, decide_eq_true rfl, Bool.and_true]
      rfl
    · rw [decide_eq_false heq, Bool.and_false]
      exact List.getD_eq_default _ _ (by rw [List.length_singleton]; omega)

/-- Setting one bit of a byte. -/
theorem testBit_set (x : UInt8) {k : ℕ} (hk : k < 8) (v : Bool) (j : ℕ) :
    (if v then x ||| UInt8.ofNat (2 ^ k) else x).toNat.testBit j =
      (x.toNat.testBit j || (v && decide (k = j))) := by
  have hpow : 2 ^ k < 256 := Nat.pow_lt_pow_right (by decide) hk
  cases v with
  | false => rw [Bool.false_and, Bool.or_false]; rfl
  | true =>
    rw [if_pos rfl, UInt8.toNat_or, Nat.testBit_or, UInt8.toNat_ofNat_of_lt' hpow,
      Nat.testBit_two_pow, Bool.true_and]

theorem Holds.bit (h : Holds w bs) (v : Bool) : Holds (w.bit v) (bs ++ [v]) := by
  obtain ⟨l, x, hlast, hlen, hfill, hbits⟩ := h.exists_last
  have hb : (w.bit v).b =
      l ++ [if v then x ||| UInt8.ofNat (2 ^ (7 - w.fill)) else x] := by
    unfold BitWriter.bit
    dsimp only
    rw [hlast]
    cases v with
    | false => rfl
    | true => simp
  refine ⟨?_, ?_, fun i hi => ?_⟩
  · rw [hb, List.length_append, List.length_append, List.length_singleton, List.length_singleton]
    omega
  · show (w.fill + 1) % 8 = _
    rw [List.length_append, List.length_singleton]
    omega
  · rw [hb, List.length_append, List.length_singleton] at hi
    have hi8 := hbits i (by omega)
    rw [bitAt_concat] at hi8
    rw [hb, bitAt_concat, getD_concat]
    by_cases hold : i < 8 * l.length
    · rw [if_pos hold] at hi8 ⊢
      rw [hi8, decide_eq_false (by omega), Bool.and_false, Bool.or_false]
    · rw [if_neg hold, if_pos (by omega)] at hi8 ⊢
      rw [testBit_set x (by omega), Option.some.inj hi8]
      have hsame : (7 - w.fill = 7 - i % 8) = (i = bs.length) := propext (by omega)
      simp only [hsame]

end BitWriter

/-- A number in so many bits. -/
def binary (v : ℕ) : ℕ → List Bool
  | 0 => []
  | n + 1 => v.testBit n :: binary v n

/-- The Exp-Golomb code of a number; the next one is what is written, and it wraps. -/
def expGolomb (v : UInt32) : List Bool :=
  List.replicate (v + 1).toNat.log2 false ++ binary (v + 1).toNat ((v + 1).toNat.log2 + 1)

namespace BitWriter

variable {w : BitWriter} {bs : List Bool}

theorem Holds.foldl (h : Holds w bs) (f : ℕ → Bool) (is : List ℕ) :
    Holds (is.foldl (fun w i => w.bit (f i)) w) (bs ++ is.map f) := by
  induction is generalizing w bs with
  | nil =>
    rw [List.map_nil, List.append_nil]
    exact h
  | cons i is ih =>
    have hrest := ih (h.bit (f i))
    rwa [List.append_assoc] at hrest

theorem Holds.u (h : Holds w bs) (v n : ℕ) : Holds (w.u v n) (bs ++ binary v n) := by
  induction n generalizing w bs with
  | zero =>
    rw [binary, List.append_nil]
    exact h
  | succ n ih =>
    have hrest := ih (h.bit (v.testBit n))
    rwa [List.append_assoc] at hrest

theorem Holds.zeros (h : Holds w bs) (n : ℕ) :
    Holds (w.zeros n) (bs ++ List.replicate n false) := by
  induction n generalizing w bs with
  | zero =>
    rw [List.replicate_zero, List.append_nil]
    exact h
  | succ n ih =>
    have hrest := ih (h.bit false)
    rwa [List.append_assoc] at hrest

theorem Holds.ue (h : Holds w bs) (v : UInt32) : Holds (w.ue v) (bs ++ expGolomb v) := by
  have hboth := (h.zeros (v + 1).toNat.log2).u (v + 1).toNat ((v + 1).toNat.log2 + 1)
  rwa [List.append_assoc] at hboth

/-- The byte is full before the steps are used up. -/
theorem Holds.align (h : Holds w bs) {left : ℕ} (hleft : (8 - w.fill) % 8 ≤ left) :
    ∃ k < 8, (bs.length + k) % 8 = 0 ∧
      Holds (w.align left) (bs ++ List.replicate k false) := by
  have hfill := h.fill
  induction left generalizing w bs with
  | zero =>
    refine ⟨0, by omega, by omega, ?_⟩
    rw [List.replicate_zero, List.append_nil]
    exact h
  | succ left ih =>
    unfold BitWriter.align
    by_cases h0 : w.fill = 0
    · refine ⟨0, by omega, by omega, ?_⟩
      rw [List.replicate_zero, List.append_nil, if_neg (not_not.mpr h0)]
      exact h
    · have hnext : (w.bit false).fill = (w.fill + 1) % 8 := rfl
      obtain ⟨k, hk, hfull, hrest⟩ := ih (h.bit false) (by omega) (h.bit false).fill
      rw [List.length_append, List.length_singleton] at hfull
      rw [List.append_assoc, List.singleton_append, ← List.replicate_succ] at hrest
      refine ⟨k + 1, by omega, by omega, ?_⟩
      rw [if_pos h0]
      exact hrest

/-- Full bytes are just the bits that were written. -/
theorem Holds.bits_eq (h : Holds w bs) (hfull : bs.length % 8 = 0) : H264.bits w.b = bs := by
  have hlength := h.length
  apply List.ext_getElem?
  intro i
  rw [getElem?_bits]
  by_cases hi : i < 8 * w.b.length
  · rw [h.bits i hi, List.getElem?_eq_getElem (by omega)]
    exact congrArg some (List.getD_eq_getElem _ _ (by omega))
  · rw [bitAt_eq_none (by omega), List.getElem?_eq_none (by omega)]

end BitWriter

namespace BitReader

open Scan

theorem decodes_bit (v : Bool) : Decodes bitAt bit [v] v := Decodes.next false v

theorem decodes_skip {α : Type} {p : BitReader α} {word : List Bool} {a : α}
    (hp : Decodes bitAt p word a) : Decodes bitAt (skip p) word () := by
  have hboth := hp.bind (f := fun _ => Pure.pure ()) (Decodes.pure ())
  rwa [List.append_nil] at hboth

/-- The first bit counts most. -/
def number (word : List Bool) : ℕ := word.foldl (fun v b => 2 * v + b.toNat) 0

theorem foldl_binary (v n acc : ℕ) :
    (binary v n).foldl (fun v b => 2 * v + b.toNat) acc = acc * 2 ^ n + v % 2 ^ n := by
  induction n generalizing acc with
  | zero => simp [binary, Nat.mod_one]
  | succ n ih =>
    have hsplit : v % 2 ^ (n + 1) = v % 2 ^ n + 2 ^ n * (v.testBit n).toNat := by
      rw [Nat.mod_pow_succ, Nat.toNat_testBit]
    rw [binary, List.foldl_cons, ih, hsplit, pow_succ]
    ring

theorem length_binary (v n : ℕ) : (binary v n).length = n := by
  induction n with
  | zero => rfl
  | succ n ih => rw [binary, List.length_cons, ih]

theorem decodes_u (word : List Bool) : Decodes bitAt (u word.length) word (number word) := by
  induction word using List.reverseRecOn with
  | nil => exact Decodes.pure 0
  | append_singleton word b ih =>
    have hlast : Decodes bitAt (bit >>= fun b => return 2 * number word + b.toNat) [b]
        (2 * number word + b.toNat) := (decodes_bit b).bind (Decodes.pure _)
    have hboth := ih.bind (f := fun v => bit >>= fun b => return 2 * v + b.toNat) hlast
    rw [List.length_append, number, List.foldl_append]
    exact hboth

theorem decodes_leadingZeros {left k : ℕ} (h : k ≤ left) (z : ℕ) :
    Decodes bitAt (leadingZeros left z) (List.replicate k false ++ [true]) (z + k) := by
  induction left generalizing k z with
  | zero =>
    obtain rfl : k = 0 := Nat.le_zero.mp h
    exact (decodes_bit true).bind (Decodes.pure z)
  | succ left ih =>
    cases k with
    | zero => exact (decodes_bit true).bind (Decodes.isBad.bind (Decodes.pure z))
    | succ k =>
      have hrest := ih (Nat.le_of_succ_le_succ h) (z + 1)
      rw [Nat.add_right_comm] at hrest
      exact (decodes_bit false).bind (Decodes.isBad.bind hrest)

/-- The largest number has no code: the next one wraps. -/
theorem decodes_ue {v : UInt32} (h : v ≠ 0xffffffff) : Decodes bitAt ue (expGolomb v) v.toNat := by
  have hv := v.toNat_lt
  have hmax : v.toNat ≠ 0xffffffff := fun hbad => h (UInt32.toNat_inj.mp hbad)
  have hx : (v + 1).toNat = v.toNat + 1 := by
    rw [UInt32.toNat_add, UInt32.toNat_one]
    omega
  unfold expGolomb
  generalize (v + 1).toNat = x at hx ⊢
  have hpos : x ≠ 0 := by omega
  have hbelow : x.log2 < 32 := (Nat.log2_lt hpos).mpr (by omega)
  have hle : 2 ^ x.log2 ≤ x := Nat.log2_self_le hpos
  have hlt : x < 2 ^ (x.log2 + 1) := Nat.lt_log2_self
  have hword : List.replicate x.log2 false ++ binary x (x.log2 + 1) =
      List.replicate x.log2 false ++ [true] ++ binary x x.log2 := by
    rw [binary, Nat.testBit_log2 hpos, List.append_assoc]
    rfl
  have hlow := decodes_u (binary x x.log2)
  rw [length_binary, number, foldl_binary, Nat.zero_mul, Nat.zero_add, Nat.mod_eq_sub_mod hle,
    Nat.mod_eq_of_lt (by omega)] at hlow
  have hvalue : 2 ^ x.log2 - 1 + (x - 2 ^ x.log2) = v.toNat := by omega
  rw [hword]
  refine (decodes_leadingZeros hbelow.le 0).bind ?_
  rw [Nat.zero_add, if_neg (Nat.not_le.mpr hbelow), ← List.append_nil (binary x x.log2), ← hvalue]
  exact hlow.bind (Decodes.pure _)

end BitReader

end Machino.H264
