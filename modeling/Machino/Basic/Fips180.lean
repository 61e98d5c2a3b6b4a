import Mathlib.Data.List.Basic
import Mathlib.Data.Nat.Bitwise
import Mathlib.Tactic.Ring

/-! SHA-1 of FIPS 180, over strings of bits. -/
namespace Machino.Fips180

abbrev Bits := List Bool

/-- The `n` last bits of a number, the most significant one first. -/
def bitsOf (n v : ℕ) : Bits := (List.range n).map fun i => v.testBit (n - 1 - i)

def valueOf (bs : Bits) : ℕ := bs.foldl (fun v b => 2 * v + b.toNat) 0

def ofOctets (bs : List UInt8) : Bits := bs.flatMap fun b => bitsOf 8 b.toNat

@[simp] theorem length_bitsOf (n v : ℕ) : (bitsOf n v).length = n := by
  simp [bitsOf]

theorem bitsOf_add (m n v : ℕ) : bitsOf (m + n) v = bitsOf m (v >>> n) ++ bitsOf n v := by
  unfold bitsOf
  rw [List.range_add, List.map_append, List.map_map]
  congr 1
  · apply List.map_congr_left
    intro i hi
    have hlt := List.mem_range.mp hi
    rw [Nat.testBit_shiftRight]
    congr 1
    omega
  · apply List.map_congr_left
    intro i _
    show v.testBit (m + n - 1 - (m + i)) = v.testBit (n - 1 - i)
    congr 1
    omega

theorem bitsOf_mod (n v : ℕ) : bitsOf n (v % 2 ^ n) = bitsOf n v := by
  unfold bitsOf
  apply List.map_congr_left
  intro i hi
  have hlt := List.mem_range.mp hi
  rw [Nat.testBit_mod_two_pow, decide_eq_true (by omega : n - 1 - i < n), Bool.true_and]

theorem foldl_bits (bs : Bits) (v : ℕ) :
    bs.foldl (fun v b => 2 * v + b.toNat) v = v * 2 ^ bs.length + valueOf bs := by
  unfold valueOf
  induction bs generalizing v with
  | nil => simp
  | cons b bs ih =>
    rw [List.foldl_cons, ih, List.foldl_cons, ih (2 * 0 + b.toNat), List.length_cons]
    ring

theorem valueOf_append (as bs : Bits) :
    valueOf (as ++ bs) = valueOf as * 2 ^ bs.length + valueOf bs := by
  rw [← foldl_bits, valueOf, List.foldl_append]
  rfl

theorem valueOf_bitsOf (n v : ℕ) : valueOf (bitsOf n v) = v % 2 ^ n := by
  induction n generalizing v with
  | zero => rw [Nat.pow_zero, Nat.mod_one]; rfl
  | succ n ih =>
    have hlast : valueOf (bitsOf 1 v) = v % 2 := by
      show 2 * 0 + (v.testBit 0).toNat = v % 2
      rw [Nat.toNat_testBit]
      omega
    have hsplit : v % 2 ^ (n + 1) = v % 2 + 2 * (v / 2 % 2 ^ n) := by
      rw [Nat.pow_succ', Nat.mod_mul]
    rw [bitsOf_add, valueOf_append, ih, hlast, length_bitsOf, hsplit, Nat.shiftRight_eq_div_pow,
      Nat.pow_one]
    omega

theorem ofOctets_cons (b : UInt8) (bs : List UInt8) :
    ofOctets (b :: bs) = bitsOf 8 b.toNat ++ ofOctets bs := rfl

theorem ofOctets_append (as bs : List UInt8) : ofOctets (as ++ bs) = ofOctets as ++ ofOctets bs :=
  List.flatMap_append

@[simp] theorem length_ofOctets (bs : List UInt8) : (ofOctets bs).length = 8 * bs.length := by
  induction bs with
  | nil => rfl
  | cons b bs ih =>
    rw [ofOctets_cons, List.length_append, length_bitsOf, ih, List.length_cons]
    omega

theorem ofOctets_replicate_zero (n : ℕ) :
    ofOctets (List.replicate n 0) = List.replicate (8 * n) false := by
  induction n with
  | zero => rfl
  | succ n ih =>
    rw [List.replicate_succ, ofOctets_cons, ih, Nat.mul_succ, Nat.add_comm, List.replicate_add]
    rfl

theorem drop_ofOctets (n : ℕ) (bs : List UInt8) :
    (ofOctets bs).drop (8 * n) = ofOctets (bs.drop n) := by
  induction bs generalizing n with
  | nil => simp [ofOctets]
  | cons b bs ih =>
    cases n with
    | zero => rfl
    | succ n =>
      rw [List.drop_succ_cons, ← ih, ofOctets_cons, Nat.mul_succ, Nat.add_comm, ← List.drop_drop]
      congr 1

theorem take_ofOctets (n : ℕ) (bs : List UInt8) :
    (ofOctets bs).take (8 * n) = ofOctets (bs.take n) := by
  induction bs generalizing n with
  | nil => simp [ofOctets]
  | cons b bs ih =>
    cases n with
    | zero => rfl
    | succ n =>
      rw [List.take_succ_cons, ofOctets_cons, ofOctets_cons, ← ih, Nat.mul_succ, Nat.add_comm,
        List.take_append, List.take_of_length_le (by simp), length_bitsOf, Nat.add_sub_cancel_left]

/-- The octets of a number, the most significant one first. -/
theorem ofOctets_bigEndian (k v : ℕ) :
    ofOctets ((List.range k).map fun i => UInt8.ofNat (v >>> (8 * (k - 1 - i)))) =
      bitsOf (8 * k) v := by
  induction k with
  | zero => rfl
  | succ k ih =>
    have hfirst : (UInt8.ofNat (v >>> (8 * k))).toNat = (v >>> (8 * k)) % 2 ^ 8 :=
      UInt8.toNat_ofNat'
    rw [List.range_succ_eq_map, List.map_cons, List.map_map, ofOctets_cons, Nat.mul_succ,
      Nat.add_comm (8 * k), bitsOf_add, ← ih]
    congr 1
    · rw [Nat.add_sub_cancel, Nat.sub_zero, hfirst, bitsOf_mod]
    · congr 1
      apply List.map_congr_left
      intro i _
      show UInt8.ofNat (v >>> (8 * (k + 1 - 1 - (i + 1)))) = UInt8.ofNat (v >>> (8 * (k - 1 - i)))
      rw [show k + 1 - 1 - (i + 1) = k - 1 - i by omega]

/-- The whole blocks of `n` elements each. -/
def blocks {α : Type} (n : ℕ) (l : List α) : List (List α) :=
  (List.range (l.length / n)).map fun i => (l.drop (n * i)).take n

theorem blocks_nil {α : Type} (n : ℕ) : blocks n ([] : List α) = [] := by
  simp [blocks]

theorem blocks_append {α : Type} {n : ℕ} {a : List α} (ha : a.length = n) (hn : 0 < n)
    (b : List α) : blocks n (a ++ b) = a :: blocks n b := by
  unfold blocks
  rw [List.length_append, ha, Nat.add_div_left _ hn, List.range_succ_eq_map, List.map_cons,
    List.map_map]
  congr 1
  · rw [Nat.mul_zero, List.drop_zero, List.take_left' ha]
  · apply List.map_congr_left
    intro i _
    show ((a ++ b).drop (n * (i + 1))).take n = _
    rw [Nat.mul_succ, Nat.add_comm, ← List.drop_drop, List.drop_left' ha]

theorem length_of_mem_blocks {α : Type} {n : ℕ} {l b : List α} (hb : b ∈ blocks n l) :
    b.length = n := by
  unfold blocks at hb
  obtain ⟨i, hi, rfl⟩ := List.mem_map.mp hb
  have hlt := List.mem_range.mp hi
  have hle : n * (i + 1) ≤ l.length := by
    calc n * (i + 1) ≤ n * (l.length / n) := Nat.mul_le_mul_left n hlt
      _ ≤ l.length := Nat.mul_div_le l.length n
  rw [List.length_take, List.length_drop]
  rw [Nat.mul_succ] at hle
  omega

theorem blocks_ofOctets (n : ℕ) (bs : List UInt8) :
    blocks (8 * n) (ofOctets bs) = (blocks n bs).map ofOctets := by
  unfold blocks
  rw [length_ofOctets, Nat.mul_div_mul_left _ _ (by decide), List.map_map]
  apply List.map_congr_left
  intro i _
  show _ = ofOctets ((bs.drop (n * i)).take n)
  rw [Nat.mul_assoc, drop_ofOctets, take_ofOctets]

/-- How many zeros there are behind the one. -/
def zeros (len : ℕ) : ℕ := (959 - len % 512) % 512

theorem zeros_least (len : ℕ) :
    (len + 1 + zeros len) % 512 = 448 ∧ ∀ k, (len + 1 + k) % 512 = 448 → zeros len ≤ k := by
  unfold zeros
  refine ⟨by omega, ?_⟩
  intro k hk
  omega

def pad (m : Bits) : Bits :=
  m ++ true :: List.replicate (zeros m.length) false ++ bitsOf 64 m.length

def rotl (n : ℕ) (x : UInt32) : UInt32 := ⟨x.toBitVec.rotateLeft n⟩

def ch (x y z : UInt32) : UInt32 := (x &&& y) ^^^ (~~~x &&& z)

def parity (x y z : UInt32) : UInt32 := x ^^^ y ^^^ z

def maj (x y z : UInt32) : UInt32 := (x &&& y) ^^^ (x &&& z) ^^^ (y &&& z)

def logical (t : ℕ) : UInt32 → UInt32 → UInt32 → UInt32 :=
  if t < 20 then ch else if t < 40 then parity else if t < 60 then maj else parity

def constant (t : ℕ) : UInt32 :=
  if t < 20 then 0x5a827999
  else if t < 40 then 0x6ed9eba1
  else if t < 60 then 0x8f1bbcdc
  else 0xca62c1d6

/-- A hash value, and the working variables. -/
structure Words where
  a : UInt32
  b : UInt32
  c : UInt32
  d : UInt32
  e : UInt32
  deriving DecidableEq

/-- The initial hash value, 5.3.1. -/
def initial : Words := ⟨0x67452301, 0xefcdab89, 0x98badcfe, 0x10325476, 0xc3d2e1f0⟩

def Words.add (x y : Words) : Words := ⟨x.a + y.a, x.b + y.b, x.c + y.c, x.d + y.d, x.e + y.e⟩

/-- The word `t` of a block. -/
def word (block : Bits) (t : ℕ) : UInt32 := UInt32.ofNat (valueOf ((block.drop (32 * t)).take 32))

def schedule (m : ℕ → UInt32) (t : ℕ) : UInt32 :=
  if t < 16 then m t
  else rotl 1
    (schedule m (t - 3) ^^^ schedule m (t - 8) ^^^ schedule m (t - 14) ^^^ schedule m (t - 16))

def round (w : ℕ → UInt32) (s : Words) (t : ℕ) : Words where
  a := rotl 5 s.a + logical t s.b s.c s.d + s.e + constant t + w t
  b := s.a
  c := rotl 30 s.b
  d := s.c
  e := s.d

def compress (h : Words) (block : Bits) : Words :=
  h.add ((List.range 80).foldl (round (schedule (word block))) h)

def Words.bits (h : Words) : Bits :=
  [h.a, h.b, h.c, h.d, h.e].flatMap fun x => bitsOf 32 x.toNat

def sha1 (m : Bits) : Bits := ((blocks 512 (pad m)).foldl compress initial).bits

def xorBits (a b : Bits) : Bits := List.zipWith xor a b

/-- A block of one byte repeated. -/
def padBlock (v : ℕ) : Bits := (List.replicate 64 (bitsOf 8 v)).flatten

/-- The key as one block: hashed where it is longer, zeros behind it where it is shorter. -/
def keyBlock (k : Bits) : Bits :=
  let k := if 512 < k.length then sha1 k else k
  k ++ List.replicate (512 - k.length) false

def hmac (k text : Bits) : Bits :=
  sha1 (xorBits (keyBlock k) (padBlock 0x5c) ++ sha1 (xorBits (keyBlock k) (padBlock 0x36) ++ text))

theorem ofOctets_map_xor (bs : List UInt8) (v : UInt8) :
    ofOctets (bs.map (· ^^^ v)) =
      xorBits (ofOctets bs) (List.replicate bs.length (bitsOf 8 v.toNat)).flatten := by
  induction bs with
  | nil => rfl
  | cons b bs ih =>
    have hbyte : bitsOf 8 (b ^^^ v).toNat = xorBits (bitsOf 8 b.toNat) (bitsOf 8 v.toNat) := by
      unfold bitsOf xorBits
      rw [List.zipWith_map, List.zipWith_self]
      apply List.map_congr_left
      intro i _
      rw [UInt8.toNat_xor, Nat.testBit_xor]
    rw [List.map_cons, ofOctets_cons, ofOctets_cons, ih, hbyte, List.length_cons,
      List.replicate_succ, List.flatten_cons, xorBits, xorBits, xorBits,
      List.zipWith_append (by rw [length_bitsOf, length_bitsOf])]

end Machino.Fips180
