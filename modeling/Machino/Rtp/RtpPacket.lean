import Mathlib.Data.List.Basic
import Mathlib.Data.List.Infix
import Mathlib.Data.List.GetD
import Mathlib.Algebra.Order.Group.Nat

/-! The RTP fixed header, RFC 3550 5.1. -/
namespace Machino

abbrev Bytes := List UInt8

namespace Bytes

def byte (p : Bytes) (i : ℕ) : ℕ := (p.getD i 0).toNat

def be16 (p : Bytes) (i : ℕ) : ℕ := byte p i * 2 ^ 8 + byte p (i + 1)

def be32 (p : Bytes) (i : ℕ) : ℕ := be16 p i * 2 ^ 16 + be16 p (i + 2)

def be64 (p : Bytes) (i : ℕ) : ℕ := be32 p i * 2 ^ 32 + be32 p (i + 4)

def ofBe16 (n : ℕ) : Bytes := [UInt8.ofNat (n / 2 ^ 8), UInt8.ofNat n]

def ofBe32 (n : ℕ) : Bytes := ofBe16 (n / 2 ^ 16) ++ ofBe16 n

def ofBe64 (n : ℕ) : Bytes := ofBe32 (n / 2 ^ 32) ++ ofBe32 n

@[simp] theorem length_ofBe16 (n : ℕ) : (ofBe16 n).length = 2 := rfl

@[simp] theorem length_ofBe32 (n : ℕ) : (ofBe32 n).length = 4 := rfl

@[simp] theorem length_ofBe64 (n : ℕ) : (ofBe64 n).length = 8 := rfl

theorem byte_append_right (a b : Bytes) (i : ℕ) : byte (a ++ b) (a.length + i) = byte b i := by
  rw [byte, byte, List.getD_append_right _ _ _ _ (Nat.le_add_right _ _), Nat.add_sub_cancel_left]

theorem byte_prefix_eq {p q : Bytes} (h : p <+: q) {i : ℕ} (hi : i < p.length) :
    byte p i = byte q i := by
  obtain ⟨s, rfl⟩ := h
  rw [byte, byte, List.getD_append _ _ _ _ hi]

theorem be16_ofBe16 (front back : Bytes) (n : ℕ) :
    be16 (front ++ ofBe16 n ++ back) front.length = n % 2 ^ 16 := by
  simp [be16, byte, ofBe16]
  omega

theorem be16_append_right (a b : Bytes) (i : ℕ) : be16 (a ++ b) (a.length + i) = be16 b i := by
  rw [be16, be16, Nat.add_assoc, byte_append_right, byte_append_right]

theorem be32_append_right (a b : Bytes) (i : ℕ) : be32 (a ++ b) (a.length + i) = be32 b i := by
  rw [be32, be32, Nat.add_assoc, be16_append_right, be16_append_right]

theorem be32_ofBe32 (n : ℕ) (back : Bytes) : be32 (ofBe32 n ++ back) 0 = n % 2 ^ 32 := by
  simp [be32, be16, byte, ofBe32, ofBe16]
  omega

theorem be64_ofBe64 (n : ℕ) (back : Bytes) : be64 (ofBe64 n ++ back) 0 = n % 2 ^ 64 := by
  have hlow : be32 (ofBe64 n ++ back) (0 + 4) = n % 2 ^ 32 := by
    rw [ofBe64, List.append_assoc]
    have hright := be32_append_right (ofBe32 (n / 2 ^ 32)) (ofBe32 n ++ back) 0
    rw [length_ofBe32] at hright
    exact hright.trans (be32_ofBe32 n back)
  rw [be64, hlow, ofBe64, List.append_assoc, be32_ofBe32]
  omega

theorem be16_append (a b : Bytes) {i : ℕ} (h : i + 1 < a.length) :
    be16 (a ++ b) i = be16 a i := by
  have hi : i < a.length := by omega
  simp only [be16, byte, List.getD_append _ _ _ _ hi, List.getD_append _ _ _ _ h]

end Bytes

namespace Rtp

open Bytes

def kHeaderBytes : ℕ := 12

/-- Version 2, no padding, no extension, no CSRC. -/
def writeHeader (pt : UInt8) (marker : Bool) (seq ts ssrc : ℕ) : Bytes :=
  [0x80, pt &&& 0x7f ||| if marker then 0x80 else 0] ++ ofBe16 seq ++ ofBe32 ts ++ ofBe32 ssrc

/-- The length of the header within the first `n` bytes, 0 where it is malformed. -/
def headerLength (p : Bytes) (n : ℕ) : ℕ :=
  if n < kHeaderBytes ∨ byte p 0 / 2 ^ 6 ≠ 2 then 0
  else
    let h := kHeaderBytes + 4 * (byte p 0 % 2 ^ 4)
    if byte p 0 / 2 ^ 4 % 2 = 1 then
      if n < h + 4 then 0
      else
        let h := h + (4 + 4 * be16 p (h + 2))
        if h ≤ n then h else 0
    else if h ≤ n then h else 0

@[simp] theorem length_writeHeader (pt : UInt8) (marker : Bool) (seq ts ssrc : ℕ) :
    (writeHeader pt marker seq ts ssrc).length = kHeaderBytes := rfl

end Rtp

end Machino
