import Machino.Basic.Crc
import Machino.Http.Sha1
import Machino.Webrtc.Stun

namespace Machino.Webrtc

open Bytes Gf2 Crc

theorem size_sha1 (data : Bytes) : (Ws.sha1 data).toArray.size = 20 := rfl

def hmacSha1 (key msg : Bytes) : Vector UInt8 20 :=
  let k := if 64 < key.length then Ws.sha1 key else key
  let k := k ++ List.replicate (64 - k.length) 0
  let ipad := k.map (· ^^^ 0x36)
  let opad := k.map (· ^^^ 0x5c)
  let ih := Ws.sha1 (ipad ++ msg)
  ⟨(Ws.sha1 (opad ++ ih)).toArray, size_sha1 _⟩

/-- The key in one block of 64 bytes. -/
def hmacKey (key : Bytes) : Bytes :=
  let k := if 64 < key.length then Ws.sha1 key else key
  k ++ List.replicate (64 - k.length) 0

theorem toList_hmacSha1 (key msg : Bytes) : (hmacSha1 key msg).toList =
    Ws.sha1 ((hmacKey key).map (· ^^^ 0x5c) ++ Ws.sha1 ((hmacKey key).map (· ^^^ 0x36) ++ msg)) :=
  rfl

theorem length_hmacKey (key : Bytes) : (hmacKey key).length = 64 := by
  have hshort : (if 64 < key.length then Ws.sha1 key else key).length ≤ 64 := by
    split
    · exact (by decide : 20 ≤ 64)
    · omega
  rw [hmacKey, List.length_append, List.length_replicate]
  omega

theorem ofOctets_hmacKey (key : Bytes) :
    Fips180.ofOctets (hmacKey key) = Fips180.keyBlock (Fips180.ofOctets key) := by
  have hlong : 512 < (Fips180.ofOctets key).length ↔ 64 < key.length := by
    rw [Fips180.length_ofOctets]
    omega
  have hkey : Fips180.ofOctets (if 64 < key.length then Ws.sha1 key else key) =
      if 512 < (Fips180.ofOctets key).length then Fips180.sha1 (Fips180.ofOctets key)
      else Fips180.ofOctets key := by
    rw [apply_ite Fips180.ofOctets, Ws.ofOctets_sha1]
    exact if_congr hlong.symm rfl rfl
  rw [hmacKey, Fips180.keyBlock, Fips180.ofOctets_append, ← hkey,
    Fips180.ofOctets_replicate_zero, Fips180.length_ofOctets, Nat.mul_sub]

/-- The code computes the keyed hash of the standard, for keys of every length. -/
theorem hmacSha1_rfc2104 (key msg : Bytes) : Fips180.ofOctets (hmacSha1 key msg).toList =
    Fips180.hmac (Fips180.ofOctets key) (Fips180.ofOctets msg) := by
  have hpad (v : UInt8) : Fips180.ofOctets ((hmacKey key).map (· ^^^ v)) =
      Fips180.xorBits (Fips180.keyBlock (Fips180.ofOctets key)) (Fips180.padBlock v.toNat) := by
    rw [Fips180.ofOctets_map_xor, ofOctets_hmacKey, length_hmacKey]
    rfl
  rw [toList_hmacSha1, Ws.ofOctets_sha1, Fips180.ofOctets_append, Ws.ofOctets_sha1,
    Fips180.ofOctets_append, hpad, hpad]
  rfl

/-- The polynomial of the check sum below `X ^ 32`. -/
def crcBits : BitVec 32 := 0x04C11DB7

/-- One of the eight passes for a byte. -/
def crcPass (c : UInt32) : UInt32 := (c >>> 1) ^^^ (0xedb88320 &&& (0 - (c &&& 1)))

def crcByte (c : UInt32) (b : UInt8) : UInt32 := crcPass^[8] (c ^^^ b.toUInt32)

def crc32 (p : Bytes) : UInt32 := p.foldl crcByte 0xffffffff ^^^ 0xffffffff

/-- The bits of the bytes, in the order that the check sum takes them. -/
def bitsOf (p : Bytes) : List Bool :=
  p.flatMap fun b => (List.range 8).map b.toBitVec.getLsbD

/-- The register as a polynomial modulo the check sum's: its bits are in reverse. -/
noncomputable def regOf (c : UInt32) : AdjoinRoot (modulus crcBits) :=
  elem crcBits c.toBitVec.reverse

theorem reverse_xor (v w : BitVec 32) : (v ^^^ w).reverse = v.reverse ^^^ w.reverse := by
  apply BitVec.eq_of_getLsbD_eq
  intro i hi
  rw [BitVec.getLsbD_xor, BitVec.getLsbD_reverse, BitVec.getLsbD_reverse, BitVec.getLsbD_reverse,
    BitVec.getMsbD_xor]

theorem regOf_xor (c d : UInt32) : regOf (c ^^^ d) = regOf c + regOf d := by
  rw [regOf, UInt32.toBitVec_xor, reverse_xor, elem_xor]
  rfl

/-- The mask of a pass: all of the polynomial or nothing of it. -/
theorem and_neg_low (c p : BitVec 32) :
    p &&& (0 - (c &&& 1#32)) = if c.getLsbD 0 then p else 0#32 := by
  rw [BitVec.and_one_eq_setWidth_ofBool_getLsbD]
  by_cases h : c.getLsbD 0 = true
  · rw [h, if_pos rfl]
    exact BitVec.and_allOnes
  · rw [Bool.eq_false_iff.mpr h, if_neg Bool.false_ne_true]
    exact BitVec.and_zero

theorem reverse_shift (c : BitVec 32) : (c >>> 1).reverse = c.reverse <<< 1 := by
  apply BitVec.eq_of_getLsbD_eq
  intro i hi
  rw [BitVec.getLsbD_reverse, BitVec.getLsbD_shiftLeft, BitVec.getLsbD_reverse,
    BitVec.getMsbD_ushiftRight]
  simp [hi]

/-- A pass multiplies by `X`. -/
theorem regOf_crcPass (c : UInt32) :
    regOf (crcPass c) = AdjoinRoot.root (modulus crcBits) * regOf c := by
  have hbits : (crcPass c).toBitVec.reverse = mulX crcBits c.toBitVec.reverse := by
    have htoBitVec : (crcPass c).toBitVec =
        (c.toBitVec >>> 1) ^^^ (0xedb88320#32 &&& (0 - (c.toBitVec &&& 1#32))) := rfl
    have hpoly : (0xedb88320#32).reverse = crcBits := by decide +kernel
    have hzero : (0#32).reverse = 0#32 := by decide +kernel
    rw [htoBitVec, reverse_xor, reverse_shift, and_neg_low, apply_ite BitVec.reverse, hpoly, hzero,
      mulX, BitVec.msb_reverse]
    rfl
  rw [regOf, hbits]
  exact elem_mulX _ _ (by decide)

theorem regOf_crcPasses (n : ℕ) (c : UInt32) :
    regOf (crcPass^[n] c) = AdjoinRoot.root (modulus crcBits) ^ n * regOf c := by
  induction n with
  | zero => simp
  | succ n ih =>
    rw [Function.iterate_succ_apply', regOf_crcPass, ih, pow_succ']
    ring

/-- The bits of a byte stand before the eight highest powers. -/
theorem poly_reverse_byte (b : UInt8) : poly (b.toUInt32.toBitVec.reverse) =
    Polynomial.X ^ 24 * message ((List.range 8).map b.toBitVec.getLsbD) := by
  ext i
  rw [coeff_poly, Polynomial.coeff_X_pow_mul', coeff_message, BitVec.getLsbD_reverse,
    BitVec.getMsbD_eq_getLsbD]
  have hbit (j : ℕ) (hj : j < 32) : b.toUInt32.toBitVec.getLsbD j = b.toBitVec.getLsbD j := by
    simp [hj]
  by_cases hlow : 24 ≤ i
  · rw [if_pos hlow]
    obtain ⟨k, rfl⟩ := Nat.exists_eq_add_of_le hlow
    rw [Nat.add_sub_cancel_left, hbit _ (by omega)]
    by_cases hk : k < 8
    · interval_cases k <;> rfl
    · rw [List.getD_eq_default _ _ (by simpa using hk), decide_eq_false (by omega)]
      rfl
  · rw [if_neg hlow, hbit _ (by omega), BitVec.getLsbD_of_ge _ _ (by omega), Bool.and_false]
    rfl

theorem regOf_byte (b : UInt8) : AdjoinRoot.root (modulus crcBits) ^ 8 * regOf b.toUInt32 =
    AdjoinRoot.root (modulus crcBits) ^ 32 *
      AdjoinRoot.mk _ (message ((List.range 8).map b.toBitVec.getLsbD)) := by
  rw [regOf, elem, poly_reverse_byte, map_mul, map_pow, AdjoinRoot.mk_X]
  ring

/-- The register behind some bytes, as the remainder wants it. -/
theorem regOf_foldl (p : Bytes) (c : UInt32) : regOf (p.foldl crcByte c) =
    AdjoinRoot.root (modulus crcBits) ^ 32 * AdjoinRoot.mk _ (message (bitsOf p)) +
      AdjoinRoot.root (modulus crcBits) ^ (bitsOf p).length * regOf c := by
  induction p generalizing c with
  | nil => simp [bitsOf, message]
  | cons b p ih =>
    have hbits : bitsOf (b :: p) = (List.range 8).map b.toBitVec.getLsbD ++ bitsOf p := rfl
    rw [List.foldl_cons, ih, crcByte, regOf_crcPasses, regOf_xor, mul_add, regOf_byte, hbits,
      message_append, List.length_append, List.length_map, List.length_range, map_add, map_mul,
      map_pow, AdjoinRoot.mk_X]
    ring

/-- The check sum is the complement of the remainder, in reverse. -/
theorem poly_crc32 (p : Bytes) : poly (crc32 p ^^^ 0xffffffff).toBitVec.reverse =
    remainder crcBits 0xffffffff (bitsOf p) := by
  apply remainder_eq_of_elem
  have hones : regOf 0xffffffff = elem crcBits 0xffffffff := by
    rw [regOf]
    exact congrArg _ (by decide +kernel)
  rw [crc32, UInt32.xor_assoc, UInt32.xor_self, UInt32.xor_zero, ← hones]
  exact regOf_foldl p _

/-- Complemented, and with its bits in reverse, the check sum is the remainder of the message, least
bit of each byte first, that is left in a register of ones by the division by
`X^32 + X^26 + X^23 + X^22 + X^16 + X^12 + X^11 + X^10 + X^8 + X^7 + X^5 + X^4 + X^2 + X + 1`.
It tells apart messages that differ within 32 bits in a row. -/
theorem crc32_remainder :
    (∀ p, poly (crc32 p ^^^ 0xffffffff).toBitVec.reverse =
      remainder crcBits 0xffffffff (bitsOf p)) ∧
    ∀ (p q : Bytes) (a u v z : List Bool), bitsOf p = a ++ u ++ z → bitsOf q = a ++ v ++ z →
      u.length = v.length → u.length ≤ 32 → u ≠ v → crc32 p ≠ crc32 q := by
  refine ⟨poly_crc32, fun p q a u v z hp hq hlen hburst hne h => ?_⟩
  have hrem := remainder_burst crcBits (by decide +kernel) (by decide) 0xffffffff hlen hburst hne
    (z := z) (a := a)
  rw [← hp, ← hq, ← poly_crc32, ← poly_crc32, h] at hrem
  exact hrem rfl

theorem crc32_one_bit : crc32 [0] ≠ crc32 [1] :=
  crc32_remainder.2 [0] [1] [] [false] [true] (List.replicate 7 false) (by decide) (by decide) rfl
    (by decide) (by decide)

/-- The length field of the header, written over what stands there. -/
def patchLength (b : Bytes) (len : ℕ) : Bytes :=
  (b.set 2 (UInt8.ofNat (len / 2 ^ 8))).set 3 (UInt8.ofNat len)

def bindingResponse (tid : Vector UInt8 12) (peerIp4 : UInt32) (peerPort : UInt16) (pwd : Bytes) :
    Bytes :=
  let b := ofBe16 0x0101 ++ ofBe16 0 ++ ofBe32 stunMagic ++ tid.toList ++
    -- XOR-MAPPED-ADDRESS
    ofBe16 0x0020 ++ ofBe16 8 ++ [0, 0x01] ++
    ofBe16 (peerPort.toNat ^^^ stunMagic / 2 ^ 16) ++ ofBe32 (peerIp4.toNat ^^^ stunMagic)
  -- MESSAGE-INTEGRITY, the length as if the message ended behind it
  let b := patchLength b ((b.length - 20 + 24) % 2 ^ 16)
  let b := b ++ ofBe16 0x0008 ++ ofBe16 20 ++ (hmacSha1 pwd b).toList
  -- FINGERPRINT, with the final length
  let b := patchLength b ((b.length - 20 + 8) % 2 ^ 16)
  b ++ ofBe16 0x8028 ++ ofBe16 4 ++ ofBe32 (crc32 b ^^^ 0x5354554e).toNat

/-- The address and the port of the attribute at a place. -/
def mappedAddress (m : Bytes) (pos : ℕ) : Option (ℕ × ℕ) :=
  if attrType m pos = 0x0020 ∧ attrLen m pos = 8 ∧ byte m (pos + 5) = 0x01 then
    some (be32 m (pos + 8) ^^^ stunMagic, be16 m (pos + 6) ^^^ stunMagic / 2 ^ 16)
  else none

/-- The last attribute holds the check sum of all in front of it. -/
def fingerprinted (m : Bytes) (pos : ℕ) : Bool :=
  attrType m pos = 0x8028 && attrLen m pos = 4 && pos + 8 = m.length &&
    be32 m (pos + 4) = (crc32 (m.take pos) ^^^ 0x5354554e).toNat

theorem be16_of_append {m back : Bytes} {n k : ℕ} (front : Bytes) (hm : m = front ++ (ofBe16 n ++ back))
    (hk : front.length = k) (hn : n < 2 ^ 16) : be16 m k = n := by
  rw [hm, ← hk, ← List.append_assoc, be16_ofBe16, Nat.mod_eq_of_lt hn]

theorem be32_of_append {m back : Bytes} {n k : ℕ} (front : Bytes) (hm : m = front ++ (ofBe32 n ++ back))
    (hk : front.length = k) (hn : n < 2 ^ 32) : be32 m k = n := by
  have hright := be32_append_right front (ofBe32 n ++ back) 0
  rw [Nat.add_zero] at hright
  rw [hm, ← hk, hright, be32_ofBe32, Nat.mod_eq_of_lt hn]

theorem attrsFrom_fits {p : Bytes} {stop pos next : ℕ} (n : ℕ) (hfits : pos + 4 + attrLen p pos ≤ stop)
    (hnext : nextAttr p pos = next) :
    attrsFrom p stop (n + 1) pos = pos :: attrsFrom p stop n next := by
  rw [attrsFrom, if_pos ⟨by omega, hfits⟩, hnext]

theorem attrsFrom_end {p : Bytes} {stop pos : ℕ} (n : ℕ) (hstop : stop < pos + 4) :
    attrsFrom p stop (n + 1) pos = [] := by
  rw [attrsFrom, if_neg fun h => absurd h.1 (by omega)]

theorem patchLength_header (a n : ℕ) (r : Bytes) (len : ℕ) :
    patchLength (ofBe16 a ++ (ofBe16 n ++ r)) (len % 2 ^ 16) = ofBe16 a ++ (ofBe16 len ++ r) := by
  have hhigh : UInt8.ofNat (len % 2 ^ 16 / 2 ^ 8) = UInt8.ofNat (len / 2 ^ 8) := by
    apply UInt8.toNat_inj.mp
    rw [UInt8.toNat_ofNat', UInt8.toNat_ofNat']
    omega
  have hlow : UInt8.ofNat (len % 2 ^ 16) = UInt8.ofNat len := by
    apply UInt8.toNat_inj.mp
    rw [UInt8.toNat_ofNat', UInt8.toNat_ofNat']
    omega
  rw [patchLength, hhigh, hlow]
  rfl

section

variable (tid : Vector UInt8 12) (peerIp4 : UInt32) (peerPort : UInt16) (pwd : Bytes)

/-- What stands between the length and the integrity. -/
def addressPart : Bytes :=
  ofBe32 stunMagic ++ (tid.toList ++ (ofBe16 0x0020 ++ (ofBe16 8 ++ ([0, 0x01] ++
    (ofBe16 (peerPort.toNat ^^^ stunMagic / 2 ^ 16) ++ ofBe32 (peerIp4.toNat ^^^ stunMagic))))))

theorem length_addressPart : (addressPart tid peerIp4 peerPort).length = 28 := by
  simp [addressPart]

/-- What the integrity is over. -/
def signedPrefix : Bytes :=
  ofBe16 0x0101 ++ (ofBe16 36 ++ addressPart tid peerIp4 peerPort)

/-- What the fingerprint is over. -/
def sealedPrefix : Bytes :=
  ofBe16 0x0101 ++ (ofBe16 44 ++ (addressPart tid peerIp4 peerPort ++ (ofBe16 0x0008 ++
    (ofBe16 20 ++ (hmacSha1 pwd (signedPrefix tid peerIp4 peerPort)).toList))))

theorem length_sealedPrefix : (sealedPrefix tid peerIp4 peerPort pwd).length = 56 := by
  simp [sealedPrefix, length_addressPart]

/-- The two rewritten lengths, 36 and 44, and what they stand in front of. -/
theorem bindingResponse_eq : bindingResponse tid peerIp4 peerPort pwd =
    sealedPrefix tid peerIp4 peerPort pwd ++ (ofBe16 0x8028 ++ (ofBe16 4 ++
      ofBe32 (crc32 (sealedPrefix tid peerIp4 peerPort pwd) ^^^ 0x5354554e).toNat)) := by
  have hstart : ofBe16 0x0101 ++ ofBe16 0 ++ ofBe32 stunMagic ++ tid.toList ++ ofBe16 0x0020 ++
      ofBe16 8 ++ [0, 0x01] ++ ofBe16 (peerPort.toNat ^^^ stunMagic / 2 ^ 16) ++
      ofBe32 (peerIp4.toNat ^^^ stunMagic) =
      ofBe16 0x0101 ++ (ofBe16 0 ++ addressPart tid peerIp4 peerPort) := by
    simp only [addressPart, List.append_assoc]
  have hsigned : patchLength (ofBe16 0x0101 ++ (ofBe16 0 ++ addressPart tid peerIp4 peerPort))
      (((ofBe16 0x0101 ++ (ofBe16 0 ++ addressPart tid peerIp4 peerPort)).length - 20 + 24) %
        2 ^ 16) = signedPrefix tid peerIp4 peerPort := by
    rw [patchLength_header, List.length_append, List.length_append, length_addressPart]
    rfl
  have hsealed (mac : Bytes) (hmac : mac.length = 20) :
      patchLength (signedPrefix tid peerIp4 peerPort ++ ofBe16 0x0008 ++ ofBe16 20 ++ mac)
        (((signedPrefix tid peerIp4 peerPort ++ ofBe16 0x0008 ++ ofBe16 20 ++ mac).length - 20 + 8) %
          2 ^ 16) = ofBe16 0x0101 ++ (ofBe16 44 ++ (addressPart tid peerIp4 peerPort ++
            (ofBe16 0x0008 ++ (ofBe16 20 ++ mac)))) := by
    simp only [signedPrefix, List.append_assoc, patchLength_header, List.length_append,
      length_addressPart, hmac, length_ofBe16]
  unfold bindingResponse
  dsimp only
  rw [hstart, hsigned, hsealed _ (Vector.length_toList), List.append_assoc, List.append_assoc]
  rfl

/-- A receiver with the password and the transaction takes the response, and reads from it the
address that the request came from. -/
theorem bindingResponse_accepted :
    isStun (bindingResponse tid peerIp4 peerPort pwd) = true ∧
    be16 (bindingResponse tid peerIp4 peerPort pwd) 0 = 0x0101 ∧
    ((bindingResponse tid peerIp4 peerPort pwd).drop 8).take 12 = tid.toList ∧
    stopOf (bindingResponse tid peerIp4 peerPort pwd) =
      (bindingResponse tid peerIp4 peerPort pwd).length ∧
    attrsOf (bindingResponse tid peerIp4 peerPort pwd) = [20, 32, 56] ∧
    mappedAddress (bindingResponse tid peerIp4 peerPort pwd) 20 =
      some (peerIp4.toNat, peerPort.toNat) ∧
    isIntegrity (bindingResponse tid peerIp4 peerPort pwd) 32 = true ∧
    verifies hmacSha1 pwd (bindingResponse tid peerIp4 peerPort pwd) 32 = true ∧
    fingerprinted (bindingResponse tid peerIp4 peerPort pwd) 56 = true := by
  have heq := bindingResponse_eq tid peerIp4 peerPort pwd
  have hsealed := length_sealedPrefix tid peerIp4 peerPort pwd
  generalize bindingResponse tid peerIp4 peerPort pwd = m at heq ⊢
  have hlen : m.length = 64 := by
    rw [heq, List.length_append, hsealed]
    rfl
  have htake : m.take 56 = sealedPrefix tid peerIp4 peerPort pwd := by
    rw [heq, ← hsealed, List.take_left]
  have hmac : (hmacSha1 pwd (signedPrefix tid peerIp4 peerPort)).toList.length = 20 :=
    Vector.length_toList
  have hfpLt : (crc32 (sealedPrefix tid peerIp4 peerPort pwd) ^^^ 0x5354554e).toNat < 2 ^ 32 :=
    UInt32.toNat_lt _
  generalize hfpEq : (crc32 (sealedPrefix tid peerIp4 peerPort pwd) ^^^ 0x5354554e).toNat = fp
    at heq hfpLt
  rw [sealedPrefix, addressPart] at heq
  simp only [List.append_assoc] at heq
  -- the fields one after the other
  have htype : be16 m 0 = 0x0101 := be16_of_append [] heq rfl (by decide)
  have hstop : be16 m 2 = 44 := be16_of_append (ofBe16 0x0101) heq rfl (by decide)
  have hmagic : be32 m 4 = stunMagic :=
    be32_of_append (ofBe16 0x0101 ++ ofBe16 44) heq rfl (by decide)
  have htid : (m.drop 8).take 12 = tid.toList := by
    rw [show m.drop 8 = tid.toList ++ _ from congrArg (List.drop 8) heq,
      List.take_left' Vector.length_toList]
  have hport : (peerPort.toNat ^^^ stunMagic / 2 ^ 16) < 2 ^ 16 :=
    Nat.xor_lt_two_pow peerPort.toNat_lt (by decide)
  have hip : (peerIp4.toNat ^^^ stunMagic) < 2 ^ 32 :=
    Nat.xor_lt_two_pow peerIp4.toNat_lt (by decide)
  -- one piece after the other goes over to what is in front of a field
  have h4 := heq.trans (List.append_assoc _ _ _).symm
  have h8 := h4.trans (List.append_assoc _ _ _).symm
  have h20 := h8.trans (List.append_assoc _ _ _).symm
  have h22 := h20.trans (List.append_assoc _ _ _).symm
  have h24 := h22.trans (List.append_assoc _ _ _).symm
  have h26 := h24.trans (List.append_assoc _ _ _).symm
  have h28 := h26.trans (List.append_assoc _ _ _).symm
  have h32 := h28.trans (List.append_assoc _ _ _).symm
  have h34 := h32.trans (List.append_assoc _ _ _).symm
  have h36 := h34.trans (List.append_assoc _ _ _).symm
  have h56 := h36.trans (List.append_assoc _ _ _).symm
  have h58 := h56.trans (List.append_assoc _ _ _).symm
  have h60 := h58.trans (List.append_assoc _ _ _).symm
  rw [← List.append_nil (ofBe32 fp)] at h60
  have haddress : be16 m 20 = 0x0020 := be16_of_append _ h20 (by simp) (by decide)
  have haddressLen : be16 m 22 = 8 := be16_of_append _ h22 (by simp) (by decide)
  have hfamily : be16 m 24 = 1 := be16_of_append _ h24 (by simp) (by decide)
  have hportAt : be16 m 26 = peerPort.toNat ^^^ stunMagic / 2 ^ 16 :=
    be16_of_append _ h26 (by simp) hport
  have hipAt : be32 m 28 = peerIp4.toNat ^^^ stunMagic := be32_of_append _ h28 (by simp) hip
  have hint : be16 m 32 = 0x0008 := be16_of_append _ h32 (by simp) (by decide)
  have hintLen : be16 m 34 = 20 := be16_of_append _ h34 (by simp) (by decide)
  have hfp : be16 m 56 = 0x8028 := be16_of_append _ h56 (by simp) (by decide)
  have hfpLen : be16 m 58 = 4 := be16_of_append _ h58 (by simp) (by decide)
  have hfpAt : be32 m 60 = fp := be32_of_append _ h60 (by simp) hfpLt
  have hvalue : (m.drop 36).take 20 = (hmacSha1 pwd (signedPrefix tid peerIp4 peerPort)).toList := by
    rw [h36, List.drop_left' (by simp), List.take_left' hmac]
  have hsigned : signedPart m 32 = signedPrefix tid peerIp4 peerPort := by
    have hlead : m.take 32 = ofBe16 0x0101 ++ (ofBe16 44 ++ addressPart tid peerIp4 peerPort) := by
      rw [h32, List.take_left' (by simp), addressPart]
      simp only [List.append_assoc]
    show patchLength (m.take 32) (36 % 2 ^ 16) = _
    rw [hlead, patchLength_header]
    rfl
  have hbyte : byte m 0 = 1 ∧ byte m 25 = 1 := by
    have hfirst : byte m 0 * 2 ^ 8 + byte m 1 = 0x0101 := htype
    have hpair : byte m 24 * 2 ^ 8 + byte m 25 = 1 := hfamily
    have hsecond : byte m 1 < 256 := UInt8.toNat_lt _
    omega
  refine ⟨?_, htype, htid, ?_, ?_, ?_, ?_, ?_, ?_⟩
  · rw [isStun, hlen, hbyte.1, hmagic]
    decide
  · rw [stopOf, hstop, hlen]
  · have hnext : nextAttr m 20 = 32 ∧ nextAttr m 32 = 56 ∧ nextAttr m 56 = 64 := by
      simp only [nextAttr, attrLen, haddressLen, hintLen, hfpLen]
      decide
    rw [attrsOf, stopOf, hstop, attrsFrom_fits 63 (by rw [attrLen, haddressLen]; decide) hnext.1,
      attrsFrom_fits 62 (by rw [attrLen, hintLen]; decide) hnext.2.1,
      attrsFrom_fits 61 (by rw [attrLen, hfpLen]) hnext.2.2, attrsFrom_end 60 (by decide)]
  · rw [mappedAddress, attrType, attrLen, haddress, haddressLen, hbyte.2, hportAt, hipAt,
      if_pos ⟨rfl, rfl, rfl⟩, Nat.xor_assoc, Nat.xor_assoc, Nat.xor_self, Nat.xor_self,
      Nat.xor_zero, Nat.xor_zero]
  · rw [isIntegrity, attrType, attrLen, hint, hintLen]
    decide
  · rw [verifies, hsigned, attrValue, attrLen, hintLen, hvalue]
    exact decide_eq_true rfl
  · rw [fingerprinted, attrType, attrLen, hfp, hfpLen, hfpAt, htake, hlen, hfpEq]
    simp

end

end Machino.Webrtc
