import Mathlib.Tactic.IntervalCases
import Machino.Basic.Fips180
import Machino.Http.Base64

namespace Machino.Ws

open Fips180 (Words rotl bitsOf ofOctets)

/-- How far the loop has come. -/
structure Feed where
  off : ℕ := 0
  appended : Bool := false
  lengthDone : Bool := false

def lengthBytes (len : ℕ) : List UInt8 :=
  let totalBits := UInt64.ofNat len * 8
  (List.range 8).map fun i => (totalBits >>> UInt64.ofNat (56 - 8 * i)).toUInt8

/-- The next block: what is left of the data, and behind it the padding as far as there is room. -/
def fill (data : List UInt8) (s : Feed) : List UInt8 × Feed :=
  let chunk := (data.drop s.off).take 64
  let off := s.off + chunk.length
  if chunk.length < 64 then
    let front := if s.appended then chunk else chunk ++ [0x80]
    -- the length needs the last eight bytes
    if front.length ≤ 56 then
      (front ++ List.replicate (56 - front.length) 0 ++ lengthBytes data.length,
        { off, appended := true, lengthDone := true })
    else (front ++ List.replicate (64 - front.length) 0, { s with off, appended := true })
  else (chunk, { s with off })

def loadWord (block : List UInt8) (i : ℕ) : UInt32 :=
  (block.getD (4 * i) 0).toUInt32 <<< 24 ||| (block.getD (4 * i + 1) 0).toUInt32 <<< 16 |||
    (block.getD (4 * i + 2) 0).toUInt32 <<< 8 ||| (block.getD (4 * i + 3) 0).toUInt32

def extend (w : List UInt32) (i : ℕ) : List UInt32 :=
  let v := w.getD (i - 3) 0 ^^^ w.getD (i - 8) 0 ^^^ w.getD (i - 14) 0 ^^^ w.getD (i - 16) 0
  w ++ [v <<< 1 ||| v >>> 31]

def expand (block : List UInt8) : List UInt32 :=
  (List.range' 16 64).foldl extend ((List.range 16).map (loadWord block))

def turn (w : List UInt32) (s : Words) (i : ℕ) : Words :=
  let (f, k) : UInt32 × UInt32 :=
    if i < 20 then ((s.b &&& s.c) ||| (~~~s.b &&& s.d), 0x5A827999)
    else if i < 40 then (s.b ^^^ s.c ^^^ s.d, 0x6ED9EBA1)
    else if i < 60 then ((s.b &&& s.c) ||| (s.b &&& s.d) ||| (s.c &&& s.d), 0x8F1BBCDC)
    else (s.b ^^^ s.c ^^^ s.d, 0xCA62C1D6)
  let t := (s.a <<< 5 ||| s.a >>> 27) + f + s.e + k + w.getD i 0
  ⟨t, s.a, s.b <<< 30 ||| s.b >>> 2, s.c, s.d⟩

def mix (h : Words) (block : List UInt8) : Words :=
  let s := (List.range 80).foldl (turn (expand block)) h
  ⟨h.a + s.a, h.b + s.b, h.c + s.c, h.d + s.d, h.e + s.e⟩

/-- What is left to do: the data, and the byte behind it. -/
def Feed.left (len : ℕ) (s : Feed) : ℕ := len - s.off + if s.appended then 0 else 1

/-- A turn that is not the last takes data or appends the byte. -/
theorem fill_left {data : List UInt8} {s : Feed} (h : (fill data s).2.lengthDone = false) :
    (fill data s).2.left data.length < s.left data.length := by
  have hlen : ((data.drop s.off).take 64).length = min 64 (data.length - s.off) := by
    rw [List.length_take, List.length_drop]
  unfold fill Feed.left at *
  dsimp only at *
  generalize (data.drop s.off).take 64 = chunk at *
  by_cases hfull : chunk.length < 64
  · rw [if_pos hfull] at h ⊢
    by_cases happended : s.appended = true
    · rw [if_pos happended] at h ⊢
      by_cases hroom : chunk.length ≤ 56
      · rw [if_pos hroom] at h
        cases h
      · rw [if_neg hroom]
        dsimp only
        rw [if_pos rfl, if_pos happended]
        omega
    · rw [if_neg happended] at h ⊢
      by_cases hroom : (chunk ++ [0x80]).length ≤ 56
      · rw [if_pos hroom] at h
        cases h
      · rw [if_neg hroom]
        dsimp only
        rw [if_pos rfl, if_neg happended]
        omega
  · rw [if_neg hfull]
    dsimp only
    omega

def sha1From (data : List UInt8) (s : Feed) (h : Words) : Words :=
  let block := (fill data s).1
  if (fill data s).2.lengthDone then mix h block
  else sha1From data (fill data s).2 (mix h block)
termination_by s.left data.length
decreasing_by exact fill_left (Bool.eq_false_iff.mpr (by assumption))

def start : Words := ⟨0x67452301, 0xEFCDAB89, 0x98BADCFE, 0x10325476, 0xC3D2E1F0⟩

def store (h : Words) : List UInt8 :=
  [h.a, h.b, h.c, h.d, h.e].flatMap fun x =>
    (List.range 4).map fun j => (x >>> UInt32.ofNat (24 - 8 * j)).toUInt8

def sha1 (data : List UInt8) : List UInt8 := store (sha1From data {} start)

theorem ch_eq (x y z : UInt32) : (x &&& y) ||| (~~~x &&& z) = Fips180.ch x y z := by
  apply UInt32.toBitVec_inj.mp
  ext i hi
  simp [Fips180.ch]
  cases x.toBitVec[i] <;> cases y.toBitVec[i] <;> cases z.toBitVec[i] <;> rfl

theorem maj_eq (x y z : UInt32) : (x &&& y) ||| (x &&& z) ||| (y &&& z) = Fips180.maj x y z := by
  apply UInt32.toBitVec_inj.mp
  ext i hi
  simp [Fips180.maj]
  cases x.toBitVec[i] <;> cases y.toBitVec[i] <;> cases z.toBitVec[i] <;> rfl

theorem rotl_one (x : UInt32) : x <<< 1 ||| x >>> 31 = rotl 1 x := rfl

theorem rotl_five (x : UInt32) : x <<< 5 ||| x >>> 27 = rotl 5 x := rfl

theorem rotl_thirty (x : UInt32) : x <<< 30 ||| x >>> 2 = rotl 30 x := rfl

theorem valueOf_octets (w x y z : UInt8) :
    Fips180.valueOf (ofOctets [w, x, y, z]) =
      ((w.toNat * 256 + x.toNat) * 256 + y.toNat) * 256 + z.toNat := by
  have hbyte (b : UInt8) : Fips180.valueOf (bitsOf 8 b.toNat) = b.toNat := by
    rw [Fips180.valueOf_bitsOf]
    exact Nat.mod_eq_of_lt b.toNat_lt
  have hsplit : ofOctets [w, x, y, z] =
      bitsOf 8 w.toNat ++ bitsOf 8 x.toNat ++ bitsOf 8 y.toNat ++ bitsOf 8 z.toNat := by
    simp [ofOctets]
  rw [hsplit, Fips180.valueOf_append, Fips180.valueOf_append, Fips180.valueOf_append, hbyte, hbyte,
    hbyte, hbyte, Fips180.length_bitsOf, Fips180.length_bitsOf, Fips180.length_bitsOf]
  omega

/-- The bytes of a word do not overlap, so that each or is a sum. -/
theorem toNat_octets (w x y z : UInt8) :
    (w.toUInt32 <<< 24 ||| x.toUInt32 <<< 16 ||| y.toUInt32 <<< 8 ||| z.toUInt32).toNat =
      ((w.toNat * 256 + x.toNat) * 256 + y.toNat) * 256 + z.toNat := by
  have hfirst : (w.toUInt32 <<< 24).toNat = (w.toNat <<< 16) <<< 8 :=
    (Http.toNat_shifted w (by decide)).trans (Nat.shiftLeft_add _ 16 8)
  have hsecond : (x.toUInt32 <<< 16).toNat = (x.toNat <<< 8) <<< 8 :=
    (Http.toNat_shifted x (by decide)).trans (Nat.shiftLeft_add _ 8 8)
  have hthird : (y.toUInt32 <<< 8).toNat = y.toNat <<< 8 := Http.toNat_shifted y (by decide)
  rw [UInt32.toNat_or, UInt32.toNat_or, UInt32.toNat_or, hfirst, hsecond, hthird,
    UInt8.toNat_toUInt32, ← Nat.shiftLeft_or_distrib, ← Nat.shiftLeft_or_distrib,
    Nat.shiftLeft_add _ 8 8, ← Nat.shiftLeft_or_distrib,
    ← Nat.shiftLeft_add_eq_or_of_lt x.toNat_lt, ← Nat.shiftLeft_add_eq_or_of_lt y.toNat_lt,
    ← Nat.shiftLeft_add_eq_or_of_lt z.toNat_lt]
  simp only [Nat.shiftLeft_eq]

theorem loadWord_eq {block : List UInt8} (hlen : block.length = 64) {i : ℕ} (hi : i < 16) :
    loadWord block i = Fips180.word (ofOctets block) i := by
  have hfour : (block.drop (4 * i)).take 4 = [block.getD (4 * i) 0, block.getD (4 * i + 1) 0,
      block.getD (4 * i + 2) 0, block.getD (4 * i + 3) 0] := by
    apply List.ext_getElem
    · rw [List.length_take, List.length_drop, hlen]
      show min 4 (64 - 4 * i) = 4
      omega
    · intro j hj hj'
      rw [List.length_cons, List.length_cons, List.length_cons, List.length_singleton] at hj'
      rw [List.getElem_take, List.getElem_drop]
      interval_cases j
      all_goals simp [List.getD, hlen, show 4 * i < 64 by omega, show 4 * i + 1 < 64 by omega,
        show 4 * i + 2 < 64 by omega, show 4 * i + 3 < 64 by omega]
  unfold Fips180.word loadWord
  rw [show 32 * i = 8 * (4 * i) by omega, show 32 = 8 * 4 from rfl, Fips180.drop_ofOctets,
    Fips180.take_ofOctets, hfour, valueOf_octets, ← toNat_octets, UInt32.ofNat_toNat]

/-- After each step the list holds the words of the schedule up to there. -/
theorem extend_spec {block : List UInt8} (hlen : block.length = 64) (n : ℕ) :
    let w := (List.range' 16 n).foldl extend ((List.range 16).map (loadWord block))
    w.length = 16 + n ∧ ∀ t < 16 + n,
      w.getD t 0 = Fips180.schedule (Fips180.word (ofOctets block)) t := by
  induction n with
  | zero =>
    refine ⟨by simp, ?_⟩
    intro t ht
    rw [Fips180.schedule, if_pos ht, ← loadWord_eq hlen ht]
    simp [List.getD, ht]
  | succ n ih =>
    rw [List.range'_concat, List.foldl_append, List.foldl_cons, List.foldl_nil, Nat.one_mul]
    generalize (List.range' 16 n).foldl extend ((List.range 16).map (loadWord block)) = w at ih ⊢
    obtain ⟨hlength, hword⟩ := ih
    have hlast : extend w (16 + n) =
        w ++ [Fips180.schedule (Fips180.word (ofOctets block)) (16 + n)] := by
      rw [Fips180.schedule, if_neg (by omega)]
      unfold extend
      dsimp only
      rw [hword _ (by omega), hword _ (by omega), hword _ (by omega), hword _ (by omega), rotl_one]
    refine ⟨?_, ?_⟩
    · rw [hlast, List.length_append, List.length_singleton, hlength]
      rfl
    · intro t ht
      rw [hlast]
      -- the new word, or one that was there before
      by_cases hnew : t = 16 + n
      · rw [hnew, List.getD_append_right _ _ _ _ (by omega), hlength, Nat.sub_self]
        rfl
      · rw [List.getD_append _ _ _ _ (by omega)]
        exact hword t (by omega)

theorem expand_spec {block : List UInt8} (hlen : block.length = 64) {t : ℕ} (ht : t < 80) :
    (expand block).getD t 0 = Fips180.schedule (Fips180.word (ofOctets block)) t :=
  (extend_spec hlen 64).2 t ht

theorem turn_eq {w : List UInt32} {u : ℕ → UInt32} {i : ℕ} (h : w.getD i 0 = u i) (s : Words) :
    turn w s i = Fips180.round u s i := by
  unfold turn Fips180.round Fips180.logical Fips180.constant
  rw [← rotl_five, ← rotl_thirty, ← h]
  split_ifs
  · rw [← ch_eq]
  · rfl
  · rw [← maj_eq]
  · rfl

theorem mix_eq {block : List UInt8} (hlen : block.length = 64) (h : Words) :
    mix h block = Fips180.compress h (ofOctets block) := by
  have hrounds : (List.range 80).foldl (turn (expand block)) h =
      (List.range 80).foldl
        (Fips180.round (Fips180.schedule (Fips180.word (ofOctets block)))) h := by
    apply List.foldl_ext
    intro s i hi
    exact turn_eq (expand_spec hlen (List.mem_range.mp hi)) s
  unfold mix Fips180.compress
  rw [hrounds]
  rfl

theorem length_lengthBytes (len : ℕ) : (lengthBytes len).length = 8 := by
  unfold lengthBytes
  rw [List.length_map, List.length_range]

theorem ofOctets_lengthBytes (len : ℕ) : ofOctets (lengthBytes len) = bitsOf 64 (8 * len) := by
  have hbits : (UInt64.ofNat len * 8).toNat = 8 * len % 2 ^ 64 := by
    rw [UInt64.toNat_mul, UInt64.toNat_ofNat', Nat.mul_comm 8]
    exact Nat.mod_mul_mod _ _ _
  have hbytes : lengthBytes len =
      (List.range 8).map fun i => UInt8.ofNat ((8 * len % 2 ^ 64) >>> (8 * (8 - 1 - i))) := by
    unfold lengthBytes
    apply List.map_congr_left
    intro i hi
    have hlt := List.mem_range.mp hi
    apply UInt8.toNat_inj.mp
    rw [UInt64.toNat_toUInt8, UInt64.toNat_shiftRight, hbits, UInt64.toNat_ofNat',
      UInt8.toNat_ofNat', show (56 - 8 * i) % 2 ^ 64 % 64 = 8 * (8 - 1 - i) by omega]
  rw [hbytes, Fips180.ofOctets_bigEndian, Fips180.bitsOf_mod]

/-- The bytes behind the data. -/
def padding (len : ℕ) : List UInt8 :=
  0x80 :: List.replicate ((119 - len % 64) % 64) 0 ++ lengthBytes len

theorem ofOctets_padding (data : List UInt8) :
    ofOctets (data ++ padding data.length) = Fips180.pad (ofOctets data) := by
  have hone : bitsOf 8 (0x80 : UInt8).toNat = true :: List.replicate 7 false := rfl
  have hzeros : Fips180.zeros (8 * data.length) = 7 + 8 * ((119 - data.length % 64) % 64) := by
    unfold Fips180.zeros
    omega
  unfold padding Fips180.pad
  rw [Fips180.ofOctets_append, List.cons_append, Fips180.ofOctets_cons, Fips180.ofOctets_append,
    Fips180.ofOctets_replicate_zero, ofOctets_lengthBytes, Fips180.length_ofOctets, hzeros, hone,
    List.replicate_add]
  simp only [List.cons_append, List.append_assoc]

theorem ofOctets_store (h : Words) : ofOctets (store h) = h.bits := by
  have hword (x : UInt32) :
      ofOctets ((List.range 4).map fun j => (x >>> UInt32.ofNat (24 - 8 * j)).toUInt8) =
        bitsOf 32 x.toNat := by
    have hbytes : ((List.range 4).map fun j => (x >>> UInt32.ofNat (24 - 8 * j)).toUInt8) =
        (List.range 4).map fun j => UInt8.ofNat (x.toNat >>> (8 * (4 - 1 - j))) := by
      apply List.map_congr_left
      intro j hj
      have hlt := List.mem_range.mp hj
      apply UInt8.toNat_inj.mp
      rw [UInt32.toNat_toUInt8, UInt32.toNat_shiftRight, UInt32.toNat_ofNat',
        UInt8.toNat_ofNat', show (24 - 8 * j) % 2 ^ 32 % 32 = 8 * (4 - 1 - j) by omega]
    rw [hbytes, Fips180.ofOctets_bigEndian]
  unfold store Fips180.Words.bits
  simp only [List.flatMap_cons, List.flatMap_nil, Fips180.ofOctets_append, hword]
  rfl

theorem sha1From_last {data : List UInt8} {s : Feed} (h : (fill data s).2.lengthDone = true)
    (v : Words) : sha1From data s v = mix v (fill data s).1 := by
  unfold sha1From
  dsimp only
  rw [if_pos h]

theorem sha1From_next {data : List UInt8} {s : Feed} (h : (fill data s).2.lengthDone = false)
    (v : Words) : sha1From data s v = sha1From data (fill data s).2 (mix v (fill data s).1) := by
  rw [sha1From]
  exact if_neg (by rw [h]; decide)

section

variable {data : List UInt8} {off : ℕ}

theorem fill_full (h : off + 64 ≤ data.length) :
    fill data { off } = ((data.drop off).take 64, { off := off + 64 }) := by
  have hlen : ((data.drop off).take 64).length = 64 := by
    rw [List.length_take, List.length_drop]
    omega
  unfold fill
  dsimp only
  rw [hlen, if_neg (by decide)]

theorem take_rest (h : data.length < off + 64) : (data.drop off).take 64 = data.drop off := by
  apply List.take_of_length_le
  rw [List.length_drop]
  omega

/-- Up to 55 bytes leave room for the byte and the length. -/
theorem fill_last (hoff : off ≤ data.length) (hblock : 64 ∣ off) (h : data.length ≤ off + 55) :
    fill data { off } =
      (data.drop off ++ padding data.length,
        { off := data.length, appended := true, lengthDone := true }) := by
  have hlen : (data.drop off).length = data.length - off := List.length_drop
  unfold fill padding
  dsimp only
  rw [take_rest (by omega), if_pos (by omega), if_neg Bool.false_ne_true, List.length_append,
    List.length_singleton, if_pos (by omega), hlen, Nat.add_sub_cancel' hoff,
    show 56 - (data.length - off + 1) = (119 - data.length % 64) % 64 by omega]
  simp only [List.append_assoc, List.cons_append, List.nil_append]

/-- From 56 bytes on the length has to wait for one more block. -/
theorem fill_open (hoff : off ≤ data.length) (hblock : 64 ∣ off) (h : off + 55 < data.length)
    (hshort : data.length < off + 64) :
    ∃ block, fill data { off } = (block, { off := data.length, appended := true }) ∧
      block.length = 64 ∧
      data.drop off ++ padding data.length =
        block ++ (List.replicate 56 0 ++ lengthBytes data.length) := by
  have hlen : (data.drop off).length = data.length - off := List.length_drop
  refine ⟨data.drop off ++ [0x80] ++ List.replicate (63 - (data.length - off)) 0, ?_, ?_, ?_⟩
  · unfold fill
    dsimp only
    rw [take_rest (by omega), if_pos (by omega), if_neg Bool.false_ne_true, List.length_append,
      List.length_singleton, if_neg (by omega), hlen, Nat.add_sub_cancel' hoff,
      show 64 - (data.length - off + 1) = 63 - (data.length - off) by omega]
  · rw [List.length_append, List.length_append, List.length_singleton, List.length_replicate, hlen]
    omega
  · unfold padding
    rw [show (119 - data.length % 64) % 64 = 63 - (data.length - off) + 56 by omega,
      List.replicate_add]
    simp only [List.append_assoc, List.cons_append, List.nil_append]

theorem fill_length :
    fill data { off := data.length, appended := true } =
      (List.replicate 56 0 ++ lengthBytes data.length,
        { off := data.length, appended := true, lengthDone := true }) := by
  unfold fill
  dsimp only
  rw [List.drop_length]
  rfl

end

/-- From a block on the loop compresses the blocks of the padded data from there. -/
theorem sha1From_eq {data : List UInt8} {off : ℕ} (hoff : off ≤ data.length) (hblock : 64 ∣ off)
    (h : Words) :
    sha1From data { off } h =
      (Fips180.blocks 64 (data.drop off ++ padding data.length)).foldl mix h := by
  induction hn : data.length - off using Nat.strong_induction_on generalizing off h with
  | _ n ih =>
    by_cases hfull : off + 64 ≤ data.length
    -- a whole block of the data
    · have hlen : ((data.drop off).take 64).length = 64 := by
        rw [List.length_take, List.length_drop]
        omega
      have hsplit : data.drop off = (data.drop off).take 64 ++ data.drop (off + 64) := by
        rw [← List.drop_drop]
        exact (List.take_append_drop _ _).symm
      rw [hsplit, List.append_assoc, Fips180.blocks_append hlen (by decide), List.foldl_cons,
        ← ih _ (by omega) hfull (by omega) _ rfl, sha1From_next (by rw [fill_full hfull]),
        fill_full hfull]
    · by_cases hlast : data.length ≤ off + 55
      -- the last block has room for the whole padding
      · have hlen : (data.drop off ++ padding data.length).length = 64 := by
          unfold padding
          simp only [List.length_append, List.length_drop, List.length_cons, List.length_replicate,
            length_lengthBytes]
          omega
        rw [sha1From_last (by rw [fill_last hoff hblock hlast]), fill_last hoff hblock hlast,
          ← List.append_nil (data.drop off ++ padding data.length),
          Fips180.blocks_append hlen (by decide), Fips180.blocks_nil, List.append_nil]
        rfl
      -- the length comes in a block of its own
      · obtain ⟨block, hfill, hlen, hsplit⟩ :=
          fill_open hoff hblock (by omega) (by omega)
        have hlen' : (List.replicate 56 0 ++ lengthBytes data.length).length = 64 := by
          rw [List.length_append, List.length_replicate, length_lengthBytes]
        rw [hsplit, Fips180.blocks_append hlen (by decide), List.foldl_cons,
          ← List.append_nil (List.replicate 56 0 ++ lengthBytes data.length),
          Fips180.blocks_append hlen' (by decide), Fips180.blocks_nil,
          sha1From_next (by rw [hfill]), hfill, sha1From_last (by rw [fill_length]), fill_length]
        rfl

/-- The block of the message `abc`, of which the standard gives the hash. -/
example : mix start ([0x61, 0x62, 0x63] ++ padding 3) =
    ⟨0xa9993e36, 0x4706816a, 0xba3e2571, 0x7850c26c, 0x9cd0d89d⟩ := by decide +kernel

theorem ofOctets_sha1 (data : List UInt8) :
    ofOctets (sha1 data) = Fips180.sha1 (ofOctets data) := by
  have hloop := sha1From_eq (Nat.zero_le data.length) (by decide) start
  have hfold : (Fips180.blocks 64 (data ++ padding data.length)).foldl mix start =
      (Fips180.blocks 64 (data ++ padding data.length)).foldl
        (fun h block => Fips180.compress h (ofOctets block)) start := by
    apply List.foldl_ext
    intro h block hblock
    exact mix_eq (Fips180.length_of_mem_blocks hblock) h
  unfold sha1 Fips180.sha1
  rw [ofOctets_store, hloop, List.drop_zero, hfold, ← ofOctets_padding,
    show 512 = 8 * 64 from rfl, Fips180.blocks_ofOctets, List.foldl_map]
  rfl

/-- The code computes the SHA-1 of the standard, whatever the length of the data. -/
theorem sha1_fips180 (data : List UInt8) :
    (sha1 data).length = 20 ∧ ofOctets (sha1 data) = Fips180.sha1 (ofOctets data) :=
  ⟨rfl, ofOctets_sha1 data⟩

def guid : List UInt8 :=
  "258EAFA5-E914-47DA-95CA-C5AB0DC85B11".toList.map fun c => UInt8.ofNat c.toNat

def acceptKey (key : List UInt8) : Text := Http.base64 (sha1 (key ++ guid))

/-- A client that decodes the accept key has the hash of its own key and the fixed one. -/
theorem b64Decode_acceptKey (key : List UInt8) :
    ∃ digest, Http.SessionGate.b64Decode (acceptKey key) = some (Http.byteText digest) ∧
      ofOctets digest = Fips180.sha1 (ofOctets (key ++ guid)) :=
  ⟨sha1 (key ++ guid), Http.SessionGate.b64Decode_base64 _, ofOctets_sha1 _⟩

end Machino.Ws
