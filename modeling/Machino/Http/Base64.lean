import Mathlib.Tactic.IntervalCases
import Mathlib.Tactic.Ring
import Machino.Basic.Sextets
import Machino.Http.SessionGate
import Machino.Rtsp.RtspAuth

namespace Machino.Http

open Sextets
open Rtsp (b64Value)

def base64Table : Text := "ABCDEFGHIJKLMNOPQRSTUVWXYZabcdefghijklmnopqrstuvwxyz0123456789+/".toList

def base64Char (v : UInt32) : Char := base64Table.getD (v &&& 63).toNat '='

/-- Three bytes at a time; the last group is filled up. -/
def base64 : List UInt8 → Text
  | [] => []
  | [a] =>
    let v := a.toUInt32 <<< 16
    [base64Char (v >>> 18), base64Char (v >>> 12), '=', '=']
  | [a, b] =>
    let v := a.toUInt32 <<< 16 ||| b.toUInt32 <<< 8
    [base64Char (v >>> 18), base64Char (v >>> 12), base64Char (v >>> 6), '=']
  | a :: b :: c :: s =>
    let v := a.toUInt32 <<< 16 ||| b.toUInt32 <<< 8 ||| c.toUInt32
    base64Char (v >>> 18) :: base64Char (v >>> 12) :: base64Char (v >>> 6) :: base64Char v ::
      base64 s

namespace SessionGate

/-- The loop over the signs, with the bits that have not become a byte. -/
def b64Loop (buf : BitVec 32) (bits : ℕ) (out : Text) : Text → Option Text
  | [] => some out
  | c :: s =>
    if c = '=' then some out
    else
      match b64Value c with
      | none => none
      | some v =>
        let buf := buf <<< 6 ||| BitVec.ofNat 32 v
        if 8 ≤ bits + 6 then
          let bits := bits + 6 - 8
          b64Loop buf bits (out ++ [Char.ofNat ((buf.sshiftRight bits).toNat % 256)]) s
        else b64Loop buf (bits + 6) out s

def b64Decode (s : Text) : Option Text := b64Loop 0 0 [] s

/-- The credentials of a request, where they are the root account's. -/
def authedBasic (authorization : Text) (g : SessionGate) : Bool :=
  if authorization.take 6 ≠ "Basic ".toList then false
  else
    match b64Decode (authorization.drop 6) with
    | none => false
    | some plain =>
      match cut ':' plain with
      | (_, none) => false
      | (user, some pass) =>
        if user ≠ "root".toList then false
        else (g.check.map fun check => check user pass).getD false

end SessionGate

example : SessionGate.b64Decode "cm9vdDpnZWhlaW0=".toList = some "root:geheim".toList := by
  decide +kernel

/-- The sign of a group of six bits. -/
def sign (n : ℕ) : Char := base64Table.getD n '='

theorem b64Value_sign {n : ℕ} (h : n < 64) : b64Value (sign n) = some n := by
  have hall : ∀ n < 64, b64Value (base64Table.getD n '=') = some n := by
    decide +kernel
  exact hall n h

theorem sign_ne {n : ℕ} (h : n < 64) :
    sign n ≠ '=' ∧ sign n ≠ '\r' ∧ sign n ≠ '\n' ∧ sign n ≠ ' ' := by
  have hne {c : Char} (hc : b64Value c = none) : sign n ≠ c := by
    intro heq
    have hvalue := b64Value_sign h
    rw [heq, hc] at hvalue
    cases hvalue
  exact ⟨hne rfl, hne rfl, hne rfl, hne rfl⟩

theorem base64Char_eq (v : UInt32) : base64Char v = sign (v.toNat % 64) := by
  unfold base64Char sign
  rw [UInt32.toNat_and]
  exact congrArg (base64Table.getD · '=') (Nat.and_two_pow_sub_one_eq_mod _ 6)

theorem base64Char_shiftRight (v k : UInt32) (hk : k.toNat < 32) :
    base64Char (v >>> k) = sign (v.toNat / 2 ^ k.toNat % 64) := by
  rw [base64Char_eq, UInt32.toNat_shiftRight, Nat.mod_eq_of_lt hk, Nat.shiftRight_eq_div_pow]

/-- The four signs of the bytes `a`, `b` and `c`. -/
structure Quad (v : UInt32) (a b c : ℕ) : Prop where
  first : base64Char (v >>> 18) = sign (a / 4)
  second : base64Char (v >>> 12) = sign (a % 4 * 16 + b / 16)
  third : base64Char (v >>> 6) = sign (b % 16 * 4 + c / 64)
  last : base64Char v = sign (c % 64)

theorem quad_of_toNat {v : UInt32} {a b c : ℕ} (ha : a < 256) (hb : b < 256) (hc : c < 256)
    (hv : v.toNat = (a * 256 + b) * 256 + c) : Quad v a b c where
  first := by
    rw [base64Char_shiftRight v 18 (by decide), hv]
    congr 1
    show ((a * 256 + b) * 256 + c) / 2 ^ 18 % 64 = _
    omega
  second := by
    rw [base64Char_shiftRight v 12 (by decide), hv]
    congr 1
    show ((a * 256 + b) * 256 + c) / 2 ^ 12 % 64 = _
    omega
  third := by
    rw [base64Char_shiftRight v 6 (by decide), hv]
    congr 1
    show ((a * 256 + b) * 256 + c) / 2 ^ 6 % 64 = _
    omega
  last := by
    rw [base64Char_eq, hv]
    congr 1
    omega

/-- A byte is not shifted out of a word. -/
theorem toNat_shifted (b : UInt8) {k : UInt32} (hk : k.toNat ≤ 24) :
    (b.toUInt32 <<< k).toNat = b.toNat <<< k.toNat := by
  have hlt : b.toNat <<< k.toNat < 2 ^ 32 := by
    rw [Nat.shiftLeft_eq]
    calc b.toNat * 2 ^ k.toNat
        < 2 ^ 8 * 2 ^ k.toNat := Nat.mul_lt_mul_of_pos_right b.toNat_lt (Nat.two_pow_pos _)
      _ ≤ 2 ^ 8 * 2 ^ 24 := Nat.mul_le_mul_left _ (Nat.pow_le_pow_right (by decide) hk)
  rw [UInt32.toNat_shiftLeft, UInt8.toNat_toUInt32, Nat.mod_eq_of_lt (by omega : k.toNat < 32),
    Nat.mod_eq_of_lt hlt]

/-- The bytes do not overlap, so that each or is a sum. -/
theorem toNat_triple (a b c : UInt8) :
    (a.toUInt32 <<< 16 ||| b.toUInt32 <<< 8 ||| c.toUInt32).toNat =
      (a.toNat * 256 + b.toNat) * 256 + c.toNat := by
  have hleft : (a.toUInt32 <<< 16).toNat = (a.toNat <<< 8) <<< 8 :=
    (toNat_shifted a (by decide)).trans (Nat.shiftLeft_add _ 8 8)
  have hmid : (b.toUInt32 <<< 8).toNat = b.toNat <<< 8 := toNat_shifted b (by decide)
  rw [UInt32.toNat_or, UInt32.toNat_or, hleft, hmid, UInt8.toNat_toUInt32,
    ← Nat.shiftLeft_or_distrib, ← Nat.shiftLeft_add_eq_or_of_lt b.toNat_lt,
    ← Nat.shiftLeft_add_eq_or_of_lt c.toNat_lt]
  simp only [Nat.shiftLeft_eq]

theorem quad_triple (a b c : UInt8) :
    Quad (a.toUInt32 <<< 16 ||| b.toUInt32 <<< 8 ||| c.toUInt32) a.toNat b.toNat c.toNat :=
  quad_of_toNat a.toNat_lt b.toNat_lt c.toNat_lt (toNat_triple a b c)

/-- The encoding is the signs of the groups of six bits, filled up with equals signs. -/
theorem base64_eq (bs : List UInt8) :
    ∃ n, base64 bs = (ofOctets (bs.map fun b => b.toNat)).map sign ++ List.replicate n '=' := by
  induction bs using base64.induct with
  | case1 => exact ⟨0, rfl⟩
  | case2 a =>
    have h := quad_triple a 0 0
    have hv : a.toUInt32 <<< 16 ||| (0 : UInt8).toUInt32 <<< 8 ||| (0 : UInt8).toUInt32 =
        a.toUInt32 <<< 16 := by simp
    rw [hv] at h
    refine ⟨2, ?_⟩
    simp only [base64, List.map_cons, List.map_nil, ofOctets, h.first, h.second]
    rfl
  | case3 a b =>
    have h := quad_triple a b 0
    have hv : a.toUInt32 <<< 16 ||| b.toUInt32 <<< 8 ||| (0 : UInt8).toUInt32 =
        a.toUInt32 <<< 16 ||| b.toUInt32 <<< 8 := by simp
    rw [hv] at h
    refine ⟨1, ?_⟩
    simp only [base64, List.map_cons, List.map_nil, ofOctets, h.first, h.second, h.third]
    rfl
  | case4 a b c s ih =>
    have h := quad_triple a b c
    obtain ⟨n, hn⟩ := ih
    refine ⟨n, ?_⟩
    simp only [base64, List.map_cons, ofOctets, h.first, h.second, h.third, h.last, hn,
      List.cons_append]

/-- The accumulator wraps, and its last bits are not touched by that. -/
theorem toNat_accumulate (acc : BitVec 32) {v : ℕ} (hv : v < 64) :
    (acc <<< 6 ||| BitVec.ofNat 32 v).toNat = (acc.toNat * 64 + v) % 2 ^ 32 := by
  have hshift : acc.toNat * 2 ^ 6 % 2 ^ 32 = (acc.toNat % 2 ^ 26) <<< 6 := by
    rw [Nat.shiftLeft_eq]
    omega
  rw [BitVec.toNat_or, BitVec.toNat_shiftLeft, BitVec.toNat_ofNat, Nat.shiftLeft_eq, hshift,
    Nat.mod_eq_of_lt (by omega : v < 2 ^ 32), ← Nat.shiftLeft_add_eq_or_of_lt hv, Nat.shiftLeft_eq]
  omega

/-- A shift by a few bits keeps the sign out of the last octet. -/
theorem toNat_sshiftRight_mod (acc : BitVec 32) {k : ℕ} (hk : k ≤ 4) :
    (acc.sshiftRight k).toNat % 256 = acc.toNat / 2 ^ k % 256 := by
  have hlt := acc.isLt
  rw [BitVec.toNat_sshiftRight, Nat.shiftRight_eq_div_pow, Nat.shiftRight_eq_div_pow]
  interval_cases k <;> split_ifs <;> omega

/-- What a decoder's accumulator holds in its last bits. -/
def Holds (acc : BitVec 32) (bits p : ℕ) : Prop := acc.toNat % 2 ^ bits = p

theorem Holds.push {acc : BitVec 32} {bits p v : ℕ} (h : Holds acc bits p) (hbits : bits ≤ 6)
    (hv : v < 64) : Holds (acc <<< 6 ||| BitVec.ofNat 32 v) (bits + 6) (p * 64 + v) := by
  unfold Holds at *
  have hdvd : 2 ^ (bits + 6) ∣ 2 ^ 32 := Nat.pow_dvd_pow 2 (by omega)
  rw [toNat_accumulate acc hv, Nat.mod_mod_of_dvd _ hdvd, Nat.pow_add, ← h]
  have hsplit := Nat.div_add_mod acc.toNat (2 ^ bits)
  have hrest : acc.toNat % 2 ^ bits < 2 ^ bits := Nat.mod_lt _ (Nat.two_pow_pos bits)
  have hsmall : acc.toNat % 2 ^ bits * 64 + v < 2 ^ bits * 2 ^ 6 := by omega
  have hsum : acc.toNat * 64 + v =
      acc.toNat % 2 ^ bits * 64 + v + 2 ^ bits * 2 ^ 6 * (acc.toNat / 2 ^ bits) := by
    calc acc.toNat * 64 + v
        = (2 ^ bits * (acc.toNat / 2 ^ bits) + acc.toNat % 2 ^ bits) * 64 + v := by rw [hsplit]
      _ = acc.toNat % 2 ^ bits * 64 + v + 2 ^ bits * 2 ^ 6 * (acc.toNat / 2 ^ bits) := by ring
  rw [hsum, Nat.add_mul_mod_self_left, Nat.mod_eq_of_lt hsmall]

/-- The octet in front of the last bits. -/
theorem Holds.octet {acc : BitVec 32} {k n : ℕ} (h : Holds acc (k + 8) n) (hk : k ≤ 4) :
    (acc.sshiftRight k).toNat % 256 = n / 2 ^ k := by
  unfold Holds at h
  rw [toNat_sshiftRight_mod acc hk, ← h, Nat.pow_add, Nat.mod_mul_right_div_self]

theorem Holds.rest {acc : BitVec 32} {k n : ℕ} (h : Holds acc (k + 8) n) :
    Holds acc k (n % 2 ^ k) := by
  unfold Holds at *
  rw [← h, Nat.mod_mod_of_dvd _ (Nat.pow_dvd_pow 2 (by omega))]

/-- Octets as the signs of a text. -/
def octetText (bs : List ℕ) : Text := bs.map Char.ofNat

theorem octetText_cons (b : ℕ) (bs : List ℕ) : octetText (b :: bs) = Char.ofNat b :: octetText bs :=
  rfl

/-- What either loop does with a group where it makes a byte. -/
theorem Holds.turn {acc : BitVec 32} {bits p v : ℕ} (h : Holds acc bits p) (hbits : bits ≤ 6)
    (hemit : 2 ≤ bits) (hv : v < 64) :
    ((acc <<< 6 ||| BitVec.ofNat 32 v).sshiftRight (bits - 2)).toNat % 256 =
        (p * 64 + v) / 2 ^ (bits - 2) ∧
      Holds (acc <<< 6 ||| BitVec.ofNat 32 v) (bits - 2) ((p * 64 + v) % 2 ^ (bits - 2)) := by
  have hpush := h.push hbits hv
  rw [show bits + 6 = bits - 2 + 8 by omega] at hpush
  exact ⟨hpush.octet (by omega), hpush.rest⟩

/-- A decoder that makes a byte as soon as there are eight bits, and ends at the filling. -/
structure Reader (loop : BitVec 32 → ℕ → Text → Text → Option Text) : Prop where
  filling : ∀ (acc : BitVec 32) (bits : ℕ) (out : Text) (n : ℕ),
    loop acc bits out (List.replicate n '=') = some out
  group : ∀ (acc : BitVec 32) (bits : ℕ) (out : Text) (v : ℕ) (s : Text), v < 64 →
    let acc' := acc <<< 6 ||| BitVec.ofNat 32 v
    loop acc bits out (sign v :: s) =
      if 8 ≤ bits + 6 then
        let bits := bits + 6 - 8
        loop acc' bits (out ++ [Char.ofNat ((acc'.sshiftRight bits).toNat % 256)]) s
      else loop acc' (bits + 6) out s

/-- Such a decoder reads the octets that the groups are. -/
theorem Reader.signs {loop : BitVec 32 → ℕ → Text → Text → Option Text} (hloop : Reader loop)
    {vs : List ℕ} (hvs : ∀ v ∈ vs, v < 64) (n : ℕ) {acc : BitVec 32} {bits p : ℕ} (out : Text)
    (hbits : bits ≤ 6) (heven : bits % 2 = 0) (h : Holds acc bits p) :
    loop acc bits out (vs.map sign ++ List.replicate n '=') =
      some (out ++ octetText (octetsFrom p bits vs)) := by
  induction vs generalizing acc bits p out with
  | nil =>
    rw [List.map_nil, List.nil_append, hloop.filling]
    simp [octetsFrom, octetText]
  | cons v vs ih =>
    rw [List.forall_mem_cons] at hvs
    rw [List.map_cons, List.cons_append, hloop.group _ _ _ _ _ hvs.1]
    unfold octetsFrom
    dsimp only
    by_cases hemit : 2 ≤ bits
    · obtain ⟨hoctet, hrest⟩ := h.turn hbits hemit hvs.1
      rw [if_pos (by omega), if_pos hemit, show bits + 6 - 8 = bits - 2 by omega, hoctet,
        ih hvs.2 _ (by omega) (by omega) hrest, octetText_cons, List.append_assoc,
        List.singleton_append]
    · rw [if_neg (by omega), if_neg hemit]
      exact ih hvs.2 out (by omega) (by omega) (h.push hbits hvs.1)

theorem SessionGate.reader : Reader b64Loop where
  filling acc bits out n := by
    cases n with
    | zero => rfl
    | succ n => simp [b64Loop, List.replicate_succ]
  group acc bits out v s hv := by
    rw [b64Loop, if_neg (sign_ne hv).1, b64Value_sign hv]

theorem rtsp_reader : Reader Rtsp.b64Loop where
  filling acc bits out n := by
    induction n with
    | zero => rfl
    | succ n ih =>
      rw [List.replicate_succ, Rtsp.b64Loop, if_pos (.inl rfl)]
      exact ih
  group acc bits out v s hv := by
    have hne := sign_ne hv
    rw [Rtsp.b64Loop, if_neg (by tauto), b64Value_sign hv]

theorem holds_zero : Holds 0 0 0 := rfl

/-- The signs of a byte string. -/
def byteText (bs : List UInt8) : Text := bs.map fun b => Char.ofNat b.toNat

theorem octetText_toNat (bs : List UInt8) :
    octetText (octetsFrom 0 0 (ofOctets (bs.map fun b => b.toNat))) = byteText bs := by
  have hlt : ∀ b ∈ bs.map fun b => b.toNat, b < 256 := by
    rw [List.forall_mem_map]
    intro b _
    exact b.toNat_lt
  rw [octetsFrom_ofOctets hlt]
  unfold octetText byteText
  rw [List.map_map]
  rfl

theorem sextets_lt (bs : List UInt8) : ∀ v ∈ ofOctets (bs.map fun b => b.toNat), v < 64 := by
  refine ofOctets_lt ?_
  rw [List.forall_mem_map]
  intro b _
  exact b.toNat_lt

theorem SessionGate.b64Decode_base64 (bs : List UInt8) :
    b64Decode (base64 bs) = some (byteText bs) := by
  obtain ⟨n, hn⟩ := base64_eq bs
  unfold b64Decode
  rw [hn, reader.signs (sextets_lt bs) n [] (by omega) rfl holds_zero, List.nil_append,
    octetText_toNat]

theorem rtsp_b64Decode_base64 (bs : List UInt8) :
    Rtsp.b64Decode (base64 bs) = some (byteText bs) := by
  obtain ⟨n, hn⟩ := base64_eq bs
  unfold Rtsp.b64Decode
  rw [hn, rtsp_reader.signs (sextets_lt bs) n [] (by omega) rfl holds_zero, List.nil_append,
    octetText_toNat]

theorem cut_root (pass : Text) : cut ':' ("root".toList ++ ':' :: pass) = ("root".toList, some pass) :=
  rfl

/-- What a client sends of the root account is asked of the check as it was meant. -/
theorem SessionGate.authedBasic_base64 (g : SessionGate) {user : List UInt8} (pass : List UInt8)
    (huser : byteText user = "root".toList) :
    g.authedBasic ("Basic ".toList ++ base64 (user ++ 58 :: pass)) =
      (g.check.map fun check => check "root".toList (byteText pass)).getD false := by
  have hplain : byteText (user ++ 58 :: pass) = "root".toList ++ ':' :: byteText pass := by
    rw [← huser]
    unfold byteText
    rw [List.map_append, List.map_cons]
    rfl
  have htake : ("Basic ".toList ++ base64 (user ++ 58 :: pass)).take 6 = "Basic ".toList :=
    List.take_left' rfl
  have hdrop : ("Basic ".toList ++ base64 (user ++ 58 :: pass)).drop 6 =
      base64 (user ++ 58 :: pass) := List.drop_left' rfl
  unfold authedBasic
  rw [htake, hdrop, if_neg (not_not.mpr rfl), b64Decode_base64, hplain]
  dsimp only
  rw [cut_root]
  dsimp only
  rw [if_neg (not_not.mpr rfl)]

/-- The groups that a decoder accumulates before it ends or gives up. -/
def sextetsRead (skip stop : Char → Bool) : Text → List ℕ
  | [] => []
  | c :: s =>
    if stop c then []
    else if skip c then sextetsRead skip stop s
    else
      match b64Value c with
      | none => []
      | some v => v :: sextetsRead skip stop s

/-- Those of the front door, which ends at the first equals sign. -/
def sessionSextets (s : Text) : List ℕ := sextetsRead (fun _ => false) (fun c => c = '=') s

/-- Those of the RTSP server, which goes on behind equals signs, blanks and line ends. -/
def rtspSextets (s : Text) : List ℕ :=
  sextetsRead (fun c => c = '=' || c = '\r' || c = '\n' || c = ' ') (fun _ => false) s

theorem b64Value_lt {c : Char} {v : ℕ} (h : b64Value c = some v) : v < 64 := by
  unfold b64Value at h
  split_ifs at h with hupper hlower hdigit
  · have hle : c.toNat ≤ 'Z'.toNat := hupper.2
    have hval : 'Z'.toNat = 90 ∧ 'A'.toNat = 65 := ⟨rfl, rfl⟩
    have hv := Option.some.inj h
    omega
  · have hle : c.toNat ≤ 'z'.toNat := hlower.2
    have hval : 'z'.toNat = 122 ∧ 'a'.toNat = 97 := ⟨rfl, rfl⟩
    have hv := Option.some.inj h
    omega
  · have hle : c.toNat ≤ '9'.toNat := hdigit.2
    have hval : '9'.toNat = 57 ∧ '0'.toNat = 48 := ⟨rfl, rfl⟩
    have hv := Option.some.inj h
    omega
  · have hv := Option.some.inj h
    omega
  · have hv := Option.some.inj h
    omega

theorem sextetsRead_lt (skip stop : Char → Bool) (s : Text) :
    ∀ v ∈ sextetsRead skip stop s, v < 64 := by
  induction s with
  | nil => exact fun _ hv => absurd hv List.not_mem_nil
  | cons c s ih =>
    unfold sextetsRead
    split_ifs
    · exact fun _ hv => absurd hv List.not_mem_nil
    · exact ih
    · cases hv : b64Value c with
      | none => exact fun _ hv => absurd hv List.not_mem_nil
      | some v =>
        intro u hu
        rcases List.mem_cons.mp hu with rfl | hu
        · exact b64Value_lt hv
        · exact ih u hu

/-- A byte string comes back from both decoders, and on a text both accumulators stay in the range of
an `int`. -/
structure Base64Sound (bs : List UInt8) (s : Text) : Prop where
  session : SessionGate.b64Decode (base64 bs) = some (byteText bs)
  rtsp : Rtsp.b64Decode (base64 bs) = some (byteText bs)
  sessionInt : ∀ n ∈ accumulators (sessionSextets s), n < 2 ^ 31
  rtspInt : ∀ n ∈ accumulators (rtspSextets s), n < 2 ^ 31

theorem base64_sound_iff (bs : List UInt8) (s : Text) :
    Base64Sound bs s ↔ Short (sessionSextets s) ∧ Short (rtspSextets s) := by
  have hsession := accumulators_lt_int_iff (sextetsRead_lt (fun _ => false) (fun c => c = '=') s)
  have hrtsp := accumulators_lt_int_iff
    (sextetsRead_lt (fun c => c = '=' || c = '\r' || c = '\n' || c = ' ') (fun _ => false) s)
  constructor
  · intro h
    exact ⟨hsession.mp h.sessionInt, hrtsp.mp h.rtspInt⟩
  · rintro ⟨hs, hr⟩
    exact ⟨SessionGate.b64Decode_base64 bs, rtsp_b64Decode_base64 bs, hsession.mpr hs,
      hrtsp.mpr hr⟩

/-- The credentials of the root account with a password of six signs are too long. -/
theorem not_base64Sound_root : ¬ Base64Sound [] "cm9vdDpnZWhlaW0=".toList := by
  intro h
  exact absurd h.sessionInt (by decide +kernel)

end Machino.Http
