import Machino.Rtp.RtpPacket

/-! SRTP and SRTCP, RFC 3711, profile SRTP_AES128_CM_HMAC_SHA1_80. -/
namespace Machino.Webrtc

open Bytes

abbrev Block := Vector UInt8 16

/-- The two primitives below the session. -/
structure Crypto where
  aes128 : Block → Block → Block
  hmacSha1 : Bytes → Bytes → Vector UInt8 20

/-- A 16-bit block counter in the last two bytes. -/
def ctrBlock (iv : Block) (n : ℕ) : Block :=
  (iv.set 14 (UInt8.ofNat (n / 2 ^ 8))).set 15 (UInt8.ofNat n)

theorem neZero_sixteen : @NeZero ℕ Zero.ofOfNat0 16 := ⟨Nat.succ_ne_zero 15⟩

/-- The keystream XORed over the bytes, RFC 3711 4.1.1. -/
def cmXor (encrypt : Block → Block) (iv : Block) (buf : Bytes) : Bytes :=
  buf.mapIdx fun off b =>
    b ^^^ (encrypt (ctrBlock iv (off / 16 % 2 ^ 16))).get (@Fin.ofNat 16 neZero_sixteen off)

/-- The salt in bytes 0 to 13, the SSRC XORed at 4 to 7, the 48-bit index at 8 to 13. -/
def makeIv (salt : Vector UInt8 14) (ssrc index48 : ℕ) : Block :=
  Vector.ofFn fun i =>
    let s : UInt8 := if h : i.val < 14 then salt[i.val] else 0
    if 4 ≤ i.val ∧ i.val < 8 then s ^^^ UInt8.ofNat (ssrc / 2 ^ (8 * (7 - i.val)))
    else if 8 ≤ i.val ∧ i.val < 14 then s ^^^ UInt8.ofNat (index48 / 2 ^ (8 * (13 - i.val)))
    else s

structure SrtpKey where
  masterKey : Block
  masterSalt : Vector UInt8 14

/-- The key derivation with kdr = 0: the keystream under the master key. -/
def srtpKdf (c : Crypto) (mk : SrtpKey) (label : UInt8) (len : ℕ) : Bytes :=
  let x := mk.masterSalt.set 7 (mk.masterSalt[7] ^^^ label)
  cmXor (c.aes128 mk.masterKey) (makeIv x 0 0) (List.replicate len 0)

/-- What one direction of one protocol works with. -/
structure Dir where
  cipher : Block → Block
  salt : Vector UInt8 14
  auth : Bytes

def Dir.ofKey (c : Crypto) (mk : SrtpKey) (rtcp : Bool) : Dir :=
  let derived (label : UInt8) (len : ℕ) := srtpKdf c mk label len
  { cipher := c.aes128 (Vector.ofFn fun i => (derived (if rtcp then 3 else 0) 16).getD i 0)
    salt := Vector.ofFn fun i => (derived (if rtcp then 5 else 2) 14).getD i 0
    auth := derived (if rtcp then 4 else 1) 20 }

/-- One entry of a stream table. -/
structure Entry (σ : Type) where
  ssrc : ℕ := 0
  seen : Bool := false
  st : σ
  deriving DecidableEq

structure OutSeq where
  roc : ℕ := 0
  last : ℕ := 0
  deriving DecidableEq

structure InSeq where
  roc : ℕ := 0
  high : ℕ := 0
  winHigh : ℕ := 0
  winMask : BitVec 64 := 0
  deriving DecidableEq

instance : Inhabited OutSeq := ⟨{}⟩
instance : Inhabited InSeq := ⟨{}⟩

def kStreams : ℕ := 4

abbrev Table (σ : Type) := Fin kStreams → Entry σ

/-- The slot of a stream: its own, else a free one, else the first, which is wiped. The table is the
one after the lookup. -/
def slot {σ : Type} [Inhabited σ] (a : Table σ) (ssrc : ℕ) : Fin kStreams × Table σ :=
  match (List.finRange kStreams).find? fun i => (a i).seen && (a i).ssrc = ssrc with
  | some i => (i, a)
  | none =>
    match (List.finRange kStreams).find? fun i => !(a i).seen with
    | some i => (i, Function.update a i { a i with ssrc := ssrc })
    | none => ((0 : Fin 4), Function.update a (0 : Fin 4) { ssrc := ssrc, st := default })

/-- Each lookup takes one of the three ways. -/
theorem slot_cases {σ : Type} [Inhabited σ] (a : Table σ) (ssrc : ℕ) :
    (∃ i, (a i).seen = true ∧ (a i).ssrc = ssrc ∧ slot a ssrc = (i, a)) ∨
      ((∀ i, (a i).seen = true → (a i).ssrc ≠ ssrc) ∧ ∃ i, (a i).seen = false ∧
        slot a ssrc = (i, Function.update a i { a i with ssrc := ssrc })) ∨
      ((∀ i, (a i).seen = true ∧ (a i).ssrc ≠ ssrc) ∧
        slot a ssrc = ((0 : Fin 4), Function.update a (0 : Fin 4) { ssrc := ssrc, st := default })) := by
  unfold slot
  cases hown : (List.finRange kStreams).find? fun i => (a i).seen && (a i).ssrc = ssrc with
  | some i =>
    have hi : ((a i).seen && decide ((a i).ssrc = ssrc)) = true := by
      simpa using List.find?_some hown
    obtain ⟨hseen, hssrc⟩ := Bool.and_eq_true_iff.mp hi
    exact .inl ⟨i, hseen, of_decide_eq_true hssrc, rfl⟩
  | none =>
    have hother : ∀ i, (a i).seen = true → (a i).ssrc ≠ ssrc := by
      intro i hi
      have hnot := List.find?_eq_none.mp hown i (List.mem_finRange i)
      simpa [hi] using hnot
    cases hfree : (List.finRange kStreams).find? fun i => !(a i).seen with
    | some i =>
      have hseen : (a i).seen = false := by simpa using List.find?_some hfree
      exact .inr (.inl ⟨hother, i, hseen, rfl⟩)
    | none =>
      refine .inr (.inr ⟨fun i => ?_, rfl⟩)
      have hseen : (a i).seen = true := by
        simpa using List.find?_eq_none.mp hfree i (List.mem_finRange i)
      exact ⟨hseen, hother i hseen⟩

structure SrtpSession where
  rtpOut : Dir
  rtcpOut : Dir
  rtcpIn : Dir
  rtpIn : Dir
  streamsOut : Table OutSeq := fun _ => { st := {} }
  streamsIn : Table InSeq := fun _ => { st := {} }
  rtcpIndex : ℕ := 0
  inReplayHigh : ℕ := 0
  inReplayMask : BitVec 64 := 0

namespace SrtpSession

def ofKeys (c : Crypto) (out inn : SrtpKey) : SrtpSession where
  rtpOut := Dir.ofKey c out false
  rtcpOut := Dir.ofKey c out true
  rtcpIn := Dir.ofKey c inn true
  rtpIn := Dir.ofKey c inn false

/-- The 80 bits of a tag. -/
def tag (c : Crypto) (d : Dir) (m : Bytes) : Bytes := (c.hmacSha1 d.auth m).toList.take 10

def protectRtp (c : Crypto) (s : SrtpSession) (pkt : Bytes) : SrtpSession × Option Bytes :=
  if pkt.length < 12 then (s, none)
  else
    let ssrc := be32 pkt 8
    let seq := be16 pkt 2
    let (i, t) := slot s.streamsOut ssrc
    let e := t i
    -- our own wrap
    let wraps := e.seen ∧ seq < e.st.last ∧ 0x8000 < (e.st.last - seq) % 2 ^ 16
    let roc := if wraps then (e.st.roc + 1) % 2 ^ 32 else e.st.roc
    let t := Function.update t i { e with seen := true, st := ⟨roc, seq⟩ }
    let iv := makeIv s.rtpOut.salt ssrc (roc * 2 ^ 16 + seq)
    let pkt := pkt.take 12 ++ cmXor s.rtpOut.cipher iv (pkt.drop 12)
    ({ s with streamsOut := t }, some (pkt ++ tag c s.rtpOut (pkt ++ ofBe32 roc)))

/-- Which rollover a sequence number most likely belongs to, RFC 3711 Appendix A. -/
def estimate (e : Entry InSeq) (seq : ℕ) : ℕ :=
  if e.seen then
    if e.st.high < 32768 then
      if e.st.high + 32768 < seq ∧ 0 < e.st.roc then e.st.roc - 1 else e.st.roc
    else if seq + 32768 < e.st.high then (e.st.roc + 1) % 2 ^ 32
    else e.st.roc
  else e.st.roc

/-- The packet is too old or in the window already. -/
def replayed (e : Entry InSeq) (index : ℕ) : Bool :=
  e.seen && decide (index ≤ e.st.winHigh) &&
    (decide (64 ≤ e.st.winHigh - index) || e.st.winMask.getLsbD (e.st.winHigh - index))

/-- The entry of a stream after an authentic packet. -/
def advance (e : Entry InSeq) (v seq : ℕ) : Entry InSeq :=
  let index := v * 2 ^ 16 + seq
  if !e.seen then { e with seen := true, st := ⟨v, seq, index, 1⟩ }
  else
    let (roc, high) :=
      if v = (e.st.roc + 1) % 2 ^ 32 then (v, seq)
      else if v = e.st.roc ∧ e.st.high < seq then (e.st.roc, seq)
      else (e.st.roc, e.st.high)
    if e.st.winHigh < index then
      let shift := index - e.st.winHigh
      { e with st := ⟨roc, high, index, if 64 ≤ shift then 1 else e.st.winMask <<< shift ||| 1⟩ }
    else
      let bit := (1 : BitVec 64) <<< (e.st.winHigh - index)
      { e with st := ⟨roc, high, e.st.winHigh, e.st.winMask ||| bit⟩ }

/-- What the packet is without its tag and its padding, which the last byte counts. -/
def unpad (pkt : Bytes) (hdr : ℕ) : Option Bytes :=
  if byte pkt 0 / 2 ^ 5 % 2 = 1 ∧ hdr < pkt.length then
    let pad := byte pkt (pkt.length - 1)
    if pad = 0 ∨ pkt.length - hdr < pad then none else some (pkt.take (pkt.length - pad))
  else some pkt

/-- Gives the plain packet and where its payload starts. -/
def unprotectRtp (c : Crypto) (s : SrtpSession) (pkt : Bytes) : SrtpSession × Option (Bytes × ℕ) :=
  if pkt.length < 12 + 10 then (s, none)
  else
    let tagAt := pkt.length - 10
    let hdr := Rtp.headerLength pkt tagAt
    if hdr = 0 then (s, none)
    else
      let ssrc := be32 pkt 8
      let seq := be16 pkt 2
      let (i, t) := slot s.streamsIn ssrc
      let s := { s with streamsIn := t }
      let e := t i
      let v := estimate e seq
      let index := v * 2 ^ 16 + seq
      if replayed e index then (s, none)
      else if tag c s.rtpIn (pkt.take tagAt ++ ofBe32 v) ≠ pkt.drop tagAt then (s, none)
      else
        let s := { s with streamsIn := Function.update t i (advance e v seq) }
        let iv := makeIv s.rtpIn.salt ssrc index
        let plain := pkt.take hdr ++ cmXor s.rtpIn.cipher iv ((pkt.take tagAt).drop hdr)
        (s, (unpad plain hdr).map fun p => (p, hdr))

def protectRtcp (c : Crypto) (s : SrtpSession) (pkt : Bytes) : SrtpSession × Option Bytes :=
  if pkt.length < 8 then (s, none)
  else
    let s := { s with rtcpIndex := (s.rtcpIndex + 1) % 2 ^ 32 }
    let index := s.rtcpIndex % 2 ^ 31
    let iv := makeIv s.rtcpOut.salt (be32 pkt 4) index
    -- the E bit: encrypted
    let pkt := pkt.take 8 ++ cmXor s.rtcpOut.cipher iv (pkt.drop 8) ++ ofBe32 (2 ^ 31 + index)
    (s, some (pkt ++ tag c s.rtcpOut pkt))

/-- The window after an index, none where it is too old or in there already. -/
def replayWindow (high : ℕ) (mask : BitVec 64) (index : ℕ) : Option (ℕ × BitVec 64) :=
  if high < index then
    let shift := index - high
    some (index, (if 64 ≤ shift then 0 else mask <<< shift) ||| 1)
  else
    let back := high - index
    if 64 ≤ back then none
    else if mask.getLsbD back then none
    else some (high, mask ||| (1 : BitVec 64) <<< back)

def unprotectRtcp (c : Crypto) (s : SrtpSession) (pkt : Bytes) : SrtpSession × Option Bytes :=
  if pkt.length < 8 + 4 + 10 then (s, none)
  else
    let tagAt := pkt.length - 10
    if tag c s.rtcpIn (pkt.take tagAt) ≠ pkt.drop tagAt then (s, none)
    else
      let eiAt := tagAt - 4
      let ei := be32 pkt eiAt
      let index := ei % 2 ^ 31
      match replayWindow s.inReplayHigh s.inReplayMask index with
      | none => (s, none)
      | some (high, mask) =>
        let s := { s with inReplayHigh := high, inReplayMask := mask }
        let body := (pkt.take eiAt).drop 8
        let iv := makeIv s.rtcpIn.salt (be32 pkt 4) index
        (s, some (pkt.take 8 ++ if 2 ^ 31 ≤ ei then cmXor s.rtcpIn.cipher iv body else body))

end SrtpSession

end Machino.Webrtc
