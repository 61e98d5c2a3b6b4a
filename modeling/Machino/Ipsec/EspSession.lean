import Mathlib.Data.List.Perm.Subperm
import Machino.Basic.ReplayWindow
import Machino.Rtp.RtpPacket

/-! ESP in tunnel mode, RFC 4303 with AES-CBC, RFC 3602: packets, sequence numbers and sessions. -/
namespace Machino.Esp

open Bytes

/-- The backend; a hash that it does not have is none, and a call of it may fail. -/
structure Crypto where
  aesCbc : Bool → Bytes → Bytes → Bytes → Option Bytes
  hmacSha1 : Option (Bytes → Bytes → Option Bytes)
  hmacSha256 : Option (Bytes → Bytes → Option Bytes)
  hmacSha384 : Option (Bytes → Bytes → Option Bytes)
  hmacSha512 : Option (Bytes → Bytes → Option Bytes)

/-- One direction of a child SA. -/
structure Sa where
  spi : UInt32
  encKey : Bytes
  integKey : Bytes

def espHdrLen : ℕ := 24

def espMaxPacket : ℕ := 1500

def espEncKeyLenOk (n : ℕ) : Bool := n = 16 || n = 24 || n = 32

/-- The hash, as the key's length tells it, and how much of it is the ICV. -/
def espIntegSelect (c : Crypto) (integKeyLen : ℕ) :
    Option ((Bytes → Bytes → Option Bytes) × ℕ) :=
  match integKeyLen with
  | 32 => c.hmacSha256.map (·, 16)
  | 20 => c.hmacSha1.map (·, 12)
  | 48 => c.hmacSha384.map (·, 24)
  | 64 => c.hmacSha512.map (·, 32)
  | _ => none

/-- The bytes 1, 2 and so on. -/
def padding (n : ℕ) : Bytes := (List.range n).map fun i => UInt8.ofNat (i + 1)

def padLenOf (payloadLen : ℕ) : ℕ := (16 - (payloadLen + 2) % 16) % 16

def plaintext (nextHeader : UInt8) (payload : Bytes) : Bytes :=
  let padLen := padLenOf payload.length
  payload ++ padding padLen ++ [UInt8.ofNat padLen, nextHeader]

def espSeal (c : Crypto) (sa : Sa) (seq : ℕ) (iv : Vector UInt8 16) (nextHeader : UInt8)
    (payload : Bytes) (outCap : ℕ) : Option Bytes :=
  if espEncKeyLenOk sa.encKey.length = false then none
  else
    match espIntegSelect c sa.integKey.length with
    | none => none
    | some (hmac, icvLen) =>
      if espMaxPacket < payload.length then none
      else
        let pt := plaintext nextHeader payload
        if espMaxPacket < pt.length then none
        else
          let body := espHdrLen + pt.length + icvLen
          if espMaxPacket < body ∨ outCap < body then none
          else
            match c.aesCbc true sa.encKey iv.toList pt with
            | none => none
            | some ct =>
              let front := ofBe32 sa.spi.toNat ++ ofBe32 seq ++ iv.toList ++ ct
              (hmac sa.integKey front).map fun full => front ++ full.take icvLen

/-- What the plaintext is without its trailer, if the padding counts up. -/
def untrail (pt : Bytes) : Option (UInt8 × Bytes) :=
  let ctLen := pt.length
  let padLen := byte pt (ctLen - 2)
  if ctLen < padLen + 2 then none
  else
    let inLen := ctLen - padLen - 2
    if (pt.drop inLen).take padLen ≠ padding padLen then none
    else some (pt.getD (ctLen - 1) 0, pt.take inLen)

/-- Gives the number, the next header and the payload; nothing is decrypted before the ICV. -/
def espOpenScratch (c : Crypto) (sa : Sa) (packet : Bytes) : Option (ℕ × UInt8 × Bytes) :=
  if espEncKeyLenOk sa.encKey.length = false then none
  else
    match espIntegSelect c sa.integKey.length with
    | none => none
    | some (hmac, icvLen) =>
      if espMaxPacket < packet.length then none
      else if packet.length < espHdrLen + 16 + icvLen then none
      else
        let ctLen := packet.length - espHdrLen - icvLen
        if ctLen = 0 ∨ ctLen % 16 ≠ 0 then none
        else if be32 packet 0 ≠ sa.spi.toNat then none
        else
          let icvAt := packet.length - icvLen
          match hmac sa.integKey (packet.take icvAt) with
          | none => none
          | some full =>
            if full.take icvLen ≠ packet.drop icvAt then none
            else
              let iv := (packet.drop 8).take 16
              let ct := (packet.take icvAt).drop espHdrLen
              (c.aesCbc false sa.encKey iv ct).bind fun pt =>
                (untrail pt).map fun (nh, payload) => (be32 packet 4, nh, payload)

structure Replay where
  highest : ℕ := 0
  bitmap : BitVec 64 := 0

def espReplayPrecheck (r : Replay) (seq : ℕ) : Bool :=
  if seq = 0 then false
  else if r.highest < seq then true
  else
    let delta := r.highest - seq
    if 64 ≤ delta then false else !r.bitmap.getLsbD delta

def espReplayCommit (r : Replay) (seq : ℕ) : Option Replay :=
  if seq = 0 then none
  else if r.highest < seq then
    let shift := seq - r.highest
    some ⟨seq, if 64 ≤ shift then 1 else r.bitmap <<< shift ||| 1⟩
  else
    let delta := r.highest - seq
    if 64 ≤ delta then none
    else if r.bitmap.getLsbD delta then none
    else some { r with bitmap := r.bitmap ||| (1 : BitVec 64) <<< delta }

structure Seq where
  next : ℕ := 1
  exhausted : Bool := false

def espSeqTake (s : Seq) : Option (ℕ × Seq) :=
  if s.exhausted then none
  else if s.next = 0xffffffff then some (s.next, { s with exhausted := true })
  else some (s.next, { s with next := s.next + 1 })

structure EspSession where
  inbound : Sa
  outbound : Sa
  txSeq : Seq := {}
  rxReplay : Replay := {}

/-- What was negotiated; the ids are those of the transforms. -/
structure ChildKeys where
  encr : ℕ
  integ : ℕ
  inbound : Sa
  outbound : Sa

/-- The same keys for the other end. -/
def ChildKeys.mirror (k : ChildKeys) : ChildKeys :=
  { k with inbound := k.outbound, outbound := k.inbound }

/-- How long the key of an integrity transform is, for those that the backend has. -/
def integLen (c : Crypto) (integ : ℕ) : Option ℕ :=
  if integ = 12 ∧ c.hmacSha256.isSome then some 32
  else if integ = 2 ∧ c.hmacSha1.isSome then some 20
  else if integ = 13 ∧ c.hmacSha384.isSome then some 48
  else if integ = 14 ∧ c.hmacSha512.isSome then some 64
  else none

def espSessionInit (c : Crypto) (child : ChildKeys) : Option EspSession :=
  if child.encr ≠ 12 then none
  else
    match integLen c child.integ with
    | none => none
    | some ilen =>
      let elen := child.inbound.encKey.length
      if espEncKeyLenOk elen = false ∨ child.outbound.encKey.length ≠ elen ∨
          child.inbound.integKey.length ≠ ilen ∨ child.outbound.integKey.length ≠ ilen then none
      else some { inbound := child.inbound, outbound := child.outbound }

inductive SealError where
  | exhausted | failed
  deriving DecidableEq

/-- The number stays used, also where no packet comes of it. -/
def espSessionSeal (c : Crypto) (s : EspSession) (nextHeader : UInt8) (payload : Bytes)
    (random : Option (Vector UInt8 16)) (cap : ℕ) : EspSession × Except SealError Bytes :=
  match espSeqTake s.txSeq with
  | none => (s, .error .exhausted)
  | some (seq, txSeq) =>
    let s := { s with txSeq }
    match random.bind fun iv => espSeal c s.outbound seq iv nextHeader payload cap with
    | none => (s, .error .failed)
    | some packet => (s, .ok packet)

def espSessionOpen (c : Crypto) (s : EspSession) (packet : Bytes) (payloadCap : ℕ) :
    EspSession × Option (UInt8 × Bytes) :=
  if packet.length < 8 then (s, none)
  else if be32 packet 0 ≠ s.inbound.spi.toNat then (s, none)
  else if espReplayPrecheck s.rxReplay (be32 packet 4) = false then (s, none)
  else
    match espOpenScratch c s.inbound packet with
    | none => (s, none)
    | some (seq, nh, payload) =>
      match espReplayCommit s.rxReplay seq with
      | none => (s, none)
      | some rxReplay =>
        let s := { s with rxReplay }
        if payloadCap < payload.length then (s, none) else (s, some (nh, payload))

/-- What is relied on: decryption gives back what was encrypted in whole blocks, byte for byte, and
a hash is as long as what is taken of it. -/
structure Crypto.Lawful (c : Crypto) : Prop where
  cbc : ∀ key iv x y, espEncKeyLenOk key.length = true → x.length % 16 = 0 →
    c.aesCbc true key iv x = some y → y.length = x.length ∧ c.aesCbc false key iv y = some x
  integ : ∀ n hmac icvLen, espIntegSelect c n = some (hmac, icvLen) →
    ∀ key m full, hmac key m = some full → icvLen ≤ full.length

theorem length_padding (n : ℕ) : (padding n).length = n := by
  rw [padding, List.length_map, List.length_range]

theorem length_plaintext (nh : UInt8) (payload : Bytes) :
    (plaintext nh payload).length = payload.length + padLenOf payload.length + 2 := by
  simp [plaintext, length_padding, Nat.add_assoc]

theorem length_plaintext_mod (nh : UInt8) (payload : Bytes) :
    (plaintext nh payload).length % 16 = 0 := by
  rw [length_plaintext, padLenOf]
  omega

theorem untrail_plaintext (nh : UInt8) (payload : Bytes) :
    untrail (plaintext nh payload) = some (nh, payload) := by
  have hpad : padLenOf payload.length < 16 := Nat.mod_lt _ (by decide)
  have hlen := length_plaintext nh payload
  have hfront : (payload ++ padding (padLenOf payload.length)).length =
      payload.length + padLenOf payload.length := by
    rw [List.length_append, length_padding]
  have hbyte : byte (plaintext nh payload) ((plaintext nh payload).length - 2) =
      padLenOf payload.length := by
    have hat := byte_append_right (payload ++ padding (padLenOf payload.length))
      [UInt8.ofNat (padLenOf payload.length), nh] 0
    rw [hfront] at hat
    rw [hlen, Nat.add_sub_cancel]
    refine hat.trans ?_
    show (UInt8.ofNat (padLenOf payload.length)).toNat = _
    rw [UInt8.toNat_ofNat']
    exact Nat.mod_eq_of_lt (by omega)
  have hnh : (plaintext nh payload).getD ((plaintext nh payload).length - 1) 0 = nh := by
    rw [hlen]
    unfold plaintext
    rw [List.getD_append_right _ _ _ _ (by omega), hfront]
    rw [show payload.length + padLenOf payload.length + 2 - 1 -
      (payload.length + padLenOf payload.length) = 1 by omega]
    rfl
  have hin : (plaintext nh payload).length - padLenOf payload.length - 2 = payload.length := by
    omega
  have htail : (plaintext nh payload).drop payload.length =
      padding (padLenOf payload.length) ++ [UInt8.ofNat (padLenOf payload.length), nh] := by
    rw [plaintext, List.append_assoc, List.drop_left]
  have hpadding : ((plaintext nh payload).drop payload.length).take (padLenOf payload.length) =
      padding (padLenOf payload.length) := by
    rw [htail]
    exact List.take_left' (length_padding _)
  have hpayload : (plaintext nh payload).take payload.length = payload := by
    rw [plaintext, List.append_assoc, List.take_left]
  unfold untrail
  dsimp only
  rw [hbyte, hnh, hin, hpadding, hpayload, if_neg (by omega), if_neg (not_not.mpr rfl)]

/-- The ICV of a packet is that of its bytes. -/
def Verifies (c : Crypto) (sa : Sa) (packet : Bytes) : Prop :=
  ∃ hmac icvLen full, espIntegSelect c sa.integKey.length = some (hmac, icvLen) ∧
    hmac sa.integKey (packet.take (packet.length - icvLen)) = some full ∧
    full.take icvLen = packet.drop (packet.length - icvLen)

theorem verifies_of_espOpenScratch {c : Crypto} {sa : Sa} {packet : Bytes}
    {r : ℕ × UInt8 × Bytes} (h : espOpenScratch c sa packet = some r) :
    Verifies c sa packet := by
  unfold espOpenScratch at h
  split at h
  · exact absurd h nofun
  split at h
  · exact absurd h nofun
  · rename_i hmac icvLen hsel
    split at h
    · exact absurd h nofun
    split at h
    · exact absurd h nofun
    dsimp only at h
    split at h
    · exact absurd h nofun
    split at h
    · exact absurd h nofun
    split at h
    · exact absurd h nofun
    · rename_i full hfull
      split_ifs at h with hicv
      exact ⟨hmac, icvLen, full, hsel, hfull, not_not.mp hicv⟩

/-- A sealed packet carries its number in front and opens to what was sealed. -/
theorem espOpenScratch_espSeal {c : Crypto} (hc : c.Lawful) {sa : Sa} {seq : ℕ}
    {iv : Vector UInt8 16} {nh : UInt8} {payload : Bytes} {cap : ℕ} {packet : Bytes}
    (hseq : seq < 2 ^ 32) (h : espSeal c sa seq iv nh payload cap = some packet) :
    be32 packet 0 = sa.spi.toNat ∧ be32 packet 4 = seq ∧ 8 ≤ packet.length ∧
      espOpenScratch c sa packet = some (seq, nh, payload) := by
  unfold espSeal at h
  split at h
  · exact absurd h nofun
  rename_i hkey
  split at h
  · exact absurd h nofun
  · rename_i hmac icvLen hsel
    split at h
    · exact absurd h nofun
    dsimp only at h
    split at h
    · exact absurd h nofun
    split at h
    · exact absurd h nofun
    rename_i hbody
    split at h
    · exact absurd h nofun
    · rename_i ct hct
      obtain ⟨full, hfull, rfl⟩ := Option.map_eq_some_iff.mp h
      have hmod := length_plaintext_mod nh payload
      have hlen := length_plaintext nh payload
      obtain ⟨hctlen, hdec⟩ := hc.cbc _ _ _ _ (Bool.not_eq_false _ ▸ hkey) hmod hct
      have hicv : (full.take icvLen).length = icvLen := by
        rw [List.length_take]
        exact Nat.min_eq_left (hc.integ _ _ _ hsel _ _ _ hfull)
      have hiv : iv.toList.length = 16 := iv.length_toList
      generalize hf : ofBe32 sa.spi.toNat ++ ofBe32 seq ++ iv.toList ++ ct = front at hfull
      have hflen : front.length = 24 + ct.length := by
        rw [← hf]
        simp only [List.length_append, length_ofBe32, hiv]
      have hplen : (front ++ full.take icvLen).length = front.length + icvLen := by
        rw [List.length_append, hicv]
      have h0 : be32 (front ++ full.take icvLen) 0 = sa.spi.toNat := by
        rw [← hf]
        simp only [List.append_assoc]
        rw [be32_ofBe32, Nat.mod_eq_of_lt sa.spi.toNat_lt]
      have h4 : be32 (front ++ full.take icvLen) 4 = seq := by
        rw [← hf]
        simp only [List.append_assoc]
        have hright := be32_append_right (ofBe32 sa.spi.toNat)
          (ofBe32 seq ++ (iv.toList ++ (ct ++ full.take icvLen))) 0
        rw [length_ofBe32, be32_ofBe32, Nat.mod_eq_of_lt hseq] at hright
        exact hright
      have hat : (front ++ full.take icvLen).length - icvLen = front.length := by omega
      have hivcut : ((front ++ full.take icvLen).drop 8).take 16 = iv.toList := by
        rw [← hf]
        simp only [List.append_assoc]
        rw [← List.append_assoc (ofBe32 sa.spi.toNat), List.drop_left' (by simp),
          List.take_left' hiv]
      have hctcut : front.drop espHdrLen = ct := by
        rw [← hf]
        exact List.drop_left' (by simp [hiv, espHdrLen])
      refine ⟨h0, h4, by omega, ?_⟩
      unfold espOpenScratch
      rw [if_neg hkey, hsel]
      dsimp only
      rw [hat, List.take_left, List.drop_left, hfull, hivcut, hctcut, h0, h4, hdec,
        Option.bind_some, untrail_plaintext]
      simp only [espHdrLen, espMaxPacket] at hbody ⊢
      rw [if_neg (by omega), if_neg (by omega), if_neg (by omega), if_neg (not_not.mpr rfl),
        if_neg (not_not.mpr rfl)]
      rfl


/-- Numbers below this one may have been used. -/
def Seq.bound (s : Seq) : ℕ := if s.exhausted then 2 ^ 32 else s.next

/-- A number that is taken is new, and in 32 bits. -/
theorem espSeqTake_some {s s' : Seq} {seq : ℕ}
    (hex : s.exhausted = false → s.next < 2 ^ 32) (h : espSeqTake s = some (seq, s')) :
    s.bound ≤ seq ∧ seq < s'.bound ∧ seq < 2 ^ 32 ∧ (s'.exhausted = false → s'.next < 2 ^ 32) := by
  unfold espSeqTake at h
  cases hnot : s.exhausted with
  | true =>
    rw [hnot] at h
    exact absurd h nofun
  | false =>
    have hlt := hex hnot
    have hbound : s.bound = s.next := by
      rw [Seq.bound, hnot]
      rfl
    rw [hnot, if_neg Bool.false_ne_true] at h
    by_cases hlast : s.next = 0xffffffff
    · rw [if_pos hlast] at h
      obtain ⟨rfl, rfl⟩ := Prod.mk.inj (Option.some.inj h)
      exact ⟨hbound.le, hlt, hlt, nofun⟩
    · rw [if_neg hlast] at h
      obtain ⟨rfl, rfl⟩ := Prod.mk.inj (Option.some.inj h)
      exact ⟨hbound.le, Nat.lt_succ_self s.next, hlt, fun _ => show s.next + 1 < 2 ^ 32 by omega⟩

/-- A number is let through if and only if it is not 0, in the window and was not taken. -/
theorem espReplayPrecheck_iff {r : Replay} {A : Set ℕ} (h : Tracks r.highest r.bitmap A)
    {seq : ℕ} : espReplayPrecheck r seq = true ↔ seq ≠ 0 ∧ r.highest < seq + 64 ∧ seq ∉ A := by
  unfold espReplayPrecheck
  dsimp only
  split_ifs with hzero hnew hold
  · exact iff_of_false nofun fun hseq => hseq.1 hzero
  · refine iff_of_true rfl ⟨hzero, by omega, fun hA => ?_⟩
    have hle := h.le seq hA
    omega
  · refine iff_of_false nofun fun hseq => ?_
    have hin := hseq.2.1
    omega
  · have hback : r.highest - (r.highest - seq) = seq := by omega
    have hbit := h.bit (r.highest - seq) (by omega) (by omega)
    rw [hback] at hbit
    rw [Bool.not_eq_true', ← Bool.not_eq_true, hbit]
    exact ⟨fun hA => ⟨hzero, by omega, hA⟩, fun hseq => hseq.2.2⟩

theorem tracks_espReplayCommit {r : Replay} {A : Set ℕ} (h : Tracks r.highest r.bitmap A)
    {seq : ℕ} (hpre : espReplayPrecheck r seq = true) :
    ∃ r', espReplayCommit r seq = some r' ∧ Tracks r'.highest r'.bitmap (insert seq A) := by
  unfold espReplayPrecheck at hpre
  unfold espReplayCommit
  dsimp only at hpre ⊢
  split_ifs at hpre ⊢ with hzero hnew hfar hold hbit
  · refine ⟨_, rfl, ?_⟩
    have hshift := h.shift hnew
    rwa [if_pos hfar] at hshift
  · refine ⟨_, rfl, ?_⟩
    have hshift := h.shift hnew
    rwa [if_neg hfar] at hshift
  · rw [hbit] at hpre
    exact absurd hpre nofun
  · exact ⟨_, rfl, h.set (Nat.le_of_not_lt hnew)⟩

theorem espSessionInit_some {c : Crypto} {k : ChildKeys} {s : EspSession}
    (h : espSessionInit c k = some s) : s = { inbound := k.inbound, outbound := k.outbound } := by
  unfold espSessionInit at h
  split at h
  · exact absurd h nofun
  split at h
  · exact absurd h nofun
  · dsimp only at h
    split at h
    · exact absurd h nofun
    · exact (Option.some.inj h).symm

structure Sealed where
  packet : Bytes
  seq : ℕ
  nextHeader : UInt8
  payload : Bytes

/-- The packet is what was sealed under this SA. -/
structure Sealed.Genuine (c : Crypto) (sa : Sa) (p : Sealed) : Prop where
  spi : be32 p.packet 0 = sa.spi.toNat
  seq : be32 p.packet 4 = p.seq
  length : 8 ≤ p.packet.length
  short : p.payload.length ≤ espMaxPacket
  opens : espOpenScratch c sa p.packet = some (p.seq, p.nextHeader, p.payload)

/-- The packets that a session has sealed, each under a number of its own. -/
structure Sends (c : Crypto) (s : EspSession) (sent : List Sealed) : Prop where
  next : s.txSeq.exhausted = false → s.txSeq.next < 2 ^ 32
  pos : s.txSeq.next ≠ 0
  below : ∀ p ∈ sent, p.seq < s.txSeq.bound ∧ p.seq ≠ 0
  distinct : (sent.map Sealed.seq).Nodup
  genuine : ∀ p ∈ sent, p.Genuine c s.outbound

theorem Sends.fresh (c : Crypto) {s : EspSession} (h : s.txSeq = {}) : Sends c s [] where
  next _ := by
    rw [h]
    decide
  pos := by
    rw [h]
    decide
  below := List.forall_mem_nil _
  distinct := List.nodup_nil
  genuine := List.forall_mem_nil _

theorem length_le_of_espSeal {c : Crypto} {sa : Sa} {seq : ℕ} {iv : Vector UInt8 16} {nh : UInt8}
    {payload : Bytes} {cap : ℕ} {packet : Bytes}
    (h : espSeal c sa seq iv nh payload cap = some packet) : payload.length ≤ espMaxPacket := by
  unfold espSeal at h
  split at h
  · exact absurd h nofun
  split at h
  · exact absurd h nofun
  split at h
  · exact absurd h nofun
  · rename_i hlong
    exact Nat.le_of_not_lt hlong

/-- What a seal that comes to something was: a number of its own, and a genuine packet. -/
theorem Sends.seal {c : Crypto} (hc : c.Lawful) {s : EspSession} {sent : List Sealed}
    (h : Sends c s sent) (nh : UInt8) (payload : Bytes) (random : Option (Vector UInt8 16))
    (cap : ℕ) : (espSessionSeal c s nh payload random cap).1.inbound = s.inbound ∧
      (espSessionSeal c s nh payload random cap).1.outbound = s.outbound ∧
      (espSessionSeal c s nh payload random cap).1.rxReplay = s.rxReplay ∧
      match (espSessionSeal c s nh payload random cap).2 with
      | .error _ => Sends c (espSessionSeal c s nh payload random cap).1 sent
      | .ok packet => Sends c (espSessionSeal c s nh payload random cap).1
          (⟨packet, s.txSeq.next, nh, payload⟩ :: sent) := by
  unfold espSessionSeal
  cases htake : espSeqTake s.txSeq with
  | none => exact ⟨rfl, rfl, rfl, h⟩
  | some taken =>
    obtain ⟨seq, txSeq⟩ := taken
    obtain ⟨hnew, hbelow, hlt, hnext⟩ := espSeqTake_some h.next htake
    have hseq : seq = s.txSeq.next ∧ txSeq.next ≠ 0 := by
      have hpos := h.pos
      unfold espSeqTake at htake
      split_ifs at htake
      · obtain ⟨rfl, rfl⟩ := Prod.mk.inj (Option.some.inj htake)
        exact ⟨rfl, hpos⟩
      · obtain ⟨rfl, rfl⟩ := Prod.mk.inj (Option.some.inj htake)
        exact ⟨rfl, Nat.succ_ne_zero _⟩
    obtain ⟨rfl, hpos⟩ := hseq
    have hkept : Sends c { s with txSeq } sent := {
      next := hnext
      pos := hpos
      below := fun p hp => ⟨((h.below p hp).1.trans_le hnew).trans hbelow, (h.below p hp).2⟩
      distinct := h.distinct
      genuine := h.genuine }
    dsimp only
    cases hseal : random.bind fun iv => espSeal c s.outbound s.txSeq.next iv nh payload cap with
    | none => exact ⟨rfl, rfl, rfl, hkept⟩
    | some packet =>
      obtain ⟨iv, -, hsealed⟩ := Option.bind_eq_some_iff.mp hseal
      obtain ⟨hspi, hnum, hlen, hopen⟩ := espOpenScratch_espSeal hc hlt hsealed
      refine ⟨rfl, rfl, rfl, { hkept with below := ?_, distinct := ?_, genuine := ?_ }⟩
      · exact List.forall_mem_cons.mpr ⟨⟨hbelow, h.pos⟩, hkept.below⟩
      · refine List.nodup_cons.mpr ⟨fun hmem => ?_, h.distinct⟩
        obtain ⟨p, hp, heq⟩ := List.mem_map.mp hmem
        have hold := (h.below p hp).1
        rw [heq] at hold
        exact absurd hold (Nat.not_lt.mpr hnew)
      · exact List.forall_mem_cons.mpr
          ⟨⟨hspi, hnum, hlen, length_le_of_espSeal hsealed, hopen⟩, h.genuine⟩

/-- The numbers that a session has taken in, each once. -/
structure Receives (s : EspSession) (taken : List ℕ) : Prop where
  window : Tracks s.rxReplay.highest s.rxReplay.bitmap {i | i ∈ taken}
  once : taken.Nodup

theorem Receives.fresh {s : EspSession} (h : s.rxReplay = {}) : Receives s [] where
  window := by
    rw [h]
    have hempty : {i | i ∈ ([] : List ℕ)} = (∅ : Set ℕ) := by simp
    rw [hempty]
    exact Tracks.empty
  once := List.nodup_nil

/-- A number that the window lets in now. -/
structure Receives.Lets (s : EspSession) (taken : List ℕ) (seq : ℕ) : Prop where
  inWindow : s.rxReplay.highest < seq + 64
  new : seq ∉ taken

/-- A genuine packet is opened to what was sealed if the window lets its number in, which is then
taken, and to nothing otherwise. -/
theorem Receives.open_genuine {c : Crypto} {s : EspSession} {taken : List ℕ}
    (h : Receives s taken) {p : Sealed} (hp : p.Genuine c s.inbound) (hpos : p.seq ≠ 0) :
    (Receives.Lets s taken p.seq ∧ ∃ rxReplay,
      espSessionOpen c s p.packet espMaxPacket =
        ({ s with rxReplay }, some (p.nextHeader, p.payload)) ∧
      Receives { s with rxReplay } (p.seq :: taken)) ∨
    ¬ Receives.Lets s taken p.seq ∧ espSessionOpen c s p.packet espMaxPacket = (s, none) := by
  have hpre : espReplayPrecheck s.rxReplay p.seq = true ↔ _ := espReplayPrecheck_iff h.window
  unfold espSessionOpen
  rw [if_neg (Nat.not_lt.mpr hp.length), if_neg (not_not.mpr hp.spi), hp.seq]
  by_cases hlets : espReplayPrecheck s.rxReplay p.seq = true
  · obtain ⟨-, hin, hnew⟩ := hpre.mp hlets
    obtain ⟨rxReplay, hcommit, htracks⟩ := tracks_espReplayCommit h.window hlets
    left
    refine ⟨⟨hin, hnew⟩, rxReplay, ?_, ?_, List.nodup_cons.mpr ⟨hnew, h.once⟩⟩
    · rw [hlets, if_neg Bool.noConfusion, hp.opens]
      dsimp only
      rw [hcommit]
      exact if_neg (Nat.not_lt.mpr hp.short)
    · have hcons : {i | i ∈ p.seq :: taken} = insert p.seq {i | i ∈ taken} := by
        ext i
        exact List.mem_cons
      rw [hcons]
      exact htracks
  · right
    refine ⟨fun hl => hlets (hpre.mpr ⟨hpos, hl.inWindow, hl.new⟩), ?_⟩
    rw [Bool.not_eq_true] at hlets
    rw [hlets, if_pos rfl]

/-- Without a right ICV nothing happens. -/
theorem espSessionOpen_of_not_verifies {c : Crypto} {s : EspSession} {packet : Bytes}
    (h : ¬ Verifies c s.inbound packet) (cap : ℕ) : espSessionOpen c s packet cap = (s, none) := by
  have hnone : espOpenScratch c s.inbound packet = none := by
    cases hopen : espOpenScratch c s.inbound packet with
    | none => rfl
    | some r => exact absurd (verifies_of_espOpenScratch hopen) h
  unfold espSessionOpen
  rw [hnone]
  split_ifs
  · rfl
  · rfl
  · rfl
  · rfl

end Machino.Esp
