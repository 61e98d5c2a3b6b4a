import Machino.Webrtc.SrtpReplay

namespace Machino.Webrtc

open Bytes SrtpSession

theorem length_cmXor (encrypt : Block → Block) (iv : Block) (buf : Bytes) :
    (cmXor encrypt iv buf).length = buf.length := by
  rw [cmXor, List.length_mapIdx]

theorem cmXor_cmXor (encrypt : Block → Block) (iv : Block) (buf : Bytes) :
    cmXor encrypt iv (cmXor encrypt iv buf) = buf := by
  apply List.ext_getElem
  · rw [length_cmXor, length_cmXor]
  · intro i hi hi'
    simp only [cmXor, List.getElem_mapIdx]
    rw [UInt8.xor_assoc, UInt8.xor_self, UInt8.xor_zero]

theorem ofNat_inj {a b : ℕ} (h : UInt8.ofNat a = UInt8.ofNat b) : a % 2 ^ 8 = b % 2 ^ 8 := by
  have hnat := congrArg UInt8.toNat h
  rwa [UInt8.toNat_ofNat', UInt8.toNat_ofNat'] at hnat

/-- A block of the keystream is the one of its packet and of its place in there. -/
theorem ctrBlock_inj {salt : Vector UInt8 14} {ssrc i j n m : ℕ} (hi : i < 2 ^ 48) (hj : j < 2 ^ 48)
    (hn : n < 2 ^ 16) (hm : m < 2 ^ 16)
    (h : ctrBlock (makeIv salt ssrc i) n = ctrBlock (makeIv salt ssrc j) m) : i = j ∧ n = m := by
  have hget : ∀ k (hk : k < 16), (ctrBlock (makeIv salt ssrc i) n)[k] =
      (ctrBlock (makeIv salt ssrc j) m)[k] := fun k hk => by rw [h]
  have hbyte : ∀ k (hk : k < 6), i / 2 ^ (8 * (5 - k)) % 2 ^ 8 = j / 2 ^ (8 * (5 - k)) % 2 ^ 8 := by
    intro k hk
    have hxor := hget (8 + k) (by omega)
    simp only [ctrBlock, makeIv] at hxor
    rw [Vector.getElem_set_ne _ _ (by omega), Vector.getElem_set_ne _ _ (by omega),
      Vector.getElem_set_ne _ _ (by omega), Vector.getElem_set_ne _ _ (by omega),
      Vector.getElem_ofFn, Vector.getElem_ofFn] at hxor
    dsimp only at hxor
    rw [if_neg (by omega), if_pos (by omega), if_neg (by omega), if_pos (by omega)] at hxor
    have hoff : 13 - (8 + k) = 5 - k := by omega
    rw [hoff] at hxor
    exact ofNat_inj ((UInt8.xor_right_inj _).mp hxor)
  have h14 := hget 14 (by decide)
  have h15 := hget 15 (by decide)
  simp only [ctrBlock] at h14 h15
  rw [Vector.getElem_set_ne _ _ (by decide), Vector.getElem_set_self,
    Vector.getElem_set_ne _ _ (by decide), Vector.getElem_set_self] at h14
  rw [Vector.getElem_set_self, Vector.getElem_set_self] at h15
  have hhigh := ofNat_inj h14
  have hlow := ofNat_inj h15
  have h0 := hbyte 0 (by decide)
  have h1 := hbyte 1 (by decide)
  have h2 := hbyte 2 (by decide)
  have h3 := hbyte 3 (by decide)
  have h4 := hbyte 4 (by decide)
  have h5 := hbyte 5 (by decide)
  simp only [Nat.reduceSub, Nat.reduceMul, Nat.reducePow, Nat.div_one] at h0 h1 h2 h3 h4 h5
  omega

/-- A packet of the stream with the fixed header only. -/
structure Plain (ssrc seq : ℕ) (pkt : Bytes) : Prop where
  long : 12 ≤ pkt.length
  first : byte pkt 0 = 2 * 2 ^ 6
  ssrc : be32 pkt 8 = ssrc
  seq : be16 pkt 2 = seq

/-- What the header says stays in front of anything. -/
theorem be16_of_take {p q : Bytes} (hp : 12 ≤ p.length) {i : ℕ} (hi : i + 1 < 12) :
    be16 (p.take 12 ++ q) i = be16 p i := by
  have hlen : (p.take 12).length = 12 := by rw [List.length_take]; omega
  rw [be16_append _ _ (by omega)]
  have hprefix := List.take_prefix 12 p
  rw [be16, be16, byte_prefix_eq hprefix (by omega), byte_prefix_eq hprefix (by omega)]

theorem Plain.append {ssrc seq : ℕ} {pkt : Bytes} (h : Plain ssrc seq pkt) (q : Bytes) :
    Plain ssrc seq (pkt.take 12 ++ q) := by
  have hlen : (pkt.take 12).length = 12 := by
    rw [List.length_take]
    exact min_eq_left h.long
  refine ⟨by rw [List.length_append, hlen]; omega, ?_, ?_, ?_⟩
  · rw [← h.first]
    have hfront := byte_prefix_eq (List.prefix_append (pkt.take 12) q) (i := 0) (by omega)
    exact hfront.symm.trans (byte_prefix_eq (List.take_prefix 12 pkt) (by omega))
  · rw [← h.ssrc, be32, be32, be16_of_take h.long (by decide), be16_of_take h.long (by decide)]
  · rw [← h.seq, be16_of_take h.long (by decide)]

theorem Plain.headerLength {ssrc seq : ℕ} {pkt : Bytes} (h : Plain ssrc seq pkt) {n : ℕ}
    (hn : 12 ≤ n) : Rtp.headerLength pkt n = 12 := by
  unfold Rtp.headerLength Rtp.kHeaderBytes
  rw [h.first, if_neg (by omega)]
  dsimp only
  rw [if_neg (by decide), if_pos (by omega)]
  rfl

/-- A packet under its extended index, with the tag behind it. -/
def sealRtp (c : Crypto) (d : Dir) (index : ℕ) (pkt : Bytes) : Bytes :=
  let body := pkt.take 12 ++ cmXor d.cipher (makeIv d.salt (be32 pkt 8) index) (pkt.drop 12)
  body ++ tag c d (body ++ ofBe32 (index / 2 ^ 16))

theorem length_tag (c : Crypto) (d : Dir) (m : Bytes) : (tag c d m).length = 10 := by
  rw [tag, List.length_take, Vector.length_toList]
  rfl

/-- Nothing has come yet, or all is of this stream. -/
def OnlyStream {σ : Type} [Inhabited σ] (ssrc : ℕ) (t : Table σ) : Option σ → Prop
  | none => ∀ i, (t i).seen = false ∧ (t i).st = default
  | some x => ∃ i, t i = ⟨ssrc, true, x⟩ ∧ ∀ j, j ≠ i → (t j).seen = false

variable {σ : Type} [Inhabited σ] {ssrc : ℕ} {t : Table σ} {cur : Option σ}

/-- The lookup finds the stream, or a slot that is free. -/
theorem OnlyStream.slot_cases (h : OnlyStream ssrc t cur) :
    (∃ i x, cur = some x ∧ slot t ssrc = (i, t) ∧ t i = ⟨ssrc, true, x⟩ ∧
      ∀ j, j ≠ i → (t j).seen = false) ∨
    (cur = none ∧ ∃ i, slot t ssrc = (i, Function.update t i { t i with ssrc := ssrc }) ∧
      ∀ j, (t j).seen = false ∧ (t j).st = default) := by
  cases cur with
  | none =>
    obtain ⟨i, hseen, -, -⟩ | ⟨-, i, -, hslot⟩ | ⟨hall, -⟩ := Webrtc.slot_cases t ssrc
    · exact absurd ((h i).1.symm.trans hseen) Bool.false_ne_true
    · exact .inr ⟨rfl, i, hslot, h⟩
    · exact absurd ((h (0 : Fin 4)).1.symm.trans (hall (0 : Fin 4)).1) Bool.false_ne_true
  | some x =>
    obtain ⟨k, hk, hothers⟩ := h
    obtain ⟨i, hseen, -, hslot⟩ | ⟨hother, -⟩ | ⟨hall, -⟩ := Webrtc.slot_cases t ssrc
    · obtain rfl : i = k := by
        by_contra hik
        exact absurd ((hothers i hik).symm.trans hseen) Bool.false_ne_true
      exact .inl ⟨i, x, rfl, hslot, hk, hothers⟩
    · exact absurd (congrArg Entry.ssrc hk) (hother k (congrArg Entry.seen hk))
    · exact absurd (congrArg Entry.ssrc hk) (hall k).2

theorem OnlyStream.entry (h : OnlyStream ssrc t cur) :
    (slot t ssrc).2 (slot t ssrc).1 = ⟨ssrc, cur.isSome, cur.getD default⟩ := by
  obtain ⟨i, x, rfl, hslot, hi, -⟩ | ⟨rfl, i, hslot, hall⟩ := h.slot_cases
  · rw [hslot]
    exact hi
  · rw [hslot]
    dsimp only
    rw [Function.update_self, (hall i).1, (hall i).2]
    rfl

/-- The stream's slot takes what it goes on to. -/
theorem OnlyStream.update (h : OnlyStream ssrc t cur) (x : σ) :
    OnlyStream ssrc (Function.update (slot t ssrc).2 (slot t ssrc).1 ⟨ssrc, true, x⟩) (some x) := by
  refine ⟨(slot t ssrc).1, Function.update_self _ _ _, fun j hj => ?_⟩
  rw [Function.update_of_ne hj]
  obtain ⟨i, y, rfl, hslot, -, hothers⟩ | ⟨rfl, i, hslot, hall⟩ := h.slot_cases
  · rw [hslot] at hj ⊢
    exact hothers j hj
  · rw [hslot] at hj ⊢
    dsimp only at hj ⊢
    rw [Function.update_of_ne hj]
    exact (hall j).1

/-- The extended index that a packet is protected under. -/
def sentIndex (c : Crypto) (s : SrtpSession) (pkt : Bytes) : ℕ :=
  let e := (protectRtp c s pkt).1.streamsOut (slot s.streamsOut (be32 pkt 8)).1
  e.st.roc * 2 ^ 16 + e.st.last

/-- What the sender keeps of a stream whose index has come to `n`, if it has sent any. -/
def sentUpTo (start : ℕ) : ℕ → Option OutSeq
  | 0 => none
  | k + 1 => some ⟨(start + k) / 2 ^ 16, (start + k) % 2 ^ 16⟩

variable {c : Crypto} {s : SrtpSession} {pkt : Bytes} {start k : ℕ}

/-- One packet is protected under the next index. -/
theorem protectRtp_next (hstart : start < 2 ^ 16) (h : OnlyStream ssrc s.streamsOut (sentUpTo start k))
    (hpkt : Plain ssrc ((start + k) % 2 ^ 16) pkt) (hwraps : start + k < 2 ^ 48) :
    (protectRtp c s pkt).2 = some (sealRtp c s.rtpOut (start + k) pkt) ∧
      OnlyStream ssrc (protectRtp c s pkt).1.streamsOut (sentUpTo start (k + 1)) ∧
      (protectRtp c s pkt).1.rtpOut = s.rtpOut ∧ sentIndex c s pkt = start + k := by
  have hentry := h.entry
  have hroc : (if (sentUpTo start k).isSome = true ∧
      (start + k) % 2 ^ 16 < ((sentUpTo start k).getD default).last ∧
      0x8000 < (((sentUpTo start k).getD default).last - (start + k) % 2 ^ 16) % 2 ^ 16 then
      (((sentUpTo start k).getD default).roc + 1) % 2 ^ 32
      else ((sentUpTo start k).getD default).roc) = (start + k) / 2 ^ 16 := by
    cases k with
    | zero =>
      rw [if_neg (by simp [sentUpTo])]
      show 0 = (start + 0) / 2 ^ 16
      omega
    | succ k =>
      simp only [sentUpTo, Option.isSome_some, Option.getD_some, true_and]
      split_ifs with hwrap
      · omega
      · omega
  have hindex : (start + k) / 2 ^ 16 * 2 ^ 16 + (start + k) % 2 ^ 16 = start + k :=
    Nat.div_add_mod' (start + k) (2 ^ 16)
  have hstep : protectRtp c s pkt = ({ s with
      streamsOut := Function.update (slot s.streamsOut ssrc).2 (slot s.streamsOut ssrc).1
        ⟨ssrc, true, ⟨(start + k) / 2 ^ 16, (start + k) % 2 ^ 16⟩⟩ },
      some (sealRtp c s.rtpOut (start + k) pkt)) := by
    unfold protectRtp
    rw [if_neg (Nat.not_lt.mpr hpkt.long), hpkt.ssrc, hpkt.seq]
    dsimp only
    rw [hentry]
    dsimp only
    rw [hroc, hindex, sealRtp, hpkt.ssrc]
  rw [sentIndex, hstep, hpkt.ssrc]
  refine ⟨rfl, h.update _, rfl, ?_⟩
  dsimp only
  rw [Function.update_self]
  exact hindex

/-- What comes of a list of packets, one after the other. -/
def protectAll (c : Crypto) : SrtpSession → List Bytes → List (Option Bytes)
  | _, [] => []
  | s, pkt :: pkts => (protectRtp c s pkt).2 :: protectAll c (protectRtp c s pkt).1 pkts

def sentIndices (c : Crypto) : SrtpSession → List Bytes → List ℕ
  | _, [] => []
  | s, pkt :: pkts => sentIndex c s pkt :: sentIndices c (protectRtp c s pkt).1 pkts

/-- Packets of one stream with consecutive sequence numbers. -/
def Consecutive (ssrc start : ℕ) (pkts : List Bytes) : Prop :=
  ∀ j (hj : j < pkts.length), Plain ssrc ((start + j) % 2 ^ 16) pkts[j]

theorem protectAll_consecutive (hstart : start < 2 ^ 16)
    (h : OnlyStream ssrc s.streamsOut (sentUpTo start k)) {pkts : List Bytes}
    (hpkts : Consecutive ssrc (start + k) pkts) (hwraps : start + k + pkts.length ≤ 2 ^ 48) :
    protectAll c s pkts = pkts.mapIdx (fun j p => some (sealRtp c s.rtpOut (start + k + j) p)) ∧
      sentIndices c s pkts = (List.range pkts.length).map (start + k + ·) := by
  induction pkts generalizing s k with
  | nil => exact ⟨rfl, rfl⟩
  | cons pkt pkts ih =>
    rw [List.length_cons] at hwraps
    have hfirst : Plain ssrc ((start + k) % 2 ^ 16) pkt := hpkts 0 (Nat.succ_pos _)
    obtain ⟨hout, hnext, hdir, hindex⟩ := protectRtp_next (c := c) hstart h hfirst (by omega)
    have hrest : Consecutive ssrc (start + (k + 1)) pkts := by
      intro j hj
      have hplain := hpkts (j + 1) (Nat.succ_lt_succ hj)
      have hshift : start + (k + 1) + j = start + k + (j + 1) := by omega
      rw [hshift]
      exact hplain
    obtain ⟨hall, hindices⟩ := ih hnext hrest (by omega)
    have hshift : ∀ j, start + (k + 1) + j = start + k + (j + 1) := fun j => by omega
    constructor
    · rw [protectAll, hout, hall, hdir, List.mapIdx_cons]
      simp only [hshift, Nat.add_zero]
    · rw [sentIndices, hindex, hindices, List.length_cons, List.range_succ_eq_map, List.map_cons,
        List.map_map]
      refine congrArg (_ :: ·) (List.map_congr_left fun j _ => ?_)
      exact hshift j

theorem estimate_next (ssrc index : ℕ) {x : InSeq} (hhigh : x.high < 2 ^ 16)
    (hsum : x.roc * 2 ^ 16 + x.high = x.winHigh) (hfwd : index < x.winHigh + 2 ^ 15)
    (hback : x.winHigh ≤ index + 63) (hindex : index < 2 ^ 48) :
    estimate ⟨ssrc, true, x⟩ (index % 2 ^ 16) = index / 2 ^ 16 := by
  unfold estimate
  dsimp only
  rw [if_pos rfl]
  split_ifs <;> omega

/-- The roll-over count and the highest sequence number after a packet. -/
def nextTop (x : InSeq) (v seq : ℕ) : ℕ × ℕ :=
  if v = (x.roc + 1) % 2 ^ 32 then (v, seq)
  else if v = x.roc ∧ x.high < seq then (x.roc, seq)
  else (x.roc, x.high)

theorem nextTop_eq {x : InSeq} {index : ℕ} (hhigh : x.high < 2 ^ 16)
    (hsum : x.roc * 2 ^ 16 + x.high = x.winHigh) (hfwd : index < x.winHigh + 2 ^ 15)
    (hback : x.winHigh ≤ index + 63) (hindex : index < 2 ^ 48) (hwin : x.winHigh < 2 ^ 48) :
    (nextTop x (index / 2 ^ 16) (index % 2 ^ 16)).2 < 2 ^ 16 ∧
      (nextTop x (index / 2 ^ 16) (index % 2 ^ 16)).1 * 2 ^ 16 +
        (nextTop x (index / 2 ^ 16) (index % 2 ^ 16)).2 = max x.winHigh index := by
  unfold nextTop
  by_cases hround : index / 2 ^ 16 = (x.roc + 1) % 2 ^ 32
  · rw [if_pos hround]
    dsimp only
    omega
  · rw [if_neg hround]
    by_cases hsame : index / 2 ^ 16 = x.roc ∧ x.high < index % 2 ^ 16
    · rw [if_pos hsame]
      dsimp only
      omega
    · rw [if_neg hsame]
      dsimp only
      omega

/-- The highest index goes on where the packet is ahead of it. -/
theorem advance_next (ssrc index : ℕ) {x : InSeq} (hhigh : x.high < 2 ^ 16)
    (hsum : x.roc * 2 ^ 16 + x.high = x.winHigh) (hfwd : index < x.winHigh + 2 ^ 15)
    (hback : x.winHigh ≤ index + 63) (hindex : index < 2 ^ 48) (hwin : x.winHigh < 2 ^ 48) :
    let y := (advance ⟨ssrc, true, x⟩ (index / 2 ^ 16) (index % 2 ^ 16)).st
    y.high < 2 ^ 16 ∧ y.roc * 2 ^ 16 + y.high = y.winHigh ∧ y.winHigh = max x.winHigh index := by
  obtain ⟨hlow, htop⟩ := nextTop_eq hhigh hsum hfwd hback hindex hwin
  have hpair : index / 2 ^ 16 * 2 ^ 16 + index % 2 ^ 16 = index := Nat.div_add_mod' index (2 ^ 16)
  unfold advance
  dsimp only
  rw [if_neg (show ¬ (!true) = true from Bool.false_ne_true), hpair]
  by_cases hlt : x.winHigh < index
  · rw [max_eq_right hlt.le] at htop ⊢
    rw [if_pos hlt]
    exact ⟨hlow, htop, rfl⟩
  · rw [max_eq_left (Nat.not_lt.mp hlt)] at htop ⊢
    rw [if_neg hlt]
    exact ⟨hlow, htop, rfl⟩

/-- The indices of the packets delivered. -/
def indices (start : ℕ) (past : List ℕ) : Set ℕ := {i | ∃ d ∈ past, i = start + d}

/-- What the receiver keeps of a stream of which packets have been delivered. -/
structure Heard (start : ℕ) (past : List ℕ) (x : InSeq) : Prop where
  high : x.high < 2 ^ 16
  sum : x.roc * 2 ^ 16 + x.high = x.winHigh
  tracks : Tracks x.winHigh x.winMask (indices start past)
  top : x.winHigh ∈ indices start past

/-- The next packet may be delivered: the first of all is of the first round, and any other is less
than 2^15 ahead of the highest or at most 63 behind it, and has not come yet. -/
structure Deliverable (start n : ℕ) (past : List ℕ) (d : ℕ) : Prop where
  lt : d < n
  new : d ∉ past
  first : past = [] → start + d < 2 ^ 16
  near : ∀ h ∈ past, (∀ g ∈ past, g ≤ h) → d < h + 2 ^ 15 ∧ h ≤ d + 63

theorem indices_cons (start d : ℕ) (past : List ℕ) :
    indices start (d :: past) = insert (start + d) (indices start past) := by
  ext i
  simp [indices]

/-- The session that gives a protected packet back. -/
theorem unprotectRtp_sealRtp {v : ℕ} {index : ℕ} (hpkt : Plain ssrc (index % 2 ^ 16) pkt)
    (hest : estimate (entryFor s (sealRtp c s.rtpIn index pkt)) (index % 2 ^ 16) = index / 2 ^ 16)
    (hnew : replayed (entryFor s (sealRtp c s.rtpIn index pkt)) index = false) (hv : v = index / 2 ^ 16) :
    unprotectRtp c s (sealRtp c s.rtpIn index pkt) = ({ s with
      streamsIn := Function.update (slot s.streamsIn ssrc).2 (slot s.streamsIn ssrc).1
        (advance (entryFor s (sealRtp c s.rtpIn index pkt)) v (index % 2 ^ 16)) },
      some (pkt, 12)) := by
  have hpair : index / 2 ^ 16 * 2 ^ 16 + index % 2 ^ 16 = index := Nat.div_add_mod' index (2 ^ 16)
  have hlen12 : (pkt.take 12).length = 12 := by
    rw [List.length_take]
    exact min_eq_left hpkt.long
  obtain ⟨body, hbody⟩ : ∃ b, b = pkt.take 12 ++
      cmXor s.rtpIn.cipher (makeIv s.rtpIn.salt ssrc index) (pkt.drop 12) := ⟨_, rfl⟩
  have hblen : body.length = pkt.length := by
    rw [hbody, List.length_append, length_cmXor, List.length_drop, hlen12]
    have := hpkt.long
    omega
  have hseal : sealRtp c s.rtpIn index pkt = body ++ tag c s.rtpIn (body ++ ofBe32 (index / 2 ^ 16)) := by
    rw [hbody, sealRtp, hpkt.ssrc]
  have hplain : Plain ssrc (index % 2 ^ 16) (sealRtp c s.rtpIn index pkt) := by
    rw [hseal, hbody, List.append_assoc]
    exact hpkt.append _
  have hlen : (sealRtp c s.rtpIn index pkt).length = pkt.length + 10 := by
    rw [hseal, List.length_append, length_tag, hblen]
  have hlong := hpkt.long
  have htake : (sealRtp c s.rtpIn index pkt).take pkt.length = body := by
    rw [hseal, ← hblen, List.take_left]
  have hdrop : (sealRtp c s.rtpIn index pkt).drop pkt.length =
      tag c s.rtpIn (body ++ ofBe32 (index / 2 ^ 16)) := by
    rw [hseal, ← hblen, List.drop_left]
  have htake12 : (sealRtp c s.rtpIn index pkt).take 12 = pkt.take 12 := by
    rw [hseal, hbody, List.append_assoc]
    exact List.take_left' hlen12
  have hdrop12 : body.drop 12 =
      cmXor s.rtpIn.cipher (makeIv s.rtpIn.salt ssrc index) (pkt.drop 12) := by
    rw [hbody]
    exact List.drop_left' hlen12
  have hunpad : unpad pkt 12 = some pkt := by
    unfold unpad
    rw [hpkt.first, if_neg (fun h => absurd h.1 (by decide))]
  have hentry : (slot s.streamsIn ssrc).2 (slot s.streamsIn ssrc).1 =
      entryFor s (sealRtp c s.rtpIn index pkt) := by
    rw [entryFor, hplain.ssrc]
  unfold unprotectRtp
  rw [if_neg (by omega), hlen, Nat.add_sub_cancel]
  dsimp only
  rw [hplain.headerLength hlong, if_neg (by decide), hplain.ssrc, hplain.seq, hentry, hest, hpair, hnew,
    if_neg Bool.false_ne_true, htake, hdrop, if_neg (not_not.mpr rfl), htake12, hdrop12, cmXor_cmXor,
    List.take_append_drop, hunpad, hv]
  rfl

/-- One packet that may be delivered is accepted under the index of the sender. -/
theorem unprotectRtp_next {past : List ℕ} {n d : ℕ} {cur : Option InSeq}
    (h : OnlyStream ssrc s.streamsIn cur) (hnone : cur = none → past = [])
    (hsome : ∀ x ∈ cur, Heard start past x) (hd : Deliverable start n past d)
    (hn : start + n ≤ 2 ^ 48) (hlt : ∀ g ∈ past, g < n)
    (hpkt : Plain ssrc ((start + d) % 2 ^ 16) pkt) :
    (unprotectRtp c s (sealRtp c s.rtpIn (start + d) pkt)).2 = some (pkt, 12) ∧
      indexFor s (sealRtp c s.rtpIn (start + d) pkt) = start + d ∧
      (unprotectRtp c s (sealRtp c s.rtpIn (start + d) pkt)).1.rtpIn = s.rtpIn ∧
      ∃ x, OnlyStream ssrc (unprotectRtp c s (sealRtp c s.rtpIn (start + d) pkt)).1.streamsIn (some x) ∧
        Heard start (d :: past) x := by
  have hdlt := hd.lt
  have hplain : Plain ssrc ((start + d) % 2 ^ 16) (sealRtp c s.rtpIn (start + d) pkt) := by
    rw [sealRtp, List.append_assoc]
    exact hpkt.append _
  have hentry : entryFor s (sealRtp c s.rtpIn (start + d) pkt) =
      ⟨ssrc, cur.isSome, cur.getD default⟩ := by
    rw [entryFor, hplain.ssrc]
    exact h.entry
  have hpair : (start + d) / 2 ^ 16 * 2 ^ 16 + (start + d) % 2 ^ 16 = start + d :=
    Nat.div_add_mod' (start + d) (2 ^ 16)
  have hkey : estimate ⟨ssrc, cur.isSome, cur.getD default⟩ ((start + d) % 2 ^ 16) =
        (start + d) / 2 ^ 16 ∧
      replayed ⟨ssrc, cur.isSome, cur.getD default⟩ (start + d) = false ∧
      Heard start (d :: past) (advance ⟨ssrc, cur.isSome, cur.getD default⟩ ((start + d) / 2 ^ 16)
        ((start + d) % 2 ^ 16)).st := by
    cases cur with
    | none =>
      obtain rfl := hnone rfl
      have hround := hd.first rfl
      refine ⟨?_, rfl, ?_⟩
      · show 0 = (start + d) / 2 ^ 16
        omega
      · have htracks := tracks_advance_first (e := ⟨ssrc, false, default⟩) rfl ((start + d) / 2 ^ 16)
          ((start + d) % 2 ^ 16)
        rw [hpair] at htracks
        refine ⟨Nat.mod_lt _ (by decide), hpair.trans hpair.symm, ?_, ?_⟩
        · rw [indices_cons]
          simpa [indices] using htracks
        · rw [indices_cons]
          exact Set.mem_insert_iff.mpr (.inl hpair)
    | some x =>
      have hx := hsome x rfl
      obtain ⟨top, htop, hwin⟩ := hx.top
      have hmax : ∀ g ∈ past, g ≤ top := by
        intro g hg
        have hle := hx.tracks.le (start + g) ⟨g, hg, rfl⟩
        omega
      obtain ⟨hfwd, hback⟩ := hd.near top htop hmax
      have htoplt := hlt top htop
      have hnotin : start + d ∉ indices start past := by
        rintro ⟨g, hg, heq⟩
        obtain rfl : d = g := by omega
        exact hd.new hg
      have hest := estimate_next ssrc (start + d) hx.high hx.sum (by omega)
        (by omega) (by omega)
      have hrep : replayed ⟨ssrc, true, x⟩ (start + d) = false := by
        rw [replayed]
        dsimp only
        by_cases hle : start + d ≤ x.winHigh
        · have hbit := hx.tracks.bit (x.winHigh - (start + d)) (by omega) (Nat.sub_le _ _)
          rw [Nat.sub_sub_self hle] at hbit
          have hclear : x.winMask.getLsbD (x.winHigh - (start + d)) = false := by
            rw [Bool.eq_false_iff]
            exact fun hset => hnotin (hbit.mp hset)
          rw [hclear, decide_eq_false (by omega : ¬ 64 ≤ x.winHigh - (start + d))]
          simp
        · rw [decide_eq_false hle]
          rfl
      refine ⟨hest, hrep, ?_⟩
      have htracks := (tracks_advance (e := ⟨ssrc, true, x⟩) rfl hx.tracks
        ((start + d) / 2 ^ 16) ((start + d) % 2 ^ 16) (by rwa [hpair])).1
      rw [hpair] at htracks
      obtain ⟨hhigh, hsum, hmaxwin⟩ := advance_next ssrc (start + d) hx.high hx.sum
        (by omega) (by omega) (by omega) (by omega)
      refine ⟨hhigh, hsum, by rw [indices_cons]; exact htracks, ?_⟩
      rw [indices_cons]
      show (advance ⟨ssrc, true, x⟩ ((start + d) / 2 ^ 16) ((start + d) % 2 ^ 16)).st.winHigh ∈ _
      rw [hmaxwin]
      obtain hle | hle := Nat.le_total x.winHigh (start + d)
      · rw [max_eq_right hle]
        exact Set.mem_insert _ _
      · rw [max_eq_left hle]
        exact Set.mem_insert_of_mem _ hx.top
  obtain ⟨hest, hrep, hheard⟩ := hkey
  have hstep := unprotectRtp_sealRtp (c := c) (s := s) hpkt (by rw [hentry]; exact hest)
    (by rw [hentry]; exact hrep) rfl
  rw [hentry] at hstep
  have hadv : advance ⟨ssrc, cur.isSome, cur.getD default⟩ ((start + d) / 2 ^ 16)
      ((start + d) % 2 ^ 16) = ⟨ssrc, true, (advance ⟨ssrc, cur.isSome, cur.getD default⟩
        ((start + d) / 2 ^ 16) ((start + d) % 2 ^ 16)).st⟩ := by
    have hs := advance_seen ⟨ssrc, cur.isSome, cur.getD default⟩ ((start + d) / 2 ^ 16)
      ((start + d) % 2 ^ 16)
    have hr := advance_ssrc ⟨ssrc, cur.isSome, cur.getD default⟩ ((start + d) / 2 ^ 16)
      ((start + d) % 2 ^ 16)
    generalize advance ⟨ssrc, cur.isSome, cur.getD default⟩ ((start + d) / 2 ^ 16)
      ((start + d) % 2 ^ 16) = e at hs hr ⊢
    obtain ⟨r, b, x⟩ := e
    obtain rfl : r = ssrc := hr
    obtain rfl : b = true := hs
    rfl
  refine ⟨by rw [hstep], ?_, by rw [hstep], _, ?_, hheard⟩
  · rw [indexFor, hplain.seq, hentry, hest, hpair]
  · rw [hstep, hadv]
    exact h.update _

/-- What comes of protected packets, each with the extended index it is checked under. -/
def unprotectAll (c : Crypto) : SrtpSession → List Bytes → List (ℕ × Option (Bytes × ℕ))
  | _, [] => []
  | s, pkt :: pkts =>
    (indexFor s pkt, (unprotectRtp c s pkt).2) :: unprotectAll c (unprotectRtp c s pkt).1 pkts

/-- The order in which some packets of those sent are delivered. -/
def Delivery (start n : ℕ) : List ℕ → List ℕ → Prop
  | _, [] => True
  | past, d :: ds => Deliverable start n past d ∧ Delivery start n (d :: past) ds

theorem unprotectAll_delivery {pkts : List Bytes} (hpkts : Consecutive ssrc start pkts)
    (hn : start + pkts.length ≤ 2 ^ 48) {ds past : List ℕ} {cur : Option InSeq}
    (h : OnlyStream ssrc s.streamsIn cur) (hnone : cur = none → past = [])
    (hsome : ∀ x ∈ cur, Heard start past x) (hlt : ∀ g ∈ past, g < pkts.length)
    (hds : Delivery start pkts.length past ds) :
    unprotectAll c s (ds.filterMap fun d => pkts[d]?.map (sealRtp c s.rtpIn (start + d))) =
      ds.map fun d => (start + d, pkts[d]?.map fun p => (p, 12)) := by
  induction ds generalizing s past cur with
  | nil => rfl
  | cons d ds ih =>
    obtain ⟨hd, hrest⟩ := hds
    have hdlt := hd.lt
    have hget : pkts[d]? = some pkts[d] := List.getElem?_eq_getElem hdlt
    obtain ⟨hout, hindex, hdir, x, hnext, hheard⟩ :=
      unprotectRtp_next (c := c) h hnone hsome hd hn hlt (hpkts d hd.lt)
    have hmore := ih hnext nofun (fun y hy => Option.some.inj hy ▸ hheard) (fun g hg => by
      obtain rfl | hg := List.mem_cons.mp hg
      · exact hd.lt
      · exact hlt g hg) hrest
    rw [hdir] at hmore
    rw [List.filterMap_cons, hget]
    dsimp only [Option.map_some]
    rw [unprotectAll, hout, hindex, hmore, List.map_cons, hget]
    rfl

theorem onlyStream_ofKeys_out (c : Crypto) (k k' : SrtpKey) :
    OnlyStream ssrc (ofKeys c k k').streamsOut none := fun _ => ⟨rfl, rfl⟩

theorem onlyStream_ofKeys_in (c : Crypto) (k k' : SrtpKey) :
    OnlyStream ssrc (ofKeys c k k').streamsIn none := fun _ => ⟨rfl, rfl⟩

/-- The blocks that the cipher makes the keystream of a packet from. -/
def counterBlocks (d : Dir) (ssrc index : ℕ) (pkt : Bytes) : List Block :=
  (List.range ((pkt.length - 12 + 15) / 16)).map fun n =>
    ctrBlock (makeIv d.salt ssrc index) (n % 2 ^ 16)

theorem length_flatMap_blocks {α : Type} {w : ℕ} {g : ℕ → List α} (hg : ∀ i, (g i).length = w)
    (n : ℕ) : ((List.range n).flatMap g).length = n * w := by
  induction n with
  | zero => rw [Nat.zero_mul]; rfl
  | succ n ih =>
    rw [List.range_succ, List.flatMap_append, List.length_append, ih, List.flatMap_singleton, hg,
      Nat.succ_mul]

theorem getElem?_flatMap_blocks {α : Type} {w : ℕ} {g : ℕ → List α} (hg : ∀ i, (g i).length = w)
    {n off : ℕ} (h : off < n * w) :
    ((List.range n).flatMap g)[off]? = (g (off / w))[off % w]? := by
  induction n with
  | zero => omega
  | succ n ih =>
    have hlen := length_flatMap_blocks hg n
    rw [List.range_succ, List.flatMap_append, List.flatMap_singleton]
    by_cases hlt : off < n * w
    · rw [List.getElem?_append_left (hlen ▸ hlt), ih hlt]
    · rw [Nat.succ_mul] at h
      have hmul : n * w = w * n := Nat.mul_comm n w
      obtain ⟨k, rfl⟩ : ∃ k, off = w * n + k := ⟨off - w * n, by omega⟩
      have hk : k < w := by omega
      rw [List.getElem?_append_right (by omega), hlen, Nat.mul_add_div (by omega),
        Nat.mul_add_mod, Nat.div_eq_of_lt hk, Nat.mod_eq_of_lt hk, Nat.add_zero, hmul,
        Nat.add_sub_cancel_left]

/-- What is put over the payload of a packet is what the cipher makes of exactly these blocks. -/
theorem cmXor_counterBlocks (d : Dir) (ssrc index : ℕ) (pkt : Bytes) :
    cmXor d.cipher (makeIv d.salt ssrc index) (pkt.drop 12) =
      List.zipWith (· ^^^ ·) (pkt.drop 12)
        ((counterBlocks d ssrc index pkt).flatMap fun b => (d.cipher b).toList) := by
  have hstream : ((counterBlocks d ssrc index pkt).flatMap fun b => (d.cipher b).toList) =
      (List.range ((pkt.length - 12 + 15) / 16)).flatMap fun n =>
        (d.cipher (ctrBlock (makeIv d.salt ssrc index) (n % 2 ^ 16))).toList :=
    List.flatMap_map _ _ _
  have hblock : ∀ n, (d.cipher (ctrBlock (makeIv d.salt ssrc index) (n % 2 ^ 16))).toList.length =
      16 := fun _ => Vector.length_toList
  rw [hstream]
  apply List.ext_getElem?
  intro off
  rw [List.getElem?_zipWith]
  unfold cmXor
  rw [List.getElem?_mapIdx]
  cases hbyte : (pkt.drop 12)[off]? with
  | none => rfl
  | some b =>
    have hoff := (List.getElem?_eq_some_iff.mp hbyte).1
    rw [List.length_drop] at hoff
    rw [getElem?_flatMap_blocks hblock (by omega)]
    have hmod : off % 16 < 16 := Nat.mod_lt _ (by decide)
    rw [List.getElem?_eq_getElem (by rw [hblock]; exact hmod), Vector.getElem_toList]
    rfl

/-- No block of a packet that is short enough is of another, or comes twice. -/
theorem counterBlocks_nodup (d : Dir) {pkts : List Bytes} (hsize : ∀ p ∈ pkts, p.length < 2 ^ 20)
    (hn : start + pkts.length ≤ 2 ^ 48) :
    (((List.range pkts.length).map (start + ·)).zip pkts |>.flatMap fun p =>
      counterBlocks d ssrc p.1 p.2).Nodup := by
  have hblocks : ∀ p ∈ pkts, ∀ n < (p.length - 12 + 15) / 16, n < 2 ^ 16 := by
    intro p hp n hlt
    have hlen := hsize p hp
    omega
  rw [List.nodup_flatMap]
  constructor
  · rintro ⟨index, p⟩ hp
    have hmem := (List.of_mem_zip hp).2
    obtain ⟨j, hj, rfl⟩ := List.mem_map.mp (List.of_mem_zip hp).1
    have hjlt := List.mem_range.mp hj
    refine List.Nodup.map_on ?_ List.nodup_range
    intro a ha b hb hab
    have halt := hblocks p hmem a (List.mem_range.mp ha)
    have hblt := hblocks p hmem b (List.mem_range.mp hb)
    rw [Nat.mod_eq_of_lt halt, Nat.mod_eq_of_lt hblt] at hab
    exact (ctrBlock_inj (by omega) (by omega) halt hblt hab).2
  · rw [List.pairwise_iff_getElem]
    intro i j hi hj hij
    rw [List.length_zip, List.length_map, List.length_range, min_self] at hi hj
    rw [List.getElem_zip, List.getElem_zip, List.getElem_map, List.getElem_map,
      List.getElem_range, List.getElem_range]
    refine List.disjoint_left.mpr ?_
    intro block hbi hbj
    obtain ⟨a, ha, rfl⟩ := List.mem_map.mp hbi
    obtain ⟨b, hb, hab⟩ := List.mem_map.mp hbj
    have halt := hblocks _ (List.getElem_mem hi) a (List.mem_range.mp ha)
    have hblt := hblocks _ (List.getElem_mem hj) b (List.mem_range.mp hb)
    rw [Nat.mod_eq_of_lt halt, Nat.mod_eq_of_lt hblt] at hab
    have hsame := (ctrBlock_inj (by omega) (by omega) hblt halt hab).1
    omega

/-- Consecutive packets are protected under indices that go up by one, with no block of the keystream
twice; and whatever of them is delivered, not too far out of order, is accepted under the index of
the sender and comes back as it was. -/
theorem unprotectAll_protectAll (c : Crypto) (key out inn : SrtpKey) (ssrc start : ℕ)
    (hstart : start < 2 ^ 16) (pkts : List Bytes) (hpkts : Consecutive ssrc start pkts)
    (hsize : ∀ p ∈ pkts, p.length < 2 ^ 20) (hwraps : start + pkts.length ≤ 2 ^ 48) :
    let sender := ofKeys c key out
    sentIndices c sender pkts = (List.range pkts.length).map (start + ·) ∧
    (sentIndices c sender pkts).Pairwise (· < ·) ∧
    ((sentIndices c sender pkts).zip pkts |>.flatMap fun p =>
      counterBlocks sender.rtpOut ssrc p.1 p.2).Nodup ∧
    ∀ ds, Delivery start pkts.length [] ds →
      unprotectAll c (ofKeys c inn key) (ds.filterMap fun d => (protectAll c sender pkts)[d]?.join) =
        ds.map fun d => (start + d, pkts[d]?.map fun p => (p, 12)) := by
  intro sender
  obtain ⟨hall, hindices⟩ := protectAll_consecutive (c := c) (s := sender) (k := 0) hstart
    (onlyStream_ofKeys_out c key out) hpkts hwraps
  simp only [Nat.add_zero] at hall hindices
  refine ⟨hindices, ?_, ?_, ?_⟩
  · rw [hindices, List.pairwise_map]
    exact List.pairwise_lt_range.imp fun h => Nat.add_lt_add_left h start
  · rw [hindices]
    exact counterBlocks_nodup sender.rtpOut hsize hwraps
  · intro ds hds
    have hback := unprotectAll_delivery (c := c) (s := ofKeys c inn key) hpkts hwraps
      (onlyStream_ofKeys_in c inn key) (fun _ => rfl) nofun nofun hds
    have hdir : (ofKeys c inn key).rtpIn = sender.rtpOut := rfl
    rw [← hback, hall, hdir]
    refine congrArg (unprotectAll c _) (List.filterMap_congr fun d _ => ?_)
    rw [List.getElem?_mapIdx]
    cases pkts[d]? with
    | none => rfl
    | some p => rfl

/-- Two packets about a wrap. -/
def wrapPackets : List Bytes :=
  [Rtp.writeHeader 96 false 65535 0 7 ++ [1, 2], Rtp.writeHeader 96 false 0 0 7 ++ [3]]

theorem consecutive_wrapPackets : Consecutive 7 65535 wrapPackets := by
  intro j hj
  match j with
  | 0 =>
    show Plain 7 ((65535 + 0) % 2 ^ 16) (Rtp.writeHeader 96 false 65535 0 7 ++ [1, 2])
    exact ⟨by decide, by decide, by decide, by decide⟩
  | 1 =>
    show Plain 7 ((65535 + 1) % 2 ^ 16) (Rtp.writeHeader 96 false 0 0 7 ++ [3])
    exact ⟨by decide, by decide, by decide, by decide⟩
  | j + 2 => exact absurd hj (by simp [wrapPackets])

theorem unprotectAll_wrapPackets :
    unprotectAll onesTag (ofKeys onesTag oneKey oneKey)
        ([0, 1].filterMap fun d =>
          (protectAll onesTag (ofKeys onesTag oneKey oneKey) wrapPackets)[d]?.join) =
      [0, 1].map fun d => (65535 + d, wrapPackets[d]?.map fun p => (p, 12)) :=
  (unprotectAll_protectAll onesTag oneKey oneKey oneKey 7 65535 (by decide) wrapPackets
    consecutive_wrapPackets (by decide) (by decide)).2.2.2 [0, 1]
    ⟨⟨by decide, by decide, by decide, by decide⟩, ⟨by decide, by decide, by decide, by decide⟩,
      trivial⟩

end Machino.Webrtc
