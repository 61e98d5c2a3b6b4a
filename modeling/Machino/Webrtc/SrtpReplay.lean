import Mathlib.Data.Fintype.Card
import Machino.Basic.ReplayWindow
import Machino.Webrtc.Srtp

namespace Machino.Webrtc

open Bytes SrtpSession

inductive Packet where
  | rtp (pkt : Bytes)
  | rtcp (pkt : Bytes)

/-- The session after a packet from the peer. -/
def received (c : Crypto) (s : SrtpSession) : Packet → SrtpSession
  | .rtp pkt => (unprotectRtp c s pkt).1
  | .rtcp pkt => (unprotectRtcp c s pkt).1

/-- The entry that a packet is checked against. -/
def entryFor (s : SrtpSession) (pkt : Bytes) : Entry InSeq :=
  (slot s.streamsIn (be32 pkt 8)).2 (slot s.streamsIn (be32 pkt 8)).1

/-- A packet has a header and a tag behind it. -/
def HasTag (pkt : Bytes) : Prop :=
  12 + 10 ≤ pkt.length ∧ Rtp.headerLength pkt (pkt.length - 10) ≠ 0

def Verifies (c : Crypto) (s : SrtpSession) : Packet → Prop
  | .rtp pkt =>
    HasTag pkt ∧
      tag c s.rtpIn (pkt.take (pkt.length - 10) ++ ofBe32 (estimate (entryFor s pkt) (be16 pkt 2))) =
        pkt.drop (pkt.length - 10)
  | .rtcp pkt =>
    8 + 4 + 10 ≤ pkt.length ∧
      tag c s.rtcpIn (pkt.take (pkt.length - 10)) = pkt.drop (pkt.length - 10)

/-- Each stream that has been seen keeps its slot and all that is in it, and the window of the
control packets stays. -/
structure Unchanged (s t : SrtpSession) : Prop where
  streams : ∀ i, (s.streamsIn i).seen = true → t.streamsIn i = s.streamsIn i
  high : t.inReplayHigh = s.inReplayHigh
  mask : t.inReplayMask = s.inReplayMask

theorem Unchanged.refl (s : SrtpSession) : Unchanged s s := ⟨fun _ _ => rfl, rfl, rfl⟩

/-- A packet with a header, of a stream that has no slot while none is free. -/
def Evicts (s : SrtpSession) : Packet → Prop
  | .rtp pkt =>
    HasTag pkt ∧ ∀ i, (s.streamsIn i).seen = true ∧ (s.streamsIn i).ssrc ≠ be32 pkt 8
  | .rtcp _ => False

variable {c : Crypto} {s : SrtpSession}

/-- Where the tag is wrong, the lookup of the slot is all that is done. -/
theorem unprotectRtp_of_not_verifies {pkt : Bytes} (h : ¬ Verifies c s (.rtp pkt))
    (htag : HasTag pkt) :
    (unprotectRtp c s pkt).1 = { s with streamsIn := (slot s.streamsIn (be32 pkt 8)).2 } := by
  have hne : tag c s.rtpIn (pkt.take (pkt.length - 10) ++
      ofBe32 (estimate (entryFor s pkt) (be16 pkt 2))) ≠ pkt.drop (pkt.length - 10) :=
    fun heq => h ⟨htag, heq⟩
  unfold entryFor at hne
  unfold unprotectRtp
  rw [if_neg (Nat.not_lt.mpr htag.1)]
  dsimp only
  rw [if_neg htag.2, if_pos hne, ite_self]

theorem unprotectRtp_of_not_hasTag {pkt : Bytes} (htag : ¬ HasTag pkt) :
    (unprotectRtp c s pkt).1 = s := by
  unfold unprotectRtp
  split_ifs with hlen
  · rfl
  · have hdr : Rtp.headerLength pkt (pkt.length - 10) = 0 :=
      not_not.mp fun hdr => htag ⟨Nat.not_lt.mp hlen, hdr⟩
    dsimp only
    rw [if_pos hdr]

/-- The lookup costs a stream its entry just where it wipes the first slot. -/
theorem slot_keeps_iff (a : Table InSeq) (ssrc : ℕ) :
    (∀ i, (a i).seen = true → (slot a ssrc).2 i = a i) ↔
      ¬ ∀ i, (a i).seen = true ∧ (a i).ssrc ≠ ssrc := by
  obtain ⟨i, -, hssrc, hslot⟩ | ⟨-, i, hseen, hslot⟩ | ⟨hall, hslot⟩ := slot_cases a ssrc
  · rw [hslot]
    exact ⟨fun _ hall => (hall i).2 hssrc, fun _ _ _ => rfl⟩
  · rw [hslot]
    refine ⟨fun _ hall => ?_, fun _ j hj => ?_⟩
    · exact absurd (hall i).1 (by simp [hseen])
    · exact Function.update_of_ne (fun hji => by simp [hji, hseen] at hj) _ _
  · rw [hslot]
    refine ⟨fun hkeep => ?_, fun hnot => absurd hall hnot⟩
    have hwiped : ({ ssrc := ssrc, st := default } : Entry InSeq) = a (0 : Fin 4) :=
      (Function.update_self (0 : Fin 4) _ a).symm.trans (hkeep (0 : Fin 4) (hall _).1)
    have hseen := (hall (0 : Fin 4)).1
    rw [← hwiped] at hseen
    exact absurd hseen Bool.false_ne_true

theorem unprotectRtcp_of_not_verifies {pkt : Bytes} (h : ¬ Verifies c s (.rtcp pkt)) :
    (unprotectRtcp c s pkt).1 = s := by
  unfold unprotectRtcp
  split_ifs with hlen
  · rfl
  · have hne : tag c s.rtcpIn (pkt.take (pkt.length - 10)) ≠ pkt.drop (pkt.length - 10) :=
      fun htag => h ⟨Nat.not_lt.mp hlen, htag⟩
    dsimp only
    rw [if_pos hne]

/-- A packet whose tag is wrong changes nothing just where it takes no other stream's slot. -/
theorem unchanged_iff {p : Packet} (h : ¬ Verifies c s p) :
    Unchanged s (received c s p) ↔ ¬ Evicts s p := by
  cases p with
  | rtp pkt =>
    by_cases htag : HasTag pkt
    · have hlookup := unprotectRtp_of_not_verifies h htag
      rw [received, hlookup]
      have hiff := slot_keeps_iff s.streamsIn (be32 pkt 8)
      exact ⟨fun hsame hev => hiff.mp hsame.streams hev.2,
        fun hev => ⟨hiff.mpr fun hall => hev ⟨htag, hall⟩, rfl, rfl⟩⟩
    · rw [received, unprotectRtp_of_not_hasTag htag]
      exact ⟨fun _ hev => htag hev.1, fun _ => Unchanged.refl s⟩
  | rtcp pkt =>
    rw [received, unprotectRtcp_of_not_verifies h]
    exact ⟨fun _ hev => hev, fun _ => Unchanged.refl s⟩

/-- An authentication code that is all ones, with a cipher that leaves blocks as they are. -/
def onesTag : Crypto where
  aes128 _ b := b
  hmacSha1 _ _ := Vector.replicate 20 1

def plainDir : Dir := { cipher := id, salt := Vector.replicate 14 0, auth := [] }

/-- Four streams have been heard. -/
def fourStreams : SrtpSession where
  rtpOut := plainDir
  rtcpOut := plainDir
  rtcpIn := plainDir
  rtpIn := plainDir
  streamsIn i := { ssrc := i.val, seen := true, st := { roc := 7 } }

/-- A header of version 2 of the stream, and zeros in the place of the tag. -/
def forged (ssrc : ℕ) : Bytes := Rtp.writeHeader 0 false 1 0 ssrc ++ List.replicate 10 0

theorem not_verifies_forged (ssrc : ℕ) : ¬ Verifies onesTag fourStreams (.rtp (forged ssrc)) := by
  rintro ⟨-, htag⟩
  have hzeros : (forged ssrc).drop ((forged ssrc).length - 10) = List.replicate 10 0 := rfl
  rw [hzeros] at htag
  exact absurd htag (by simp [tag, onesTag, Vector.toList_replicate])

theorem unchanged_forged_known :
    Unchanged fourStreams (received onesTag fourStreams (.rtp (forged 3))) :=
  (unchanged_iff (not_verifies_forged 3)).mpr fun hev => (hev.2 (3 : Fin 4)).2 (by decide)

theorem not_unchanged_forged :
    ¬ ∀ (c : Crypto) (s : SrtpSession) (p : Packet), ¬ Verifies c s p →
      Unchanged s (received c s p) := by
  intro h
  have hwiped := (h onesTag fourStreams (.rtp (forged 9)) (not_verifies_forged 9)).streams
    (0 : Fin 4) rfl
  exact absurd hwiped (by decide)

open Bytes SrtpSession

/-- What a packet is counted under: a stream with its extended index, or an SRTCP index. -/
inductive Mark where
  | rtp (ssrc index : ℕ)
  | rtcp (index : ℕ)
  deriving DecidableEq

/-- The extended index that a packet is checked under. -/
def indexFor (s : SrtpSession) (pkt : Bytes) : ℕ :=
  estimate (entryFor s pkt) (be16 pkt 2) * 2 ^ 16 + be16 pkt 2

def rtcpIndexOf (pkt : Bytes) : ℕ := be32 pkt (pkt.length - 10 - 4) % 2 ^ 31

def mark (s : SrtpSession) : Packet → Mark
  | .rtp pkt => .rtp (be32 pkt 8) (indexFor s pkt)
  | .rtcp pkt => .rtcp (rtcpIndexOf pkt)

def accepts (c : Crypto) (s : SrtpSession) : Packet → Bool
  | .rtp pkt => (unprotectRtp c s pkt).2.isSome
  | .rtcp pkt => (unprotectRtcp c s pkt).2.isSome

/-- What is accepted out of the packets that come in. -/
def acceptedMarks (c : Crypto) : SrtpSession → List Packet → List Mark
  | _, [] => []
  | s, p :: ps =>
    (if accepts c s p then [mark s p] else []) ++ acceptedMarks c (received c s p) ps

variable {c : Crypto} {s : SrtpSession}

/-- The session after a packet that has been taken in. -/
def takenIn (s : SrtpSession) (pkt : Bytes) : SrtpSession :=
  let (i, t) := slot s.streamsIn (be32 pkt 8)
  { s with streamsIn := Function.update t i (advance (t i) (estimate (t i) (be16 pkt 2)) (be16 pkt 2)) }

/-- A packet is turned away, or its stream goes on to its index. -/
theorem unprotectRtp_cases (c : Crypto) (s : SrtpSession) (pkt : Bytes) :
    ((unprotectRtp c s pkt).2 = none ∧ ((unprotectRtp c s pkt).1 = s ∨
      (unprotectRtp c s pkt).1 = { s with streamsIn := (slot s.streamsIn (be32 pkt 8)).2 })) ∨
    (replayed (entryFor s pkt) (indexFor s pkt) = false ∧
      (unprotectRtp c s pkt).1 = takenIn s pkt) := by
  unfold unprotectRtp
  by_cases hlen : pkt.length < 12 + 10
  · rw [if_pos hlen]
    exact .inl ⟨rfl, .inl rfl⟩
  · rw [if_neg hlen]
    dsimp only
    by_cases hdr : Rtp.headerLength pkt (pkt.length - 10) = 0
    · rw [if_pos hdr]
      exact .inl ⟨rfl, .inl rfl⟩
    · rw [if_neg hdr]
      by_cases hrep : replayed (entryFor s pkt) (indexFor s pkt) = true
      · unfold indexFor entryFor at hrep
        rw [if_pos hrep]
        exact .inl ⟨rfl, .inr rfl⟩
      · have hfresh := Bool.not_eq_true _ ▸ hrep
        unfold indexFor entryFor at hrep
        rw [if_neg hrep]
        split_ifs with htag
        · exact .inl ⟨rfl, .inr rfl⟩
        · exact .inr ⟨hfresh, rfl⟩

/-- A control packet is turned away, or the window takes its index in. -/
theorem unprotectRtcp_cases (c : Crypto) (s : SrtpSession) (pkt : Bytes) :
    ((unprotectRtcp c s pkt).2 = none ∧ (unprotectRtcp c s pkt).1 = s) ∨
    ∃ high mask, replayWindow s.inReplayHigh s.inReplayMask (rtcpIndexOf pkt) = some (high, mask) ∧
      (unprotectRtcp c s pkt).1 = { s with inReplayHigh := high, inReplayMask := mask } := by
  unfold unprotectRtcp
  by_cases hlen : pkt.length < 8 + 4 + 10
  · rw [if_pos hlen]
    exact .inl ⟨rfl, rfl⟩
  · rw [if_neg hlen]
    dsimp only
    by_cases htag : tag c s.rtcpIn (pkt.take (pkt.length - 10)) ≠ pkt.drop (pkt.length - 10)
    · rw [if_pos htag]
      exact .inl ⟨rfl, rfl⟩
    · rw [if_neg htag]
      unfold rtcpIndexOf
      cases hwin : replayWindow s.inReplayHigh s.inReplayMask
          (be32 pkt (pkt.length - 10 - 4) % 2 ^ 31) with
      | none => exact .inl ⟨rfl, rfl⟩
      | some w => exact .inr ⟨w.1, w.2, rfl, rfl⟩

theorem tracks_replayWindow {high : ℕ} {mask : BitVec 64} {A : Set ℕ} (h : Tracks high mask A)
    {index : ℕ} {w : ℕ × BitVec 64} (hw : replayWindow high mask index = some w) :
    Tracks w.1 w.2 (insert index A) ∧ index ∉ A := by
  unfold replayWindow at hw
  by_cases hlt : high < index
  · rw [if_pos hlt] at hw
    obtain rfl := Option.some.inj hw
    exact ⟨h.shift hlt, h.not_mem fun hle => absurd hle (Nat.not_le.mpr hlt)⟩
  · rw [if_neg hlt] at hw
    dsimp only at hw
    split_ifs at hw with hold hbit
    obtain rfl := Option.some.inj hw
    exact ⟨h.set (Nat.not_lt.mp hlt), h.not_mem fun _ => ⟨Nat.not_le.mp hold, by simpa using hbit⟩⟩

@[simp] theorem advance_seen (e : Entry InSeq) (v seq : ℕ) : (advance e v seq).seen = true := by
  unfold advance
  by_cases hseen : (!e.seen) = true
  · rw [if_pos hseen]
  · rw [if_neg hseen]
    dsimp only
    rw [apply_ite Entry.seen, ite_self]
    simpa using hseen

@[simp] theorem advance_ssrc (e : Entry InSeq) (v seq : ℕ) : (advance e v seq).ssrc = e.ssrc := by
  unfold advance
  by_cases hseen : (!e.seen) = true
  · rw [if_pos hseen]
  · rw [if_neg hseen]
    dsimp only
    rw [apply_ite Entry.ssrc, ite_self]

/-- The first packet of a stream opens its window. -/
theorem tracks_advance_first {e : Entry InSeq} (hseen : e.seen = false) (v seq : ℕ) :
    Tracks (advance e v seq).st.winHigh (advance e v seq).st.winMask {v * 2 ^ 16 + seq} := by
  unfold advance
  rw [hseen]
  exact Tracks.singleton _

theorem tracks_advance {e : Entry InSeq} (hseen : e.seen = true) {A : Set ℕ}
    (h : Tracks e.st.winHigh e.st.winMask A) (v seq : ℕ)
    (hnew : replayed e (v * 2 ^ 16 + seq) = false) :
    Tracks (advance e v seq).st.winHigh (advance e v seq).st.winMask
      (insert (v * 2 ^ 16 + seq) A) ∧ v * 2 ^ 16 + seq ∉ A := by
  have hfresh : v * 2 ^ 16 + seq ≤ e.st.winHigh → e.st.winHigh - (v * 2 ^ 16 + seq) < 64 ∧
      e.st.winMask.getLsbD (e.st.winHigh - (v * 2 ^ 16 + seq)) = false := by
    intro hle
    rw [replayed, hseen, Bool.true_and, decide_eq_true hle, Bool.true_and, Bool.or_eq_false_iff]
      at hnew
    exact ⟨Nat.not_le.mp (of_decide_eq_false hnew.1), hnew.2⟩
  refine ⟨?_, h.not_mem hfresh⟩
  unfold advance
  rw [hseen]
  dsimp only
  rw [if_neg (show ¬ (!true) = true from Bool.false_ne_true)]
  by_cases hlt : e.st.winHigh < v * 2 ^ 16 + seq
  · have hshift := h.shift hlt
    rw [if_pos hlt]
    dsimp only
    by_cases hfar : 64 ≤ v * 2 ^ 16 + seq - e.st.winHigh
    · rw [if_pos hfar]
      rwa [if_pos hfar, show (0 : BitVec 64) ||| 1 = 1 from rfl] at hshift
    · rw [if_neg hfar]
      rwa [if_neg hfar] at hshift
  · rw [if_neg hlt]
    exact h.set (Nat.not_lt.mp hlt)

/-- The streams seen are of the set, each has one slot, and its window has what was taken in. -/
structure Guarded (S : Finset ℕ) (t : Table InSeq) (M : Set Mark) : Prop where
  mem : ∀ i, (t i).seen = true → (t i).ssrc ∈ S
  tracks : ∀ i, (t i).seen = true →
    Tracks (t i).st.winHigh (t i).st.winMask {x | .rtp (t i).ssrc x ∈ M}
  distinct : ∀ i j, (t i).seen = true → (t j).seen = true → (t i).ssrc = (t j).ssrc → i = j
  known : ∀ ssrc x, .rtp ssrc x ∈ M → ∃ i, (t i).seen = true ∧ (t i).ssrc = ssrc

variable {S : Finset ℕ} {t : Table InSeq} {M : Set Mark}

/-- There is a slot for each stream of a set that fits the table. -/
theorem Guarded.not_full (h : Guarded S t M) (hS : S.card ≤ kStreams) {ssrc : ℕ} (hmem : ssrc ∈ S) :
    ¬ ∀ i, (t i).seen = true ∧ (t i).ssrc ≠ ssrc := by
  intro hall
  have hle : (Finset.univ : Finset (Fin kStreams)).card ≤ (S.erase ssrc).card := by
    refine Finset.card_le_card_of_injOn (fun i => (t i).ssrc) ?_ ?_
    · intro i _
      exact Finset.mem_erase.mpr ⟨(hall i).2, h.mem i (hall i).1⟩
    · intro i _ j _ hij
      exact h.distinct i j (hall i).1 (hall j).1 hij
  rw [Finset.card_univ, Fintype.card_fin, Finset.card_erase_of_mem hmem] at hle
  have hpos : 0 < kStreams := by decide
  omega

/-- A change to a slot that no packet has come for yet. -/
theorem Guarded.update_unseen (h : Guarded S t M) {i : Fin kStreams} (hi : (t i).seen = false)
    {e : Entry InSeq} (he : e.seen = false) : Guarded S (Function.update t i e) M := by
  have hother : ∀ j, (Function.update t i e j).seen = true →
      Function.update t i e j = t j ∧ (t j).seen = true := by
    intro j hj
    by_cases hji : j = i
    · rw [hji, Function.update_self, he] at hj
      exact absurd hj Bool.false_ne_true
    · rw [Function.update_of_ne hji] at hj ⊢
      exact ⟨rfl, hj⟩
  constructor
  · intro j hj
    obtain ⟨hsame, hseen⟩ := hother j hj
    rw [hsame]
    exact h.mem j hseen
  · intro j hj
    obtain ⟨hsame, hseen⟩ := hother j hj
    rw [hsame]
    exact h.tracks j hseen
  · intro j k hj hk hjk
    obtain ⟨hj', hjseen⟩ := hother j hj
    obtain ⟨hk', hkseen⟩ := hother k hk
    rw [hj', hk'] at hjk
    exact h.distinct j k hjseen hkseen hjk
  · intro ssrc x hx
    obtain ⟨j, hj, hssrc⟩ := h.known ssrc x hx
    have hji : j ≠ i := by
      rintro rfl
      rw [hi] at hj
      exact absurd hj Bool.false_ne_true
    exact ⟨j, by rwa [Function.update_of_ne hji], by rwa [Function.update_of_ne hji]⟩

/-- The slot found is the one of the stream. -/
theorem Guarded.slot (h : Guarded S t M) (hS : S.card ≤ kStreams) {ssrc : ℕ} (hmem : ssrc ∈ S) :
    Guarded S (slot t ssrc).2 M ∧ ((slot t ssrc).2 (slot t ssrc).1).ssrc = ssrc ∧
      ∀ j, ((slot t ssrc).2 j).seen = true → ((slot t ssrc).2 j).ssrc = ssrc →
        j = (slot t ssrc).1 := by
  obtain ⟨i, hseen, hssrc, hslot⟩ | ⟨hother, i, hseen, hslot⟩ | ⟨hall, -⟩ := slot_cases t ssrc
  · rw [hslot]
    exact ⟨h, hssrc, fun j hj hjs => h.distinct j i hj hseen (hjs.trans hssrc.symm)⟩
  · rw [hslot]
    refine ⟨h.update_unseen hseen hseen, ?_, ?_⟩
    · exact congrArg Entry.ssrc (Function.update_self i { t i with ssrc := ssrc } t)
    · intro j hj hjs
      by_contra hji
      dsimp only at hj hjs hji
      rw [Function.update_of_ne hji] at hj hjs
      exact hother j hj hjs
  · exact absurd hall (h.not_full hS hmem)

/-- A packet that is taken in was not in the window before, and is from then on. -/
theorem Guarded.advance (h : Guarded S t M) {i : Fin kStreams} (hmem : (t i).ssrc ∈ S)
    (hown : ∀ j, (t j).seen = true → (t j).ssrc = (t i).ssrc → j = i) {v seq : ℕ}
    (hnew : replayed (t i) (v * 2 ^ 16 + seq) = false) :
    Guarded S (Function.update t i (SrtpSession.advance (t i) v seq))
        (insert (.rtp (t i).ssrc (v * 2 ^ 16 + seq)) M) ∧
      .rtp (t i).ssrc (v * 2 ^ 16 + seq) ∉ M := by
  have hnone : (t i).seen = false → ∀ x, .rtp (t i).ssrc x ∉ M := by
    intro hseen x hx
    obtain ⟨j, hj, hjs⟩ := h.known _ x hx
    rw [hown j hj hjs, hseen] at hj
    exact absurd hj Bool.false_ne_true
  have hfresh : .rtp (t i).ssrc (v * 2 ^ 16 + seq) ∉ M := by
    cases hseen : (t i).seen with
    | false => exact hnone hseen _
    | true => exact (tracks_advance hseen (h.tracks i hseen) v seq hnew).2
  refine ⟨⟨?_, ?_, ?_, ?_⟩, hfresh⟩
  · intro j hj
    by_cases hji : j = i
    · rw [hji, Function.update_self, advance_ssrc]
      exact hmem
    · rw [Function.update_of_ne hji] at hj ⊢
      exact h.mem j hj
  · intro j hj
    by_cases hji : j = i
    · rw [hji, Function.update_self, advance_ssrc]
      cases hseen : (t i).seen with
      | false =>
        have hset : {x | Mark.rtp (t i).ssrc x ∈ insert (.rtp (t i).ssrc (v * 2 ^ 16 + seq)) M} =
            {v * 2 ^ 16 + seq} := by
          ext x
          simp [hnone hseen x]
        rw [hset]
        exact tracks_advance_first hseen v seq
      | true =>
        have hset : {x | Mark.rtp (t i).ssrc x ∈ insert (.rtp (t i).ssrc (v * 2 ^ 16 + seq)) M} =
            insert (v * 2 ^ 16 + seq) {x | .rtp (t i).ssrc x ∈ M} := by
          ext x
          simp
        rw [hset]
        exact (tracks_advance hseen (h.tracks i hseen) v seq hnew).1
    · rw [Function.update_of_ne hji] at hj ⊢
      have hne : (t j).ssrc ≠ (t i).ssrc := fun hjs => hji (hown j hj hjs)
      have hset : {x | Mark.rtp (t j).ssrc x ∈ insert (.rtp (t i).ssrc (v * 2 ^ 16 + seq)) M} =
          {x | .rtp (t j).ssrc x ∈ M} := by
        ext x
        simp [hne]
      rw [hset]
      exact h.tracks j hj
  · intro j k hj hk hjk
    by_cases hji : j = i
    · by_cases hki : k = i
      · rw [hji, hki]
      · rw [hji, Function.update_self, advance_ssrc, Function.update_of_ne hki] at hjk
        rw [Function.update_of_ne hki] at hk
        exact absurd (hown k hk hjk.symm) hki
    · rw [Function.update_of_ne hji] at hj hjk
      by_cases hki : k = i
      · rw [hki, Function.update_self, advance_ssrc] at hjk
        exact absurd (hown j hj hjk) hji
      · rw [Function.update_of_ne hki] at hk hjk
        exact h.distinct j k hj hk hjk
  · intro ssrc x hx
    obtain heq | hx := Set.mem_insert_iff.mp hx
    · obtain ⟨rfl, -⟩ := Mark.rtp.inj heq
      exact ⟨i, by rw [Function.update_self, advance_seen],
        by rw [Function.update_self, advance_ssrc]⟩
    · obtain ⟨j, hj, hjs⟩ := h.known ssrc x hx
      by_cases hji : j = i
      · refine ⟨i, by rw [Function.update_self, advance_seen], ?_⟩
        rw [Function.update_self, advance_ssrc, ← hjs, hji]
      · exact ⟨j, by rwa [Function.update_of_ne hji], by rwa [Function.update_of_ne hji]⟩

/-- What the windows of a session say of the packets that it took in. -/
structure Screened (S : Finset ℕ) (s : SrtpSession) (M : Set Mark) : Prop where
  streams : Guarded S s.streamsIn M
  control : Tracks s.inReplayHigh s.inReplayMask {i | .rtcp i ∈ M}

/-- A packet of one of the streams. -/
def Packet.Among (S : Finset ℕ) : Packet → Prop
  | .rtp pkt => be32 pkt 8 ∈ S
  | .rtcp _ => True

theorem screened_ofKeys (c : Crypto) (out inn : SrtpKey) : Screened S (ofKeys c out inn) ∅ :=
  ⟨⟨nofun, nofun, nofun, nofun⟩, Tracks.empty⟩

/-- One packet: what is accepted is new, and is in a window from then on. -/
theorem Screened.received (h : Screened S s M) (hS : S.card ≤ kStreams) {p : Packet}
    (hp : p.Among S) :
    ∃ M', M ⊆ M' ∧ Screened S (received c s p) M' ∧
      (accepts c s p = true → mark s p ∈ M' ∧ mark s p ∉ M) := by
  cases p with
  | rtp pkt =>
    obtain ⟨hstreams, hssrc, hown⟩ := h.streams.slot hS hp
    have hlookup : Screened S { s with streamsIn := (Webrtc.slot s.streamsIn (be32 pkt 8)).2 } M :=
      ⟨hstreams, h.control⟩
    obtain ⟨hnone, hstate⟩ | ⟨hnew, hstate⟩ := unprotectRtp_cases c s pkt
    · refine ⟨M, subset_rfl, ?_, fun hacc => ?_⟩
      · rw [Webrtc.received]
        obtain hstate | hstate := hstate <;> rw [hstate]
        · exact h
        · exact hlookup
      · rw [accepts, hnone] at hacc
        exact absurd hacc Bool.false_ne_true
    · have hadv := hstreams.advance (i := (Webrtc.slot s.streamsIn (be32 pkt 8)).1)
        (by rw [hssrc]; exact hp) (by rw [hssrc]; exact hown) hnew
      rw [hssrc] at hadv
      refine ⟨insert (mark s (.rtp pkt)) M, Set.subset_insert _ _, ?_, fun _ => ⟨Set.mem_insert _ _, hadv.2⟩⟩
      rw [Webrtc.received, hstate]
      refine ⟨hadv.1, ?_⟩
      have hset : {i | Mark.rtcp i ∈ insert (mark s (.rtp pkt)) M} = {i | .rtcp i ∈ M} := by
        ext i
        simp [mark]
      rw [hset]
      exact h.control
  | rtcp pkt =>
    obtain ⟨hnone, hstate⟩ | ⟨high, mask, hwin, hstate⟩ := unprotectRtcp_cases c s pkt
    · refine ⟨M, subset_rfl, ?_, fun hacc => ?_⟩
      · rw [Webrtc.received, hstate]
        exact h
      · rw [accepts, hnone] at hacc
        exact absurd hacc Bool.false_ne_true
    · obtain ⟨htracks, hnew⟩ := tracks_replayWindow h.control hwin
      refine ⟨insert (.rtcp (rtcpIndexOf pkt)) M, Set.subset_insert _ _, ?_,
        fun _ => ⟨Set.mem_insert _ _, hnew⟩⟩
      rw [Webrtc.received, hstate]
      have hrtp : ∀ ssrc x, Mark.rtp ssrc x ∈ insert (.rtcp (rtcpIndexOf pkt)) M ↔ .rtp ssrc x ∈ M := by
        intro ssrc x
        simp
      refine ⟨⟨h.streams.mem, fun i hi => ?_, h.streams.distinct, fun ssrc x hx => ?_⟩, ?_⟩
      · simp only [hrtp]
        exact h.streams.tracks i hi
      · exact h.streams.known ssrc x ((hrtp ssrc x).mp hx)
      · have hset : {i | Mark.rtcp i ∈ insert (.rtcp (rtcpIndexOf pkt)) M} =
            insert (rtcpIndexOf pkt) {i | .rtcp i ∈ M} := by
          ext i
          simp
        rw [hset]
        exact htracks

theorem Screened.accepted (h : Screened S s M) (hS : S.card ≤ kStreams) {ps : List Packet}
    (hps : ∀ p ∈ ps, p.Among S) :
    (acceptedMarks c s ps).Nodup ∧ ∀ m ∈ acceptedMarks c s ps, m ∉ M := by
  induction ps generalizing s M with
  | nil => exact ⟨List.nodup_nil, nofun⟩
  | cons p ps ih =>
    obtain ⟨M', hsub, hnext, hacc⟩ := h.received (c := c) hS (hps p List.mem_cons_self)
    obtain ⟨hnodup, hnew⟩ := ih hnext fun q hq => hps q (List.mem_cons_of_mem p hq)
    rw [acceptedMarks]
    split_ifs with hin
    · obtain ⟨hmem, hnot⟩ := hacc hin
      refine ⟨List.nodup_cons.mpr ⟨fun hp => hnew _ hp hmem, hnodup⟩, fun m hm => ?_⟩
      obtain rfl | hm := List.mem_cons.mp hm
      · exact hnot
      · exact fun hM => hnew m hm (hsub hM)
    · exact ⟨hnodup, fun m hm hM => hnew m hm (hsub hM)⟩

/-- Over every sequence of packets of streams that fit the table, no extended index of a stream and
no SRTCP index is accepted twice. -/
theorem acceptedMarks_nodup (c : Crypto) (out inn : SrtpKey) (S : Finset ℕ)
    (hS : S.card ≤ kStreams) (ps : List Packet) (hps : ∀ p ∈ ps, p.Among S) :
    (acceptedMarks c (ofKeys c out inn) ps).Nodup :=
  ((screened_ofKeys c out inn).accepted hS hps).1

def oneKey : SrtpKey := ⟨Vector.replicate 16 0, Vector.replicate 14 0⟩

/-- A packet with a tag that is all ones. -/
def tagged (seq ssrc : ℕ) : Bytes := Rtp.writeHeader 0 false seq 0 ssrc ++ List.replicate 10 1

theorem acceptedMarks_nodup_twice :
    (acceptedMarks onesTag (ofKeys onesTag oneKey oneKey)
      [.rtp (tagged 1 5), .rtp (tagged 1 5)]).Nodup :=
  acceptedMarks_nodup onesTag oneKey oneKey {5} (by decide) _ (by
    intro p hp
    obtain rfl | hp := List.mem_cons.mp hp
    · exact Finset.mem_singleton.mpr (by decide)
    · rw [List.mem_singleton.mp hp]
      exact Finset.mem_singleton.mpr (by decide))

end Machino.Webrtc
