import Machino.H264.Sps

namespace Machino.H264

open Scans

namespace Sps

open BitReader Scan

theorem local_skipHrd : Local bitAt skipHrd := by
  refine local_ue.bind fun cnt => (local_skip (local_u 4)).bind fun _ =>
    (local_skip (local_u 4)).bind fun _ => Local.ite Local.spoil ?_
  have hround : Local bitAt (do
      skip ue
      skip ue
      skip (u 1)) :=
    (local_skip local_ue).bind fun _ => (local_skip local_ue).bind fun _ => local_skip (local_u 1)
  exact (hround.times _).bind fun _ => (local_skip (local_u 5)).bind fun _ =>
    (local_skip (local_u 5)).bind fun _ => (local_skip (local_u 5)).bind fun _ =>
      local_skip (local_u 5)

theorem local_scalingList (size : ℕ) (last next : ℤ) :
    Local bitAt (scalingList size last next) := by
  induction size generalizing last next with
  | zero => exact Local.pure ()
  | succ size ih => exact Local.ite (local_se.bind fun _ => ih _ _) (ih _ _)

theorem local_scalingLists (left i : ℕ) : Local bitAt (scalingLists left i) := by
  induction left generalizing i with
  | zero => exact Local.pure ()
  | succ left ih =>
    refine Local.isBad.bind fun _ => (Local.pure ()).ite ?_
    exact local_bit.bind fun _ => (local_scalingList _ 8 8).onlyIf.bind fun _ => ih (i + 1)

theorem local_ifFlag {p : BitReader Unit} (hp : Local bitAt p) : Local bitAt (ifFlag p) :=
  local_bit.bind fun _ => hp.onlyIf

theorem local_skipChroma : Local bitAt skipChroma :=
  local_ue.bind fun _ => (local_skip (local_u 1)).onlyIf.bind fun _ =>
    (local_skip local_ue).bind fun _ => (local_skip local_ue).bind fun _ =>
      (local_skip (local_u 1)).bind fun _ => local_ifFlag (local_scalingLists _ 0)

theorem local_skipPoc : Local bitAt skipPoc := by
  refine local_ue.bind fun poc => (local_skip local_ue).ite (Local.ite ?_ (Local.pure ()))
  exact (local_skip (local_u 1)).bind fun _ => (local_skip local_se).bind fun _ =>
    (local_skip local_se).bind fun _ => local_ue.bind fun n =>
      Local.giveUp.ite ((local_skip local_se).times n)

theorem local_skipFrame : Local bitAt skipFrame := by
  have hcrop : Local bitAt (do
      skip ue
      skip ue
      skip ue
      skip ue) :=
    (local_skip local_ue).bind fun _ => (local_skip local_ue).bind fun _ =>
      (local_skip local_ue).bind fun _ => local_skip local_ue
  exact (local_skip local_ue).bind fun _ => (local_skip (local_u 1)).bind fun _ =>
    (local_skip local_ue).bind fun _ => (local_skip local_ue).bind fun _ =>
      local_bit.bind fun _ => (local_skip (local_u 1)).onlyIf.bind fun _ =>
        (local_skip (local_u 1)).bind fun _ => local_ifFlag hcrop

theorem local_skipAspect : Local bitAt skipAspect :=
  (local_u 8).bind fun _ => Local.onlyIf
    ((local_skip (local_u 16)).bind fun _ => local_skip (local_u 16))

theorem local_skipSignal : Local bitAt skipSignal :=
  (local_skip (local_u 3)).bind fun _ => (local_skip (local_u 1)).bind fun _ =>
    local_ifFlag ((local_skip (local_u 8)).bind fun _ => (local_skip (local_u 8)).bind fun _ =>
      local_skip (local_u 8))

theorem local_skipTiming : Local bitAt skipTiming :=
  (local_skip (local_u 32)).bind fun _ => (local_skip (local_u 32)).bind fun _ =>
    local_skip (local_u 1)

theorem local_skipHrds : Local bitAt skipHrds :=
  local_bit.bind fun _ => local_skipHrd.onlyIf.bind fun _ => local_bit.bind fun _ =>
    local_skipHrd.onlyIf.bind fun _ => (local_skip (local_u 1)).onlyIf

theorem local_skipVui : Local bitAt skipVui :=
  (local_ifFlag local_skipAspect).bind fun _ =>
    (local_ifFlag (local_skip (local_u 1))).bind fun _ =>
      (local_ifFlag local_skipSignal).bind fun _ =>
        (local_ifFlag ((local_skip local_ue).bind fun _ => local_skip local_ue)).bind fun _ =>
          (local_ifFlag local_skipTiming).bind fun _ => local_skipHrds.bind fun _ =>
            local_skip (local_u 1)

theorem local_skipData : Local bitAt skipData :=
  (local_u 8).bind fun _ => (local_skip (local_u 8)).bind fun _ =>
    (local_skip (local_u 8)).bind fun _ => (local_skip local_ue).bind fun _ =>
      local_skipChroma.onlyIf.bind fun _ => (local_skip local_ue).bind fun _ =>
        local_skipPoc.bind fun _ => local_skipFrame.bind fun _ => local_bit.bind fun _ =>
          local_skipVui.ite Local.giveUp

theorem local_skipToFlag : Local bitAt skipToFlag :=
  (local_skip (local_u 8)).bind fun _ => local_skipData

theorem bit_eq_some {c c' : Cursor Bytes} {v : Bool} (h : BitReader.bit c = some (v, c'))
    (hgood : c'.bad = false) : bitAt c.data c.pos = some v ∧ c' = { c with pos := c.pos + 1 } := by
  unfold BitReader.bit Scan.next at h
  split at h
  · rename_i x hread
    obtain ⟨rfl, rfl⟩ := Prod.mk.inj (Option.some.inj h)
    exact ⟨hread, rfl⟩
  · obtain ⟨-, rfl⟩ := Prod.mk.inj (Option.some.inj h)
    exact Bool.noConfusion hgood

theorem pos_u {n : ℕ} {c c' : Cursor Bytes} {v : ℕ} (h : u n c = some (v, c'))
    (hgood : c'.bad = false) : c'.pos = c.pos + n := by
  induction n generalizing v c' with
  | zero =>
    obtain ⟨-, rfl⟩ := Prod.mk.inj (Option.some.inj h)
    rfl
  | succ n ih =>
    obtain ⟨v₁, c₁, h₁, hrest⟩ := bind_eq_some.mp h
    obtain ⟨b, c₂, hbit, hlast⟩ := bind_eq_some.mp hrest
    obtain ⟨-, rfl⟩ := Prod.mk.inj (Option.some.inj hlast)
    have hpos := ih h₁ (local_bit c₁ b c₂ hbit hgood).1
    rw [(bit_eq_some hbit hgood).2]
    show c₁.pos + 1 = _
    rw [hpos]
    rfl

/-- The flag is read at a place of the payload. -/
structure Reaches (rbsp : Bytes) (flagPos : ℕ) (flag : Bool) : Prop where
  syntaxRead : skipToFlag ⟨rbsp, 0, false⟩ = some ((), ⟨rbsp, flagPos, false⟩)
  flagRead : bitAt rbsp flagPos = some flag

variable {rbsp : Bytes} {flagPos : ℕ} {flag : Bool}

/-- The header byte is in front of it. -/
theorem Reaches.header (h : Reaches rbsp flagPos flag) : 8 ≤ flagPos := by
  obtain ⟨_, c₁, hskip, hrest⟩ := bind_eq_some.mp h.syntaxRead
  obtain ⟨v, c₂, hu, hdone⟩ := bind_eq_some.mp hskip
  obtain ⟨-, rfl⟩ := Prod.mk.inj (Option.some.inj hdone)
  obtain ⟨hgood, -, hle, -⟩ := local_skipData c₂ () _ hrest rfl
  have hpos : c₂.pos = 0 + 8 := pos_u hu hgood
  exact le_of_eq_of_le (hpos.trans (Nat.zero_add 8)).symm hle

theorem Reaches.restrictionFlag (h : Reaches rbsp flagPos flag) :
    restrictionFlag ⟨rbsp, 0, false⟩ = some ((flagPos, flag), ⟨rbsp, flagPos + 1, false⟩) := by
  refine bind_eq_some.mpr ⟨(), _, h.syntaxRead, bind_eq_some.mpr ⟨flagPos, _, rfl, ?_⟩⟩
  refine bind_eq_some.mpr ⟨flag, ⟨rbsp, flagPos + 1, false⟩, ?_, rfl⟩
  unfold BitReader.bit Scan.next
  rw [h.flagRead]

theorem restrictionFlag_eq_some {r : Cursor Bytes}
    (h : restrictionFlag ⟨rbsp, 0, false⟩ = some ((flagPos, flag), r)) (hgood : r.bad = false) :
    Reaches rbsp flagPos flag := by
  obtain ⟨_, c₁, hskip, hrest⟩ := bind_eq_some.mp h
  obtain ⟨pos, c₂, hpos, hrest⟩ := bind_eq_some.mp hrest
  obtain ⟨rfl, rfl⟩ := Prod.mk.inj (Option.some.inj hpos)
  obtain ⟨v, c₃, hbit, hdone⟩ := bind_eq_some.mp hrest
  obtain ⟨hsame, rfl⟩ := Prod.mk.inj (Option.some.inj hdone)
  obtain ⟨rfl, rfl⟩ := Prod.mk.inj hsame
  obtain ⟨hgood₁, -⟩ := local_bit c₁ v c₃ hbit hgood
  obtain ⟨-, hdata, -⟩ := local_skipToFlag _ () c₁ hskip hgood₁
  have hflag := (bit_eq_some hbit hgood).1
  obtain ⟨data, pos, bad⟩ := c₁
  obtain rfl : bad = false := hgood₁
  obtain rfl : data = rbsp := hdata
  exact ⟨hskip, hflag⟩

theorem insertionPoint_eq_some :
    insertionPoint rbsp = some flagPos ↔ Reaches rbsp flagPos false := by
  constructor
  · intro h
    unfold insertionPoint at h
    split at h
    · rename_i pos flag r hread
      split_ifs at h with hbad
      obtain ⟨hgood, hflag⟩ := Bool.or_eq_false_iff.mp (Bool.eq_false_iff.mpr hbad)
      obtain rfl : pos = flagPos := Option.some.inj h
      rw [← hflag]
      exact restrictionFlag_eq_some hread hgood
    · exact nomatch h
  · intro h
    unfold insertionPoint
    rw [h.restrictionFlag]
    rfl

/-- A flag that is set is not moved. -/
theorem Reaches.insertionPoint_eq_none (h : Reaches rbsp flagPos true) :
    insertionPoint rbsp = none := by
  unfold insertionPoint
  rw [h.restrictionFlag]
  rfl

/-- Motion vectors over the picture's boundaries, no limits, and the bounds that are asked for. -/
def restrictionFields (numReorderFrames maxDecFrameBuffering : UInt32) : List Bool :=
  [true] ++ expGolomb 0 ++ expGolomb 0 ++ expGolomb 16 ++ expGolomb 16 ++
    expGolomb numReorderFrames ++ expGolomb maxDecFrameBuffering

/-- The flag and the fields behind it. -/
def restriction (numReorderFrames maxDecFrameBuffering : UInt32) : List Bool :=
  true :: restrictionFields numReorderFrames maxDecFrameBuffering

/-- A decoder, behind the flag, for the bounds. -/
def restrictionBounds : BitReader (ℕ × ℕ) := do
  skip (u 1)
  skip ue
  skip ue
  skip ue
  skip ue
  let numReorder ← ue
  let dpb ← ue
  return (numReorder, dpb)

theorem decodes_restrictionBounds {nr md : UInt32} (hnr : nr ≠ 0xffffffff)
    (hmd : md ≠ 0xffffffff) :
    Decodes bitAt restrictionBounds (restrictionFields nr md) (nr.toNat, md.toNat) := by
  have hzero := decodes_skip (decodes_ue (v := 0) (by decide))
  have hrange := decodes_skip (decodes_ue (v := 16) (by decide))
  unfold restrictionBounds restrictionFields
  rw [← List.append_nil (expGolomb md)]
  simp only [List.append_assoc]
  refine (decodes_skip (decodes_u [true])).bind ?_
  refine hzero.bind (hzero.bind (hrange.bind (hrange.bind ?_)))
  exact (decodes_ue hnr).bind ((decodes_ue hmd).bind (Decodes.pure _))

/-- A payload up to the flag, the restriction, the stop bit, and zeros up to the end of the byte. -/
def Spliced (rbsp : Bytes) (flagPos : ℕ) (nr md : UInt32) (payload : Bytes) : Prop :=
  ∃ k < 8, bits payload =
    (bits rbsp).take flagPos ++ restriction nr md ++ true :: List.replicate k false

variable {nr md : UInt32}

theorem spliced_rebuild (h : flagPos ≤ 8 * rbsp.length) :
    Spliced rbsp flagPos nr md (rebuild rbsp flagPos nr md) := by
  have hcopied := BitWriter.Holds.start.foldl (fun i => (bitAt rbsp i).getD false)
    (List.range flagPos)
  rw [← take_bits h] at hcopied
  have hflags := (hcopied.bit true).bit true
  have hlimits := (((hflags.ue 0).ue 0).ue 16).ue 16
  have hwritten := ((hlimits.ue nr).ue md).bit true
  obtain ⟨k, hk, hfull, haligned⟩ := hwritten.align (show _ ≤ 8 by omega)
  refine ⟨k, hk, ?_⟩
  rw [rebuild, haligned.bits_eq (by rw [List.length_append, List.length_replicate]; exact hfull)]
  simp [restriction, restrictionFields]

theorem Spliced.bitAt_restriction {payload : Bytes} (h : Spliced rbsp flagPos nr md payload)
    (hpos : flagPos ≤ 8 * rbsp.length) (i : ℕ) (hi : i < (restriction nr md).length) :
    bitAt payload (flagPos + i) = some (restriction nr md)[i] := by
  obtain ⟨k, -, hbits⟩ := h
  have hlength : ((bits rbsp).take flagPos).length = flagPos := by
    rw [List.length_take, length_bits, Nat.min_eq_left hpos]
  rw [← getElem?_bits, hbits, List.append_assoc, List.getElem?_append_right (by omega), hlength,
    Nat.add_sub_cancel_left, List.getElem?_append_left hi, List.getElem?_eq_getElem hi]

theorem Spliced.bitAt_kept {payload : Bytes} (h : Spliced rbsp flagPos nr md payload)
    (hpos : flagPos ≤ 8 * rbsp.length) (i : ℕ) (hi : i < flagPos) :
    bitAt payload i = bitAt rbsp i := by
  obtain ⟨k, -, hbits⟩ := h
  have hlength : ((bits rbsp).take flagPos).length = flagPos := by
    rw [List.length_take, length_bits, Nat.min_eq_left hpos]
  rw [← getElem?_bits, hbits, List.append_assoc, List.getElem?_append_left (by omega),
    List.getElem?_take_of_lt hi, getElem?_bits]

/-- The parser of the old payload finds the flag of the new one, and it is set. -/
theorem Reaches.spliced {payload : Bytes} (h : Reaches rbsp flagPos false)
    (hspliced : Spliced rbsp flagPos nr md payload) : Reaches payload flagPos true := by
  have hpos := (bitAt_lt h.flagRead).le
  obtain ⟨-, -, -, hrun⟩ := local_skipToFlag _ _ _ h.syntaxRead rfl
  exact ⟨hrun payload (hspliced.bitAt_kept hpos),
    hspliced.bitAt_restriction hpos 0 (Nat.zero_lt_succ _)⟩

/-- The fields are read behind it. -/
theorem Spliced.bounds {payload : Bytes} (h : Spliced rbsp flagPos nr md payload)
    (hpos : flagPos ≤ 8 * rbsp.length) (hnr : nr ≠ 0xffffffff) (hmd : md ≠ 0xffffffff) :
    restrictionBounds ⟨payload, flagPos + 1, false⟩ =
      some ((nr.toNat, md.toNat), ⟨payload, flagPos + (restriction nr md).length, false⟩) := by
  have hread := decodes_restrictionBounds hnr hmd payload (flagPos + 1) fun i hi => by
    have hbit := h.bitAt_restriction hpos (i + 1) (Nat.succ_lt_succ hi)
    rw [Nat.add_assoc, Nat.add_comm 1 i, hbit]
    rfl
  rw [hread, restriction, List.length_cons, Nat.add_assoc, Nat.add_comm 1]

/-- What is rewritten at all: long enough, and an SPS by its header. -/
def Headed (d : Bytes) : Prop := 5 ≤ d.length ∧ d.headD 0 &&& 0x1f = 7

instance (d : Bytes) : Decidable (Headed d) := inferInstanceAs (Decidable (_ ∧ _))

/-- Where the restriction goes, if it can be put in. -/
def anchor (sps : Bytes) : Option ℕ :=
  if Headed sps then insertionPoint (stripEmulation sps) else none

theorem headed_iff (d : Bytes) : Headed d ↔ ¬ (d.length < 5 ∨ d.headD 0 &&& 0x1f ≠ 7) := by
  unfold Headed
  rw [not_or, not_lt, not_not]

theorem eq_of_anchor_none {sps : Bytes} (h : anchor sps = none) (nr md : UInt32) :
    spsWithBitstreamRestriction sps nr md = sps := by
  unfold spsWithBitstreamRestriction
  by_cases hheaded : Headed sps
  · rw [anchor, if_pos hheaded] at h
    rw [if_neg ((headed_iff sps).mp hheaded), h]
  · rw [headed_iff, not_not] at hheaded
    rw [if_pos hheaded]

theorem eq_of_anchor_some {sps : Bytes} (h : anchor sps = some flagPos) (nr md : UInt32) :
    spsWithBitstreamRestriction sps nr md =
      preventEmulation (rebuild (stripEmulation sps) flagPos nr md) := by
  unfold anchor at h
  split_ifs at h with hheaded
  unfold spsWithBitstreamRestriction
  rw [if_neg ((headed_iff sps).mp hheaded), h]

theorem head?_stripEmulation (d : Bytes) : (stripEmulation d).head? = d.head? := by
  cases d with
  | nil => rfl
  | cons b d =>
    show (stripFrom 1 1 (b :: d)).head? = _
    rw [stripFrom, if_neg fun hbad => absurd hbad.2.1 (by decide)]
    rfl

theorem le_length_restriction (nr md : UInt32) : 24 ≤ (restriction nr md).length := by
  have hpos : ∀ v : UInt32, 1 ≤ (expGolomb v).length := by
    intro v
    rw [expGolomb, List.length_append, length_binary]
    omega
  have h16 : (expGolomb 16).length = 9 := by decide
  have hnr := hpos nr
  have hmd := hpos md
  have h0 := hpos 0
  simp only [restriction, restrictionFields, List.length_append, List.length_cons, List.length_nil]
  omega

/-- The new payload has the old header byte, and is no shorter than an SPS has to be. -/
theorem Spliced.headed {sps payload : Bytes} (hsps : Headed sps)
    (h : Spliced (stripEmulation sps) flagPos nr md payload)
    (hreach : Reaches (stripEmulation sps) flagPos false) :
    ∃ b d, payload = b :: d ∧ b &&& 0x1f = 7 ∧ 4 ≤ d.length := by
  have hheader := hreach.header
  have hend := bitAt_lt hreach.flagRead
  have hhead : payload.head? = sps.head? := by
    rw [head?_eq_of_bitAt fun i hi => h.bitAt_kept hend.le i (by omega), head?_stripEmulation]
  have hlong : 5 ≤ payload.length := by
    obtain ⟨k, -, hbits⟩ := h
    have hcount := congrArg List.length hbits
    have hfields := le_length_restriction nr md
    simp only [length_bits, List.length_append, List.length_take, List.length_cons] at hcount
    omega
  obtain ⟨hlen, h7⟩ := hsps
  match payload, sps, hhead with
  | b :: d, _ :: _, hhead =>
    obtain rfl := Option.some.inj hhead
    exact ⟨b, d, rfl, h7, Nat.le_of_succ_le_succ hlong⟩

theorem ne_zero_of_header {b : UInt8} (h : b &&& 0x1f = 7) : b ≠ 0 := by
  rintro rfl
  exact absurd h (by decide)

theorem headed_preventEmulation {b : UInt8} {d : Bytes} (h7 : b &&& 0x1f = 7)
    (hlen : 4 ≤ d.length) : Headed (preventEmulation (b :: d)) :=
  ⟨Nat.succ_le_succ (hlen.trans (length_le_preventFrom 0 d)), h7⟩

theorem anchor_eq_some {sps : Bytes} :
    anchor sps = some flagPos ↔ Headed sps ∧ Reaches (stripEmulation sps) flagPos false := by
  unfold anchor
  split_ifs with h
  · rw [insertionPoint_eq_some]
    exact ⟨fun hreach => ⟨h, hreach⟩, fun hboth => hboth.2⟩
  · exact ⟨nofun, fun hboth => absurd hboth.1 h⟩

/-- What a rewriting comes to: the payload with the restriction put in at the place of the flag,
escaped again; it is found there, and not put in once more. -/
structure Rewritten (sps : Bytes) (flagPos : ℕ) (nr md : UInt32) (out : Bytes) : Prop where
  headed : Headed out
  found : Reaches (stripEmulation sps) flagPos false
  spliced : Spliced (stripEmulation sps) flagPos nr md (stripEmulation out)
  reached : Reaches (stripEmulation out) flagPos true
  bounds : nr ≠ 0xffffffff → md ≠ 0xffffffff →
    restrictionBounds ⟨stripEmulation out, flagPos + 1, false⟩ =
      some ((nr.toNat, md.toNat),
        ⟨stripEmulation out, flagPos + (restriction nr md).length, false⟩)
  unemulated : Unemulated out

theorem Rewritten.anchor_eq_none {sps out : Bytes} (h : Rewritten sps flagPos nr md out) :
    anchor out = none := by
  unfold anchor
  split_ifs
  · exact h.reached.insertionPoint_eq_none
  · rfl

theorem rewritten_of_anchor {sps : Bytes} (h : anchor sps = some flagPos) (nr md : UInt32) :
    Rewritten sps flagPos nr md (spsWithBitstreamRestriction sps nr md) := by
  obtain ⟨hheaded, hreach⟩ := anchor_eq_some.mp h
  have hpos := (bitAt_lt hreach.flagRead).le
  have hspliced : Spliced _ _ nr md _ := spliced_rebuild hpos
  have hbounds := hspliced.bounds hpos
  have hset := hreach.spliced hspliced
  obtain ⟨b, d, hpayload, h7, hlen⟩ := hspliced.headed hheaded hreach
  have hb := ne_zero_of_header h7
  rw [eq_of_anchor_some h]
  rw [hpayload] at hspliced hset hbounds ⊢
  rw [← stripEmulation_preventEmulation (d := d) hb] at hspliced hset hbounds
  exact ⟨headed_preventEmulation h7 hlen, hreach, hspliced, hset, hbounds,
    unemulated_preventEmulation hb⟩

theorem spsWithBitstreamRestriction_spec (sps : Bytes) (nr md : UInt32) :
    (anchor sps = none → spsWithBitstreamRestriction sps nr md = sps) ∧
      (∀ flagPos, anchor sps = some flagPos →
        Rewritten sps flagPos nr md (spsWithBitstreamRestriction sps nr md)) ∧
      ∀ nr' md', spsWithBitstreamRestriction (spsWithBitstreamRestriction sps nr md) nr' md' =
        spsWithBitstreamRestriction sps nr md := by
  refine ⟨fun h => eq_of_anchor_none h nr md, fun flagPos h => rewritten_of_anchor h nr md,
    fun nr' md' => ?_⟩
  cases h : anchor sps with
  | none => rw [eq_of_anchor_none h, eq_of_anchor_none h]
  | some flagPos => exact eq_of_anchor_none (rewritten_of_anchor h nr md).anchor_eq_none nr' md'

/-- Such an SPS ends within its header, and is returned as it is. -/
theorem not_unemulated_cut : ¬ Unemulated (spsWithBitstreamRestriction [0x67, 0, 0, 0, 0]) := by
  have hsame : spsWithBitstreamRestriction [0x67, 0, 0, 0, 0] = [0x67, 0, 0, 0, 0] := by
    decide +kernel
  rw [hsame]
  intro h
  exact h 0 (by decide) ⟨[0x67], [0], rfl⟩

end Sps

end Machino.H264
