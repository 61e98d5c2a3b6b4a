import Machino.H264.BitStream
import Machino.H264.Nal

namespace Machino.H264

open Scans

namespace Sps

open BitReader

/-- Contents irrelevant, only the length matters. -/
def skipHrd : BitReader Unit := do
  let cnt ← ue
  skip (u 4)
  skip (u 4)
  if 31 < cnt then Scan.spoil
  else
    Scan.times (cnt + 1) do
      skip ue
      skip ue
      skip (u 1)
    skip (u 5)
    skip (u 5)
    skip (u 5)
    skip (u 5)

/-- The sum is one of the machine: it wraps, and the remainder has its sign. -/
def nextScale (last delta : ℤ) : ℤ := ((last + delta + 256).bmod (2 ^ 32)).tmod 256

def scalingList : ℕ → ℤ → ℤ → BitReader Unit
  | 0, _, _ => pure ()
  | size + 1, last, next =>
    if next ≠ 0 then do
      let delta ← se
      let next := nextScale last delta
      scalingList size (if next ≠ 0 then next else last) next
    else scalingList size last next

def scalingLists : ℕ → ℕ → BitReader Unit
  | 0, _ => pure ()
  | left + 1, i => do
    let bad ← Scan.isBad
    if bad then pure ()
    else
      let present ← bit
      Scan.onlyIf (present = true) (scalingList (if i < 6 then 16 else 64) 8 8)
      scalingLists left (i + 1)

def highProfiles : List ℕ := [100, 110, 122, 244, 44, 83, 86, 118, 128, 138, 139, 134, 135]

/-- A part that a flag in front says is there. -/
def ifFlag (p : BitReader Unit) : BitReader Unit := do
  let present ← bit
  Scan.onlyIf (present = true) p

def skipChroma : BitReader Unit := do
  let chroma ← ue
  Scan.onlyIf (chroma = 3) (skip (u 1))
  skip ue
  skip ue
  skip (u 1)
  ifFlag (scalingLists (if chroma ≠ 3 then 8 else 12) 0)

def skipPoc : BitReader Unit := do
  let poc ← ue
  if poc = 0 then skip ue
  else if poc = 1 then
    skip (u 1)
    skip se
    skip se
    let n ← ue
    if 255 < n then Scan.giveUp else Scan.times n (skip se)
  else pure ()

def skipFrame : BitReader Unit := do
  skip ue
  skip (u 1)
  skip ue
  skip ue
  let mbsOnly ← bit
  Scan.onlyIf (mbsOnly = false) (skip (u 1))
  skip (u 1)
  ifFlag do
    skip ue
    skip ue
    skip ue
    skip ue

def skipAspect : BitReader Unit := do
  let ar ← u 8
  Scan.onlyIf (ar = 255) do
    skip (u 16)
    skip (u 16)

def skipSignal : BitReader Unit := do
  skip (u 3)
  skip (u 1)
  ifFlag do
    skip (u 8)
    skip (u 8)
    skip (u 8)

def skipTiming : BitReader Unit := do
  skip (u 32)
  skip (u 32)
  skip (u 1)

def skipHrds : BitReader Unit := do
  let nalHrd ← bit
  Scan.onlyIf (nalHrd = true) skipHrd
  let vclHrd ← bit
  Scan.onlyIf (vclHrd = true) skipHrd
  Scan.onlyIf (nalHrd = true ∨ vclHrd = true) (skip (u 1))

/-- The VUI up to the bitstream restriction flag. -/
def skipVui : BitReader Unit := do
  ifFlag skipAspect
  ifFlag (skip (u 1))
  ifFlag skipSignal
  ifFlag do
    skip ue
    skip ue
  ifFlag skipTiming
  skipHrds
  skip (u 1)

/-- Up to the bitstream restriction flag; without a VUI there is nothing to anchor to. -/
def skipData : BitReader Unit := do
  let profileIdc ← u 8
  skip (u 8)
  skip (u 8)
  skip ue
  Scan.onlyIf (profileIdc ∈ highProfiles) skipChroma
  skip ue
  skipPoc
  skipFrame
  let vui ← bit
  if vui then skipVui else Scan.giveUp

/-- The NAL header is in front. -/
def skipToFlag : BitReader Unit := do
  skip (u 8)
  skipData

def restrictionFlag : BitReader (ℕ × Bool) := do
  skipToFlag
  let flagPos ← Scan.position
  let flag ← bit
  return (flagPos, flag)

/-- Where the flag is in the bits of the payload, if it can be found and is not set. -/
def insertionPoint (rbsp : Bytes) : Option ℕ :=
  match restrictionFlag ⟨rbsp, 0, false⟩ with
  | some ((flagPos, flag), r) => if r.bad || flag then none else some flagPos
  | none => none

/-- The payload up to the flag as it is, the flag and its fields, and the stop bit. -/
def rebuild (rbsp : Bytes) (flagPos : ℕ) (numReorderFrames maxDecFrameBuffering : UInt32) : Bytes :=
  let w := (List.range flagPos).foldl
    (fun (w : BitWriter) i => w.bit ((bitAt rbsp i).getD false)) {}
  let w := (w.bit true).bit true
  let w := (((w.ue 0).ue 0).ue 16).ue 16
  let w := (w.ue numReorderFrames).ue maxDecFrameBuffering
  ((w.bit true).align 8).b

end Sps

open Sps in
def spsWithBitstreamRestriction (sps : Bytes) (numReorderFrames : UInt32 := 0)
    (maxDecFrameBuffering : UInt32 := 1) : Bytes :=
  if sps.length < 5 ∨ sps.headD 0 &&& 0x1f ≠ 7 then sps
  else
    match insertionPoint (stripEmulation sps) with
    | none => sps
    | some flagPos =>
      preventEmulation
        (rebuild (stripEmulation sps) flagPos numReorderFrames maxDecFrameBuffering)

end Machino.H264
