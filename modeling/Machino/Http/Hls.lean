import Machino.Core.Number
import Machino.Http.Fmp4

namespace Machino.Hls

open Fmp4

structure Limits where
  targetMs : ℤ := 2000
  maxSegments : ℕ := 4
  maxBytes : ℕ := 6 * 2 ^ 20

structure Seg where
  seq : ℕ
  dur90k : ℕ
  data : Bytes
  disc : Bool

/-- The counters only count up and are printed: `seq`, `discSeq` and `initGen` wrap where they are
printed. -/
structure Segmenter where
  lim : Limits := {}
  init : Bytes := []
  sps : Bytes := []
  pps : Bytes := []
  segs : List Seg := []
  cur : Bytes := []
  curStart : ℕ := 0
  curEnd : ℕ := 0
  curOpen : Bool := false
  awaitKey : Bool := true
  /-- The next segment follows a new init. -/
  pendingDisc : Bool := false
  initGen : ℕ := 0
  /-- Discontinuities of segments that have left. -/
  discSeq : ℕ := 0
  nextSeq : ℕ := 0
  fragSeq : ℕ := 1
  tl : Timeline := {}

namespace Segmenter

/-- The oldest segments leave by count and by bytes; two stay whatever they hold. -/
def trimFrom (lim : Limits) (cur : ℕ) : List Seg → ℕ → List Seg × ℕ
  | [], discSeq => ([], discSeq)
  | x :: segs, discSeq =>
    if lim.maxSegments < segs.length + 1 ∨
        (2 < segs.length + 1 ∧ lim.maxBytes < ((x :: segs).map (·.data.length)).sum + cur) then
      trimFrom lim cur segs (if x.disc then discSeq + 1 else discSeq)
    else (x :: segs, discSeq)

def trim (s : Segmenter) : Segmenter :=
  let (segs, discSeq) := trimFrom s.lim s.cur.length s.segs s.discSeq
  { s with segs, discSeq }

/-- The segment in progress, closed. -/
def finished (s : Segmenter) : Seg :=
  { seq := s.nextSeq, dur90k := (s.curEnd + 2 ^ 64 - s.curStart) % 2 ^ 32, data := s.cur,
    disc := s.pendingDisc }

def closeCurrent (s : Segmenter) : Segmenter :=
  if !s.curOpen then s
  else if s.cur = [] then { s with curOpen := false }
  else
    trim { s with
      curOpen := false, segs := s.segs ++ [s.finished], nextSeq := s.nextSeq + 1,
      pendingDisc := false, cur := [] }

end Segmenter

/-- One access unit; `discontinuity` says that frames were dropped before it. -/
structure Feed where
  annexb : Bytes
  key : Bool
  ptsUs : ℤ
  width : ℕ
  height : ℕ
  discontinuity : Bool := false

namespace Segmenter

/-- New parameter sets are a new init; what is held refers to the old one. -/
def newParams (s : Segmenter) (f : Feed) : Segmenter :=
  match H264.extractParams f.annexb with
  | none => s
  | some (sps, pps) =>
    if sps ≠ [] ∧ pps ≠ [] ∧ (sps ≠ s.sps ∨ pps ≠ s.pps) then
      let s :=
        if s.init ≠ [] then
          { s with
            discSeq := s.discSeq + s.segs.countP (·.disc), segs := [], cur := [], curOpen := false,
            pendingDisc := true, initGen := s.initGen + 1 }
        else s
      { s with sps, pps, init := initSegment sps pps f.width f.height 90000 none }
    else s

/-- What a frame is put into: a segment in progress that is long enough ends before a key frame. -/
def cut (s : Segmenter) (key : Bool) (dts : ℕ) : Segmenter :=
  let elapsed := (dts + 2 ^ 64 - s.curStart) % 2 ^ 64 * 1000 % 2 ^ 64 / 90000
  if key ∧ s.curOpen ∧ (s.lim.targetMs % 2 ^ 64).toNat ≤ elapsed then s.closeCurrent else s

def append (s : Segmenter) (f : Feed) (dts dur : ℕ) : Segmenter :=
  let s := if s.curOpen then s else { s with curOpen := true, curStart := dts }
  let sample := annexbToAvcc f.annexb
  if sample = [] then s
  else
    let frag := fragment s.fragSeq dts dur sample f.key
    let s := trim { s with fragSeq := s.fragSeq + 1, cur := s.cur ++ frag, curEnd := dts + dur }
    -- half of the bytes for one segment
    if s.lim.maxBytes / 2 < s.cur.length then
      { s with cur := [], curOpen := false, awaitKey := true }
    else s

/-- A segment starts on a key frame. -/
def addFrame (s : Segmenter) (f : Feed) : Segmenter :=
  let (tl, dts, dur) := s.tl.next f.ptsUs
  let s := cut { s with tl } f.key dts
  if !s.curOpen && !f.key then s else s.append f dts dur

def feed (s : Segmenter) (f : Feed) : Segmenter :=
  if f.annexb = [] then s
  else
    let s := if f.discontinuity then { s with cur := [], curOpen := false, awaitKey := true } else s
    let s :=
      if f.key then
        let s := s.newParams f
        if s.init = [] then s else { s with awaitKey := false }
      else s
    if s.awaitKey || s.init = [] then s else s.addFrame f

def firstSeq (s : Segmenter) : ℕ := (s.segs.head?.map (·.seq)).getD s.nextSeq

end Segmenter

inductive Line where
  | extm3u
  | version (n : ℕ)
  | targetDuration (n : ℕ)
  | mediaSequence (n : UInt64)
  | independentSegments
  | discontinuitySequence (n : UInt32)
  | map (uri : Text)
  | discontinuity
  | extinf (dur90k : ℕ) (uri : Text)

/-- The name of a segment, by its number. -/
def segName (seq : UInt64) : Text := "seg".toList ++ Text.ofNat seq.toNat ++ ".m4s".toList

def Seg.lines (pre : Text) (s : Seg) : List Line :=
  (if s.disc then [.discontinuity] else []) ++ [.extinf s.dur90k (pre ++ segName (.ofNat s.seq))]

namespace Segmenter

def initName (s : Segmenter) : Text :=
  let gen := UInt32.ofNat s.initGen
  if gen = 0 then "init.mp4".toList
  else "init".toList ++ Text.ofNat gen.toNat ++ ".mp4".toList

def playlist (s : Segmenter) (pre : Text) : List Line :=
  let maxd := s.segs.foldl (fun m x => max m x.dur90k) 0
  let target := (maxd + 89999) % 2 ^ 32 / 90000
  [.extm3u, .version 7, .targetDuration (if target = 0 then 1 else target),
    .mediaSequence (.ofNat s.firstSeq), .independentSegments] ++
  (if UInt32.ofNat s.discSeq = 0 then [] else [.discontinuitySequence (.ofNat s.discSeq)]) ++
  [.map (pre ++ s.initName)] ++ s.segs.flatMap (Seg.lines pre)

end Segmenter

/-- A segment as a player sees it, with the numbers that the playlist gives it. -/
structure Listed where
  media : UInt64
  disc : UInt32
  dur90k : ℕ
  uri : Text

/-- How a player numbers the segments: each takes the next media sequence number, and each
discontinuity in front of it counts. -/
def number (media : UInt64) (disc : UInt32) : List Line → List Listed
  | [] => []
  | .mediaSequence n :: ls => number n disc ls
  | .discontinuitySequence n :: ls => number media n ls
  | .discontinuity :: ls => number media (disc + 1) ls
  | .extinf dur90k uri :: ls => ⟨media, disc, dur90k, uri⟩ :: number (media + 1) disc ls
  | _ :: ls => number media disc ls

def listed (ls : List Line) : List Listed := number 0 0 ls

end Machino.Hls
