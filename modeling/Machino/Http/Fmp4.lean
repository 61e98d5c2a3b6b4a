import Machino.H264.Nal

namespace Machino.Fmp4

open Bytes

/-- What writes into the buffer. -/
abbrev Writer := Bytes → Bytes

def put (p : Bytes) : Writer := fun b => b ++ p

def writeAll (ws : List Writer) : Writer := fun b => ws.foldl (fun b w => w b) b

def zeros (n : ℕ) : Bytes := List.replicate n 0

/-- A box type, a brand or a handler. -/
def tag (s : String) : Bytes := s.toList.map fun c => UInt8.ofNat c.toNat

/-- Four bytes of the buffer are written over. -/
def patch32 (b : Bytes) (at' v : ℕ) : Bytes := b.take at' ++ ofBe32 v ++ b.drop (at' + 4)

/-- The size is a placeholder now. -/
def openBox (type : String) (b : Bytes) : Bytes := b ++ ofBe32 0 ++ tag type

def closeBox (at' : ℕ) (b : Bytes) : Bytes := patch32 b at' (b.length - at')

/-- Version and flags of a full box. -/
def versionFlags (version flags : ℕ) : Bytes := UInt8.ofNat version :: (ofBe32 flags).drop 1

def openFull (type : String) (version flags : ℕ) (b : Bytes) : Bytes :=
  openBox type b ++ versionFlags version flags

/-- A box around what is written between `openBox` and `closeBox`. -/
def box (type : String) (ws : List Writer) : Writer := fun b =>
  closeBox b.length (writeAll ws (openBox type b))

def full (type : String) (version flags : ℕ) (ws : List Writer) : Writer := fun b =>
  closeBox b.length (writeAll ws (openFull type version flags b))

/-- The parameter sets are in the avcC box, and the delimiter is of the byte stream only. -/
def inBand (n : H264.Nal) : Bool := n.type ≠ 7 && n.type ≠ 8 && n.type ≠ 9

def annexbToAvcc (d : Bytes) : Bytes :=
  ((H264.split d 64).filter inBand).flatMap fun n => ofBe32 n.data.length ++ n.data

inductive Codec where
  | none | aac | opus
  deriving DecidableEq

structure AudioTrack where
  codec : Codec := .none
  trackId : ℕ := 2
  sampleRate : ℕ := 8000
  channels : ℕ := 1
  asc : Bytes := []
  preSkip : ℕ := 0

def AudioTrack.timescale (a : AudioTrack) : ℕ := if a.codec = .opus then 48000 else a.sampleRate

/-- A descriptor tag with its one-byte length. -/
def desc (t : UInt8) (len : ℕ) : Bytes := [t, UInt8.ofNat len]

def ftypBox : Writer :=
  box "ftyp" [put (tag "iso5"), put (ofBe32 1), put (tag "iso5"), put (tag "iso6"),
    put (tag "mp41")]

def unity : Bytes :=
  [0x00010000, 0, 0, 0, 0x00010000, 0, 0, 0, 0x40000000].flatMap ofBe32

def mvhdBox (timescale nextTrack : ℕ) : Writer :=
  full "mvhd" 0 0 [put (ofBe32 0 ++ ofBe32 0), put (ofBe32 timescale ++ ofBe32 0),
    put (ofBe32 0x00010000 ++ ofBe16 0x0100 ++ zeros (2 + 8)), put unity, put (zeros (6 * 4)),
    put (ofBe32 nextTrack)]

/-- The media data is in the file itself. -/
def dinfBox : Writer :=
  box "dinf" [full "dref" 0 0 [put (ofBe32 1), full "url " 0 1 []]]

def emptyTables : Writer :=
  writeAll (["stts", "stsc", "stsz", "stco"].map fun t =>
    -- the sample size field
    full t 0 0 [put (if t = "stsz" then ofBe32 0 else []), put (ofBe32 0)])

def tkhdBox (trackId group volume width height : ℕ) : Writer :=
  full "tkhd" 0 3 [put (ofBe32 0 ++ ofBe32 0), put (ofBe32 trackId ++ ofBe32 0),
    put (ofBe32 0 ++ zeros 8), put (ofBe16 0 ++ ofBe16 group), put (ofBe16 volume ++ ofBe16 0),
    put unity, put (ofBe32 (width * 2 ^ 16) ++ ofBe32 (height * 2 ^ 16))]

def mdhdBox (timescale : ℕ) : Writer :=
  full "mdhd" 0 0 [put (ofBe32 0 ++ ofBe32 0), put (ofBe32 timescale ++ ofBe32 0),
    put (ofBe16 0x55c4 ++ ofBe16 0)]

/-- The name ends with its zero byte. -/
def hdlrBox (handler name : String) : Writer :=
  full "hdlr" 0 0 [put (ofBe32 0 ++ tag handler ++ zeros 12), put (tag name ++ [0])]

def dOpsBox (a : AudioTrack) : Writer :=
  box "dOps" [put [0], put [UInt8.ofNat a.channels], put (ofBe16 a.preSkip),
    put (ofBe32 a.sampleRate), put (ofBe16 0), put [0]]

def esdsBox (a : AudioTrack) : Writer :=
  let dsi := a.asc.length
  let dcd := 13 + 2 + dsi
  let esd := 3 + 2 + dcd + 2 + 1
  full "esds" 0 0 [put (desc 0x03 esd), put (ofBe16 0 ++ [0]), put (desc 0x04 dcd), put [0x40],
    put [0x15], put ([0] ++ ofBe16 0), put (ofBe32 0 ++ ofBe32 0), put (desc 0x05 dsi), put a.asc,
    put (desc 0x06 1), put [0x02]]

def audioTrak (a : AudioTrack) : Writer :=
  box "trak" [tkhdBox a.trackId 1 0x0100 0 0,
    box "mdia" [mdhdBox a.timescale, hdlrBox "soun" "MachinoAudio",
      box "minf" [full "smhd" 0 0 [put (ofBe16 0 ++ ofBe16 0)], dinfBox,
        box "stbl" [
          full "stsd" 0 0 [put (ofBe32 1),
            box (if a.codec = .opus then "Opus" else "mp4a") [put (zeros 6 ++ ofBe16 1),
              put (zeros 8), put (ofBe16 a.channels ++ ofBe16 16), put (ofBe16 0 ++ ofBe16 0),
              put (ofBe32 ((if a.codec = .opus then 48000 else a.sampleRate) * 2 ^ 16)),
              if a.codec = .opus then dOpsBox a else esdsBox a]],
          emptyTables]]]]

def trexBox (trackId : ℕ) : Writer :=
  full "trex" 0 0 [put (ofBe32 trackId), put (ofBe32 1), put (ofBe32 0 ++ ofBe32 0 ++ ofBe32 0)]

def audioInitSegment (a : AudioTrack) : Bytes :=
  writeAll [ftypBox, box "moov" [mvhdBox a.timescale (a.trackId + 1), audioTrak a,
    box "mvex" [trexBox a.trackId]]] []

/-- Profile, compatibility and level of the record, and both parameter sets. -/
def avcRecord (sps pps : Bytes) : List Writer :=
  [put [1], put (if 3 < sps.length then (sps.drop 1).take 3 else [0x42, 0xe0, 0x1e]), put [0xff],
    put [0xe1], put (ofBe16 sps.length), put sps, put [1], put (ofBe16 pps.length), put pps]

def videoTrak (sps pps : Bytes) (width height timescale : ℕ) : Writer :=
  box "trak" [tkhdBox 1 0 0 width height,
    box "mdia" [mdhdBox timescale, hdlrBox "vide" "MachinoVideo",
      box "minf" [full "vmhd" 0 1 [put (zeros 8)], dinfBox,
        box "stbl" [
          full "stsd" 0 0 [put (ofBe32 1),
            box "avc1" [put (zeros 6 ++ ofBe16 1), put (zeros 16),
              put (ofBe16 width ++ ofBe16 height), put (ofBe32 0x00480000 ++ ofBe32 0x00480000),
              put (ofBe32 0), put (ofBe16 1), put (zeros 32), put (ofBe16 0x0018 ++ ofBe16 0xffff),
              box "avcC" (avcRecord sps pps)]],
          emptyTables]]]]

/-- The audio track of a movie that has one. -/
def withAudio (audio : Option AudioTrack) : Option AudioTrack :=
  audio.filter fun a => a.codec ≠ .none

def initSegment (sps pps : Bytes) (width height timescale : ℕ) (audio : Option AudioTrack) :
    Bytes :=
  let audio := withAudio audio
  writeAll [ftypBox, box "moov" [mvhdBox timescale (audio.elim 2 (·.trackId + 1)),
    videoTrak sps pps width height timescale, writeAll (audio.toList.map audioTrak),
    box "mvex" [trexBox 1, writeAll (audio.toList.map fun a => trexBox a.trackId)]]] []

/-- One frame: moof and mdat. -/
def fragment (sequence decodeTime duration : ℕ) (sample : Bytes) (key : Bool) (trackId : ℕ := 1) :
    Bytes :=
  let b := openBox "moof" []
  let b := full "mfhd" 0 0 [put (ofBe32 sequence)] b
  let traf := b.length
  let b := openBox "traf" b
  let b := full "tfhd" 0 0x020000 [put (ofBe32 trackId)] b
  let b := full "tfdt" 1 0 [put (ofBe64 decodeTime)] b
  let trun := b.length
  let b := openFull "trun" 0 0x000701 b ++ ofBe32 1
  let offsetAt := b.length
  let b := b ++ ofBe32 0 ++ ofBe32 duration ++ ofBe32 sample.length ++
    ofBe32 (if key then 0x02000000 else 0x01010000)
  let b := closeBox traf (closeBox trun b)
  -- from the start of the moof to the first byte of the mdat payload
  let b := closeBox 0 (patch32 b offsetAt (b.length + 8))
  box "mdat" [put sample] b

/-- The High profiles carry the chroma format and the bit depths too. -/
def isHigh (sps : Bytes) : Bool :=
  let prof := if 1 < sps.length then byte sps 1 else 0
  prof = 100 || prof = 110 || prof = 122 || prof = 144

def heifAvcStill (sps pps : Bytes) (width height : ℕ) (sample : Bytes) : Bytes :=
  let b := box "ftyp" [put (tag "avci"), put (ofBe32 0), put (tag "mif1"), put (tag "avci"),
    put (tag "miaf")] []
  let meta' := b.length
  let b := openFull "meta" 0 0 b
  let b := full "hdlr" 0 0 [put (ofBe32 0 ++ tag "pict" ++ zeros 12), put [0]] b
  let b := full "pitm" 0 0 [put (ofBe16 1)] b
  let iloc := b.length
  let b := openFull "iloc" 0 0 b ++ [0x44, 0] ++ ofBe16 1 ++ ofBe16 1 ++ ofBe16 0 ++ ofBe16 1
  let extentOffsetAt := b.length
  let b := closeBox iloc (b ++ ofBe32 0 ++ ofBe32 sample.length)
  let b := full "iinf" 0 0 [put (ofBe16 1),
    full "infe" 2 0 [put (ofBe16 1 ++ ofBe16 0), put (tag "avc1"), put [0]]] b
  let b := box "iprp" [
    box "ipco" [
      box "avcC" (avcRecord sps pps ++ [put (if isHigh sps then [0xfd, 0xf8, 0xf8, 0] else [])]),
      full "ispe" 0 0 [put (ofBe32 width ++ ofBe32 height)]],
    full "ipma" 0 0 [put (ofBe32 1), put (ofBe16 1), put [2], put [0x81], put [0x02]]] b
  let b := openBox "mdat" (closeBox meta' b)
  let payloadAt := b.length
  patch32 (closeBox (payloadAt - 8) (b ++ sample)) extentOffsetAt payloadAt

def minStepUs : ℤ := 1000
def maxStepUs : ℤ := 1000000
def fallbackStepUs : ℤ := 50000

/-- The decode timeline of one viewer; `skewUs` is the time taken out at discontinuities. -/
structure Timeline where
  originUs : ℤ := 0
  skewUs : ℤ := 0
  lastUs : ℤ := 0
  started : Bool := false

/-- The decode time for a frame, and the duration to advertise for it. -/
def Timeline.next (t : Timeline) (ptsUs : ℤ) : Timeline × ℕ × ℕ :=
  let d := ptsUs - t.lastUs
  let step := if 0 < t.lastUs ∧ minStepUs < d ∧ d < maxStepUs then d else fallbackStepUs
  let duration := ((step * 90000 + 500000) / 1000000).toNat
  let t :=
    if !t.started then { t with originUs := ptsUs, skewUs := 0, started := true }
    else if 0 < t.lastUs ∧ (d ≤ minStepUs ∨ maxStepUs ≤ d) then
      { t with skewUs := t.skewUs + (d - step) }
    else t
  let tl := max (ptsUs - t.originUs - t.skewUs) 0
  ({ t with lastUs := ptsUs }, ((tl * 90000 + 500000) / 1000000).toNat, duration)

end Machino.Fmp4
