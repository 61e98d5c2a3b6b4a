import Mathlib.Data.List.Dedup
import Mathlib.Data.List.Sort
import Machino.Basic.Lines
import Machino.Core.Number

namespace Machino.Webrtc

/-- One medium of the offer. -/
structure OfferMedia where
  kind : Text
  mid : Text := []
  /-- The payload types in the order of the offer. -/
  pts : List ℤ := []
  h264Pt : ℤ := -1
  h264Profile : Text := []
  pcmaPt : ℤ := -1
  pcmuPt : ℤ := -1
  direction : Text := "sendrecv".toList

structure Offer where
  ok : Bool := false
  error : Text := []
  iceUfrag : Text := []
  icePwd : Text := []
  fingerprintAlg : Text := []
  fingerprint : Text := []
  media : List OfferMedia := []
  videoIndex : Option ℕ := none
  audioIndex : Option ℕ := none

def stripCr (l : Text) : Text := if l.getLast? = some '\r' then l.dropLast else l

/-- Lines end with a line feed, with or without a carriage return in front of it. -/
def sdpLines (s : Text) : List Text := (Lines.split '\n' s).map stripCr

def starts (l : Text) (p : String) : Bool := p.toList.isPrefixOf l

def lower (s : Text) : Text := s.map Char.toLower

/-- Names of codecs and of parameters are case-insensitive. -/
def ieq (a : Text) (b : String) : Bool := lower a = lower b.toList

/-- The value of one key among parameters. -/
def fmtpValue (params : Text) (key : String) : Text :=
  let k := key.toList ++ ['=']
  let parts := (Lines.split ';' params).map fun part => part.dropWhile (· = ' ')
  match parts.find? fun part => k.length < part.length ∧ lower (part.take k.length) = lower k with
  | some part => part.drop k.length
  | none => []

/-- The profile without its level. -/
def profileOf (plid : Text) : Text := if plid.length < 6 then [] else lower (plid.take 4)

section

-- what the C library makes of a number beyond the range of an `int`
variable (wrap : ℤ → ℤ)

def toInt (v : ℤ) : ℤ := if -2 ^ 31 ≤ v ∧ v < 2 ^ 31 then v else (wrap v).bmod (2 ^ 32)

/-- A `%d` of `sscanf`, and what is behind it. -/
def scanInt (s : Text) : Option (ℤ × Text) :=
  (Text.scanNumber 10 s).map fun (neg, n, rest) => (toInt wrap (if neg then -n else n), rest)

/-- `%d %63[^/]`. -/
def scanRtpmap (s : Text) : Option (ℤ × Text) := do
  let (pt, rest) ← scanInt wrap s
  let codec := ((rest.dropWhile Text.isSpace).takeWhile (· ≠ '/')).take 63
  if codec = [] then none else some (pt, codec)

/-- The payload types of an m-line: numbers only, and not too many. -/
def payloadTypes (fields : List Text) : List ℤ :=
  (((fields.drop 2).filter fun f => f ≠ [] ∧ f.all Char.isDigit).filterMap fun f =>
    let pt := toInt wrap (Text.ofDigits 10 f)
    if 0 ≤ pt ∧ pt < 128 then some pt else none).take 64

def mediaOfLine (l : Text) : OfferMedia :=
  let kind := (l.drop 2).takeWhile (· ≠ ' ')
  { kind, pts := payloadTypes wrap (Lines.split ' ' (l.drop (2 + kind.length + 1))) }

/-- The loop over the lines; the medium that is read is the last one. -/
structure Reader where
  offer : Offer := {}
  h264Pts : List ℤ := []
  /-- The parameters by payload type, the newest first. -/
  fmtp : List (ℤ × Text) := []
  offeredVideo : List Text := []
  sawH264 : Bool := false

namespace Reader

def modifyLast {α : Type} (f : α → α) : List α → List α
  | [] => []
  | [a] => [f a]
  | a :: l => a :: modifyLast f l

def fmtpOf (r : Reader) (pt : ℤ) : Text := ((r.fmtp.find? (·.1 = pt)).map Prod.snd).getD []

/-- The payload with the mode that the sender needs, with its profile. -/
def mode1 (r : Reader) (pt : ℤ) : Option (ℤ × Text) :=
  if fmtpValue (r.fmtpOf pt) "packetization-mode" = ['1'] then
    some (pt, fmtpValue (r.fmtpOf pt) "profile-level-id")
  else none

/-- In the order of the offer, an exact profile before the first one; then what is described and not
listed. -/
def chooseVideo (r : Reader) (want : Text) (pts : List ℤ) : Bool × Option (ℤ × Text) :=
  let listed := pts.filter (· ∈ r.h264Pts)
  let weighed := listed.filterMap r.mode1
  match weighed.find? fun c => want ≠ [] ∧ profileOf c.2 = want with
  | some c => (true, some c)
  | none =>
    match weighed.head? with
    | some c => (true, some c)
    | none =>
      let others := (r.h264Pts.insertionSort (· ≤ ·)).dedup.filter (· ∉ pts)
      (!listed.isEmpty || !others.isEmpty, (others.filterMap r.mode1).head?)

def settleVideo (want : Text) (r : Reader) : Reader :=
  match r.offer.media.getLast? with
  | none => r
  | some m =>
    if m.kind ≠ "video".toList then r
    else
      let (saw, chosen) := r.chooseVideo want m.pts
      let r := { r with sawH264 := r.sawH264 || saw }
      match chosen with
      | none => r
      | some (pt, profile) =>
        { r with offer := { r.offer with
          media := modifyLast (fun m => { m with h264Pt := pt, h264Profile := profile })
            r.offer.media
          videoIndex := r.offer.videoIndex <|> some (r.offer.media.length - 1) } }

def onMedia (r : Reader) (f : OfferMedia → OfferMedia) : Reader :=
  { r with offer := { r.offer with media := modifyLast f r.offer.media } }

def onFingerprint (r : Reader) (v : Text) : Reader :=
  if r.offer.fingerprint = [] ∧ ' ' ∈ v then
    let alg := v.takeWhile (· ≠ ' ')
    { r with offer := { r.offer with
      fingerprintAlg := alg, fingerprint := v.drop (alg.length + 1) } }
  else r

def onRtpmap (r : Reader) (l : Text) : Reader :=
  match (scanRtpmap wrap (Text.cString (l.drop 9))).filter fun p => 0 ≤ p.1 with
  | none => r
  | some (pt, name) =>
    let r := if ieq name "H264" then { r with h264Pts := pt :: r.h264Pts } else r
    match r.offer.media.getLast? with
    | none => r
    | some m =>
      if m.kind = "audio".toList ∧ Text.contains (Text.cString l) "/8000" then
        r.onMedia fun m =>
          { m with
            pcmaPt := if ieq name "PCMA" ∧ m.pcmaPt < 0 then pt else m.pcmaPt
            pcmuPt := if ieq name "PCMU" ∧ m.pcmuPt < 0 then pt else m.pcmuPt }
      else if m.kind = "video".toList ∧ r.offeredVideo.length < 12 ∧
          !(["rtx", "red", "ulpfec", "flexfec-03"].any (ieq name ·)) ∧ name ∉ r.offeredVideo then
        { r with offeredVideo := r.offeredVideo ++ [name] }
      else r

/-- `%d %n`: the parameters are what is behind the payload type and the blanks after it. -/
def onFmtp (r : Reader) (l : Text) : Reader :=
  let s := Text.cString (l.drop 7)
  match (scanInt wrap s).filter fun p => 0 ≤ p.1 with
  | none => r
  | some (pt, rest) =>
    let off := s.length - (rest.dropWhile Text.isSpace).length
    { r with fmtp := (pt, l.drop (7 + off)) :: r.fmtp }

def line (want : Text) (r : Reader) (l : Text) : Reader :=
  if starts l "m=" then
    let r := r.settleVideo want
    { r with
      h264Pts := [], fmtp := []
      offer := { r.offer with media := r.offer.media ++ [mediaOfLine wrap l] } }
  else if starts l "a=mid:" then r.onMedia fun m => { m with mid := l.drop 6 }
  else if l ∈ ["a=sendrecv", "a=sendonly", "a=recvonly", "a=inactive"].map String.toList then
    r.onMedia fun m => { m with direction := l.drop 2 }
  else if starts l "a=ice-ufrag:" then
    if r.offer.iceUfrag = [] then { r with offer := { r.offer with iceUfrag := l.drop 12 } } else r
  else if starts l "a=ice-pwd:" then
    if r.offer.icePwd = [] then { r with offer := { r.offer with icePwd := l.drop 10 } } else r
  else if starts l "a=fingerprint:" then r.onFingerprint (l.drop 14)
  else if starts l "a=rtpmap:" then r.onRtpmap wrap l
  else if starts l "a=fmtp:" then r.onFmtp wrap l
  else r

end Reader

def noVideo (r : Reader) : Text :=
  let what := [','].intercalate r.offeredVideo
  "no H264 packetization-mode=1 video (offered: ".toList ++
    (if what = [] then "nothing".toList else what) ++ ")".toList ++
    if r.sawH264 then " - H264 was offered, but not in mode 1".toList else []

/-- The whole loop, with the last medium settled. -/
def readOffer (sdp preferProfile : Text) : Reader :=
  let want := profileOf preferProfile
  ((sdpLines sdp).foldl (Reader.line wrap want) {}).settleVideo want

def parseOffer (sdp preferProfile : Text) : Offer :=
  let r := readOffer wrap sdp preferProfile
  let o : Offer := { r.offer with
    audioIndex := r.offer.media.findIdx? fun m : OfferMedia =>
      m.kind = "audio".toList ∧ (0 ≤ m.pcmaPt ∨ 0 ≤ m.pcmuPt) }
  if o.videoIndex = none then { o with error := noVideo r }
  else if o.iceUfrag = [] ∨ o.icePwd = [] then { o with error := "missing ice credentials".toList }
  else if o.fingerprint = [] then { o with error := "missing DTLS fingerprint".toList }
  else { o with ok := true }

end

/-- What the camera brings to the answer. -/
structure AnswerParams where
  iceUfrag : Text
  icePwd : Text
  fingerprint : Text
  hostIp : Text
  port : ℕ
  ssrc : ℕ
  cname : Text := "machino".toList
  audioPt : ℤ := -1
  audioSend : Bool := false
  audioRecv : Bool := false
  audioSsrc : ℕ := 0

/-- `snprintf` into 256 bytes: a string argument ends at a zero byte. -/
def snprintf (parts : List Text) : Text := (parts.flatMap Text.cString).take 255

def crlf : Text := ['\r', '\n']

/-- A line that is put together without a buffer. -/
def plain (parts : List Text) : Text := parts.flatten ++ crlf

section

variable (print : List Text → Text) (o : Offer) (p : AnswerParams)

/-- The audio is taken. -/
def takesAudio : Bool :=
  decide (0 ≤ p.audioPt) && o.audioIndex.isSome && (p.audioSend || p.audioRecv)

def takes (i : ℕ) : Bool :=
  decide (o.videoIndex = some i) || (takesAudio o p && decide (o.audioIndex = some i))

def midLine (m : OfferMedia) : Text := if m.mid = [] then [] else plain ["a=mid:".toList, m.mid]

/-- The credentials of an accepted medium. -/
def credentials : Text :=
  plain ["a=ice-ufrag:".toList, p.iceUfrag] ++ plain ["a=ice-pwd:".toList, p.icePwd] ++
    plain ["a=fingerprint:sha-256 ".toList, p.fingerprint] ++ plain ["a=setup:passive".toList]

def candidate : Text :=
  print ["a=candidate:1 1 udp 2130706431 ".toList, p.hostIp, [' '], Text.ofNat p.port,
    " typ host".toList, crlf] ++ plain ["a=end-of-candidates".toList]

def ssrcLine (ssrc : ℕ) : Text :=
  print ["a=ssrc:".toList, Text.ofNat ssrc, " cname:".toList, p.cname, crlf]

def audioMedia (m : OfferMedia) : Text :=
  print ["m=audio ".toList, Text.ofNat p.port, " UDP/TLS/RTP/SAVPF ".toList, Text.ofInt p.audioPt,
      crlf] ++
    plain ["c=IN IP4 ".toList, p.hostIp] ++ midLine m ++ credentials p ++
    plain [if p.audioSend && p.audioRecv then "a=sendrecv".toList
      else if p.audioSend then "a=sendonly".toList else "a=recvonly".toList] ++
    plain ["a=rtcp-mux".toList] ++
    print ["a=rtpmap:".toList, Text.ofInt p.audioPt, [' '],
      if p.audioPt = m.pcmaPt then "PCMA".toList else "PCMU".toList, "/8000".toList, crlf] ++
    (if p.audioSend then ssrcLine print p p.audioSsrc else []) ++ candidate print p

def videoMedia (m : OfferMedia) : Text :=
  let pt := Text.ofInt m.h264Pt
  print ["m=".toList, m.kind, [' '], Text.ofNat p.port, " UDP/TLS/RTP/SAVPF ".toList, pt, crlf] ++
    plain ["c=IN IP4 ".toList, p.hostIp] ++ midLine m ++ credentials p ++
    plain ["a=sendonly".toList] ++ plain ["a=rtcp-mux".toList] ++
    print ["a=rtpmap:".toList, pt, " H264/90000".toList, crlf] ++
    (print ["a=fmtp:".toList, pt, " level-asymmetry-allowed=1;packetization-mode=1".toList] ++
      plain [if m.h264Profile = [] then [] else ";profile-level-id=".toList ++ m.h264Profile]) ++
    print ["a=rtcp-fb:".toList, pt, " nack".toList, crlf] ++
    print ["a=rtcp-fb:".toList, pt, " nack pli".toList, crlf] ++ ssrcLine print p p.ssrc ++
    candidate print p

def rejectedMedia (m : OfferMedia) : Text :=
  print ["m=".toList, m.kind, [' '], Text.ofNat 0, " UDP/TLS/RTP/SAVPF ".toList, Text.ofInt 0,
      crlf] ++
    plain ["c=IN IP4 0.0.0.0".toList] ++ midLine m ++ plain ["a=inactive".toList]

def mediaText (i : ℕ) (m : OfferMedia) : Text :=
  if takesAudio o p && decide (o.audioIndex = some i) then audioMedia print p m
  else if o.videoIndex = some i then videoMedia print p m
  else rejectedMedia print m

/-- The group names the accepted media only. -/
def group : Text :=
  (o.media.zipIdx.filter fun m => takes o p m.2 && decide (m.1.mid ≠ [])).flatMap fun m =>
    ' ' :: m.1.mid

def sessionText : Text :=
  plain ["v=0".toList] ++ plain ["o=- 1 2 IN IP4 127.0.0.1".toList] ++ plain ["s=-".toList] ++
    plain ["t=0 0".toList] ++ plain ["a=ice-lite".toList] ++
    (if group o p = [] then [] else plain ["a=group:BUNDLE".toList, group o p]) ++
    plain ["a=msid-semantic: WMS *".toList]

/-- The answer, for what writes a formatted line. -/
def answerWith : Text :=
  sessionText o p ++ o.media.zipIdx.flatMap fun m => mediaText print o p m.2 m.1

end

def buildAnswer (o : Offer) (p : AnswerParams) : Text :=
  if !o.ok || o.videoIndex.isNone then [] else answerWith snprintf o p

end Machino.Webrtc
