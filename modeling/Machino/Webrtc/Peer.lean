import Machino.Audio.G711
import Machino.Webrtc.RtpH264
import Machino.Webrtc.Sdp
import Machino.Webrtc.SrtpRoundTrip
import Machino.Webrtc.StunResponse

namespace Machino.Webrtc

open Bytes

/-- What the export callback is given in a handshake. -/
structure KeyExport where
  tls12Master : Bool
  secret : Bytes
  clientRandom : Vector UInt8 32
  serverRandom : Vector UInt8 32
  prf : ℕ

inductive HandshakeCode where
  | finished | want | helloVerifyRequired | failed
  deriving DecidableEq

/-- What one call of `mbedtls_ssl_handshake` does: the datagrams it takes from the queue, and those
it sends. -/
structure Handshake (μ : Type) where
  ssl : μ
  taken : ℕ
  sent : List Bytes
  exported : List KeyExport
  code : HandshakeCode

/-- The library, with its context `μ`. -/
structure Mbedtls (μ : Type) where
  handshake : μ → List Bytes → Handshake μ
  sessionReset : μ → μ
  setClientTransportId : μ → Bytes → μ
  /-- The profile of use_srtp is AES128_CM_HMAC_SHA1_80. -/
  srtpNegotiated : μ → Bool
  tlsPrf : ℕ → Bytes → String → Bytes → Option (Vector UInt8 60)

/-- The inputs of the exporter. -/
structure Master where
  prf : ℕ
  secret : Bytes
  /-- The client's, then the server's. -/
  randoms : Bytes

structure DtlsTransport (μ : Type) where
  ssl : μ
  cliId : Option Bytes := none
  incoming : List Bytes := []
  outgoing : List Bytes := []
  fp : Text
  ok : Bool
  done : Bool := false
  fatal : Bool := false
  master : Option Master := none

namespace DtlsTransport

variable {μ : Type} (m : Mbedtls μ) (t : DtlsTransport μ)

def setPeer (ip : UInt32) (port : UInt16) : DtlsTransport μ :=
  let id := ofBe32 ip.toNat ++ ofBe16 port.toNat
  { t with cliId := some id, ssl := m.setClientTransportId t.ssl id }

def feed (p : Bytes) : DtlsTransport μ :=
  if p = [] then t else { t with incoming := t.incoming ++ [p] }

def keysCb (master : Option Master) (k : KeyExport) : Option Master :=
  if k.tls12Master && k.secret.length = 48 then
    some ⟨k.prf, k.secret, k.clientRandom.toList ++ k.serverRandom.toList⟩
  else master

/-- False when the session has to be torn down. -/
def step : DtlsTransport μ × Bool :=
  if !t.ok || t.fatal then (t, false)
  else if t.done then (t, true)
  else
    let h := m.handshake t.ssl t.incoming
    let t := { t with
      ssl := h.ssl
      incoming := t.incoming.drop h.taken
      outgoing := t.outgoing ++ h.sent
      master := h.exported.foldl keysCb t.master }
    match h.code with
    | .finished => ({ t with done := true }, true)
    | .want => (t, true)
    | .helloVerifyRequired =>
      let ssl := m.sessionReset t.ssl
      ({ t with ssl := (t.cliId.map (m.setClientTransportId ssl)).getD ssl }, true)
    | .failed => ({ t with fatal := true }, false)

/-- The keys of the server, which the camera sends with, and of the client. -/
def exportSrtp : Option (SrtpKey × SrtpKey) :=
  if !t.done then none
  else
    match t.master with
    | none => none
    | some x =>
      if !m.srtpNegotiated t.ssl then none
      else
        (m.tlsPrf x.prf x.secret "EXTRACTOR-dtls_srtp" x.randoms).map fun km =>
          (⟨Vector.ofFn fun i => km[16 + i.val], Vector.ofFn fun i => km[46 + i.val]⟩,
            ⟨Vector.ofFn fun i => km[i.val], Vector.ofFn fun i => km[32 + i.val]⟩)

end DtlsTransport

def isRtcp (p : Bytes) : Bool :=
  let pt := byte p 1 % 2 ^ 7
  decide (8 ≤ p.length) && byte p 0 / 2 ^ 6 = 2 && decide (64 ≤ pt) && decide (pt ≤ 95)

structure RtcpInfo where
  pli : Bool := false
  receiverReport : Bool := false

/-- The loop over the packets of a compound. -/
def parseRtcpFrom (p : Bytes) : ℕ → ℕ → RtcpInfo → RtcpInfo
  | 0, _, r => r
  | fuel + 1, at', r =>
    if p.length < at' + 4 ∨ byte p at' / 2 ^ 6 ≠ 2 then r
    else
      let fmt := byte p at' % 2 ^ 5
      let pt := byte p (at' + 1)
      let plen := 4 * (be16 p (at' + 2) + 1)
      if p.length < at' + plen then r
      else
        parseRtcpFrom p fuel (at' + plen)
          { pli := r.pli || (pt = 206 && fmt = 1), receiverReport := r.receiverReport || pt = 201 }

/-- Each packet of the compound takes four bytes at least. -/
def parseRtcp (p : Bytes) : RtcpInfo := parseRtcpFrom p p.length 0 {}

structure AudioPlan where
  pt : ℤ := -1
  send : Bool := false
  recv : Bool := false

def planAudio (o : Offer) (cameraCanSend cameraCanRecv : Bool) : AudioPlan :=
  match o.audioIndex.bind (o.media[·]?) with
  | none => {}
  | some m =>
    let browserRecv := m.direction = "sendrecv".toList ∨ m.direction = "recvonly".toList
    let browserSend := m.direction = "sendrecv".toList ∨ m.direction = "sendonly".toList
    let send := cameraCanSend && decide browserRecv
    let recv := cameraCanRecv && decide browserSend
    if !send && !recv then {}
    else { pt := if 0 ≤ m.pcmaPt then m.pcmaPt else m.pcmuPt, send, recv }

inductive Errno where
  | einval | eaddrnotavail | enetunreach | ehostunreach | enetdown | enodev | enotconn
  | other (e : ℕ)
  deriving DecidableEq

/-- The path is gone, not the buffer full. -/
def isFatalSendErrno : Errno → Bool
  | .einval | .eaddrnotavail | .enetunreach | .ehostunreach | .enetdown | .enodev => true
  | .enotconn | .other _ => false

def kStrandedAfter : ℕ := 25

structure Addr where
  ip : UInt32
  port : UInt16
  deriving DecidableEq

/-- What a datagram is sent for. -/
inductive What where
  | stun | dtls | video | audio
  deriving DecidableEq

/-- A call of `recvfrom` or of `sendto`, with what came of it. -/
inductive Io where
  | recv (src : Addr) (data : Bytes)
  | send (what : What) (dst : Addr) (data : Bytes) (err : Option Errno)

structure PeerSession (μ : Type) where
  ufrag : Text
  pwd : Text
  dtls : DtlsTransport μ
  srtp : Option SrtpSession := none
  rtp : RtpParams
  seq : ℕ
  audio : AudioPlan := {}
  audioPcma : Bool := true
  audioSsrc : ℕ
  audioSeq : ℕ
  audioTs : ℕ := 0
  /-- Talkback, decoded. -/
  audioIn : List Int16 := []
  awaitKey : Bool := true
  pli : Bool := false
  offered : Bool := false
  /-- Learned from the authenticated binding requests. -/
  peer : Option Addr := none
  dtlsLogged : Bool := false
  lastSendErrno : Option Errno := none
  /-- Sends in a row that failed with a fatal errno. -/
  fatalSendStreak : ℕ := 0
  /-- What passed over the socket, the newest first. -/
  io : List Io := []

/-- The bytes of a credential. -/
def octets (s : Text) : Bytes := s.map fun c => UInt8.ofNat c.toNat

def tokenAlphabet : Vector Char 62 :=
  ⟨"abcdefghijklmnopqrstuvwxyzABCDEFGHIJKLMNOPQRSTUVWXYZ0123456789".toList.toArray, by decide⟩

/-- `raw` is what could be read of `/dev/urandom`. -/
def randomToken (n : ℕ) (raw : Bytes) : Text :=
  (List.range n).map fun i =>
    let b := (raw.getD i (UInt8.ofNat (i * 37 + 11))).toNat
    tokenAlphabet.get ⟨b % 62, Nat.mod_lt _ (Nat.succ_pos 61)⟩

/-- A session whose socket is bound; an SSRC of 0 is not used. -/
def PeerSession.create {μ : Type} (dtls : DtlsTransport μ) (ufrag pwd r : Bytes) : PeerSession μ :=
  let ssrc := be32 r 0
  let ssrc := if ssrc = 0 then 0x4d414348 else ssrc
  let audioSsrc := ssrc ^^^ 0x41554449
  { ufrag := randomToken 8 ufrag, pwd := randomToken 24 pwd, dtls
    rtp := { payloadType := 102, ssrc }
    seq := ssrc / 2 ^ 8 % 2 ^ 16
    audioSsrc
    audioSeq := audioSsrc / 2 ^ 4 % 2 ^ 16 }

/-- Microseconds, cast to 64 bits, to 90 kHz. -/
def ticks (ptsUs : ℤ) : ℕ := (ptsUs % 2 ^ 64).toNat * 9 % 2 ^ 64 / 100 % 2 ^ 32

namespace PeerSession

variable {μ : Type}

/-- The answer, or why there is none. -/
def onOffer (wrap : ℤ → ℤ) (hostIp : Text) (port : ℕ) (s : PeerSession μ) (offerSdp : Text)
    (localProfile : Text) (audioSend audioRecv : Bool) : PeerSession μ × Except Text Text :=
  if !s.dtls.ok then (s, .error "session setup failed".toList)
  else if s.offered then (s, .error "already offered".toList)
  else
    let o := parseOffer wrap offerSdp localProfile
    if !o.ok then (s, .error o.error)
    else
      let video := (o.videoIndex.bind (o.media[·]?)).map OfferMedia.h264Pt
      let plan := planAudio o audioSend audioRecv
      let pcma := (o.audioIndex.bind (o.media[·]?)).map OfferMedia.pcmaPt
      let s := { s with
        rtp := { s.rtp with payloadType := UInt8.ofNat ((video.getD 0) % 2 ^ 8).toNat }
        audio := plan
        audioPcma := if 0 ≤ plan.pt then decide (some plan.pt = pcma) else s.audioPcma
        offered := true }
      let p : AnswerParams :=
        { iceUfrag := s.ufrag, icePwd := s.pwd, fingerprint := s.dtls.fp, hostIp, port
          ssrc := s.rtp.ssrc }
      let p := if plan.pt < 0 then p else
        { p with audioPt := plan.pt, audioSend := plan.send, audioRecv := plan.recv
                 audioSsrc := s.audioSsrc }
      (s, .ok (buildAnswer o p))

section

-- what becomes of a datagram, by how many calls came before it
variable (net : ℕ → Option Errno)

/-- No peer yet is not an error of the path. -/
def sendUdp (s : PeerSession μ) (what : What) (p : Bytes) : PeerSession μ × Option Errno :=
  match s.peer with
  | none => (s, some .enotconn)
  | some dst =>
    let err := net s.io.length
    ({ s with io := .send what dst p err :: s.io }, err)

def sendAllUdp (what : What) : PeerSession μ → List Bytes → PeerSession μ
  | s, [] => s
  | s, p :: ps => sendAllUdp what (s.sendUdp net what p).1 ps

/-- Everything that the handshake has queued. -/
def flushDtls (s : PeerSession μ) : PeerSession μ :=
  sendAllUdp net .dtls { s with dtls := { s.dtls with outgoing := [] } } s.dtls.outgoing

variable (c : Crypto) (m : Mbedtls μ)

def onStun (s : PeerSession μ) (src : Addr) (buf : Bytes) : PeerSession μ :=
  let req := parseBindingRequest hmacSha1 (octets s.pwd) buf
  if !req.ok || !req.integrityOk then s
  else
    -- the authenticated check is how the peer's address is found
    let s := { s with
      dtls := if s.peer.isSome then s.dtls else s.dtls.setPeer m src.ip src.port
      peer := some src }
    let tid := Vector.ofFn fun i => req.tid.getD i.val 0
    (s.sendUdp net .stun (bindingResponse tid src.ip src.port (octets s.pwd))).1

/-- False when the handshake has failed. -/
def onDtls (s : PeerSession μ) (buf : Bytes) : PeerSession μ × Bool :=
  let (dtls, alive) := (s.dtls.feed buf).step m
  let s := { s with dtls }
  if !alive then (s, false)
  else
    let s := s.flushDtls net
    if s.dtls.done && !s.dtlsLogged then
      let s := { s with dtlsLogged := true }
      match s.dtls.exportSrtp m with
      | none => (s, true)
      | some (ours, theirs) =>
        -- start with a fresh IDR
        ({ s with srtp := some (.ofKeys c ours theirs), awaitKey := true, pli := true }, true)
    else (s, true)

def onSrtp (s : PeerSession μ) (buf : Bytes) : PeerSession μ :=
  match s.srtp with
  | none => s
  | some srtp =>
    if isRtcp buf then
      match srtp.unprotectRtcp c buf with
      | (srtp, none) => { s with srtp := some srtp }
      | (srtp, some pkt) => { s with srtp := some srtp, pli := s.pli || (parseRtcp pkt).pli }
    else if s.audio.recv then
      match srtp.unprotectRtp c buf with
      | (srtp, none) => { s with srtp := some srtp }
      | (srtp, some (pkt, start)) =>
        let s := { s with srtp := some srtp }
        let payload := pkt.drop start
        if ((byte pkt 1 % 2 ^ 7 : ℕ) : ℤ) ≠ s.audio.pt then s
        -- nobody has taken it for a second
        else if 8000 < s.audioIn.length + payload.length then s
        else
          let decode := if s.audioPcma then G711.alawDecode else G711.ulawDecode
          { s with audioIn := s.audioIn ++ payload.map decode }
    else s

/-- One turn of the loop, for a datagram that was received; false ends the loop. -/
def onDatagram (s : PeerSession μ) (src : Addr) (data : Bytes) : PeerSession μ × Bool :=
  let buf := data.take 2048
  let s := { s with io := .recv src buf :: s.io }
  if buf = [] then (s, false)
  else
    let b0 := byte buf 0
    if isStun buf then (s.onStun net m src buf, true)
    else if 20 ≤ b0 ∧ b0 ≤ 63 then s.onDtls net c m buf
    else if 128 ≤ b0 ∧ b0 ≤ 191 then (s.onSrtp c buf, true)
    else (s, true)

/-- The socket is readable. What is left when the loop ends early is read the next time. -/
def onReadable (s : PeerSession μ) : List (Addr × Bytes) → PeerSession μ
  | [] => s
  | (src, data) :: rest =>
    match s.onDatagram net c m src data with
    | (s, true) => onReadable s rest
    | (s, false) => s

def tick (s : PeerSession μ) : PeerSession μ :=
  if s.dtls.done then s else { s with dtls := (s.dtls.step m).1 }.flushDtls net

/-- The loop of `send_audio`, 1000 samples at a time; at most `fuel` packets. -/
def sendAudioFrom (s : PeerSession μ) (srtp : SrtpSession) : ℕ → Bytes → PeerSession μ
  | 0, _ => s
  | fuel + 1, g711 =>
    if g711 = [] then s
    else
      let chunk := g711.take 1000
      let pkt := Rtp.writeHeader (UInt8.ofNat (s.audio.pt % 2 ^ 8).toNat) false s.audioSeq s.audioTs
        s.audioSsrc ++ chunk
      let s := { s with
        audioSeq := (s.audioSeq + 1) % 2 ^ 16
        audioTs := (s.audioTs + chunk.length) % 2 ^ 32 }
      match srtp.protectRtp c pkt with
      | (srtp, none) => { s with srtp := some srtp }
      | (srtp, some pkt) =>
        match { s with srtp := some srtp }.sendUdp net .audio pkt with
        | (s, none) => s.sendAudioFrom srtp fuel (g711.drop 1000)
        -- audio is the first to go
        | (s, some _) => s

def sendAudio (s : PeerSession μ) (g711 : Bytes) (skipSamples : ℕ) : PeerSession μ :=
  match s.srtp with
  | none => s
  | some srtp =>
    if s.peer.isNone || !s.audio.send || g711 = [] then s
    else
      { s with audioTs := (s.audioTs + skipSamples) % 2 ^ 32 }.sendAudioFrom net c srtp
        g711.length g711

/-- The loop over the packets of an access unit. -/
def sendPackets (s : PeerSession μ) (srtp : SrtpSession) : List Bytes → PeerSession μ
  | [] => { s with awaitKey := false }
  | pkt :: pkts =>
    match srtp.protectRtp c pkt with
    | (srtp, none) => { s with srtp := some srtp }
    | (srtp, some pkt) =>
      match { s with srtp := some srtp }.sendUdp net .video pkt with
      | (s, none) => { s with fatalSendStreak := 0 }.sendPackets srtp pkts
      | (s, some e) => { s with
          lastSendErrno := some e
          -- a full buffer is no path error
          fatalSendStreak := if isFatalSendErrno e then (s.fatalSendStreak + 1) % 2 ^ 32 else 0
          -- the rest of this access unit is dropped, until a key frame
          awaitKey := true }

def sendAu (s : PeerSession μ) (au : Bytes) (ptsUs : ℤ) (key : Bool) : PeerSession μ :=
  match s.srtp with
  | none => s
  | some srtp =>
    if s.peer.isNone || (s.awaitKey && !key) then s
    else
      let (pkts, seq) := packetizeH264 au (ticks ptsUs) s.seq s.rtp
      { s with seq }.sendPackets net c srtp pkts

end

def takeAudioIn (s : PeerSession μ) : PeerSession μ × List Int16 :=
  ({ s with audioIn := [] }, s.audioIn)

def takePli (s : PeerSession μ) : PeerSession μ × Bool := ({ s with pli := false }, s.pli)

def stranded (s : PeerSession μ) : Bool := kStrandedAfter ≤ s.fatalSendStreak

end PeerSession

end Machino.Webrtc
