import Machino.Basic.Runs
import Machino.Webrtc.Keystream
import Machino.Webrtc.Peer

namespace Machino.Webrtc

open Bytes SrtpSession H264

variable {μ : Type}

/-- What the owner of a session does with it. -/
inductive PeerEvent where
  | offer (hostIp : Text) (port : ℕ) (sdp localProfile : Text) (audioSend audioRecv : Bool)
  | readable (dgs : List (Addr × Bytes))
  | tick
  | sendAudio (g711 : Bytes) (skipSamples : ℕ)
  | sendAu (au : Bytes) (ptsUs : ℤ) (key : Bool)
  | takeAudioIn
  | takePli

/-- An access unit that was handed over when there was a way to send it. -/
structure Au where
  key : Bool
  /-- The sequence number that its first packet gets, where it is sent. -/
  first : ℕ
  packets : List Bytes
  /-- What was given to the socket for it. -/
  sent : List Io

/-- A session, and the access units it was given, the newest first. -/
structure PeerWorld (μ : Type) where
  s : PeerSession μ
  aus : List Au := []

section

variable (wrap : ℤ → ℤ) (net : ℕ → Option Errno) (c : Crypto) (m : Mbedtls μ)

def peerStep (w : PeerWorld μ) : PeerEvent → PeerWorld μ
  | .offer hostIp port sdp profile audioSend audioRecv =>
    { w with s := (w.s.onOffer wrap hostIp port sdp profile audioSend audioRecv).1 }
  | .readable dgs => { w with s := w.s.onReadable net c m dgs }
  | .tick => { w with s := w.s.tick net m }
  | .sendAudio g711 skipSamples => { w with s := w.s.sendAudio net c g711 skipSamples }
  | .sendAu au ptsUs key =>
    let s := w.s.sendAu net c au ptsUs key
    { s
      aus := if w.s.srtp.isSome && w.s.peer.isSome then
          ⟨key, w.s.seq, (packetizeH264 au (ticks ptsUs) w.s.seq w.s.rtp).1,
            s.io.take (s.io.length - w.s.io.length)⟩ :: w.aus
        else w.aus }
  | .takeAudioIn => { w with s := w.s.takeAudioIn.1 }
  | .takePli => { w with s := w.s.takePli.1 }

end

/-- The datagram is sent for `what`, to the peer. -/
def Io.Goes (what : What) (peer : Option Addr) (x : Io) : Prop :=
  ∃ dst data err, x = .send what dst data err ∧ peer = some dst

/-- A packet of video or audio. -/
def Io.media : Io → Option Bytes
  | .send .video _ data _ | .send .audio _ data _ => some data
  | _ => none

/-- What came of a packet of video. -/
def Io.video : Io → Option (Option Errno)
  | .send .video _ _ err => some err
  | _ => none

theorem filterMap_media {what : What} {peer : Option Addr} {new : List Io} (hv : what ≠ .video)
    (ha : what ≠ .audio) (h : ∀ x ∈ new, x.Goes what peer) : new.filterMap Io.media = [] := by
  apply List.filterMap_eq_nil_iff.mpr
  intro x hx
  obtain ⟨dst, data, err, rfl, -⟩ := h x hx
  cases what with
  | stun => rfl
  | dtls => rfl
  | video => exact absurd rfl hv
  | audio => exact absurd rfl ha

theorem filterMap_video {what : What} {peer : Option Addr} {new : List Io} (hv : what ≠ .video)
    (h : ∀ x ∈ new, x.Goes what peer) : new.filterMap Io.video = [] := by
  apply List.filterMap_eq_nil_iff.mpr
  intro x hx
  obtain ⟨dst, data, err, rfl, -⟩ := h x hx
  cases what with
  | stun => rfl
  | dtls => rfl
  | video => exact absurd rfl hv
  | audio => rfl

namespace PeerSession

variable (net : ℕ → Option Errno) {c : Crypto} {m : Mbedtls μ}

theorem sendUdp_none {s : PeerSession μ} (h : s.peer = none) (what : What) (p : Bytes) :
    s.sendUdp net what p = (s, some .enotconn) := by
  unfold sendUdp
  rw [h]

theorem sendUdp_some {s : PeerSession μ} {dst : Addr} (h : s.peer = some dst) (what : What)
    (p : Bytes) : s.sendUdp net what p =
      ({ s with io := .send what dst p (net s.io.length) :: s.io }, net s.io.length) := by
  unfold sendUdp
  rw [h]

theorem sendUdp_eq (s : PeerSession μ) (what : What) (p : Bytes) :
    ∃ new, (s.sendUdp net what p).1 = { s with io := new ++ s.io } ∧
      ∀ x ∈ new, x.Goes what s.peer := by
  obtain hpeer | ⟨dst, hpeer⟩ := Option.eq_none_or_eq_some s.peer
  · rw [sendUdp_none net hpeer]
    exact ⟨[], rfl, nofun⟩
  · rw [sendUdp_some net hpeer]
    refine ⟨[.send what dst p (net s.io.length)], rfl, ?_⟩
    intro x hx
    exact ⟨dst, p, _, List.mem_singleton.mp hx, hpeer⟩

theorem sendAllUdp_eq (what : What) (ps : List Bytes) (s : PeerSession μ) :
    ∃ new, sendAllUdp net what s ps = { s with io := new ++ s.io } ∧
      ∀ x ∈ new, x.Goes what s.peer := by
  induction ps generalizing s with
  | nil => exact ⟨[], rfl, nofun⟩
  | cons p ps ih =>
    obtain ⟨one, hone, hgoes⟩ := s.sendUdp_eq net what p
    obtain ⟨new, hnew, hrest⟩ := ih (s.sendUdp net what p).1
    rw [sendAllUdp, hnew, hone]
    refine ⟨new ++ one, by simp, ?_⟩
    rw [hone] at hrest
    exact List.forall_mem_append.mpr ⟨hrest, hgoes⟩

theorem flushDtls_eq (s : PeerSession μ) :
    ∃ new, s.flushDtls net =
        { s with dtls := { s.dtls with outgoing := [] }, io := new ++ s.io } ∧
      ∀ x ∈ new, x.Goes .dtls s.peer :=
  sendAllUdp_eq net .dtls s.dtls.outgoing { s with dtls := { s.dtls with outgoing := [] } }

/-- The loop of `send_audio` sends audio, and changes nothing but what it numbers by. -/
theorem sendAudioFrom_eq (fuel : ℕ) (srtp : SrtpSession) (g711 : Bytes) (s : PeerSession μ) :
    ∃ seq ts key new, s.sendAudioFrom net c srtp fuel g711 =
        { s with audioSeq := seq, audioTs := ts, srtp := key, io := new ++ s.io } ∧
      ∀ x ∈ new, x.Goes .audio s.peer := by
  induction fuel generalizing s srtp g711 with
  | zero => exact ⟨_, _, _, [], rfl, nofun⟩
  | succ fuel ih =>
    rw [sendAudioFrom]
    split_ifs with hnil
    · exact ⟨_, _, _, [], rfl, nofun⟩
    · dsimp only
      split
      · exact ⟨_, _, _, [], rfl, nofun⟩
      · rename_i srtp' pkt _
        generalize hs : ({ s with
          audioSeq := (s.audioSeq + 1) % 2 ^ 16
          audioTs := (s.audioTs + (g711.take 1000).length) % 2 ^ 32
          srtp := some srtp' } : PeerSession μ) = s1
        obtain ⟨one, hone, hgoes⟩ := s1.sendUdp_eq net .audio pkt
        split
        · rename_i s2 heq
          rw [heq] at hone
          obtain ⟨seq, ts, key, new, hnew, hrest⟩ := ih srtp' (g711.drop 1000) s2
          subst hs hone
          refine ⟨seq, ts, key, new ++ one, by rw [hnew]; simp, ?_⟩
          exact List.forall_mem_append.mpr ⟨hrest, hgoes⟩
        · rename_i s2 err heq
          rw [heq] at hone
          subst hs hone
          exact ⟨_, _, _, one, rfl, hgoes⟩

/-- The loop of `send_au` sends video. -/
theorem sendPackets_eq (srtp : SrtpSession) (pkts : List Bytes) (s : PeerSession μ) :
    ∃ key new wait e streak, s.sendPackets net c srtp pkts =
        { s with srtp := key, io := new ++ s.io, awaitKey := wait, lastSendErrno := e
                 fatalSendStreak := streak } ∧
      ∀ x ∈ new, x.Goes .video s.peer := by
  induction pkts generalizing s srtp with
  | nil => exact ⟨_, [], _, _, _, rfl, nofun⟩
  | cons pkt pkts ih =>
    rw [sendPackets]
    split
    · exact ⟨_, [], _, _, _, rfl, nofun⟩
    · rename_i srtp' sealed _
      generalize hs : ({ s with srtp := some srtp' } : PeerSession μ) = s1
      obtain ⟨one, hone, hgoes⟩ := s1.sendUdp_eq net .video sealed
      split
      · rename_i s2 heq
        rw [heq] at hone
        obtain ⟨key, new, wait, e, streak, hnew, hrest⟩ := ih srtp' { s2 with fatalSendStreak := 0 }
        subst hs hone
        refine ⟨key, new ++ one, wait, e, streak, by rw [hnew]; simp, ?_⟩
        exact List.forall_mem_append.mpr ⟨hrest, hgoes⟩
      · rename_i s2 err heq
        rw [heq] at hone
        subst hs hone
        exact ⟨_, one, _, _, _, rfl, hgoes⟩

/-- An access unit is dropped for want of a key or of a peer, or for want of a key frame, or its
packets are sent. -/
theorem sendAu_cases (s : PeerSession μ) (au : Bytes) (pts : ℤ) (key : Bool) :
    (s.sendAu net c au pts key = s ∧
      ((s.srtp.isSome && s.peer.isSome) = false ∨ s.awaitKey = true)) ∨
    ∃ srtp dst, s.srtp = some srtp ∧ s.peer = some dst ∧ (s.awaitKey = false ∨ key = true) ∧
      s.sendAu net c au pts key =
        { s with seq := (packetizeH264 au (ticks pts) s.seq s.rtp).2 }.sendPackets net c srtp
          (packetizeH264 au (ticks pts) s.seq s.rtp).1 := by
  unfold sendAu
  obtain hkey | ⟨srtp, hkey⟩ := Option.eq_none_or_eq_some s.srtp
  · left
    rw [hkey]
    exact ⟨rfl, .inl rfl⟩
  obtain hpeer | ⟨dst, hpeer⟩ := Option.eq_none_or_eq_some s.peer
  · left
    rw [hkey, hpeer]
    exact ⟨rfl, .inl rfl⟩
  by_cases hgate : s.awaitKey = true ∧ key = false
  · left
    obtain ⟨hwait, rfl⟩ := hgate
    refine ⟨?_, .inr hwait⟩
    rw [hkey]
    dsimp only
    rw [if_pos (by rw [hwait, hpeer]; rfl)]
  · right
    refine ⟨srtp, dst, hkey, hpeer, ?_, ?_⟩
    · cases hwait : s.awaitKey with
      | false => exact .inl rfl
      | true => exact .inr (Bool.eq_true_of_not_eq_false fun hk => hgate ⟨hwait, hk⟩)
    · have hopen : ¬ (s.peer.isNone || s.awaitKey && !key) = true := by
        rw [hpeer]
        simpa using hgate
      simp only [hkey]
      rw [if_neg hopen]

/-- The key of the session, as a step without media leaves it. -/
inductive SrtpStep (s s' : PeerSession μ) : Prop where
  | none (h : s.srtp = none) (h' : s'.srtp = none)
  | kept (a b : SrtpSession) (h : s.srtp = some a) (h' : s'.srtp = some b)
      (hout : b.streamsOut = a.streamsOut) (hdir : b.rtpOut = a.rtpOut)
  | fresh (b : SrtpSession) (h : s.dtlsLogged = false) (h' : s'.dtlsLogged = true)
      (hkey : s'.srtp = some b) (hout : b.streamsOut = fun _ => { st := default })
      (hwait : s'.awaitKey = true)

structure Aside (s s' : PeerSession μ) : Prop where
  ssrc : s'.rtp.ssrc = s.rtp.ssrc
  payload : s'.rtp.maxPayload = s.rtp.maxPayload
  audioSsrc : s'.audioSsrc = s.audioSsrc
  seq : s'.seq = s.seq
  audioSeq : s'.audioSeq = s.audioSeq
  streak : s'.fatalSendStreak = s.fatalSendStreak
  wait : s'.awaitKey = s.awaitKey ∨ s'.awaitKey = true
  media : s'.io.filterMap Io.media = s.io.filterMap Io.media
  video : s'.io.filterMap Io.video = s.io.filterMap Io.video
  logged : s.dtlsLogged = true → s'.dtlsLogged = true
  key : SrtpStep s s'

theorem SrtpStep.same {s s' : PeerSession μ} (h : s'.srtp = s.srtp) : SrtpStep s s' := by
  cases hs : s.srtp with
  | none => exact .none hs (h.trans hs)
  | some a => exact .kept a a hs (h.trans hs) rfl rfl

theorem Aside.refl (s : PeerSession μ) : Aside s s :=
  ⟨rfl, rfl, rfl, rfl, rfl, rfl, .inl rfl, rfl, rfl, id, .same rfl⟩

theorem Aside.trans {s t u : PeerSession μ} (h : Aside s t) (h' : Aside t u) : Aside s u where
  ssrc := h'.ssrc.trans h.ssrc
  payload := h'.payload.trans h.payload
  audioSsrc := h'.audioSsrc.trans h.audioSsrc
  seq := h'.seq.trans h.seq
  audioSeq := h'.audioSeq.trans h.audioSeq
  streak := h'.streak.trans h.streak
  wait := h'.wait.elim (fun heq => heq ▸ h.wait) .inr
  media := h'.media.trans h.media
  video := h'.video.trans h.video
  logged := h'.logged ∘ h.logged
  key := by
    have hfresh : t.dtlsLogged = false → s.dtlsLogged = false := by
      intro ht
      by_contra hs
      rw [h.logged (Bool.eq_true_of_not_eq_false hs)] at ht
      exact Bool.false_ne_true ht.symm
    cases h'.key with
    | none ht hu =>
      cases h.key with
      | none hs _ => exact .none hs hu
      | kept a b _ hb => exact absurd (hb.symm.trans ht) (Option.some_ne_none b)
      | fresh b _ _ hb => exact absurd (hb.symm.trans ht) (Option.some_ne_none b)
    | kept a b ht hu hout hdir =>
      cases h.key with
      | none _ hn => exact absurd (ht.symm.trans hn) (Option.some_ne_none a)
      | kept a' b' hs hb hout' hdir' =>
        obtain rfl := Option.some.inj (hb.symm.trans ht)
        exact .kept a' b hs hu (hout.trans hout') (hdir.trans hdir')
      | fresh b' hs hl hb hnew hwait =>
        obtain rfl := Option.some.inj (hb.symm.trans ht)
        refine .fresh b hs (h'.logged hl) hu (hout.trans hnew) ?_
        exact h'.wait.elim (fun heq => heq.trans hwait) id
    | fresh b ht hl hkey hnew hwait => exact .fresh b (hfresh ht) hl hkey hnew hwait

/-- Datagrams of another kind, and a change of what media do not depend on. -/
theorem Aside.of_goes {s : PeerSession μ} {what : What} {new : List Io} {peer : Option Addr}
    (hv : what ≠ .video) (ha : what ≠ .audio) (h : ∀ x ∈ new, x.Goes what peer)
    (dtls : DtlsTransport μ) (peer' : Option Addr) :
    Aside s { s with dtls := dtls, peer := peer', io := new ++ s.io } := by
  refine ⟨rfl, rfl, rfl, rfl, rfl, rfl, .inl rfl, ?_, ?_, id, .same rfl⟩
  · show (new ++ s.io).filterMap _ = _
    rw [List.filterMap_append, filterMap_media hv ha h, List.nil_append]
  · show (new ++ s.io).filterMap _ = _
    rw [List.filterMap_append, filterMap_video hv h, List.nil_append]

theorem Aside.of_recv (s : PeerSession μ) (src : Addr) (data : Bytes) :
    Aside s { s with io := .recv src data :: s.io } :=
  ⟨rfl, rfl, rfl, rfl, rfl, rfl, .inl rfl, rfl, rfl, id, .same rfl⟩

theorem aside_flushDtls (s : PeerSession μ) : Aside s (s.flushDtls net) := by
  obtain ⟨new, hnew, hgoes⟩ := s.flushDtls_eq net
  rw [hnew]
  exact .of_goes (by decide) (by decide) hgoes _ s.peer

theorem aside_onStun (s : PeerSession μ) (src : Addr) (buf : Bytes) :
    Aside s (s.onStun net m src buf) := by
  unfold onStun
  dsimp only
  split_ifs
  · exact .refl s
  all_goals
    obtain ⟨new, hnew, hgoes⟩ := sendUdp_eq net _ _ _
    rw [hnew]
    exact .of_goes (by decide) (by decide) hgoes _ _

theorem Aside.of_dtls (s : PeerSession μ) (dtls : DtlsTransport μ) : Aside s { s with dtls } :=
  ⟨rfl, rfl, rfl, rfl, rfl, rfl, .inl rfl, rfl, rfl, id, .same rfl⟩

theorem aside_onDtls (s : PeerSession μ) (buf : Bytes) : Aside s (s.onDtls net c m buf).1 := by
  unfold onDtls
  dsimp only
  generalize (s.dtls.feed buf).step m = r
  have hone := Aside.of_dtls s r.1
  have hflush := hone.trans (aside_flushDtls net { s with dtls := r.1 })
  split_ifs with hdead hnew
  · exact hone
  · generalize ({ s with dtls := r.1 }).flushDtls net = s2 at hflush hnew
    have hlogged : s2.dtlsLogged = false := by
      rw [Bool.and_eq_true, Bool.not_eq_true'] at hnew
      exact hnew.2
    split
    · refine hflush.trans ⟨rfl, rfl, rfl, rfl, rfl, rfl, .inl rfl, rfl, rfl, fun _ => rfl, ?_⟩
      exact .same rfl
    · refine hflush.trans ⟨rfl, rfl, rfl, rfl, rfl, rfl, .inr rfl, rfl, rfl, fun _ => rfl, ?_⟩
      exact .fresh _ hlogged rfl rfl rfl rfl
  · exact hflush

/-- What comes in is checked against keys and tables of its own. -/
theorem unprotectRtcp_out (srtp : SrtpSession) (buf : Bytes) :
    (srtp.unprotectRtcp c buf).1.streamsOut = srtp.streamsOut ∧
      (srtp.unprotectRtcp c buf).1.rtpOut = srtp.rtpOut := by
  obtain ⟨-, heq⟩ | ⟨high, mask, -, heq⟩ := unprotectRtcp_cases c srtp buf
  · rw [heq]
    exact ⟨rfl, rfl⟩
  · rw [heq]
    exact ⟨rfl, rfl⟩

theorem unprotectRtp_out (srtp : SrtpSession) (buf : Bytes) :
    (srtp.unprotectRtp c buf).1.streamsOut = srtp.streamsOut ∧
      (srtp.unprotectRtp c buf).1.rtpOut = srtp.rtpOut := by
  obtain ⟨-, heq | heq⟩ | ⟨-, heq⟩ := unprotectRtp_cases c srtp buf
  all_goals
    rw [heq]
    exact ⟨rfl, rfl⟩

/-- Talkback and feedback change what was received only. -/
theorem aside_onSrtp (s : PeerSession μ) (buf : Bytes) : Aside s (s.onSrtp c buf) := by
  have hkept {srtp b : SrtpSession} (h : s.srtp = some srtp)
      (hout : b.streamsOut = srtp.streamsOut ∧ b.rtpOut = srtp.rtpOut) (pli : Bool)
      (pcm : List Int16) :
      Aside s { s with srtp := some b, pli := pli, audioIn := pcm } :=
    ⟨rfl, rfl, rfl, rfl, rfl, rfl, .inl rfl, rfl, rfl, id, .kept srtp b h rfl hout.1 hout.2⟩
  unfold onSrtp
  split
  · exact .refl s
  · rename_i srtp hkey
    split_ifs
    · have hout := unprotectRtcp_out (c := c) srtp buf
      split
      · rename_i heq
        rw [heq] at hout
        exact hkept hkey hout _ _
      · rename_i heq
        rw [heq] at hout
        exact hkept hkey hout _ _
    · have hout := unprotectRtp_out (c := c) srtp buf
      split
      · rename_i heq
        rw [heq] at hout
        exact hkept hkey hout _ _
      · rename_i heq
        rw [heq] at hout
        dsimp only
        split_ifs
        · exact hkept hkey hout _ _
        · exact hkept hkey hout _ _
        · exact hkept hkey hout _ _
        · exact hkept hkey hout _ _
    · exact .refl s

theorem aside_onDatagram (s : PeerSession μ) (src : Addr) (data : Bytes) :
    Aside s (s.onDatagram net c m src data).1 := by
  unfold onDatagram
  dsimp only
  have hrecv := Aside.of_recv s src (data.take 2048)
  split_ifs
  · exact hrecv
  · exact hrecv.trans (aside_onStun net _ src _)
  · exact hrecv.trans (aside_onDtls net _ _)
  · exact hrecv.trans (aside_onSrtp _ _)
  · exact hrecv

theorem aside_onReadable (dgs : List (Addr × Bytes)) (s : PeerSession μ) :
    Aside s (s.onReadable net c m dgs) := by
  induction dgs generalizing s with
  | nil => exact .refl s
  | cons dg dgs ih =>
    obtain ⟨src, data⟩ := dg
    have hone := s.aside_onDatagram net (c := c) (m := m) src data
    rw [onReadable]
    split
    · rename_i s' heq
      rw [heq] at hone
      exact hone.trans (ih s')
    · rename_i s' heq
      rw [heq] at hone
      exact hone

theorem aside_tick (s : PeerSession μ) : Aside s (s.tick net m) := by
  unfold tick
  split_ifs
  · exact .refl s
  · exact (Aside.of_dtls s _).trans (aside_flushDtls net _)

theorem aside_onOffer (wrap : ℤ → ℤ) (hostIp : Text) (port : ℕ) (s : PeerSession μ)
    (sdp profile : Text) (audioSend audioRecv : Bool) :
    Aside s (s.onOffer wrap hostIp port sdp profile audioSend audioRecv).1 := by
  unfold onOffer
  dsimp only
  split_ifs
  · exact .refl s
  · exact .refl s
  · exact .refl s
  all_goals
    exact ⟨rfl, rfl, rfl, rfl, rfl, rfl, .inl rfl, rfl, rfl, id, .same rfl⟩

/-- A binding request that the password signs. -/
def verified (pwd : Text) (data : Bytes) : Bool :=
  let r := parseBindingRequest hmacSha1 (octets pwd) data
  r.ok && r.integrityOk

/-- Where the last one came from. -/
def verifiedPeer (pwd : Text) : List Io → Option Addr
  | [] => none
  | .recv src data :: io => if verified pwd data then some src else verifiedPeer pwd io
  | .send _ _ _ _ :: io => verifiedPeer pwd io

/-- Every datagram goes where the last verified request before it came from. -/
def Addressed (pwd : Text) (io : List Io) : Prop :=
  ∀ newer what dst data err older, io = newer ++ .send what dst data err :: older →
    verifiedPeer pwd older = some dst

theorem addressed_send {pwd : Text} {io : List Io} {what : What} {dst : Addr} {data : Bytes}
    {err : Option Errno} (h : Addressed pwd io) (hdst : verifiedPeer pwd io = some dst) :
    Addressed pwd (.send what dst data err :: io) := by
  intro newer what' dst' data' err' older heq
  cases newer with
  | nil =>
    obtain ⟨hx, rfl⟩ := List.cons.inj heq
    injection hx with _ hx
    rwa [← hx]
  | cons y newer => exact h newer what' dst' data' err' older (List.cons.inj heq).2

theorem addressed_recv {pwd : Text} {io : List Io} (h : Addressed pwd io) (src : Addr)
    (data : Bytes) : Addressed pwd (.recv src data :: io) := by
  intro newer what' dst' data' err' older heq
  cases newer with
  | nil => exact absurd (List.cons.inj heq).1 nofun
  | cons y newer => exact h newer what' dst' data' err' older (List.cons.inj heq).2

/-- The peer is the last that has proved itself, and nothing went to anyone else. -/
structure Known (pwd : Text) (s : PeerSession μ) : Prop where
  own : s.pwd = pwd
  peer : s.peer = verifiedPeer pwd s.io
  sends : Addressed pwd s.io

variable {pwd : Text}

theorem Known.of_goes {s s' : PeerSession μ} {what : What} {new : List Io} (h : Known pwd s)
    (hpwd : s'.pwd = s.pwd) (hpeer : s'.peer = s.peer) (hio : s'.io = new ++ s.io)
    (hgoes : ∀ x ∈ new, x.Goes what s.peer) : Known pwd s' := by
  suffices hall : verifiedPeer pwd (new ++ s.io) = s.peer ∧ Addressed pwd (new ++ s.io) by
    refine ⟨hpwd.trans h.own, ?_, ?_⟩
    · rw [hpeer, hio, hall.1]
    · rw [hio]
      exact hall.2
  clear hio
  induction new with
  | nil => exact ⟨h.peer.symm, h.sends⟩
  | cons x new ih =>
    obtain ⟨hx, hrest⟩ := List.forall_mem_cons.mp hgoes
    obtain ⟨dst, data, err, rfl, hdst⟩ := hx
    obtain ⟨hsame, hsends⟩ := ih hrest
    exact ⟨hsame, addressed_send hsends (hsame.trans hdst)⟩

theorem Known.congr {s s' : PeerSession μ} (h : Known pwd s) (hpwd : s'.pwd = s.pwd)
    (hpeer : s'.peer = s.peer) (hio : s'.io = s.io) : Known pwd s' where
  own := hpwd.trans h.own
  peer := by rw [hpeer, hio, h.peer]
  sends := by
    rw [hio]
    exact h.sends

theorem Known.flushDtls {s : PeerSession μ} (h : Known pwd s) : Known pwd (s.flushDtls net) := by
  obtain ⟨new, hnew, hgoes⟩ := s.flushDtls_eq net
  rw [hnew]
  exact h.of_goes rfl rfl rfl hgoes

theorem Known.onDtls {s : PeerSession μ} (h : Known pwd s) (buf : Bytes) :
    Known pwd (s.onDtls net c m buf).1 := by
  unfold PeerSession.onDtls
  dsimp only
  generalize (s.dtls.feed buf).step m = r
  have hone : Known pwd { s with dtls := r.1 } := h.congr rfl rfl rfl
  have hflush := hone.flushDtls net
  split_ifs
  · exact hone
  · split
    · exact hflush.congr rfl rfl rfl
    · exact hflush.congr rfl rfl rfl
  · exact hflush

theorem Known.onSrtp {s : PeerSession μ} (h : Known pwd s) (buf : Bytes) :
    Known pwd (s.onSrtp c buf) := by
  unfold PeerSession.onSrtp
  split
  · exact h
  · split_ifs
    · split
      · exact h.congr rfl rfl rfl
      · exact h.congr rfl rfl rfl
    · split
      · exact h.congr rfl rfl rfl
      · dsimp only
        split_ifs
        all_goals exact h.congr rfl rfl rfl
    · exact h

/-- A request that does not verify leaves the peer as it was. -/
theorem Known.recv {s : PeerSession μ} (h : Known pwd s) (src : Addr) {buf : Bytes}
    (hbuf : verified pwd buf = false) : Known pwd { s with io := .recv src buf :: s.io } where
  own := h.own
  peer := by
    show s.peer = if verified pwd buf = true then some src else verifiedPeer pwd s.io
    rw [hbuf, if_neg Bool.false_ne_true]
    exact h.peer
  sends := addressed_recv h.sends src buf

theorem Known.onStun {s : PeerSession μ} (h : Known pwd s) (src : Addr) (buf : Bytes) :
    Known pwd ({ s with io := .recv src buf :: s.io }.onStun net m src buf) := by
  unfold PeerSession.onStun
  dsimp only
  obtain rfl := h.own
  by_cases hbuf : verified s.pwd buf = true
  · -- from here on the peer is where the request came from
    have hsome : verifiedPeer s.pwd (.recv src buf :: s.io) = some src := if_pos hbuf
    have hlearned (dtls : DtlsTransport μ) :
        Known s.pwd { s with dtls, peer := some src, io := .recv src buf :: s.io } :=
      ⟨rfl, hsome.symm, addressed_recv h.sends src buf⟩
    obtain ⟨hok, hint⟩ := Bool.and_eq_true_iff.mp hbuf
    rw [if_neg (by rw [hok, hint]; decide)]
    obtain ⟨new, hnew, hgoes⟩ := sendUdp_eq net _ _ _
    rw [hnew]
    exact (hlearned _).of_goes rfl rfl rfl hgoes
  · have hskip : (!(parseBindingRequest hmacSha1 (octets s.pwd) buf).ok ||
        !(parseBindingRequest hmacSha1 (octets s.pwd) buf).integrityOk) = true := by
      rw [← Bool.not_and, Bool.not_eq_true']
      exact Bool.eq_false_of_not_eq_true hbuf
    rw [if_pos hskip]
    exact h.recv src (Bool.eq_false_of_not_eq_true hbuf)

theorem verified_isStun {pwd : Text} {buf : Bytes} (h : isStun buf = false) :
    verified pwd buf = false := by
  unfold verified parseBindingRequest
  rw [if_pos (.inl h)]
  rfl

theorem Known.onDatagram {s : PeerSession μ} (h : Known pwd s) (src : Addr) (data : Bytes) :
    Known pwd (s.onDatagram net c m src data).1 := by
  unfold PeerSession.onDatagram
  dsimp only
  by_cases hstun : isStun (data.take 2048) = true
  · have hne : data.take 2048 ≠ [] := by
      intro hnil
      rw [hnil] at hstun
      exact absurd hstun (by decide)
    rw [if_neg hne, if_pos hstun]
    exact h.onStun net src _
  · have hrecv := h.recv src (verified_isStun (Bool.eq_false_of_not_eq_true hstun))
    rw [if_neg hstun]
    split_ifs
    · exact hrecv
    · exact hrecv.onDtls net _
    · exact hrecv.onSrtp _
    · exact hrecv

theorem Known.onReadable {dgs : List (Addr × Bytes)} {s : PeerSession μ} (h : Known pwd s) :
    Known pwd (s.onReadable net c m dgs) := by
  induction dgs generalizing s with
  | nil => exact h
  | cons dg dgs ih =>
    obtain ⟨src, data⟩ := dg
    have hone := h.onDatagram net (c := c) (m := m) src data
    rw [PeerSession.onReadable]
    split
    · rename_i s' heq
      rw [heq] at hone
      exact ih hone
    · rename_i s' heq
      rw [heq] at hone
      exact hone

theorem Known.sendAudio {s : PeerSession μ} (h : Known pwd s) (g711 : Bytes) (skip : ℕ) :
    Known pwd (s.sendAudio net c g711 skip) := by
  unfold PeerSession.sendAudio
  split
  · exact h
  · rename_i srtp _
    split_ifs
    · exact h
    · obtain ⟨seq, ts, key, new, hnew, hgoes⟩ := sendAudioFrom_eq net (c := c) _ srtp g711 _
      rw [hnew]
      exact h.of_goes rfl rfl rfl hgoes

theorem Known.sendAu {s : PeerSession μ} (h : Known pwd s) (au : Bytes) (pts : ℤ) (key : Bool) :
    Known pwd (s.sendAu net c au pts key) := by
  obtain ⟨heq, -⟩ | ⟨srtp, -, -, -, -, heq⟩ := s.sendAu_cases net (c := c) au pts key
  · rw [heq]
    exact h
  · obtain ⟨k, new, wait, e, streak, hnew, hgoes⟩ := sendPackets_eq net (c := c) srtp _ _
    rw [heq, hnew]
    exact h.of_goes rfl rfl rfl hgoes

theorem Known.tick {s : PeerSession μ} (h : Known pwd s) : Known pwd (s.tick net m) := by
  unfold PeerSession.tick
  split_ifs
  · exact h
  · apply Known.flushDtls
    exact h.congr rfl rfl rfl

theorem Known.onOffer {s : PeerSession μ} (h : Known pwd s) (wrap : ℤ → ℤ) (hostIp : Text)
    (port : ℕ) (sdp profile : Text) (audioSend audioRecv : Bool) :
    Known pwd (s.onOffer wrap hostIp port sdp profile audioSend audioRecv).1 := by
  unfold PeerSession.onOffer
  dsimp only
  split_ifs
  · exact h
  · exact h
  · exact h
  all_goals exact h.congr rfl rfl rfl

end PeerSession

variable (wrap : ℤ → ℤ) (net : ℕ → Option Errno) (c : Crypto) (m : Mbedtls μ)

theorem known_peerStep {pwd : Text} (w : PeerWorld μ) (e : PeerEvent) (h : w.s.Known pwd) :
    (peerStep wrap net c m w e).s.Known pwd := by
  cases e with
  | offer hostIp port sdp profile audioSend audioRecv => exact h.onOffer wrap hostIp port _ _ _ _
  | readable dgs => exact h.onReadable net
  | tick => exact h.tick net
  | sendAudio g711 skip => exact h.sendAudio net g711 skip
  | sendAu au pts key => exact h.sendAu net au pts key
  | takeAudioIn => exact h.congr rfl rfl rfl
  | takePli => exact h.congr rfl rfl rfl

/-- In every run, whatever comes in from anywhere and however sends fail, each datagram goes to
where the last binding request signed with the session's password came from. -/
theorem peer_addressed (dtls : DtlsTransport μ) (ufrag pwd r : Bytes) (es : List PeerEvent) :
    PeerSession.Addressed (randomToken 24 pwd)
      (Runs.run (peerStep wrap net c m) { s := .create dtls ufrag pwd r } es).s.io :=
  (Runs.run_invariant (P := fun w : PeerWorld μ => w.s.Known (randomToken 24 pwd))
    (fun w e h => known_peerStep wrap net c m w e h)
    ⟨rfl, rfl, fun newer _ _ _ _ _ heq => absurd heq (by simp [PeerSession.create])⟩ es).sends

end Machino.Webrtc
