import Mathlib.Data.List.Chain
import Machino.Webrtc.PeerRuns

namespace Machino.Webrtc

open Bytes SrtpSession H264

variable {μ : Type}

namespace PeerSession

variable (net : ℕ → Option Errno) {c : Crypto} {m : Mbedtls μ}

theorem isSome_protectRtp (srtp : SrtpSession) {pkt : Bytes} (h : 12 ≤ pkt.length) :
    ∃ srtp' sealed, srtp.protectRtp c pkt = (srtp', some sealed) := by
  unfold SrtpSession.protectRtp
  rw [if_neg (Nat.not_lt.mpr h)]
  exact ⟨_, _, rfl⟩

section

variable {s : PeerSession μ} {dst : Addr} (hpeer : s.peer = some dst) {srtp srtp' : SrtpSession}
  {pkt sealed : Bytes} (hkey : srtp.protectRtp c pkt = (srtp', some sealed))

include hpeer hkey

/-- A turn of the loop of `send_au` whose packet goes out. -/
theorem sendPackets_sent (herr : net s.io.length = none) (pkts : List Bytes) :
    s.sendPackets net c srtp (pkt :: pkts) =
      { s with srtp := some srtp', io := .send .video dst sealed none :: s.io
               fatalSendStreak := 0 }.sendPackets net c srtp' pkts := by
  have hsend := sendUdp_some net (s := { s with srtp := some srtp' }) hpeer .video sealed
  rw [herr] at hsend
  rw [sendPackets, hkey]
  dsimp only
  rw [hsend]

/-- And one whose packet does not. -/
theorem sendPackets_failed {e : Errno} (herr : net s.io.length = some e) (pkts : List Bytes) :
    s.sendPackets net c srtp (pkt :: pkts) =
      { s with
        srtp := some srtp'
        io := .send .video dst sealed (some e) :: s.io
        lastSendErrno := some e
        fatalSendStreak := if isFatalSendErrno e then (s.fatalSendStreak + 1) % 2 ^ 32 else 0
        awaitKey := true } := by
  have hsend := sendUdp_some net (s := { s with srtp := some srtp' }) hpeer .video sealed
  rw [herr] at hsend
  rw [sendPackets, hkey]
  dsimp only
  rw [hsend]

end

/-- How many packets of video in a row have failed for want of a path. -/
def pathFailures (io : List Io) : ℕ :=
  ((io.filterMap Io.video).takeWhile fun err => err.any isFatalSendErrno).length

theorem pathFailures_video (dst : Addr) (data : Bytes) (err : Option Errno) (io : List Io) :
    pathFailures (.send .video dst data err :: io) =
      if err.any isFatalSendErrno then pathFailures io + 1 else 0 := by
  unfold pathFailures
  have hcons : (Io.send .video dst data err :: io).filterMap Io.video =
      err :: io.filterMap Io.video := List.filterMap_cons_some rfl
  rw [hcons, List.takeWhile_cons]
  split_ifs
  · rfl
  · rfl

def Counts (s : PeerSession μ) : Prop := s.fatalSendStreak = pathFailures s.io % 2 ^ 32

theorem Counts.sendPackets {srtp : SrtpSession} {pkts : List Bytes}
    (hpkts : ∀ p ∈ pkts, 12 ≤ p.length) {s : PeerSession μ} (h : Counts s) {dst : Addr}
    (hpeer : s.peer = some dst) : Counts (s.sendPackets net c srtp pkts) := by
  induction pkts generalizing s srtp with
  | nil => exact h
  | cons pkt pkts ih =>
    obtain ⟨hpkt, hrest⟩ := List.forall_mem_cons.mp hpkts
    obtain ⟨srtp', sealed, hkey⟩ := isSome_protectRtp (c := c) srtp hpkt
    obtain herr | ⟨e, herr⟩ := Option.eq_none_or_eq_some (net s.io.length)
    · rw [sendPackets_sent net hpeer hkey herr]
      refine ih hrest ?_ hpeer
      unfold Counts
      rw [pathFailures_video]
      rfl
    · rw [sendPackets_failed net hpeer hkey herr]
      unfold Counts at h ⊢
      show (if isFatalSendErrno e then (s.fatalSendStreak + 1) % 2 ^ 32 else 0) = _
      rw [pathFailures_video, Option.any_some, h]
      split_ifs
      · rw [Nat.mod_add_mod]
      · rfl

theorem Counts.aside {s s' : PeerSession μ} (h : Counts s) (haside : Aside s s') : Counts s' := by
  unfold Counts pathFailures
  rw [haside.streak, haside.video]
  exact h

/-- Each packet of an access unit is a header, numbered on, and one of the payloads. -/
theorem getElem_packetizeH264 (au : Bytes) (ts seq : ℕ) (p : RtpParams) {i : ℕ}
    (hi : i < (packetizeH264 au ts seq p).1.length) :
    ∃ n, ∃ x ∈ payloads p (split au 64), n % 2 ^ 16 = (seq + i) % 2 ^ 16 ∧
      (packetizeH264 au ts seq p).1[i] =
        Rtp.writeHeader p.payloadType x.marker n ts p.ssrc ++ x.data := by
  have hi' : i < (payloads p (split au 64)).length := by
    rwa [packetizeH264, length_sendAll] at hi
  obtain ⟨n, hn, heq⟩ := getElem_sendAll p ts seq (payloads p (split au 64)) i hi hi'
  exact ⟨n, _, List.getElem_mem hi', hn, heq⟩

theorem header_packetizeH264 (au : Bytes) (ts seq : ℕ) (p : RtpParams) :
    ∀ pkt ∈ (packetizeH264 au ts seq p).1, 12 ≤ pkt.length := by
  intro pkt hpkt
  obtain ⟨i, hi, rfl⟩ := List.mem_iff_getElem.mp hpkt
  obtain ⟨n, x, -, -, heq⟩ := getElem_packetizeH264 au ts seq p hi
  rw [heq, List.length_append, Rtp.length_writeHeader, Rtp.kHeaderBytes]
  omega

/-- The numbers go on by the packets there are. -/
theorem snd_packetizeH264 (au : Bytes) (ts : ℕ) {seq : ℕ} (hseq : seq < 2 ^ 16) (p : RtpParams) :
    (packetizeH264 au ts seq p).2 = (seq + (packetizeH264 au ts seq p).1.length) % 2 ^ 16 := by
  show (sendAll p ts seq (payloads p (split au 64))).2 =
    (seq + (sendAll p ts seq (payloads p (split au 64))).1.length) % 2 ^ 16
  rw [length_sendAll, snd_sendAll p ts hseq]

theorem Counts.sendAu {s : PeerSession μ} (h : Counts s) (au : Bytes) (pts : ℤ) (key : Bool) :
    Counts (s.sendAu net c au pts key) := by
  obtain ⟨heq, -⟩ | ⟨srtp, dst, -, hpeer, -, heq⟩ := s.sendAu_cases net (c := c) au pts key
  · rw [heq]
    exact h
  · rw [heq]
    exact Counts.sendPackets net (header_packetizeH264 _ _ _ _) (s := { s with seq := _ }) h hpeer

/-- Audio does not count. -/
theorem Counts.sendAudio {s : PeerSession μ} (h : Counts s) (g711 : Bytes) (skip : ℕ) :
    Counts (s.sendAudio net c g711 skip) := by
  unfold PeerSession.sendAudio
  split
  · exact h
  · rename_i srtp _
    split_ifs
    · exact h
    · obtain ⟨seq, ts, key, new, hnew, hgoes⟩ := sendAudioFrom_eq net (c := c) _ srtp g711 _
      rw [hnew]
      unfold Counts pathFailures
      rw [List.filterMap_append, filterMap_video (by decide) hgoes, List.nil_append]
      exact h

/-- The socket took the datagram. -/
def accepted : Io → Bool
  | .send _ _ _ none => true
  | _ => false

/-- The loop waits for a key frame behind it, or every packet has been taken. -/
theorem sendPackets_complete (srtp : SrtpSession) {pkts : List Bytes}
    (hpkts : ∀ p ∈ pkts, 12 ≤ p.length) {s : PeerSession μ} {dst : Addr}
    (hpeer : s.peer = some dst) :
    ∃ new, (s.sendPackets net c srtp pkts).io = new ++ s.io ∧
      ((s.sendPackets net c srtp pkts).awaitKey = false →
        new.length = pkts.length ∧ ∀ x ∈ new, accepted x = true) := by
  induction pkts generalizing s srtp with
  | nil => exact ⟨[], rfl, fun _ => ⟨rfl, nofun⟩⟩
  | cons pkt pkts ih =>
    obtain ⟨hpkt, hrest⟩ := List.forall_mem_cons.mp hpkts
    obtain ⟨srtp', sealed, hkey⟩ := isSome_protectRtp (c := c) srtp hpkt
    obtain herr | ⟨e, herr⟩ := Option.eq_none_or_eq_some (net s.io.length)
    · rw [sendPackets_sent net hpeer hkey herr]
      generalize hs : ({ s with
        srtp := some srtp', io := .send .video dst sealed none :: s.io
        fatalSendStreak := 0 } : PeerSession μ) = s1
      have hpeer1 : s1.peer = some dst := by rw [← hs]; exact hpeer
      have hio1 : s1.io = .send .video dst sealed none :: s.io := by rw [← hs]
      obtain ⟨new, hnew, hall⟩ := ih srtp' hrest hpeer1
      refine ⟨new ++ [.send .video dst sealed none], ?_, fun hwait => ?_⟩
      · rw [hnew, hio1, List.append_assoc]
        rfl
      · obtain ⟨hlen, hacc⟩ := hall hwait
        refine ⟨by rw [List.length_append, hlen]; rfl, List.forall_mem_append.mpr ⟨hacc, ?_⟩⟩
        intro x hx
        rw [List.mem_singleton.mp hx]
        rfl
    · rw [sendPackets_failed net hpeer hkey herr]
      exact ⟨[.send .video dst sealed (some e)], rfl,
        fun hwait => absurd hwait.symm Bool.false_ne_true⟩

end PeerSession

/-- Every packet of the access unit was taken. -/
def Au.Complete (a : Au) : Prop :=
  a.sent.length = a.packets.length ∧ ∀ x ∈ a.sent, PeerSession.accepted x = true

/-- The sequence numbers go on from one access unit to the next. -/
def Au.Goes (newer older : Au) : Prop := newer.first = (older.first + older.packets.length) % 2 ^ 16

/-- A key frame that was sent completely, and everything since then too, without a gap. -/
def Unbroken (aus : List Au) : Prop :=
  ∃ mid k older, aus = mid ++ k :: older ∧ k.key = true ∧ (∀ a ∈ mid ++ [k], a.Complete) ∧
    (mid ++ [k]).IsChain Au.Goes

/-- The numbers follow on those of the access unit before. -/
def GoesOn (seq : ℕ) (aus : List Au) : Prop :=
  ∀ a ∈ aus.head?, seq = (a.first + a.packets.length) % 2 ^ 16

theorem Unbroken.cons {aus : List Au} (h : Unbroken aus) {a : Au} (ha : a.Complete)
    (hseq : GoesOn a.first aus) : Unbroken (a :: aus) := by
  obtain ⟨mid, k, older, rfl, hkey, hall, hchain⟩ := h
  refine ⟨a :: mid, k, older, rfl, hkey, List.forall_mem_cons.mpr ⟨ha, hall⟩, ?_⟩
  apply List.isChain_cons.mpr
  refine ⟨fun b hb => hseq b ?_, hchain⟩
  cases mid with
  | nil => exact hb
  | cons b' mid => exact hb

theorem unbroken_key {a : Au} (hkey : a.key = true) (ha : a.Complete) (older : List Au) :
    Unbroken (a :: older) :=
  ⟨[], a, older, rfl, hkey, List.forall_mem_singleton.mpr ha, List.isChain_singleton a⟩

/-- What was sent of an access unit can be decoded: it is a key frame, or nothing is missing since
the last one. -/
def Decodable : List Au → Prop
  | [] => True
  | a :: aus => (a.sent ≠ [] → a.key = true ∨ Unbroken aus ∧ GoesOn a.first aus) ∧ Decodable aus

/-- Without a wait for a key frame, the numbers and the pictures go on where they were. -/
structure InPicture (w : PeerWorld μ) : Prop where
  seq : w.s.seq < 2 ^ 16
  unbroken : w.s.awaitKey = false → Unbroken w.aus ∧ GoesOn w.s.seq w.aus
  decodable : Decodable w.aus

section

variable {net : ℕ → Option Errno} {c : Crypto} {w : PeerWorld μ}

theorem InPicture.congr (h : InPicture w) {s : PeerSession μ} (hseq : s.seq = w.s.seq)
    (hwait : s.awaitKey = w.s.awaitKey ∨ s.awaitKey = true) : InPicture { w with s } where
  seq := hseq ▸ h.seq
  unbroken hfalse := by
    have hsame : w.s.awaitKey = false := by
      cases hwait with
      | inl heq => rw [← heq]; exact hfalse
      | inr htrue => exact absurd (hfalse.symm.trans htrue) Bool.false_ne_true
    show Unbroken w.aus ∧ GoesOn s.seq w.aus
    rw [hseq]
    exact h.unbroken hsame
  decodable := h.decodable

theorem InPicture.sendAudio (h : InPicture w) (g711 : Bytes) (skip : ℕ) :
    InPicture { w with s := w.s.sendAudio net c g711 skip } := by
  unfold PeerSession.sendAudio
  split
  · exact h
  · rename_i srtp _
    split_ifs
    · exact h
    · obtain ⟨seq, ts, key, new, hnew, -⟩ := PeerSession.sendAudioFrom_eq net (c := c) _ srtp g711 _
      rw [hnew]
      exact h.congr rfl (.inl rfl)

/-- One access unit: it is let through as a key frame or behind what was sent completely. -/
theorem InPicture.sendAu (h : InPicture w) (wrap : ℤ → ℤ) (m : Mbedtls μ) (au : Bytes) (pts : ℤ)
    (key : Bool) : InPicture (peerStep wrap net c m w (.sendAu au pts key)) := by
  rw [peerStep]
  obtain ⟨heq, hgate⟩ | ⟨srtp, dst, hkey, hpeer, hgate, heq⟩ :=
    w.s.sendAu_cases net (c := c) au pts key
  · -- nothing of it was sent
    simp only [heq, Nat.sub_self, List.take_zero]
    split_ifs with hready
    · have hwait : w.s.awaitKey = true :=
        hgate.resolve_left fun hnot => Bool.false_ne_true (hnot.symm.trans hready)
      refine ⟨h.seq, fun hfalse => absurd (hfalse.symm.trans hwait) Bool.false_ne_true, ?_⟩
      exact ⟨fun hsent => absurd rfl hsent, h.decodable⟩
    · exact h
  · have hready : (w.s.srtp.isSome && w.s.peer.isSome) = true := by rw [hkey, hpeer]; rfl
    have hnext := PeerSession.snd_packetizeH264 au (ticks pts) h.seq w.s.rtp
    have hheader := PeerSession.header_packetizeH264 au (ticks pts) w.s.seq w.s.rtp
    rw [heq, if_pos hready]
    generalize packetizeH264 au (ticks pts) w.s.seq w.s.rtp = pkts at hnext hheader
    generalize hs : ({ w.s with seq := pkts.2 } : PeerSession μ) = s1
    have hpeer1 : s1.peer = some dst := by rw [← hs]; exact hpeer
    have hio1 : s1.io = w.s.io := by rw [← hs]
    obtain ⟨new, hnew, hall⟩ :=
      PeerSession.sendPackets_complete net (c := c) srtp hheader hpeer1
    have hseq : (s1.sendPackets net c srtp pkts.1).seq = pkts.2 := by
      obtain ⟨k, new', wait, e, streak, hframe, -⟩ := s1.sendPackets_eq net (c := c) srtp pkts.1
      rw [hframe, ← hs]
    have hsent : (s1.sendPackets net c srtp pkts.1).io.take
        ((s1.sendPackets net c srtp pkts.1).io.length - w.s.io.length) = new := by
      rw [hnew, hio1, List.length_append, Nat.add_sub_cancel, List.take_left]
    rw [hsent]
    constructor
    · rw [hseq, hnext]
      exact Nat.mod_lt _ (by decide)
    · intro hwait
      refine ⟨?_, fun a ha => ?_⟩
      · cases hkf : key with
        | true =>
          refine unbroken_key rfl ?_ w.aus
          exact hall hwait
        | false =>
          have hon := h.unbroken (hgate.resolve_right (by rw [hkf]; exact Bool.false_ne_true))
          exact hon.1.cons (hall hwait) hon.2
      · obtain rfl := Option.some.inj ha
        exact hseq.trans hnext
    · exact ⟨fun _ => hgate.symm.imp id h.unbroken, h.decodable⟩

end

/-- How many packets an access unit can have. -/
theorem length_fuFragments_le (isLast : Bool) (b : UInt8) (chunk : ℕ) (fuel : ℕ) (start : Bool)
    (rest : Bytes) : (fuFragments isLast b chunk fuel start rest).length * chunk ≤
      rest.length + chunk := by
  induction fuel generalizing start rest with
  | zero => simp [fuFragments]
  | succ fuel ih =>
    rw [fuFragments]
    split_ifs with hnil
    · simp
    · have htail := ih false (rest.drop chunk)
      rw [List.length_drop] at htail
      dsimp only
      rw [List.length_cons, Nat.add_one_mul]
      by_cases hlast : rest.length ≤ chunk
      · have hdrop : rest.drop chunk = [] := List.drop_eq_nil_of_le hlast
        have hnone : fuFragments isLast b chunk fuel false [] = [] := by
          cases fuel <;> simp [fuFragments]
        rw [hdrop, hnone]
        simp
      · omega

theorem length_payloadsFrom_le (p : RtpParams) (nals : List Nal) :
    (payloadsFrom p nals).length * (p.maxPayload - 2) ≤
      (nals.map fun nal => nal.data.length).sum + nals.length * p.maxPayload := by
  induction nals with
  | nil => simp [payloadsFrom]
  | cons nal nals ih =>
    have hone : (if isDelimiter nal ∨ nal.data = [] then []
        else payloadsOf p (nals.all isDelimiter) nal.data).length * (p.maxPayload - 2) ≤
          nal.data.length + p.maxPayload := by
      split_ifs
      · simp
      · unfold payloadsOf
        split_ifs
        · rw [List.length_singleton]
          omega
        · have hfu := length_fuFragments_le (nals.all isDelimiter) (nal.data.headD 0)
            (p.maxPayload - 2) nal.data.length true (nal.data.drop 1)
          rw [List.length_drop] at hfu
          omega
    rw [payloadsFrom, List.length_append, Nat.add_mul, List.map_cons, List.sum_cons,
      List.length_cons, Nat.add_one_mul]
    omega

theorem sum_splitFrom (d : Bytes) (skip : ℕ) (unit : Option Bytes) :
    ((splitFrom skip unit d).map List.length).sum ≤ (unit.getD []).length + d.length := by
  have hpush (u : Bytes) : ((pushUnit u).map List.length).sum ≤ u.length := by
    unfold pushUnit
    split_ifs <;> simp
  have hzeros (u : Bytes) : (dropZeros u).length ≤ u.length := by
    unfold dropZeros
    rw [List.length_reverse]
    exact (List.dropWhile_suffix _).length_le.trans (List.length_reverse).le
  induction d generalizing skip unit with
  | nil =>
    rw [splitFrom]
    exact (hpush _).trans (Nat.le_add_right _ _)
  | cons b d ih =>
    cases skip with
    | succ skip =>
      rw [splitFrom, List.length_cons]
      have hrest := ih skip unit
      omega
    | zero =>
      rw [splitFrom, List.length_cons]
      cases startCode (b :: d) with
      | some sc =>
        dsimp only
        have hrest := ih (sc - 1) (some [])
        have hone := (hpush (dropZeros (unit.getD []))).trans (hzeros _)
        rw [List.map_append, List.sum_append]
        simp only [Option.getD_some, List.length_nil] at hrest
        omega
      | none =>
        dsimp only
        have hrest := ih 0 (unit.map (· ++ [b]))
        cases unit with
        | none =>
          simp only [Option.map_none, Option.getD_none, List.length_nil] at hrest ⊢
          omega
        | some u =>
          simp only [Option.map_some, Option.getD_some, List.length_append,
            List.length_singleton] at hrest ⊢
          omega

/-- An access unit of up to 32 MiB has fewer packets than half of the sequence numbers. -/
theorem length_packetizeH264_lt {au : Bytes} (hau : au.length ≤ 2 ^ 25) (ts seq : ℕ)
    {p : RtpParams} (hp : p.maxPayload = 1200) : (packetizeH264 au ts seq p).1.length < 2 ^ 15 := by
  have hcount := length_payloadsFrom_le p (split au 64)
  rw [← payloads_eq, hp] at hcount
  have hunits : (split au 64).length ≤ 64 := by
    rw [split, List.length_map]
    exact List.length_take_le _ _
  have hbytes : ((split au 64).map fun nal => nal.data.length).sum ≤ au.length := by
    have hall := sum_splitFrom au 0 none
    have htake := (List.take_sublist 64 (splitFrom 0 none au)).map List.length
    rw [split, List.map_map]
    refine (htake.sum_le_sum fun _ _ => Nat.zero_le _).trans (hall.trans ?_)
    simp
  show (sendAll p ts seq (payloads p (split au 64))).1.length < 2 ^ 15
  rw [length_sendAll]
  omega

theorem plain_writeHeader (pt : UInt8) (marker : Bool) (seq ts : ℕ) {ssrc : ℕ}
    (hssrc : ssrc < 2 ^ 32) (data : Bytes) :
    Plain ssrc (seq % 2 ^ 16) (Rtp.writeHeader pt marker seq ts ssrc ++ data) where
  long := by
    rw [List.length_append, Rtp.length_writeHeader, Rtp.kHeaderBytes]
    omega
  first := rfl
  ssrc := by
    have hback := be32_append_right ([0x80, pt &&& 0x7f ||| if marker then 0x80 else 0] ++
      ofBe16 seq ++ ofBe32 ts) (ofBe32 ssrc ++ data) 0
    rw [be32_ofBe32, Nat.mod_eq_of_lt hssrc, ← List.append_assoc] at hback
    exact hback
  seq := sequenceOf_writeHeader pt marker seq ts ssrc data

theorem consecutive_packetizeH264 (au : Bytes) (ts : ℕ) {n seq : ℕ} (hn : n % 2 ^ 16 = seq)
    {p : RtpParams} (hssrc : p.ssrc < 2 ^ 32) :
    Consecutive p.ssrc n (packetizeH264 au ts seq p).1 := by
  intro i hi
  obtain ⟨s, x, -, hs, heq⟩ := PeerSession.getElem_packetizeH264 au ts seq p hi
  have hnum : s % 2 ^ 16 = (n + i) % 2 ^ 16 := by omega
  rw [heq, ← hnum]
  exact plain_writeHeader _ _ s ts hssrc _

theorem size_packetizeH264 (au : Bytes) (ts seq : ℕ) {p : RtpParams} (hp : p.maxPayload = 1200) :
    ∀ pkt ∈ (packetizeH264 au ts seq p).1, pkt.length < 2 ^ 20 := by
  intro pkt hpkt
  obtain ⟨i, hi, rfl⟩ := List.mem_iff_getElem.mp hpkt
  obtain ⟨n, x, hx, -, heq⟩ := PeerSession.getElem_packetizeH264 au ts seq p hi
  have hlen := length_payloadsFrom p (split au 64)
  rw [← payloads_eq, hp] at hlen
  have hdata := hlen x hx
  rw [heq, List.length_append, Rtp.length_writeHeader, Rtp.kHeaderBytes]
  omega

theorem follows_outAt {n k : ℕ} (hlow : n < k) (hhigh : k < n + 2 ^ 15) :
    Follows k (some (outAt n)) := by
  refine ⟨Nat.mod_lt _ (by decide), ?_, ?_⟩
  · rwa [outAt_index]
  · rwa [outAt_index]

namespace PeerSession

variable (net : ℕ → Option Errno) {c : Crypto} {S : Finset ℕ}

/-- The media on the wire are what was protected. -/
def Carries (c : Crypto) (s : PeerSession μ) (srtp : SrtpSession) (l : Seals) : Prop :=
  s.srtp = some srtp ∧
    s.io.filterMap Io.media = l.map fun x => sealRtp c srtp.rtpOut x.1 x.2

/-- The packets of an access unit get one index after the other, as far as they are sent. -/
theorem sendPackets_tally (hS : S.card ≤ kStreams) {ssrc : ℕ} (hmem : ssrc ∈ S) {pkts : List Bytes}
    {s : PeerSession μ} {dst : Addr} (hpeer : s.peer = some dst) {srtp : SrtpSession}
    {f : ℕ → Option OutSeq} {l : Seals} {n : ℕ} (hc : Carries c s srtp l) (ht : Tally S srtp f l)
    (hpkts : Consecutive ssrc n pkts) (hsize : ∀ p ∈ pkts, p.length < 2 ^ 20)
    (hf : Follows n (f ssrc)) (hroom : pkts.length < 2 ^ 15) (hn : n + pkts.length ≤ 2 ^ 48) :
    ∃ srtp' f' l', Carries c (s.sendPackets net c srtp pkts) srtp' l' ∧ Tally S srtp' f' l' ∧
      (∀ k, k ≠ ssrc → f' k = f k) ∧ Follows (n + pkts.length) (f' ssrc) := by
  induction pkts generalizing s srtp f l n with
  | nil => exact ⟨srtp, f, l, hc, ht, fun _ _ => rfl, hf⟩
  | cons pkt pkts ih =>
    obtain ⟨hsize1, hsizes⟩ := List.forall_mem_cons.mp hsize
    rw [List.length_cons] at hroom hn ⊢
    have hplain : Plain ssrc (n % 2 ^ 16) pkt := hpkts 0 (Nat.succ_pos _)
    obtain ⟨t, hkey, ht1⟩ := ht.protect (c := c) hS hmem hplain hsize1 hf (by omega)
    have htail : Consecutive ssrc (n + 1) pkts := by
      intro j hj
      have hnext := hpkts (j + 1) (Nat.succ_lt_succ hj)
      rwa [← Nat.add_assoc, Nat.add_right_comm] at hnext
    have hwire (err : Option Errno) :
        (Io.send .video dst (sealRtp c srtp.rtpOut n pkt) err :: s.io).filterMap Io.media =
          ((n, pkt) :: l).map fun x => sealRtp c srtp.rtpOut x.1 x.2 := by
      rw [List.map_cons, ← hc.2]
      rfl
    obtain herr | ⟨e, herr⟩ := Option.eq_none_or_eq_some (net s.io.length)
    · rw [sendPackets_sent net hpeer hkey herr]
      have hstep : Follows (n + 1) (Function.update f ssrc (some (outAt n)) ssrc) := by
        rw [Function.update_self]
        exact follows_outAt (by omega) (by omega)
      generalize hs : ({ s with
        srtp := some { srtp with streamsOut := t }
        io := .send .video dst (sealRtp c srtp.rtpOut n pkt) none :: s.io
        fatalSendStreak := 0 } : PeerSession μ) = s1
      have hpeer1 : s1.peer = some dst := by rw [← hs]; exact hpeer
      have hc1 : Carries c s1 { srtp with streamsOut := t } ((n, pkt) :: l) := by
        rw [← hs]
        exact ⟨rfl, hwire none⟩
      obtain ⟨srtp', f', l', hc', ht', hother, hlast⟩ :=
        ih hpeer1 hc1 ht1 htail hsizes hstep (by omega) (by omega)
      refine ⟨srtp', f', l', hc', ht', fun k hk => ?_, ?_⟩
      · rw [hother k hk, Function.update_of_ne hk]
      · rwa [Nat.add_right_comm] at hlast
    · rw [sendPackets_failed net hpeer hkey herr]
      refine ⟨_, _, _, ⟨rfl, hwire (some e)⟩, ht1, fun k hk => Function.update_of_ne hk _ _, ?_⟩
      rw [Function.update_self]
      exact follows_outAt (by omega) (by omega)

/-- So do those of the audio. -/
theorem sendAudioFrom_tally (hS : S.card ≤ kStreams) (fuel : ℕ) (g711 : Bytes)
    {s : PeerSession μ} (hmem : s.audioSsrc ∈ S) (hssrc : s.audioSsrc < 2 ^ 32) {dst : Addr}
    (hpeer : s.peer = some dst) {srtp : SrtpSession} {f : ℕ → Option OutSeq} {l : Seals} {n : ℕ}
    (hc : Carries c s srtp l) (ht : Tally S srtp f l) (hseq : n % 2 ^ 16 = s.audioSeq)
    (hf : Follows n (f s.audioSsrc)) (hn : n + fuel ≤ 2 ^ 48) :
    ∃ srtp' f' l' n', Carries c (s.sendAudioFrom net c srtp fuel g711) srtp' l' ∧
      Tally S srtp' f' l' ∧ (∀ k, k ≠ s.audioSsrc → f' k = f k) ∧
      n' % 2 ^ 16 = (s.sendAudioFrom net c srtp fuel g711).audioSeq ∧
      Follows n' (f' s.audioSsrc) ∧ n' ≤ n + fuel := by
  induction fuel generalizing s srtp f l n g711 with
  | zero => exact ⟨srtp, f, l, n, hc, ht, fun _ _ => rfl, hseq, hf, le_rfl⟩
  | succ fuel ih =>
    rw [sendAudioFrom]
    by_cases hnil : g711 = []
    · rw [if_pos hnil]
      exact ⟨srtp, f, l, n, hc, ht, fun _ _ => rfl, hseq, hf, Nat.le_add_right _ _⟩
    rw [if_neg hnil]
    dsimp only
    have hchunk : (g711.take 1000).length ≤ 1000 := List.length_take_le _ _
    generalize g711.take 1000 = chunk at hchunk
    generalize hpkt : Rtp.writeHeader (UInt8.ofNat (s.audio.pt % 2 ^ 8).toNat) false s.audioSeq
      s.audioTs s.audioSsrc ++ chunk = pkt
    have hplain : Plain s.audioSsrc (n % 2 ^ 16) pkt := by
      have hheader := plain_writeHeader (UInt8.ofNat (s.audio.pt % 2 ^ 8).toNat) false s.audioSeq
        s.audioTs hssrc chunk
      rwa [hpkt, ← hseq, Nat.mod_mod] at hheader
    have hsize : pkt.length < 2 ^ 20 := by
      rw [← hpkt, List.length_append, Rtp.length_writeHeader, Rtp.kHeaderBytes]
      omega
    obtain ⟨t, hkey, ht1⟩ := ht.protect (c := c) hS hmem hplain hsize hf (by omega)
    rw [hkey]
    dsimp only
    generalize hs : ({ s with
      audioSeq := (s.audioSeq + 1) % 2 ^ 16
      audioTs := (s.audioTs + chunk.length) % 2 ^ 32
      srtp := some { srtp with streamsOut := t } } : PeerSession μ) = s1
    have hpeer1 : s1.peer = some dst := by rw [← hs]; exact hpeer
    rw [sendUdp_some net hpeer1]
    generalize hs2 : ({ s1 with
      io := .send .audio dst (sealRtp c srtp.rtpOut n pkt) (net s1.io.length) :: s1.io } :
        PeerSession μ) = s2
    have hc2 : Carries c s2 { srtp with streamsOut := t } ((n, pkt) :: l) := by
      rw [← hs2, ← hs]
      refine ⟨rfl, ?_⟩
      rw [List.map_cons, ← hc.2]
      rfl
    have hseq2 : (n + 1) % 2 ^ 16 = s2.audioSeq := by
      rw [← hs2, ← hs, ← hseq]
      show (n + 1) % 2 ^ 16 = (n % 2 ^ 16 + 1) % 2 ^ 16
      rw [Nat.mod_add_mod]
    have hown : s2.audioSsrc = s.audioSsrc := by rw [← hs2, ← hs]
    have hstep : Follows (n + 1) (Function.update f s.audioSsrc (some (outAt n)) s.audioSsrc) := by
      rw [Function.update_self]
      exact follows_outAt (by omega) (by omega)
    have hpeer2 : s2.peer = some dst := by rw [← hs2]; exact hpeer1
    cases net s1.io.length with
    | some e =>
      dsimp only
      refine ⟨_, _, _, n + 1, hc2, ht1, fun k hk => Function.update_of_ne hk _ _, hseq2, hstep, ?_⟩
      omega
    | none =>
      dsimp only
      rw [← hown] at hmem hssrc hstep ht1
      obtain ⟨srtp', f', l', n', hc', ht', hother, hnum, hlast, hle⟩ :=
        ih (g711.drop 1000) hmem hssrc hpeer2 hc2 ht1 hseq2 hstep (by omega)
      rw [hown] at hother hlast
      refine ⟨srtp', f', l', n', hc', ht', fun k hk => ?_, hnum, hlast, by omega⟩
      rw [hother k hk, Function.update_of_ne hk]

end PeerSession

theorem Tally.congr {S : Finset ℕ} {a b : SrtpSession} {f : ℕ → Option OutSeq}
    {l : Seals} (h : Tally S a f l) (hout : b.streamsOut = a.streamsOut) : Tally S b f l :=
  ⟨hout ▸ h.keeps, h.size, h.below, h.once⟩

namespace PeerSession

/-- The streams that a session sends. -/
def ssrcs (s : PeerSession μ) : Finset ℕ := {s.rtp.ssrc, s.audioSsrc}

/-- How far the indices of a stream can be after this many events. -/
def indexBound (k : ℕ) : ℕ := 2 ^ 16 + 2 ^ 15 * k

/-- The next packet of a stream takes the index that its sequence number stands for. -/
def NextIndex (k seq : ℕ) (x : Option OutSeq) : Prop :=
  ∃ n, n % 2 ^ 16 = seq ∧ Follows n x ∧ n < indexBound k

/-- What was protected under the key of the session, and with which indices. -/
structure Protected (c : Crypto) (k : ℕ) (s : PeerSession μ) (srtp : SrtpSession) (l : Seals)
    (f : ℕ → Option OutSeq) : Prop where
  carries : Carries c s srtp l
  tally : Tally s.ssrcs srtp f l
  video : NextIndex k s.seq (f s.rtp.ssrc)
  audio : NextIndex k s.audioSeq (f s.audioSsrc)

structure Keyed (c : Crypto) (k : ℕ) (s : PeerSession μ) : Prop where
  ssrc : s.rtp.ssrc < 2 ^ 32
  audioSsrc : s.audioSsrc < 2 ^ 32
  distinct : s.audioSsrc ≠ s.rtp.ssrc
  payload : s.rtp.maxPayload = 1200
  seq : s.seq < 2 ^ 16
  audioSeq : s.audioSeq < 2 ^ 16
  unlogged : s.dtlsLogged = false → s.srtp = none
  unkeyed : s.srtp = none → s.io.filterMap Io.media = []
  keyed : ∀ srtp, s.srtp = some srtp → ∃ l f, Protected c k s srtp l f

variable {c : Crypto} {k : ℕ}

theorem NextIndex.mono {k' seq : ℕ} {x : Option OutSeq} (h : NextIndex k seq x) (hk : k ≤ k') :
    NextIndex k' seq x := by
  obtain ⟨n, hnum, hfollows, hn⟩ := h
  refine ⟨n, hnum, hfollows, hn.trans_le ?_⟩
  unfold indexBound
  omega

/-- A stream that nothing was sent of. -/
theorem nextIndex_none {seq : ℕ} (h : seq < 2 ^ 16) : NextIndex k seq none := by
  refine ⟨seq, Nat.mod_eq_of_lt h, h, ?_⟩
  unfold indexBound
  omega

theorem card_ssrcs_le (s : PeerSession μ) : s.ssrcs.card ≤ kStreams :=
  Finset.card_le_two.trans (by decide)

/-- What sends no media keeps the indices; a new key finds no packet under an older one. -/
theorem Keyed.aside {s s' : PeerSession μ} (h : Keyed c k s) (haside : Aside s s') :
    Keyed c (k + 1) s' := by
  have hown : s'.ssrcs = s.ssrcs := by
    unfold ssrcs
    rw [haside.ssrc, haside.audioSsrc]
  refine ⟨?_, ?_, ?_, haside.payload.trans h.payload, ?_, ?_, ?_, ?_, ?_⟩
  · rw [haside.ssrc]
    exact h.ssrc
  · rw [haside.audioSsrc]
    exact h.audioSsrc
  · rw [haside.ssrc, haside.audioSsrc]
    exact h.distinct
  · rw [haside.seq]
    exact h.seq
  · rw [haside.audioSeq]
    exact h.audioSeq
  · intro hfalse
    have hold : s.dtlsLogged = false := by
      apply Bool.eq_false_of_not_eq_true
      intro htrue
      exact Bool.false_ne_true (hfalse.symm.trans (haside.logged htrue))
    cases haside.key with
    | none _ h' => exact h'
    | kept a b hs _ _ _ => exact absurd (hs.symm.trans (h.unlogged hold)) (Option.some_ne_none a)
    | fresh b _ hl _ _ _ => exact absurd (hfalse.symm.trans hl) Bool.false_ne_true
  · intro hnone
    rw [haside.media]
    apply h.unkeyed
    cases haside.key with
    | none hs _ => exact hs
    | kept a b _ hb _ _ => exact absurd (hb.symm.trans hnone) (Option.some_ne_none b)
    | fresh b _ _ hb _ _ => exact absurd (hb.symm.trans hnone) (Option.some_ne_none b)
  · intro srtp hsrtp
    cases haside.key with
    | none _ h' => exact absurd (hsrtp.symm.trans h') (Option.some_ne_none srtp)
    | kept a b hs hb hout hdir =>
      obtain rfl := Option.some.inj (hb.symm.trans hsrtp)
      obtain ⟨l, f, hp⟩ := h.keyed a hs
      refine ⟨l, f, ⟨hsrtp, ?_⟩, ?_, ?_, ?_⟩
      · rw [haside.media, hdir]
        exact hp.carries.2
      · rw [hown]
        exact hp.tally.congr hout
      · rw [haside.seq, haside.ssrc]
        exact hp.video.mono (Nat.le_succ k)
      · rw [haside.audioSeq, haside.audioSsrc]
        exact hp.audio.mono (Nat.le_succ k)
    | fresh b hs _ hb hout _ =>
      obtain rfl := Option.some.inj (hb.symm.trans hsrtp)
      refine ⟨[], fun _ => none, ⟨hsrtp, ?_⟩, ?_, ?_, ?_⟩
      · rw [haside.media]
        exact h.unkeyed (h.unlogged hs)
      · refine ⟨?_, nofun, nofun, List.nodup_nil⟩
        rw [hout]
        exact keeps_none _
      · rw [haside.seq]
        exact nextIndex_none h.seq
      · rw [haside.audioSeq]
        exact nextIndex_none h.audioSeq

variable (net : ℕ → Option Errno)

theorem Keyed.sendAudio {s : PeerSession μ} (h : Keyed c k s) {g711 : Bytes}
    (hlen : g711.length ≤ 2 ^ 15) (hk : k < 2 ^ 32) (skip : ℕ) :
    Keyed c (k + 1) (s.sendAudio net c g711 skip) := by
  have hsame : Keyed c (k + 1) s := h.aside (.refl s)
  unfold PeerSession.sendAudio
  split
  · exact hsame
  · rename_i srtp hsrtp
    split_ifs with hgate
    · exact hsame
    · obtain hpeer | ⟨dst, hpeer⟩ := Option.eq_none_or_eq_some s.peer
      · rw [hpeer] at hgate
        exact absurd rfl hgate
      obtain ⟨l, f, hp⟩ := h.keyed srtp hsrtp
      obtain ⟨n, hnum, hfollows, hn⟩ := hp.audio
      unfold indexBound at hn
      generalize hs : ({ s with audioTs := (s.audioTs + skip) % 2 ^ 32 } : PeerSession μ) = s1
      have hmem : s1.audioSsrc ∈ s.ssrcs := by
        rw [← hs]
        exact Finset.mem_insert_of_mem (Finset.mem_singleton_self _)
      have hcarries : Carries c s1 srtp l := by
        rw [← hs]
        exact hp.carries
      obtain ⟨srtp', f', l', n', hc', ht', hother, hnum', hfollows', hle⟩ :=
        sendAudioFrom_tally net s.card_ssrcs_le g711.length g711 hmem
          (by rw [← hs]; exact h.audioSsrc) (by rw [← hs]; exact hpeer) hcarries hp.tally
          (by rw [← hs]; exact hnum) (by rw [← hs]; exact hfollows) (by omega)
      obtain ⟨seq, ts, key, new, hframe, -⟩ :=
        sendAudioFrom_eq net (c := c) g711.length srtp g711 s1
      rw [hframe] at hc' hnum' ⊢
      subst hs
      have hkey : key = some srtp' := hc'.1
      subst hkey
      refine ⟨h.ssrc, h.audioSsrc, h.distinct, h.payload, h.seq, ?_, ?_, ?_, ?_⟩
      · have hnext : n' % 2 ^ 16 = seq := hnum'
        rw [← hnext]
        exact Nat.mod_lt _ (by decide)
      · intro hfalse
        exact absurd ((h.unlogged hfalse).symm.trans hsrtp).symm (Option.some_ne_none srtp)
      · exact fun hnone => absurd hnone (Option.some_ne_none srtp')
      · intro x hx
        obtain rfl := Option.some.inj hx
        refine ⟨l', f', hc', ht', ?_, n', hnum', hfollows', ?_⟩
        · show NextIndex (k + 1) s.seq (f' s.rtp.ssrc)
          rw [hother _ h.distinct.symm]
          exact hp.video.mono (Nat.le_succ k)
        · unfold indexBound
          omega

theorem Keyed.sendAu {s : PeerSession μ} (h : Keyed c k s) {au : Bytes}
    (hlen : au.length ≤ 2 ^ 25) (hk : k < 2 ^ 32) (pts : ℤ) (key : Bool) :
    Keyed c (k + 1) (s.sendAu net c au pts key) := by
  obtain ⟨heq, -⟩ | ⟨srtp, dst, hsrtp, hpeer, -, heq⟩ := s.sendAu_cases net (c := c) au pts key
  · rw [heq]
    exact h.aside (.refl s)
  · rw [heq]
    obtain ⟨l, f, hp⟩ := h.keyed srtp hsrtp
    obtain ⟨n, hnum, hfollows, hn⟩ := hp.video
    unfold indexBound at hn
    have hcount := length_packetizeH264_lt hlen (ticks pts) s.seq h.payload
    have hsize := size_packetizeH264 au (ticks pts) s.seq h.payload
    have hpkts := consecutive_packetizeH264 au (ticks pts) hnum h.ssrc
    have hnext := snd_packetizeH264 au (ticks pts) h.seq s.rtp
    generalize packetizeH264 au (ticks pts) s.seq s.rtp = pkts at hcount hsize hpkts hnext
    generalize hs : ({ s with seq := pkts.2 } : PeerSession μ) = s1
    have hmem : s.rtp.ssrc ∈ s.ssrcs := Finset.mem_insert_self _ _
    have hcarries : Carries c s1 srtp l := by
      rw [← hs]
      exact hp.carries
    obtain ⟨srtp', f', l', hc', ht', hother, hfollows'⟩ :=
      sendPackets_tally net s.card_ssrcs_le hmem (by rw [← hs]; exact hpeer) hcarries hp.tally
        hpkts hsize hfollows hcount (by omega)
    obtain ⟨key', new, wait, e, streak, hframe, -⟩ := sendPackets_eq net (c := c) srtp pkts.1 s1
    rw [hframe] at hc' ⊢
    subst hs
    have hkey : key' = some srtp' := hc'.1
    subst hkey
    have hseq : pkts.2 < 2 ^ 16 := by
      rw [hnext]
      exact Nat.mod_lt _ (by decide)
    refine ⟨h.ssrc, h.audioSsrc, h.distinct, h.payload, hseq, h.audioSeq, ?_, ?_, ?_⟩
    · intro hfalse
      exact absurd ((h.unlogged hfalse).symm.trans hsrtp).symm (Option.some_ne_none srtp)
    · exact fun hnone => absurd hnone (Option.some_ne_none srtp')
    · intro x hx
      obtain rfl := Option.some.inj hx
      refine ⟨l', f', hc', ht', ⟨n + pkts.1.length, ?_, hfollows', ?_⟩, ?_⟩
      · show (n + pkts.1.length) % 2 ^ 16 = pkts.2
        rw [hnext, ← hnum, Nat.mod_add_mod]
      · unfold indexBound
        omega
      · show NextIndex (k + 1) s.audioSeq (f' s.audioSsrc)
        rw [hother _ h.distinct]
        exact hp.audio.mono (Nat.le_succ k)

/-- Both streams have a number of their own from the start. -/
theorem keyed_create (dtls : DtlsTransport μ) (ufrag pwd r : Bytes) :
    Keyed c 0 (create dtls ufrag pwd r) := by
  have hssrc : (if be32 r 0 = 0 then 0x4d414348 else be32 r 0) < 2 ^ 32 := by
    split_ifs
    · decide
    · exact be32_lt r 0
  refine ⟨hssrc, Nat.xor_lt_two_pow hssrc (by decide), ?_, rfl, Nat.mod_lt _ (by decide),
    Nat.mod_lt _ (by decide), fun _ => rfl, fun _ => rfl, nofun⟩
  intro heq
  have hzero := Nat.xor_right_inj.mp (heq.trans (Nat.xor_zero _).symm)
  exact absurd hzero (by decide)

end PeerSession

/-- The media of one event: access units of up to 32 MiB, audio of up to four seconds. -/
def PeerEvent.Fits : PeerEvent → Prop
  | .sendAu au _ _ => au.length ≤ 2 ^ 25
  | .sendAudio g711 _ => g711.length ≤ 2 ^ 15
  | _ => True

section

variable (wrap : ℤ → ℤ) (net : ℕ → Option Errno) (c : Crypto) (m : Mbedtls μ)

/-- A step sends no media, or it is given audio or an access unit to send. -/
theorem peerStep_cases (w : PeerWorld μ) (e : PeerEvent) :
    (∃ s, peerStep wrap net c m w e = { w with s } ∧ PeerSession.Aside w.s s) ∨
      (∃ g711 skip, e = .sendAudio g711 skip) ∨ ∃ au pts key, e = .sendAu au pts key := by
  have htaken (pcm : List Int16) (pli : Bool) :
      PeerSession.Aside w.s { w.s with audioIn := pcm, pli := pli } :=
    ⟨rfl, rfl, rfl, rfl, rfl, rfl, .inl rfl, rfl, rfl, id, .same rfl⟩
  cases e with
  | offer hostIp port sdp profile audioSend audioRecv =>
    exact .inl ⟨_, rfl, w.s.aside_onOffer wrap hostIp port sdp profile audioSend audioRecv⟩
  | readable dgs => exact .inl ⟨_, rfl, PeerSession.aside_onReadable net dgs w.s⟩
  | tick => exact .inl ⟨_, rfl, w.s.aside_tick net⟩
  | sendAudio g711 skip => exact .inr (.inl ⟨g711, skip, rfl⟩)
  | sendAu au pts key => exact .inr (.inr ⟨au, pts, key, rfl⟩)
  | takeAudioIn => exact .inl ⟨_, rfl, htaken [] w.s.pli⟩
  | takePli => exact .inl ⟨_, rfl, htaken w.s.audioIn false⟩

theorem counts_peerStep (w : PeerWorld μ) (e : PeerEvent) (h : w.s.Counts) :
    (peerStep wrap net c m w e).s.Counts := by
  obtain ⟨s, heq, haside⟩ | ⟨g711, skip, rfl⟩ | ⟨au, pts, key, rfl⟩ :=
    peerStep_cases wrap net c m w e
  · rw [heq]
    exact h.aside haside
  · exact h.sendAudio net g711 skip
  · exact h.sendAu net au pts key

/-- In every run, a session counts as stranded just when its last 25 packets of video or more have
all failed for want of a path, whatever audio, handshake and answers did meanwhile. -/
theorem peer_stranded (dtls : DtlsTransport μ) (ufrag pwd r : Bytes) (es : List PeerEvent) :
    (Runs.run (peerStep wrap net c m) { s := .create dtls ufrag pwd r } es).s.stranded = true ↔
      kStrandedAfter ≤ PeerSession.pathFailures
        (Runs.run (peerStep wrap net c m) { s := .create dtls ufrag pwd r } es).s.io % 2 ^ 32 := by
  have hstart : (PeerSession.create dtls ufrag pwd r).Counts := rfl
  have hcounts : (Runs.run (peerStep wrap net c m) { s := .create dtls ufrag pwd r } es).s.Counts :=
    Runs.run_invariant (P := fun w : PeerWorld μ => w.s.Counts)
      (fun w e h => counts_peerStep wrap net c m w e h) hstart es
  unfold PeerSession.Counts at hcounts
  rw [← hcounts]
  exact decide_eq_true_iff

theorem inPicture_peerStep (w : PeerWorld μ) (e : PeerEvent) (h : InPicture w) :
    InPicture (peerStep wrap net c m w e) := by
  obtain ⟨s, heq, haside⟩ | ⟨g711, skip, rfl⟩ | ⟨au, pts, key, rfl⟩ :=
    peerStep_cases wrap net c m w e
  · rw [heq]
    exact h.congr haside.seq haside.wait
  · exact h.sendAudio g711 skip
  · exact h.sendAu wrap m au pts key

/-- In every run, whatever the socket refuses, a browser is sent nothing of an access unit that it
could not decode: it is a key frame, or every packet since the last one was taken and the numbers
have no gap. -/
theorem peer_decodable (dtls : DtlsTransport μ) (ufrag pwd r : Bytes) (es : List PeerEvent) :
    Decodable (Runs.run (peerStep wrap net c m) { s := .create dtls ufrag pwd r } es).aus := by
  have hstart : InPicture { s := PeerSession.create dtls ufrag pwd r } :=
    ⟨Nat.mod_lt _ (by decide), fun hwait => absurd hwait.symm Bool.false_ne_true, trivial⟩
  exact (Runs.run_invariant (fun w e h => inPicture_peerStep wrap net c m w e h) hstart
    es).decodable

theorem keyed_peerStep {k : ℕ} (w : PeerWorld μ) (e : PeerEvent) (h : w.s.Keyed c k)
    (he : e.Fits) (hk : k < 2 ^ 32) : (peerStep wrap net c m w e).s.Keyed c (k + 1) := by
  obtain ⟨s, heq, haside⟩ | ⟨g711, skip, rfl⟩ | ⟨au, pts, key, rfl⟩ :=
    peerStep_cases wrap net c m w e
  · rw [heq]
    exact h.aside haside
  · exact h.sendAudio net he hk skip
  · exact h.sendAu net he hk pts key

theorem keyed_run {es : List PeerEvent} (hes : ∀ e ∈ es, e.Fits) {k : ℕ} {w : PeerWorld μ}
    (h : w.s.Keyed c k) (hk : k + es.length ≤ 2 ^ 32) :
    (Runs.run (peerStep wrap net c m) w es).s.Keyed c (k + es.length) := by
  induction es generalizing k w with
  | nil => exact h
  | cons e es ih =>
    obtain ⟨he, hrest⟩ := List.forall_mem_cons.mp hes
    rw [List.length_cons] at hk ⊢
    have hone := keyed_peerStep wrap net c m w e h he (by omega)
    have hall := ih hrest hone (by omega)
    rwa [Nat.add_right_comm] at hall

/-- In every run of fewer than 2^32 events, all video and audio that went to the socket was sealed
under one key, and no block of its keystream was used twice. -/
theorem peer_keystream (dtls : DtlsTransport μ) (ufrag pwd r : Bytes) {es : List PeerEvent}
    (hes : ∀ e ∈ es, e.Fits) (hlen : es.length < 2 ^ 32) :
    let s := (Runs.run (peerStep wrap net c m) { s := .create dtls ufrag pwd r } es).s
    (s.srtp = none → s.io.filterMap Io.media = []) ∧
      ∀ srtp, s.srtp = some srtp → ∃ l : Seals,
        (s.io.filterMap Io.media = l.map fun x => sealRtp c srtp.rtpOut x.1 x.2) ∧
        (l.keystream srtp.rtpOut).Nodup := by
  intro s
  have hkeyed : s.Keyed c (0 + es.length) :=
    keyed_run wrap net c m hes (w := { s := .create dtls ufrag pwd r })
      (PeerSession.keyed_create dtls ufrag pwd r) (by omega)
  rw [Nat.zero_add] at hkeyed
  refine ⟨hkeyed.unkeyed, fun srtp hsrtp => ?_⟩
  obtain ⟨l, f, hp⟩ := hkeyed.keyed srtp hsrtp
  refine ⟨l, hp.carries.2, hp.tally.keystream (fun ssrc hmem st hst => ?_) srtp.rtpOut⟩
  -- the index of the newest packet is below the next one
  have hbelow {seq : ℕ} (hnext : PeerSession.NextIndex es.length seq (some st)) :
      st.roc * 2 ^ 16 + st.last < 2 ^ 48 := by
    obtain ⟨n, -, ⟨-, hlt, -⟩, hn⟩ := hnext
    unfold PeerSession.indexBound at hn
    omega
  obtain rfl | haudio := Finset.mem_insert.mp hmem
  · exact hbelow (hst ▸ hp.video)
  · rw [Finset.mem_singleton.mp haudio] at hst
    exact hbelow (hst ▸ hp.audio)

end

/-- A library whose handshake is over with the first datagram. -/
def instantTls : Mbedtls Unit where
  handshake _ queue :=
    { ssl := (), taken := queue.length, sent := [], code := .finished
      exported := [⟨true, List.replicate 48 0, Vector.replicate 32 0, Vector.replicate 32 0, 0⟩] }
  sessionReset := id
  setClientTransportId ssl _ := ssl
  srtpNegotiated _ := true
  tlsPrf _ _ _ _ := some (Vector.replicate 60 0)

/-- A binding request that is signed with the password of a session without random bytes. -/
def signedRequest : Bytes :=
  [0, 1, 0, 24, 0x21, 0x12, 0xa4, 0x42, 0, 0, 0, 0, 0, 0, 0, 0, 0, 0, 0, 0, 0, 8, 0, 20,
    0x59, 0x8c, 0xec, 0x4c, 0x7d, 0x9c, 0xe2, 0x0b, 0xa7, 0x56, 0x4c, 0x6b, 0xd1, 0x8a, 0xfc, 0x1d,
    0x77, 0x76, 0x96, 0xff]

/-- The request, a datagram of DTLS, and a key frame behind them. -/
def oneFrame : List PeerEvent :=
  [.readable [(⟨0x7f000001, 5000⟩, signedRequest), (⟨0x7f000001, 5000⟩, [22])],
    .sendAu [0, 0, 1, 0x65, 0x88] 0 true]

theorem fits_oneFrame : ∀ e ∈ oneFrame, e.Fits := by
  intro e he
  obtain rfl | rfl := List.mem_pair.mp he
  · trivial
  · show ([0, 0, 1, 0x65, 0x88] : Bytes).length ≤ 2 ^ 25
    decide

/-- One packet is sent. -/
theorem peer_keystream_oneFrame :
    let s := (Runs.run (peerStep id (fun _ => none) onesTag instantTls)
      { s := .create { ssl := (), fp := [], ok := true } [] [] [] } oneFrame).s
    (s.io.filterMap Io.media).length = 1 ∧ (s.srtp = none → s.io.filterMap Io.media = []) ∧
      ∀ srtp, s.srtp = some srtp → ∃ l : Seals,
        (s.io.filterMap Io.media = l.map fun x => sealRtp onesTag srtp.rtpOut x.1 x.2) ∧
        (l.keystream srtp.rtpOut).Nodup :=
  ⟨by decide +kernel, peer_keystream id (fun _ => none) onesTag instantTls _ [] [] []
    fits_oneFrame (by decide)⟩

end Machino.Webrtc
