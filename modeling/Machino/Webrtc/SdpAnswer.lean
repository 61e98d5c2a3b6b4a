import Mathlib.Algebra.Order.BigOperators.Group.List
import Mathlib.Algebra.Order.Ring.Nat
import Machino.Webrtc.SdpOffer

namespace Machino.Webrtc

/-- What `snprintf` writes in full. -/
def Fits (parts : List Text) : Prop :=
  (∀ part ∈ parts, ∀ c ∈ part, c.toNat ≠ 0) ∧ parts.flatten.length ≤ 255

theorem length_cString_le (s : Text) : (Text.cString s).length ≤ s.length :=
  (List.takeWhile_prefix _).length_le

theorem notMem_zero_of_length_cString {s : Text} (h : (Text.cString s).length = s.length) :
    ∀ c ∈ s, c.toNat ≠ 0 := by
  have heq : Text.cString s = s := (List.takeWhile_prefix _).eq_of_length h
  intro c hc
  rw [← heq, Text.cString] at hc
  simpa using List.mem_takeWhile_imp hc

theorem snprintf_of_fits {parts : List Text} (h : Fits parts) : snprintf parts = parts.flatten := by
  have hparts : parts.flatMap Text.cString = parts.flatten := by
    rw [List.flatMap_def, List.map_congr_left fun part hp => Text.cString_eq_self (h.1 part hp),
      List.map_id']
  unfold snprintf
  rw [hparts, List.take_of_length_le h.2]

theorem length_flatMap_cString_le (parts : List Text) :
    (parts.flatMap Text.cString).length ≤ parts.flatten.length := by
  induction parts with
  | nil => exact le_rfl
  | cons part parts ih =>
    rw [List.flatMap_cons, List.flatten_cons, List.length_append, List.length_append]
    exact Nat.add_le_add (length_cString_le part) ih

theorem length_snprintf_le (parts : List Text) :
    (snprintf parts).length ≤ parts.flatten.length := by
  unfold snprintf
  rw [List.length_take]
  exact (min_le_right _ _).trans (length_flatMap_cString_le parts)

/-- A line of its full length was written in full. -/
theorem fits_of_length {parts : List Text} (h : (snprintf parts).length = parts.flatten.length) :
    Fits parts := by
  unfold snprintf at h
  rw [List.length_take] at h
  have hle := length_flatMap_cString_le parts
  have hlen : (parts.flatMap Text.cString).length = parts.flatten.length := by omega
  refine ⟨?_, by omega⟩
  clear h hle
  induction parts with
  | nil => exact fun _ hp => absurd hp List.not_mem_nil
  | cons part parts ih =>
    rw [List.flatMap_cons, List.flatten_cons, List.length_append, List.length_append] at hlen
    have h1 := length_cString_le part
    have h2 := length_flatMap_cString_le parts
    intro p hp
    rcases List.mem_cons.mp hp with rfl | hp
    · exact notMem_zero_of_length_cString (by omega)
    · exact ih (by omega) p hp

theorem length_ofNat_le {n k : ℕ} (hk : 0 < k) (h : n < 10 ^ k) : (Text.ofNat n).length ≤ k :=
  (Nat.length_toDigits_le_iff (by decide) hk).mpr h

theorem length_ofInt_le {n : ℤ} (hlo : -2 ^ 31 ≤ n) (hhi : n < 2 ^ 31) :
    (Text.ofInt n).length ≤ 11 := by
  have hdigits : (Text.ofNat n.natAbs).length ≤ 10 := length_ofNat_le (by decide) (by omega)
  unfold Text.ofInt
  split_ifs
  · rw [List.length_cons]
    omega
  · omega

/-- Neither a zero byte nor the end of a line nor a blank. -/
def Solid (s : Text) : Prop := ∀ c ∈ s, c.toNat ≠ 0 ∧ c ≠ '\n' ∧ c ≠ ' '

instance (s : Text) : Decidable (Solid s) := List.decidableBAll _ s

theorem solid_ofNat (n : ℕ) : Solid (Text.ofNat n) := by
  intro c hc
  have hd : c.isDigit = true := Text.isDigit_of_mem_ofNat hc
  refine ⟨?_, ?_, ?_⟩
  · rw [Char.isDigit_iff_toNat] at hd
    exact fun h0 => absurd (h0 ▸ hd.1) (by decide)
  · rintro rfl
    exact absurd hd (by decide)
  · rintro rfl
    exact absurd hd (by decide)

theorem solid_ofInt (n : ℤ) : Solid (Text.ofInt n) := by
  unfold Text.ofInt
  split_ifs
  · intro c hc
    rcases List.mem_cons.mp hc with rfl | hc
    · exact ⟨by decide, by decide, by decide⟩
    · exact solid_ofNat _ c hc
  · exact solid_ofNat _

/-- What the session hands over: texts of one line, an address and a name that are short. -/
structure AnswerParams.WellFormed (p : AnswerParams) : Prop where
  iceUfrag : '\n' ∉ p.iceUfrag
  icePwd : '\n' ∉ p.icePwd
  fingerprint : '\n' ∉ p.fingerprint
  hostIp : p.hostIp.length ≤ 15 ∧ Solid p.hostIp
  cname : p.cname.length ≤ 200 ∧ Solid p.cname
  port : 0 < p.port ∧ p.port < 2 ^ 16
  ssrc : p.ssrc < 2 ^ 32
  audioSsrc : p.audioSsrc < 2 ^ 32
  audioPt : -1 ≤ p.audioPt ∧ p.audioPt < 2 ^ 31

theorem Solid.nonzero {s : Text} (h : Solid s) : ∀ c ∈ s, c.toNat ≠ 0 := fun c hc => (h c hc).1

theorem Solid.line {s : Text} (h : Solid s) : '\n' ∉ s := fun hc => (h _ hc).2.1 rfl

/-- A part of a line, and the room that is kept for it. -/
def Bounded (part : Text) (room : ℕ) : Prop := (∀ c ∈ part, c.toNat ≠ 0) ∧ part.length ≤ room

instance (part : Text) (room : ℕ) : Decidable (Bounded part room) :=
  @instDecidableAnd _ _ (List.decidableBAll _ part) inferInstance

theorem fits_of_bounded {parts : List Text} (rooms : List ℕ)
    (h : List.Forall₂ Bounded parts rooms) (hsum : rooms.sum ≤ 255) : Fits parts := by
  have hlen : (∀ part ∈ parts, ∀ c ∈ part, c.toNat ≠ 0) ∧ parts.flatten.length ≤ rooms.sum := by
    clear hsum
    induction h with
    | nil => exact ⟨fun _ h => absurd h List.not_mem_nil, le_rfl⟩
    | cons hpart _ ih =>
      refine ⟨List.forall_mem_cons.mpr ⟨hpart.1, ih.1⟩, ?_⟩
      rw [List.flatten_cons, List.length_append, List.sum_cons]
      exact Nat.add_le_add hpart.2 ih.2
  exact ⟨hlen.1, hlen.2.trans hsum⟩

theorem bounded_ofNat {n k : ℕ} (hk : 0 < k) (h : n < 10 ^ k) : Bounded (Text.ofNat n) k :=
  ⟨(solid_ofNat n).nonzero, length_ofNat_le hk h⟩

theorem bounded_ofInt {n : ℤ} (h : -1 ≤ n ∧ n < 2 ^ 31) : Bounded (Text.ofInt n) 11 :=
  ⟨(solid_ofInt n).nonzero, length_ofInt_le (by omega) h.2⟩

section

variable {o : Offer} {p : AnswerParams} {m : OfferMedia}

theorem candidate_snprintf (hp : p.WellFormed) : candidate snprintf p = candidate List.flatten p := by
  unfold candidate
  rw [snprintf_of_fits]
  apply fits_of_bounded [32, 15, 1, 5, 9, 2]
  · exact .cons (by decide) (.cons ⟨hp.hostIp.2.nonzero, hp.hostIp.1⟩ (.cons (by decide)
      (.cons (bounded_ofNat (by decide) (by have := hp.port; omega)) (.cons (by decide)
        (.cons (by decide) .nil)))))
  · decide

theorem ssrcLine_snprintf (hp : p.WellFormed) {ssrc : ℕ} (h : ssrc < 2 ^ 32) :
    ssrcLine snprintf p ssrc = ssrcLine List.flatten p ssrc := by
  unfold ssrcLine
  rw [snprintf_of_fits]
  apply fits_of_bounded [7, 10, 7, 200, 2]
  · exact .cons (by decide) (.cons (bounded_ofNat (by decide) (by omega)) (.cons (by decide)
      (.cons ⟨hp.cname.2.nonzero, hp.cname.1⟩ (.cons (by decide) .nil))))
  · decide

theorem audioMedia_snprintf (hp : p.WellFormed) :
    audioMedia snprintf p m = audioMedia List.flatten p m := by
  unfold audioMedia
  have hport : Bounded (Text.ofNat p.port) 5 :=
    bounded_ofNat (by decide) (by have := hp.port; omega)
  have hhead : Fits ["m=audio ".toList, Text.ofNat p.port, " UDP/TLS/RTP/SAVPF ".toList,
      Text.ofInt p.audioPt, crlf] := by
    apply fits_of_bounded [8, 5, 19, 11, 2]
    · exact .cons (by decide) (.cons hport (.cons (by decide)
        (.cons (bounded_ofInt hp.audioPt) (.cons (by decide) .nil))))
    · decide
  have hmap : Fits ["a=rtpmap:".toList, Text.ofInt p.audioPt, [' '],
      if p.audioPt = m.pcmaPt then "PCMA".toList else "PCMU".toList, "/8000".toList, crlf] := by
    apply fits_of_bounded [9, 11, 1, 4, 5, 2]
    · refine .cons (by decide) (.cons (bounded_ofInt hp.audioPt) (.cons (by decide)
        (.cons ?_ (.cons (by decide) (.cons (by decide) .nil)))))
      split_ifs
      · decide
      · decide
    · decide
  rw [snprintf_of_fits hhead, snprintf_of_fits hmap, candidate_snprintf hp,
    ssrcLine_snprintf hp hp.audioSsrc]

/-- Around a payload type. -/
theorem fits_payload (hm : m.Whole) (a b : String) (ha : Bounded a.toList 10)
    (hb : Bounded b.toList 60) : Fits [a.toList, Text.ofInt m.h264Pt, b.toList, crlf] := by
  apply fits_of_bounded [10, 11, 60, 2]
  · exact .cons ha (.cons (bounded_ofInt hm.pt) (.cons hb (.cons (by decide) .nil)))
  · decide

theorem videoMedia_snprintf (hp : p.WellFormed) (hm : m.Whole) (hkind : m.kind = "video".toList) :
    videoMedia snprintf p m = videoMedia List.flatten p m := by
  unfold videoMedia
  have hhead : Fits ["m=".toList, m.kind, [' '], Text.ofNat p.port,
      " UDP/TLS/RTP/SAVPF ".toList, Text.ofInt m.h264Pt, crlf] := by
    rw [hkind]
    apply fits_of_bounded [2, 5, 1, 5, 19, 11, 2]
    · exact .cons (by decide) (.cons (by decide) (.cons (by decide)
        (.cons (bounded_ofNat (by decide) (by have := hp.port; omega)) (.cons (by decide)
          (.cons (bounded_ofInt hm.pt) (.cons (by decide) .nil))))))
    · decide
  have hfmtp : Fits ["a=fmtp:".toList, Text.ofInt m.h264Pt,
      " level-asymmetry-allowed=1;packetization-mode=1".toList] := by
    apply fits_of_bounded [7, 11, 60]
    · exact .cons (by decide) (.cons (bounded_ofInt hm.pt) (.cons (by decide) .nil))
    · decide
  dsimp only
  rw [snprintf_of_fits hhead, snprintf_of_fits hfmtp,
    snprintf_of_fits (fits_payload hm "a=rtpmap:" " H264/90000" (by decide) (by decide)),
    snprintf_of_fits (fits_payload hm "a=rtcp-fb:" " nack" (by decide) (by decide)),
    snprintf_of_fits (fits_payload hm "a=rtcp-fb:" " nack pli" (by decide) (by decide)),
    candidate_snprintf hp, ssrcLine_snprintf hp hp.ssrc]

/-- The kind of a medium that is written behind `m=` with a zero port. -/
def KindFits (kind : Text) : Prop := (∀ c ∈ kind, c.toNat ≠ 0) ∧ kind.length ≤ 229

instance (kind : Text) : Decidable (KindFits kind) :=
  @instDecidableAnd _ _ (List.decidableBAll _ kind) inferInstance

theorem rejectedMedia_snprintf (h : KindFits m.kind) :
    rejectedMedia snprintf m = rejectedMedia List.flatten m := by
  unfold rejectedMedia
  rw [snprintf_of_fits]
  apply fits_of_bounded [2, 229, 1, 1, 19, 1, 2]
  · exact .cons (by decide) (.cons h (.cons (by decide) (.cons (by decide) (.cons (by decide)
      (.cons (by decide) (.cons (by decide) .nil))))))
  · decide

theorem length_rejectedMedia_le :
    (rejectedMedia snprintf m).length ≤ (rejectedMedia List.flatten m).length := by
  unfold rejectedMedia
  simp only [List.length_append]
  have h := length_snprintf_le ["m=".toList, m.kind, [' '], Text.ofNat 0,
    " UDP/TLS/RTP/SAVPF ".toList, Text.ofInt 0, crlf]
  omega

theorem kindFits_of_length
    (h : (rejectedMedia snprintf m).length = (rejectedMedia List.flatten m).length) :
    KindFits m.kind := by
  unfold rejectedMedia at h
  simp only [List.length_append] at h
  have hfits : Fits ["m=".toList, m.kind, [' '], Text.ofNat 0, " UDP/TLS/RTP/SAVPF ".toList,
      Text.ofInt 0, crlf] := by
    apply fits_of_length
    omega
  refine ⟨hfits.1 m.kind (by simp), ?_⟩
  have hlen := hfits.2
  simp only [List.flatten_cons, List.flatten_nil, List.length_append] at hlen
  have hrest : "m=".toList.length + ([' '].length + ((Text.ofNat 0).length +
    (" UDP/TLS/RTP/SAVPF ".toList.length + ((Text.ofInt 0).length + crlf.length)))) = 26 := by
    decide
  rw [List.length_nil] at hlen
  omega

theorem kind_of_index {i j : ℕ} {kind : Text} (h : (m, i) ∈ o.media.zipIdx) (hj : j = i)
    (hkind : (o.media.map (·.kind))[j]? = some kind) : m.kind = kind := by
  subst hj
  rw [List.getElem?_map, List.mem_zipIdx_iff_getElem?.mp h] at hkind
  exact Option.some.inj hkind

theorem mediaText_rejected (print : List Text → Text) {i : ℕ} (h : takes o p i = false) :
    mediaText print o p i m = rejectedMedia print m := by
  unfold takes at h
  obtain ⟨hvideo, haudio⟩ := Bool.or_eq_false_iff.mp h
  unfold mediaText
  rw [haudio, if_neg Bool.false_ne_true, if_neg (of_decide_eq_false hvideo)]

theorem mediaText_accepted (hp : p.WellFormed) (ho : o.Whole) {i : ℕ}
    (hm : (m, i) ∈ o.media.zipIdx) (h : takes o p i = true) :
    mediaText snprintf o p i m = mediaText List.flatten o p i m := by
  unfold mediaText
  split_ifs with haudio hvideo
  · exact audioMedia_snprintf hp
  · have hmem := ho.media m (List.fst_mem_of_mem_zipIdx hm)
    exact videoMedia_snprintf hp hmem (kind_of_index hm rfl (ho.video i hvideo))
  · unfold takes at h
    rcases Bool.or_eq_true_iff.mp h with h | h
    · exact absurd (of_decide_eq_true h) hvideo
    · exact absurd h haudio

theorem length_mediaText_le (hp : p.WellFormed) (ho : o.Whole) {i : ℕ}
    (hm : (m, i) ∈ o.media.zipIdx) :
    (mediaText snprintf o p i m).length ≤ (mediaText List.flatten o p i m).length := by
  cases h : takes o p i with
  | true => rw [mediaText_accepted hp ho hm h]
  | false =>
    rw [mediaText_rejected snprintf h, mediaText_rejected List.flatten h]
    exact length_rejectedMedia_le

theorem length_eq_of_flatMap_eq {α : Type} {f g : α → Text} {l : List α}
    (hle : ∀ a ∈ l, (f a).length ≤ (g a).length) (h : l.flatMap f = l.flatMap g) :
    ∀ a ∈ l, (f a).length = (g a).length := by
  have hlen : (l.map fun a => (f a).length).sum = (l.map fun a => (g a).length).sum := by
    have hcongr := congrArg List.length h
    rwa [List.length_flatMap, List.length_flatMap] at hcongr
  clear h
  induction l with
  | nil => exact fun _ h => absurd h List.not_mem_nil
  | cons a l ih =>
    have hsum : (l.map fun a => (f a).length).sum ≤ (l.map fun a => (g a).length).sum :=
      List.sum_le_sum fun b hb => hle b (List.mem_cons_of_mem a hb)
    have ha := hle a List.mem_cons_self
    rw [List.map_cons, List.map_cons, List.sum_cons, List.sum_cons] at hlen
    intro b hb
    rcases List.mem_cons.mp hb with rfl | hb
    · omega
    · exact ih (fun c hc => hle c (List.mem_cons_of_mem a hc)) (by omega) b hb

/-- Every line is complete exactly where the kinds of the rejected media fit. -/
theorem answerWith_snprintf_iff (hp : p.WellFormed) (ho : o.Whole) :
    answerWith snprintf o p = answerWith List.flatten o p ↔
      ∀ m ∈ o.media.zipIdx, takes o p m.2 = false → KindFits m.1.kind := by
  unfold answerWith
  rw [List.append_cancel_left_eq]
  constructor
  · intro h m hm hrejected
    have hlen := length_eq_of_flatMap_eq (fun m hm => length_mediaText_le hp ho hm) h m hm
    rw [mediaText_rejected snprintf hrejected, mediaText_rejected List.flatten hrejected] at hlen
    exact kindFits_of_length hlen
  · intro h
    rw [List.flatMap_def, List.flatMap_def]
    refine congrArg List.flatten (List.map_congr_left fun m hm => ?_)
    cases htakes : takes o p m.2 with
    | true => exact mediaText_accepted hp ho hm htakes
    | false =>
      rw [mediaText_rejected snprintf htakes, mediaText_rejected List.flatten htakes]
      exact rejectedMedia_snprintf (h m hm htakes)

end

/-- A medium of the answer; a zero port rejects it. -/
structure AnswerMedia where
  kind : Text
  mid : Text := []
  port : ℕ := 0
  deriving DecidableEq

def answerMediaOf (l : Text) : AnswerMedia :=
  let words := Lines.split ' ' (l.drop 2)
  { kind := words.headD [], port := Text.ofDigits 10 (words.tail.headD []) }

def readLine (ms : List AnswerMedia) (l : Text) : List AnswerMedia :=
  if starts l "m=" then ms ++ [answerMediaOf l]
  else if starts l "a=mid:" then Reader.modifyLast (fun m => { m with mid := l.drop 6 }) ms
  else ms

/-- The media of an answer in their order. -/
def readMedia (s : Text) : List AnswerMedia := (sdpLines s).foldl readLine []

/-- A text of whole lines, and what reading them adds to the media. -/
def Reads (s : Text) (f : List AnswerMedia → List AnswerMedia) : Prop :=
  ∃ ls : List Text, s = ls.flatMap (· ++ crlf) ∧ (∀ l ∈ ls, '\n' ∉ l) ∧
    ∀ ms, ls.foldl readLine ms = f ms

theorem reads_nil : Reads [] id := ⟨[], rfl, fun _ h => absurd h List.not_mem_nil, fun _ => rfl⟩

theorem Reads.append {s t : Text} {f g : List AnswerMedia → List AnswerMedia} (hs : Reads s f)
    (ht : Reads t g) : Reads (s ++ t) fun ms => g (f ms) := by
  obtain ⟨ls, rfl, hls, hf⟩ := hs
  obtain ⟨ls', rfl, hls', hg⟩ := ht
  refine ⟨ls ++ ls', List.flatMap_append.symm, ?_, fun ms => ?_⟩
  · intro l hl
    rcases List.mem_append.mp hl with hl | hl
    · exact hls l hl
    · exact hls' l hl
  · rw [List.foldl_append, hf, hg]

/-- A text that is not about the media. -/
theorem Reads.skip {s t : Text} {f : List AnswerMedia → List AnswerMedia} (hs : Reads s f)
    (ht : Reads t id) : Reads (s ++ t) f := hs.append ht

theorem reads_plain {parts : List Text} {f : List AnswerMedia → List AnswerMedia}
    (hline : ∀ part ∈ parts, '\n' ∉ part) (h : ∀ ms, readLine ms parts.flatten = f ms) :
    Reads (plain parts) f := by
  refine ⟨[parts.flatten], ?_, ?_, h⟩
  · rw [List.flatMap_singleton, plain]
  · intro l hl
    obtain rfl := List.mem_singleton.mp hl
    intro hc
    obtain ⟨part, hp, hc⟩ := List.mem_flatten.mp hc
    exact hline part hp hc

/-- The media of a text that is read. -/
theorem readMedia_of_reads {s : Text} {f : List AnswerMedia → List AnswerMedia} (h : Reads s f) :
    readMedia s = f [] := by
  obtain ⟨ls, rfl, hls, hf⟩ := h
  have hjoin : ls.flatMap (· ++ crlf) = Lines.join '\n' (ls.map (· ++ ['\r'])) := by
    rw [Lines.join, List.flatMap_map]
    refine List.flatMap_congr fun l _ => ?_
    rw [List.append_assoc]
    rfl
  have hcr : ∀ l ∈ ls.map (· ++ ['\r']), '\n' ∉ l := by
    intro l hl hc
    obtain ⟨l, hmem, rfl⟩ := List.mem_map.mp hl
    rcases List.mem_append.mp hc with hc | hc
    · exact hls l hmem hc
    · exact absurd (List.mem_singleton.mp hc) (by decide)
  have hstrip : sdpLines (ls.flatMap (· ++ crlf)) = ls := by
    unfold sdpLines
    rw [hjoin, Lines.split_join hcr, List.map_map]
    refine (List.map_congr_left fun l _ => ?_).trans (List.map_id ls)
    simp [stripCr]
  unfold readMedia
  rw [hstrip, hf]

section

variable {o : Offer} {p : AnswerParams} {m : OfferMedia}

theorem reads_sessionText (ho : o.Whole) : Reads (sessionText o p) id := by
  have hgroup : '\n' ∉ group o p := by
    intro hc
    obtain ⟨m, hm, hc⟩ := List.mem_flatMap.mp hc
    have hmem := List.fst_mem_of_mem_zipIdx (List.mem_filter.mp hm).1
    rcases List.mem_cons.mp hc with hc | hc
    · exact absurd hc (by decide)
    · exact (ho.media _ hmem).mid hc
  have hline (s : String) (h : ∀ part ∈ [s.toList], '\n' ∉ part)
      (hread : ∀ ms, readLine ms [s.toList].flatten = ms) : Reads (plain [s.toList]) id :=
    reads_plain h hread
  have hbundle : Reads (if group o p = [] then []
      else plain ["a=group:BUNDLE".toList, group o p]) id := by
    split_ifs
    · exact reads_nil
    · apply reads_plain
      · simp only [List.forall_mem_cons]
        exact ⟨by decide, hgroup, by simp⟩
      · exact fun _ => rfl
  unfold sessionText
  exact ((((((hline "v=0" (by decide) fun _ => rfl).skip
    (hline "o=- 1 2 IN IP4 127.0.0.1" (by decide) fun _ => rfl)).skip
    (hline "s=-" (by decide) fun _ => rfl)).skip
    (hline "t=0 0" (by decide) fun _ => rfl)).skip
    (hline "a=ice-lite" (by decide) fun _ => rfl)).skip hbundle).skip
    (hline "a=msid-semantic: WMS *" (by decide) fun _ => rfl)

theorem flatten_crlf (parts : List Text) : (parts ++ [crlf]).flatten = plain parts := by
  rw [List.flatten_append, List.flatten_singleton, plain]

theorem reads_flatten {f : List AnswerMedia → List AnswerMedia} (parts : List Text)
    (hline : ∀ part ∈ parts, '\n' ∉ part) (h : ∀ ms, readLine ms parts.flatten = f ms) :
    Reads (parts ++ [crlf]).flatten f := by
  rw [flatten_crlf]
  exact reads_plain hline h

/-- The m-line adds a medium. -/
theorem reads_media (kind : Text) {pt : Text} (n : ℕ) (hword : ' ' ∉ kind) (hkind : '\n' ∉ kind)
    (hpt : '\n' ∉ pt) :
    Reads (List.flatten ["m=".toList, kind, [' '], Text.ofNat n, " UDP/TLS/RTP/SAVPF ".toList, pt,
      crlf]) fun ms => ms ++ [{ kind, port := n }] := by
  apply reads_flatten ["m=".toList, kind, [' '], Text.ofNat n, " UDP/TLS/RTP/SAVPF ".toList, pt]
  · simp only [List.forall_mem_cons]
    exact ⟨by decide, hkind, by decide, (solid_ofNat n).line, by decide, hpt, by simp⟩
  · intro ms
    have hn : ' ' ∉ Text.ofNat n := fun hc => (solid_ofNat n _ hc).2.2 rfl
    have hwords : ∃ rest, Lines.split ' ' (List.drop 2 (List.flatten ["m=".toList, kind, [' '],
        Text.ofNat n, " UDP/TLS/RTP/SAVPF ".toList, pt])) = kind :: Text.ofNat n :: rest := by
      refine ⟨Lines.split ' ' ("UDP/TLS/RTP/SAVPF ".toList ++ pt), ?_⟩
      rw [← Lines.split_append_cons hn, ← Lines.split_append_cons hword]
      refine congrArg (Lines.split ' ') ?_
      simp
    obtain ⟨rest, hwords⟩ := hwords
    have hmedia : answerMediaOf (List.flatten ["m=".toList, kind, [' '], Text.ofNat n,
        " UDP/TLS/RTP/SAVPF ".toList, pt]) = { kind, port := n } := by
      unfold answerMediaOf
      rw [hwords]
      exact congrArg (AnswerMedia.mk kind []) (Text.ofDigits_ofNat n)
    rw [← hmedia]
    rfl

/-- The address and the mid of the medium that was added last. -/
theorem Reads.mid {s kind : Text} {n : ℕ}
    (hs : Reads s fun ms => ms ++ [{ kind, port := n }]) (addr : Text) (haddr : '\n' ∉ addr)
    (hmid : '\n' ∉ m.mid) :
    Reads (s ++ plain ["c=IN IP4 ".toList, addr] ++ midLine m)
      fun ms => ms ++ [{ kind, mid := m.mid, port := n }] := by
  have hc : Reads (plain ["c=IN IP4 ".toList, addr]) id := by
    apply reads_plain
    · simp only [List.forall_mem_cons]
      exact ⟨by decide, haddr, by simp⟩
    · exact fun _ => rfl
  unfold midLine
  split_ifs with hnil
  · rw [hnil, List.append_nil]
    exact hs.skip hc
  · have hline : Reads (plain ["a=mid:".toList, m.mid])
        (Reader.modifyLast fun a => { a with mid := m.mid }) := by
      apply reads_plain
      · simp only [List.forall_mem_cons]
        exact ⟨by decide, hmid, by simp⟩
      · intro ms
        rw [List.flatten_cons, List.flatten_singleton]
        rfl
    have hall := (hs.skip hc).append hline
    simp only [Reader.modifyLast_concat] at hall
    exact hall

theorem reads_credentials (hp : p.WellFormed) : Reads (credentials p) id := by
  have hline (head : String) (value : Text) (hhead : '\n' ∉ head.toList) (hvalue : '\n' ∉ value)
      (h : ∀ ms, readLine ms [head.toList, value].flatten = ms) :
      Reads (plain [head.toList, value]) id := by
    apply reads_plain
    · simp only [List.forall_mem_cons]
      exact ⟨hhead, hvalue, by simp⟩
    · exact h
  have hsetup : Reads (plain ["a=setup:passive".toList]) id :=
    reads_plain (by decide) fun _ => rfl
  unfold credentials
  exact (((hline "a=ice-ufrag:" _ (by decide) hp.iceUfrag fun _ => rfl).skip
    (hline "a=ice-pwd:" _ (by decide) hp.icePwd fun _ => rfl)).skip
    (hline "a=fingerprint:sha-256 " _ (by decide) hp.fingerprint fun _ => rfl)).skip hsetup

theorem reads_candidate (hp : p.WellFormed) : Reads (candidate List.flatten p) id := by
  have hline : Reads (List.flatten ["a=candidate:1 1 udp 2130706431 ".toList, p.hostIp, [' '],
      Text.ofNat p.port, " typ host".toList, crlf]) id := by
    apply reads_flatten ["a=candidate:1 1 udp 2130706431 ".toList, p.hostIp, [' '],
      Text.ofNat p.port, " typ host".toList]
    · simp only [List.forall_mem_cons]
      exact ⟨by decide, hp.hostIp.2.line, by decide, (solid_ofNat _).line, by decide, by simp⟩
    · exact fun _ => rfl
  have hend : Reads (plain ["a=end-of-candidates".toList]) id :=
    reads_plain (by decide) fun _ => rfl
  exact hline.skip hend

theorem reads_ssrcLine (hp : p.WellFormed) (ssrc : ℕ) :
    Reads (ssrcLine List.flatten p ssrc) id := by
  apply reads_flatten ["a=ssrc:".toList, Text.ofNat ssrc, " cname:".toList, p.cname]
  · simp only [List.forall_mem_cons]
    exact ⟨by decide, (solid_ofNat _).line, by decide, hp.cname.2.line, by simp⟩
  · exact fun _ => rfl

theorem reads_audioMedia (hp : p.WellFormed) (hm : m.Whole) :
    Reads (audioMedia List.flatten p m)
      fun ms => ms ++ [{ kind := "audio".toList, mid := m.mid, port := p.port }] := by
  have hhead : Reads (List.flatten ["m=audio ".toList, Text.ofNat p.port,
      " UDP/TLS/RTP/SAVPF ".toList, Text.ofInt p.audioPt, crlf])
      fun ms => ms ++ [{ kind := "audio".toList, port := p.port }] :=
    reads_media "audio".toList p.port (by decide) (by decide) (solid_ofInt p.audioPt).line
  have hdirection : Reads (plain [if p.audioSend && p.audioRecv then "a=sendrecv".toList
      else if p.audioSend then "a=sendonly".toList else "a=recvonly".toList]) id := by
    split_ifs
    · exact reads_plain (by decide) fun _ => rfl
    · exact reads_plain (by decide) fun _ => rfl
    · exact reads_plain (by decide) fun _ => rfl
  have hmux : Reads (plain ["a=rtcp-mux".toList]) id := reads_plain (by decide) fun _ => rfl
  have hmap : Reads (List.flatten ["a=rtpmap:".toList, Text.ofInt p.audioPt, [' '],
      if p.audioPt = m.pcmaPt then "PCMA".toList else "PCMU".toList, "/8000".toList, crlf]) id := by
    apply reads_flatten ["a=rtpmap:".toList, Text.ofInt p.audioPt, [' '],
      if p.audioPt = m.pcmaPt then "PCMA".toList else "PCMU".toList, "/8000".toList]
    · simp only [List.forall_mem_cons]
      refine ⟨by decide, (solid_ofInt _).line, by decide, ?_, by decide, by simp⟩
      split_ifs
      · decide
      · decide
    · exact fun _ => rfl
  have hssrc : Reads (if p.audioSend then ssrcLine List.flatten p p.audioSsrc else []) id := by
    split_ifs
    · exact reads_ssrcLine hp _
    · exact reads_nil
  unfold audioMedia
  exact (((((hhead.mid _ hp.hostIp.2.line hm.mid).skip (reads_credentials hp)).skip hdirection).skip
    hmux).skip hmap).skip hssrc |>.skip (reads_candidate hp)

theorem reads_rejectedMedia (hm : m.Whole) :
    Reads (rejectedMedia List.flatten m) fun ms => ms ++ [{ kind := m.kind, mid := m.mid }] := by
  have hhead := reads_media m.kind 0 hm.word hm.kind (solid_ofInt 0).line
  have hinactive : Reads (plain ["a=inactive".toList]) id :=
    reads_plain (by decide) fun _ => rfl
  exact (hhead.mid "0.0.0.0".toList (by decide) hm.mid).skip hinactive

/-- What describes the payload of the video. -/
theorem reads_payload (a b : String) (ha : '\n' ∉ a.toList) (hb : '\n' ∉ b.toList) (pt : ℤ)
    (h : ∀ ms, readLine ms [a.toList, Text.ofInt pt, b.toList].flatten = ms) :
    Reads (List.flatten [a.toList, Text.ofInt pt, b.toList, crlf]) id := by
  apply reads_flatten [a.toList, Text.ofInt pt, b.toList]
  · simp only [List.forall_mem_cons]
    exact ⟨ha, (solid_ofInt _).line, hb, by simp⟩
  · exact h

theorem reads_videoMedia (hp : p.WellFormed) (hm : m.Whole) :
    Reads (videoMedia List.flatten p m)
      fun ms => ms ++ [{ kind := m.kind, mid := m.mid, port := p.port }] := by
  have hhead := reads_media m.kind p.port hm.word hm.kind (solid_ofInt m.h264Pt).line
  have hsend : Reads (plain ["a=sendonly".toList]) id := reads_plain (by decide) fun _ => rfl
  have hmux : Reads (plain ["a=rtcp-mux".toList]) id := reads_plain (by decide) fun _ => rfl
  have hfmtp : Reads (List.flatten ["a=fmtp:".toList, Text.ofInt m.h264Pt,
      " level-asymmetry-allowed=1;packetization-mode=1".toList] ++
      plain [if m.h264Profile = [] then [] else ";profile-level-id=".toList ++ m.h264Profile])
      id := by
    have hprofile : '\n' ∉ (if m.h264Profile = [] then []
        else ";profile-level-id=".toList ++ m.h264Profile) := by
      split_ifs
      · exact List.not_mem_nil
      · intro hc
        rcases List.mem_append.mp hc with hc | hc
        · exact absurd hc (by decide)
        · exact hm.profile hc
    have hline : Reads (plain ["a=fmtp:".toList, Text.ofInt m.h264Pt,
        " level-asymmetry-allowed=1;packetization-mode=1".toList,
        if m.h264Profile = [] then [] else ";profile-level-id=".toList ++ m.h264Profile]) id := by
      apply reads_plain
      · simp only [List.forall_mem_cons]
        exact ⟨by decide, (solid_ofInt _).line, by decide, hprofile, by simp⟩
      · exact fun _ => rfl
    simpa only [plain, List.flatten_cons, List.flatten_nil, List.append_assoc, List.append_nil,
      List.nil_append] using hline
  have hrtpmap := reads_payload "a=rtpmap:" " H264/90000" (by decide) (by decide) m.h264Pt
    fun _ => rfl
  have hnack := reads_payload "a=rtcp-fb:" " nack" (by decide) (by decide) m.h264Pt fun _ => rfl
  have hpli := reads_payload "a=rtcp-fb:" " nack pli" (by decide) (by decide) m.h264Pt fun _ => rfl
  unfold videoMedia
  exact ((((((((hhead.mid _ hp.hostIp.2.line hm.mid).skip (reads_credentials hp)).skip hsend).skip
    hmux).skip hrtpmap).skip hfmtp).skip hnack).skip hpli).skip (reads_ssrcLine hp _) |>.skip
      (reads_candidate hp)

/-- What the answer has to say about a medium of the offer. -/
def answerFor (o : Offer) (p : AnswerParams) (m : OfferMedia × ℕ) : AnswerMedia :=
  { kind := m.1.kind, mid := m.1.mid, port := if takes o p m.2 then p.port else 0 }

theorem reads_mediaText (hp : p.WellFormed) (ho : o.Whole) {i : ℕ}
    (hm : (m, i) ∈ o.media.zipIdx) :
    Reads (mediaText List.flatten o p i m) fun ms => ms ++ [answerFor o p (m, i)] := by
  have hwhole := ho.media m (List.fst_mem_of_mem_zipIdx hm)
  unfold answerFor takes mediaText
  by_cases haudio : (takesAudio o p && decide (o.audioIndex = some i)) = true
  · have hindex := of_decide_eq_true (Bool.and_eq_true_iff.mp haudio).2
    rw [if_pos haudio, haudio, Bool.or_true, if_pos rfl,
      kind_of_index hm rfl (ho.audio i hindex)]
    exact reads_audioMedia hp hwhole
  · rw [if_neg haudio, Bool.not_eq_true _ |>.mp haudio, Bool.or_false]
    by_cases hvideo : o.videoIndex = some i
    · rw [if_pos hvideo, decide_eq_true hvideo, if_pos rfl]
      exact reads_videoMedia hp hwhole
    · rw [if_neg hvideo, decide_eq_false hvideo, if_neg Bool.false_ne_true]
      exact reads_rejectedMedia hwhole

theorem reads_flatMap {α : Type} {f : α → Text} {g : α → AnswerMedia} {l : List α}
    (h : ∀ a ∈ l, Reads (f a) fun ms => ms ++ [g a]) :
    Reads (l.flatMap f) fun ms => ms ++ l.map g := by
  induction l with
  | nil =>
    simp only [List.map_nil, List.append_nil]
    exact reads_nil
  | cons a l ih =>
    have hcons := (h a List.mem_cons_self).append (ih fun b hb => h b (List.mem_cons_of_mem a hb))
    simpa only [List.flatMap_cons, List.map_cons, List.append_assoc, List.singleton_append]
      using hcons

/-- The media of the offer, in their order. -/
theorem readMedia_answerWith (hp : p.WellFormed) (ho : o.Whole) :
    readMedia (answerWith List.flatten o p) = o.media.zipIdx.map (answerFor o p) :=
  readMedia_of_reads ((reads_sessionText ho).append
    (reads_flatMap fun _ hm => reads_mediaText hp ho hm))

/-- Every line is complete, and the media are those of the offer with a port where accepted. -/
def Mirrors (o : Offer) (p : AnswerParams) (answer : Text) : Prop :=
  answer = answerWith List.flatten o p ∧ readMedia answer = o.media.zipIdx.map (answerFor o p)

theorem buildAnswer_parseOffer {wrap : ℤ → ℤ} {sdp preferProfile : Text}
    (hok : (parseOffer wrap sdp preferProfile).ok = true) :
    buildAnswer (parseOffer wrap sdp preferProfile) p =
      answerWith snprintf (parseOffer wrap sdp preferProfile) p := by
  unfold buildAnswer
  rw [hok, Option.isNone_eq_false_iff.mpr (isSome_of_ok hok)]
  rfl

theorem mirrors_buildAnswer_iff {wrap : ℤ → ℤ} {sdp preferProfile : Text} (hp : p.WellFormed)
    (hok : (parseOffer wrap sdp preferProfile).ok = true) :
    Mirrors (parseOffer wrap sdp preferProfile) p
        (buildAnswer (parseOffer wrap sdp preferProfile) p) ↔
      ∀ m ∈ (parseOffer wrap sdp preferProfile).media.zipIdx,
        takes (parseOffer wrap sdp preferProfile) p m.2 = false → KindFits m.1.kind := by
  have ho := whole_parseOffer wrap sdp preferProfile
  rw [← answerWith_snprintf_iff hp ho, Mirrors, buildAnswer_parseOffer hok]
  refine and_iff_left_of_imp fun heq => ?_
  rw [heq]
  exact readMedia_answerWith hp ho

end

/-- An offer of a video and of one medium more. -/
def offerOf (kind : Text) : Text :=
  plain ["a=ice-ufrag:u".toList] ++ plain ["a=ice-pwd:p".toList] ++
    plain ["a=fingerprint:sha-256 AB".toList] ++ plain ["m=video 9 S 96".toList] ++
    plain ["a=rtpmap:96 H264/90000".toList] ++ plain ["a=fmtp:96 packetization-mode=1".toList] ++
    plain ["m=".toList, kind, " 9 S 0".toList]

def paramsOfOne : AnswerParams :=
  { iceUfrag := ['u'], icePwd := ['p'], fingerprint := ['F'], hostIp := "10.0.0.1".toList
    port := 4000, ssrc := 1 }

theorem paramsOfOne_wellFormed : paramsOfOne.WellFormed :=
  ⟨by decide, by decide, by decide, by decide, by decide, by decide,
    by decide, by decide, by decide⟩

theorem mirrors_application :
    Mirrors (parseOffer id (offerOf "application".toList) []) paramsOfOne
      (buildAnswer (parseOffer id (offerOf "application".toList) []) paramsOfOne) :=
  (mirrors_buildAnswer_iff paramsOfOne_wellFormed (by decide)).mpr (by decide)

/-- A kind that is one byte too long cuts the end of its line. -/
theorem not_mirrors :
    ¬Mirrors (parseOffer id (offerOf (List.replicate 230 'x')) []) paramsOfOne
      (buildAnswer (parseOffer id (offerOf (List.replicate 230 'x')) []) paramsOfOne) := by
  intro h
  have hok : (parseOffer id (offerOf (List.replicate 230 'x')) []).ok = true := by
    decide +kernel
  have hcut : ¬∀ m ∈ (parseOffer id (offerOf (List.replicate 230 'x')) []).media.zipIdx,
      takes (parseOffer id (offerOf (List.replicate 230 'x')) []) paramsOfOne m.2 = false →
        KindFits m.1.kind := by decide +kernel
  have heq := h.1
  rw [buildAnswer_parseOffer hok] at heq
  exact hcut ((answerWith_snprintf_iff paramsOfOne_wellFormed (whole_parseOffer _ _ _)).mp heq)

end Machino.Webrtc
