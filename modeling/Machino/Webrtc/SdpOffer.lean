import Machino.Webrtc.Sdp

namespace Machino.Webrtc

/-- The texts of a medium are within a line, and its kind within a word. -/
structure OfferMedia.Whole (m : OfferMedia) : Prop where
  word : ' ' ∉ m.kind
  kind : '\n' ∉ m.kind
  mid : '\n' ∉ m.mid
  profile : '\n' ∉ m.h264Profile
  pt : -1 ≤ m.h264Pt ∧ m.h264Pt < 2 ^ 31

structure Offer.Whole (o : Offer) : Prop where
  media : ∀ m ∈ o.media, m.Whole
  video : ∀ i, o.videoIndex = some i → (o.media.map (·.kind))[i]? = some "video".toList
  audio : ∀ i, o.audioIndex = some i → (o.media.map (·.kind))[i]? = some "audio".toList

theorem notMem_sdpLines {s l : Text} (h : l ∈ sdpLines s) : '\n' ∉ l := by
  obtain ⟨part, hp, rfl⟩ := List.mem_map.mp h
  have hn := Lines.not_mem_of_mem_split hp
  unfold stripCr
  split_ifs
  · exact fun hc => hn ((List.dropLast_subset _) hc)
  · exact hn

theorem notMem_fmtpValue {c : Char} {params : Text} (h : c ∉ params) (key : String) :
    c ∉ fmtpValue params key := by
  unfold fmtpValue
  dsimp only
  split
  · rename_i part hfind
    obtain ⟨raw, hraw, rfl⟩ := List.mem_map.mp (List.mem_of_find?_eq_some hfind)
    intro hc
    exact h (Lines.mem_of_mem_split hraw
      ((List.dropWhile_suffix _).subset (List.mem_of_mem_drop hc)))
  · exact List.not_mem_nil

section

variable {wrap : ℤ → ℤ}

theorem toInt_bounds (v : ℤ) : -2 ^ 31 ≤ toInt wrap v ∧ toInt wrap v < 2 ^ 31 := by
  unfold toInt
  split_ifs with h
  · exact h
  · have hlo := Int.le_bmod (x := wrap v) (m := 2 ^ 32) (by decide)
    have hhi := Int.bmod_lt (x := wrap v) (m := 2 ^ 32) (by decide)
    constructor
    · simpa using hlo
    · simpa using hhi

theorem scanInt_lt {s rest : Text} {pt : ℤ} (h : scanInt wrap s = some (pt, rest)) :
    pt < 2 ^ 31 := by
  unfold scanInt at h
  obtain ⟨⟨neg, n, r⟩, -, heq⟩ := Option.map_eq_some_iff.mp h
  obtain ⟨rfl, -⟩ := Prod.mk.inj heq
  exact (toInt_bounds _).2

theorem scanRtpmap_lt {s name : Text} {pt : ℤ} (h : scanRtpmap wrap s = some (pt, name)) :
    pt < 2 ^ 31 := by
  unfold scanRtpmap at h
  obtain ⟨⟨pt', rest⟩, hscan, h⟩ := Option.bind_eq_some_iff.mp h
  dsimp only at h
  split_ifs at h
  obtain ⟨rfl, -⟩ := Prod.mk.inj (Option.some.inj h)
  exact scanInt_lt hscan

theorem whole_mediaOfLine {l : Text} (h : '\n' ∉ l) : (mediaOfLine wrap l).Whole := by
  have hpt : -1 ≤ (-1 : ℤ) ∧ (-1 : ℤ) < 2 ^ 31 := by decide
  refine ⟨fun hc => ?_, fun hc => ?_, List.not_mem_nil, List.not_mem_nil, hpt⟩
  · have hne := List.mem_takeWhile_imp
      (show ' ' ∈ (l.drop 2).takeWhile (fun c => decide (c ≠ ' ')) from hc)
    exact absurd hne (by decide)
  · exact h (List.mem_of_mem_drop ((List.takeWhile_prefix _).subset hc))

end

namespace Reader

theorem mem_modifyLast {α : Type} {f : α → α} {l : List α} {b : α} (h : b ∈ modifyLast f l) :
    b ∈ l ∨ ∃ a ∈ l, b = f a := by
  induction l with
  | nil => exact absurd h List.not_mem_nil
  | cons a l ih =>
    cases l with
    | nil =>
      obtain rfl := List.mem_singleton.mp h
      exact .inr ⟨a, List.mem_cons_self, rfl⟩
    | cons a' l =>
      rcases List.mem_cons.mp h with rfl | h
      · exact .inl List.mem_cons_self
      · rcases ih h with h | ⟨c, hc, rfl⟩
        · exact .inl (List.mem_cons_of_mem _ h)
        · exact .inr ⟨c, List.mem_cons_of_mem _ hc, rfl⟩

theorem map_modifyLast {α β : Type} {f : α → α} {g : α → β} (h : ∀ a, g (f a) = g a)
    (l : List α) : (modifyLast f l).map g = l.map g := by
  induction l with
  | nil => rfl
  | cons a l ih =>
    cases l with
    | nil => exact congrArg (fun b => [b]) (h a)
    | cons a' l => exact congrArg (g a :: ·) ih

theorem modifyLast_concat {α : Type} (f : α → α) (l : List α) (a : α) :
    modifyLast f (l ++ [a]) = l ++ [f a] := by
  induction l with
  | nil => rfl
  | cons b l ih =>
    cases l with
    | nil => rfl
    | cons b' l => exact congrArg (b :: ·) ih

/-- What holds after every line. -/
structure Inv (r : Reader) : Prop where
  media : ∀ m ∈ r.offer.media, m.Whole
  video : ∀ i, r.offer.videoIndex = some i →
    (r.offer.media.map (·.kind))[i]? = some "video".toList
  fmtp : ∀ p ∈ r.fmtp, '\n' ∉ p.2
  pts : ∀ pt ∈ r.h264Pts, 0 ≤ pt ∧ pt < 2 ^ 31
  ok : r.offer.ok = false

variable {wrap : ℤ → ℤ} {r : Reader}

theorem Inv.fmtpOf (h : Inv r) (pt : ℤ) : '\n' ∉ r.fmtpOf pt := by
  unfold Reader.fmtpOf
  cases hf : r.fmtp.find? (·.1 = pt) with
  | none => exact List.not_mem_nil
  | some p => exact h.fmtp p (List.mem_of_find?_eq_some hf)

/-- A payload that is chosen was described, and its profile is of one line. -/
theorem Inv.mode1 (h : Inv r) {pt : ℤ} {c : ℤ × Text} (hpt : pt ∈ r.h264Pts)
    (hc : r.mode1 pt = some c) : (0 ≤ c.1 ∧ c.1 < 2 ^ 31) ∧ '\n' ∉ c.2 := by
  unfold Reader.mode1 at hc
  split_ifs at hc
  obtain rfl := Option.some.inj hc
  exact ⟨h.pts pt hpt, notMem_fmtpValue (h.fmtpOf pt) _⟩

theorem Inv.chooseVideo (h : Inv r) {want : Text} {pts : List ℤ} {c : ℤ × Text}
    (hc : (r.chooseVideo want pts).2 = some c) : (0 ≤ c.1 ∧ c.1 < 2 ^ 31) ∧ '\n' ∉ c.2 := by
  have hlisted {c : ℤ × Text} (hc : c ∈ (pts.filter (· ∈ r.h264Pts)).filterMap r.mode1) :
      (0 ≤ c.1 ∧ c.1 < 2 ^ 31) ∧ '\n' ∉ c.2 := by
    obtain ⟨pt, hpt, hmode⟩ := List.mem_filterMap.mp hc
    exact h.mode1 (of_decide_eq_true (List.mem_filter.mp hpt).2) hmode
  unfold Reader.chooseVideo at hc
  dsimp only at hc
  split at hc
  · rename_i c' hfind
    obtain rfl := Option.some.inj hc
    exact hlisted (List.mem_of_find?_eq_some hfind)
  · split at hc
    · rename_i c' hhead
      obtain rfl := Option.some.inj hc
      exact hlisted (List.mem_of_mem_head? hhead)
    · obtain ⟨pt, hpt, hmode⟩ := List.mem_filterMap.mp (List.mem_of_mem_head? hc)
      have hmem := List.mem_dedup.mp (List.mem_filter.mp hpt).1
      exact h.mode1 ((List.mem_insertionSort _).mp hmem) hmode

theorem Inv.settleVideo (h : Inv r) (want : Text) : Inv (r.settleVideo want) := by
  unfold Reader.settleVideo
  split
  · exact h
  · rename_i m hlast
    split_ifs with hkind
    · exact h
    · dsimp only
      split
      · exact ⟨h.media, h.video, h.fmtp, h.pts, h.ok⟩
      · rename_i pt profile hchosen
        obtain ⟨hpt, hprofile⟩ := h.chooseVideo hchosen
        refine ⟨?_, ?_, h.fmtp, h.pts, h.ok⟩
        · intro m' hm'
          rcases mem_modifyLast hm' with hm' | ⟨m'', hm'', rfl⟩
          · exact h.media m' hm'
          · have hw := h.media m'' hm''
            exact ⟨hw.word, hw.kind, hw.mid, hprofile, by dsimp only; omega⟩
        · intro i hi
          have hmap : (modifyLast (fun m : OfferMedia =>
              { m with h264Pt := pt, h264Profile := profile }) r.offer.media).map (·.kind) =
              r.offer.media.map (·.kind) := by
            apply map_modifyLast
            exact fun _ => rfl
          dsimp only at hi ⊢
          rw [hmap]
          cases hv : r.offer.videoIndex with
          | some j =>
            rw [hv] at hi
            obtain rfl := Option.some.inj hi
            exact h.video j hv
          | none =>
            rw [hv] at hi
            obtain rfl := Option.some.inj hi
            rw [List.getLast?_eq_getElem?] at hlast
            rw [List.getElem?_map, hlast]
            exact congrArg some (not_not.mp hkind)

theorem Inv.onMedia (h : Inv r) {f : OfferMedia → OfferMedia} (hf : ∀ m, m.Whole → (f m).Whole)
    (hk : ∀ m, (f m).kind = m.kind) : Inv (r.onMedia f) := by
  refine ⟨?_, ?_, h.fmtp, h.pts, h.ok⟩
  · intro m hm
    rcases mem_modifyLast hm with hm | ⟨m', hm', rfl⟩
    · exact h.media m hm
    · exact hf m' (h.media m' hm')
  · intro i hi
    rw [← h.video i hi]
    exact congrArg (·[i]?) (map_modifyLast hk _)

theorem Inv.onFingerprint (h : Inv r) (v : Text) : Inv (r.onFingerprint v) := by
  unfold Reader.onFingerprint
  split_ifs
  · exact ⟨h.media, h.video, h.fmtp, h.pts, h.ok⟩
  · exact h

theorem Inv.onRtpmap (h : Inv r) (l : Text) : Inv (r.onRtpmap wrap l) := by
  unfold Reader.onRtpmap
  split
  · exact h
  · rename_i pt name hscan
    obtain ⟨hscan, hpos⟩ := Option.filter_eq_some_iff.mp hscan
    have hpt : 0 ≤ pt ∧ pt < 2 ^ 31 := ⟨of_decide_eq_true hpos, scanRtpmap_lt hscan⟩
    have hr : Inv (if ieq name "H264" then { r with h264Pts := pt :: r.h264Pts } else r) := by
      split_ifs
      · refine ⟨h.media, h.video, h.fmtp, ?_, h.ok⟩
        intro pt' hpt'
        rcases List.mem_cons.mp hpt' with rfl | hpt'
        · exact hpt
        · exact h.pts pt' hpt'
      · exact h
    dsimp only
    generalize (if ieq name "H264" then { r with h264Pts := pt :: r.h264Pts } else r) = r at hr ⊢
    split
    · exact hr
    · split_ifs
      · exact hr.onMedia (fun m hm => ⟨hm.word, hm.kind, hm.mid, hm.profile, hm.pt⟩) fun _ => rfl
      · exact ⟨hr.media, hr.video, hr.fmtp, hr.pts, hr.ok⟩
      · exact hr

theorem Inv.onFmtp (h : Inv r) {l : Text} (hl : '\n' ∉ l) : Inv (r.onFmtp wrap l) := by
  unfold Reader.onFmtp
  dsimp only
  split
  · exact h
  · refine ⟨h.media, h.video, ?_, h.pts, h.ok⟩
    intro p hp
    rcases List.mem_cons.mp hp with rfl | hp
    · exact fun hc => hl (List.mem_of_mem_drop hc)
    · exact h.fmtp p hp

theorem Inv.line (h : Inv r) (want : Text) {l : Text} (hl : '\n' ∉ l) :
    Inv (r.line wrap want l) := by
  unfold Reader.line
  split_ifs
  · have hr := h.settleVideo want
    refine ⟨?_, ?_, by simp, by simp, hr.ok⟩
    · intro m hm
      rcases List.mem_append.mp hm with hm | hm
      · exact hr.media m hm
      · obtain rfl := List.mem_singleton.mp hm
        exact whole_mediaOfLine hl
    · intro i hi
      have hvideo := hr.video i hi
      dsimp only
      rw [List.map_append, List.getElem?_append_left (List.getElem?_eq_some_iff.mp hvideo).1]
      exact hvideo
  · exact h.onMedia (fun m hm => ⟨hm.word, hm.kind, fun hc => hl (List.mem_of_mem_drop hc),
      hm.profile, hm.pt⟩) fun _ => rfl
  · exact h.onMedia (fun m hm => ⟨hm.word, hm.kind, hm.mid, hm.profile, hm.pt⟩) fun _ => rfl
  · exact ⟨h.media, h.video, h.fmtp, h.pts, h.ok⟩
  · exact h
  · exact ⟨h.media, h.video, h.fmtp, h.pts, h.ok⟩
  · exact h
  · exact h.onFingerprint _
  · exact h.onRtpmap l
  · exact h.onFmtp hl
  · exact h

theorem inv_readOffer (wrap : ℤ → ℤ) (sdp preferProfile : Text) : Inv (readOffer wrap sdp preferProfile) := by
  have hlines : ∀ (ls : List Text) (r : Reader), (∀ l ∈ ls, '\n' ∉ l) → Inv r →
      Inv (ls.foldl (Reader.line wrap (profileOf preferProfile)) r) := by
    intro ls
    induction ls with
    | nil => exact fun _ _ h => h
    | cons l ls ih =>
      intro r hls h
      exact ih _ (fun l' hl' => hls l' (List.mem_cons_of_mem l hl'))
        (h.line _ (hls l List.mem_cons_self))
  have hstart : Inv {} := ⟨by simp, by simp, by simp, by simp, rfl⟩
  exact (hlines _ _ (fun l => notMem_sdpLines) hstart).settleVideo _

end Reader

theorem whole_parseOffer (wrap : ℤ → ℤ) (sdp preferProfile : Text) :
    (parseOffer wrap sdp preferProfile).Whole := by
  have h := Reader.inv_readOffer wrap sdp preferProfile
  have haudio : ∀ i, (readOffer wrap sdp preferProfile).offer.media.findIdx? (fun m : OfferMedia =>
      m.kind = "audio".toList ∧ (0 ≤ m.pcmaPt ∨ 0 ≤ m.pcmuPt)) = some i →
      ((readOffer wrap sdp preferProfile).offer.media.map (·.kind))[i]? =
        some "audio".toList := by
    intro i hi
    obtain ⟨hlt, hkind, -⟩ := List.findIdx?_eq_some_iff_getElem.mp hi
    rw [List.getElem?_map, List.getElem?_eq_getElem hlt]
    exact congrArg some (of_decide_eq_true hkind).1
  unfold parseOffer
  dsimp only
  split_ifs
  · exact ⟨h.media, h.video, haudio⟩
  · exact ⟨h.media, h.video, haudio⟩
  · exact ⟨h.media, h.video, haudio⟩
  · exact ⟨h.media, h.video, haudio⟩

theorem isSome_of_ok {wrap : ℤ → ℤ} {sdp preferProfile : Text}
    (h : (parseOffer wrap sdp preferProfile).ok = true) :
    (parseOffer wrap sdp preferProfile).videoIndex.isSome := by
  have hok := (Reader.inv_readOffer wrap sdp preferProfile).ok
  unfold parseOffer at h ⊢
  dsimp only at h ⊢
  split_ifs at h ⊢ with hvideo
  · exact absurd h (by rw [hok]; decide)
  · exact absurd h (by rw [hok]; decide)
  · exact absurd h (by rw [hok]; decide)
  · exact Option.isSome_iff_ne_none.mpr hvideo

end Machino.Webrtc
