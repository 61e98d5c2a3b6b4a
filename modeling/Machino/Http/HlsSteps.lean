import Mathlib.Algebra.Order.BigOperators.Group.List
import Machino.Basic.Runs
import Machino.Http.Hls

namespace Machino.Hls

open Fmp4

namespace Segmenter

/-- The segment in progress is thrown away, and the next frame has to be a key frame. -/
def abandon (s : Segmenter) : Segmenter := { s with cur := [], curOpen := false, awaitKey := true }

/-- All segments refer to parameter sets that are gone. -/
def restart (s : Segmenter) : Segmenter :=
  { s with
    discSeq := s.discSeq + s.segs.countP (·.disc), segs := [], cur := [], curOpen := false,
    pendingDisc := true, initGen := s.initGen + 1 }

def describe (s : Segmenter) (sps pps init : Bytes) : Segmenter := { s with sps, pps, init }

def keySeen (s : Segmenter) : Segmenter := { s with awaitKey := false }

def retime (s : Segmenter) (tl : Timeline) : Segmenter := { s with tl }

def openAt (s : Segmenter) (dts : ℕ) : Segmenter :=
  if s.curOpen then s else { s with curOpen := true, curStart := dts }

/-- A fragment is put into the segment in progress, unless that becomes too long. -/
def grow (s : Segmenter) (frag : Bytes) (fin : ℕ) : Segmenter :=
  let s := trim { s with fragSeq := s.fragSeq + 1, cur := s.cur ++ frag, curEnd := fin }
  if s.lim.maxBytes / 2 < s.cur.length then s.abandon else s

/-- The segmenter as a frame finds it: what is lost is thrown away, and a key frame has brought its
parameter sets. -/
def met (s : Segmenter) (f : Feed) : Segmenter :=
  let s := if f.discontinuity then s.abandon else s
  if f.key then
    let s := s.newParams f
    if s.init = [] then s else s.keySeen
  else s

/-- Whether the segment in progress ends before the frame. -/
def cuts (s : Segmenter) (key : Bool) (dts : ℕ) : Bool :=
  key && s.curOpen && (s.lim.targetMs % 2 ^ 64).toNat ≤
    (dts + 2 ^ 64 - s.curStart) % 2 ^ 64 * 1000 % 2 ^ 64 / 90000

variable {s : Segmenter}

theorem cut_eq (s : Segmenter) (key : Bool) (dts : ℕ) :
    s.cut key dts = if s.cuts key dts then s.closeCurrent else s := by
  unfold cut cuts
  simp only [Bool.and_eq_true, decide_eq_true_eq, and_assoc]

theorem append_eq (s : Segmenter) (f : Feed) (dts dur : ℕ) :
    s.append f dts dur =
      if annexbToAvcc f.annexb = [] then s.openAt dts
      else (s.openAt dts).grow
        (fragment (s.openAt dts).fragSeq dts dur (annexbToAvcc f.annexb) f.key) (dts + dur) := rfl

theorem feed_eq (s : Segmenter) (f : Feed) :
    s.feed f =
      if f.annexb = [] then s
      else if (s.met f).awaitKey || (s.met f).init = [] then s.met f
      else (s.met f).addFrame f := rfl

/-- The oldest segments leave until the limits are kept. -/
theorem trimFrom_spec (lim : Limits) (cur : ℕ) (segs : List Seg) (discSeq : ℕ) :
    (trimFrom lim cur segs discSeq).1 <:+ segs ∧
      (trimFrom lim cur segs discSeq).1.length ≤ lim.maxSegments ∧
      ((trimFrom lim cur segs discSeq).1.length ≤ 2 ∨
        cur + ((trimFrom lim cur segs discSeq).1.map (·.data.length)).sum ≤ lim.maxBytes) := by
  induction segs generalizing discSeq with
  | nil => exact ⟨List.suffix_rfl, Nat.zero_le _, .inl (Nat.zero_le _)⟩
  | cons x segs ih =>
    rw [trimFrom]
    split
    · obtain ⟨hsuffix, hrest⟩ := ih (if x.disc then discSeq + 1 else discSeq)
      exact ⟨hsuffix.trans (List.suffix_cons x segs), hrest⟩
    · rename_i hkeep
      rw [not_or, not_and_or] at hkeep
      have hcount := hkeep.1
      have hbytes := hkeep.2
      rw [← List.length_cons (a := x)] at hcount hbytes
      refine ⟨List.suffix_rfl, not_lt.mp hcount, hbytes.imp not_lt.mp fun h => ?_⟩
      rw [Nat.add_comm]
      exact not_lt.mp h

theorem closeCurrent_awaitKey (s : Segmenter) : s.closeCurrent.awaitKey = s.awaitKey := by
  unfold closeCurrent
  split_ifs <;> rfl

theorem closeCurrent_init (s : Segmenter) : s.closeCurrent.init = s.init := by
  unfold closeCurrent
  split_ifs <;> rfl

/-- A property that each step of a feed keeps. -/
structure Kept (P : Segmenter → Prop) : Prop where
  abandon : ∀ s, P s → P s.abandon
  restart : ∀ s, P s → P s.restart
  describe : ∀ s sps pps init, s.init = [] ∨ s.curOpen = false → P s →
    P (s.describe sps pps init)
  keySeen : ∀ s, P s → P s.keySeen
  retime : ∀ s tl, P s → P (s.retime tl)
  closeCurrent : ∀ s, P s → P s.closeCurrent
  openAt : ∀ s dts, s.awaitKey = false → s.init ≠ [] → P s → P (s.openAt dts)
  grow : ∀ s frag fin, P s → P (s.grow frag fin)

namespace Kept

variable {P : Segmenter → Prop}

theorem newParams (h : Kept P) (hs : P s) (f : Feed) : P (s.newParams f) := by
  unfold Segmenter.newParams
  split
  · exact hs
  · rename_i sps pps _
    split_ifs with hnew hinit
    · exact h.describe s.restart sps pps _ (.inr rfl) (h.restart s hs)
    · exact h.describe s sps pps _ (.inl (not_not.mp hinit)) hs
    · exact hs

theorem met (h : Kept P) (hs : P s) (f : Feed) : P (s.met f) := by
  have hdrop : P (if f.discontinuity then s.abandon else s) := by
    split_ifs
    · exact h.abandon s hs
    · exact hs
  unfold Segmenter.met
  dsimp only
  split_ifs at hdrop ⊢
  all_goals first
    | exact hdrop
    | exact h.newParams hdrop f
    | exact h.keySeen _ (h.newParams hdrop f)

theorem addFrame (h : Kept P) (hs : P s) (hawait : s.awaitKey = false) (hinit : s.init ≠ [])
    (f : Feed) : P (s.addFrame f) := by
  have happend {t : Segmenter} (ht : P t) (hawait : t.awaitKey = false) (hinit : t.init ≠ [])
      (dts dur : ℕ) : P (t.append f dts dur) := by
    rw [append_eq]
    split_ifs
    · exact h.openAt t dts hawait hinit ht
    · exact h.grow _ _ _ (h.openAt t dts hawait hinit ht)
  have htimed := h.retime s (s.tl.next f.ptsUs).1 hs
  change P (if !((s.retime (s.tl.next f.ptsUs).1).cut f.key (s.tl.next f.ptsUs).2.1).curOpen &&
      !f.key
    then (s.retime (s.tl.next f.ptsUs).1).cut f.key (s.tl.next f.ptsUs).2.1
    else ((s.retime (s.tl.next f.ptsUs).1).cut f.key (s.tl.next f.ptsUs).2.1).append f
      (s.tl.next f.ptsUs).2.1 (s.tl.next f.ptsUs).2.2)
  rw [cut_eq]
  split_ifs
  · exact h.closeCurrent _ htimed
  · exact happend (h.closeCurrent _ htimed) ((closeCurrent_awaitKey _).trans hawait)
      (by rwa [closeCurrent_init]) _ _
  · exact htimed
  · exact happend htimed hawait hinit _ _

theorem feed (h : Kept P) (hs : P s) (f : Feed) : P (s.feed f) := by
  rw [feed_eq]
  split_ifs with hempty hwait
  · exact hs
  · exact h.met hs f
  · simp only [Bool.or_eq_true, decide_eq_true_eq, not_or, Bool.not_eq_true] at hwait
    exact h.addFrame (h.met hs f) hwait.1 hwait.2 f

end Kept

/-- A segment is open only where frames are taken. -/
def Taking (s : Segmenter) : Prop := s.curOpen = true → s.awaitKey = false ∧ s.init ≠ []

theorem kept_taking : Kept Taking where
  abandon s _ := nofun
  restart s _ := nofun
  describe s sps pps init hnone h hopen := by
    rcases hnone with hinit | hclosed
    · exact absurd hinit (h hopen).2
    · exact absurd (hclosed.symm.trans hopen) Bool.false_ne_true
  keySeen s h hopen := ⟨rfl, (h hopen).2⟩
  retime s _ h := h
  closeCurrent s h := by
    unfold closeCurrent
    split_ifs
    · exact h
    · exact nofun
    · exact nofun
  openAt s dts hawait hinit h := by
    unfold openAt
    split_ifs
    · exact h
    · exact fun _ => ⟨hawait, hinit⟩
  grow s frag fin h := by
    unfold grow
    dsimp only
    split_ifs
    · exact nofun
    · exact h

end Segmenter

open Runs

namespace Segmenter

def heldBytes (s : Segmenter) : ℕ := s.cur.length + (s.segs.map (·.data.length)).sum

/-- What `trim` leaves: where more than two segments are held, all bytes are within the limit. -/
structure Trimmed (lim : Limits) (s : Segmenter) : Prop where
  sameLim : s.lim = lim
  count : s.segs.length ≤ lim.maxSegments
  seg : ∀ x ∈ s.segs, x.data.length ≤ lim.maxBytes / 2
  window : s.segs.length ≤ 2 ∨ s.heldBytes ≤ lim.maxBytes

/-- What a feed leaves. -/
structure Bounded (lim : Limits) (s : Segmenter) : Prop extends Trimmed lim s where
  cur : s.cur.length ≤ lim.maxBytes / 2

variable {lim : Limits} {s t : Segmenter}

/-- Trimming needs only that no segment is too long. -/
theorem trimmed_trim (hlim : s.lim = lim) (hseg : ∀ x ∈ s.segs, x.data.length ≤ lim.maxBytes / 2) :
    Trimmed lim s.trim := by
  obtain rfl := hlim
  obtain ⟨hsuffix, hcount, hbytes⟩ := trimFrom_spec s.lim s.cur.length s.segs s.discSeq
  exact ⟨rfl, hcount, fun x hx => hseg x (hsuffix.subset hx), hbytes⟩

/-- Bytes in progress that are thrown away make nothing worse. -/
theorem Trimmed.shrink (h : Trimmed lim s) (hlim : t.lim = s.lim) (hsegs : t.segs = s.segs)
    (hcur : t.cur.length ≤ s.cur.length) : Trimmed lim t where
  sameLim := hlim.trans h.sameLim
  count := hsegs ▸ h.count
  seg := hsegs ▸ h.seg
  window := by
    have hwindow := h.window
    unfold heldBytes at hwindow ⊢
    rw [hsegs]
    omega

theorem Bounded.shrink (h : Bounded lim s) (hlim : t.lim = s.lim) (hsegs : t.segs = s.segs)
    (hcur : t.cur.length ≤ s.cur.length) : Bounded lim t :=
  ⟨h.toTrimmed.shrink hlim hsegs hcur, hcur.trans h.cur⟩

theorem Bounded.closeCurrent (h : Bounded lim s) : Bounded lim s.closeCurrent := by
  unfold Segmenter.closeCurrent
  split_ifs
  · exact h
  · exact h.shrink rfl rfl le_rfl
  · refine ⟨trimmed_trim h.sameLim fun x hx => ?_, Nat.zero_le _⟩
    rcases List.mem_append.mp hx with hold | hnew
    · exact h.seg x hold
    · rw [List.mem_singleton.mp hnew]
      exact h.cur

/-- A segment that grows past half of the bytes goes before the feed is over. -/
theorem Bounded.grow (h : Bounded lim s) (frag : Bytes) (fin : ℕ) :
    Bounded lim (s.grow frag fin) := by
  have hgrown : Trimmed lim (trim { s with
      fragSeq := s.fragSeq + 1, cur := s.cur ++ frag, curEnd := fin }) :=
    trimmed_trim h.sameLim h.seg
  unfold Segmenter.grow
  dsimp only
  split_ifs with hlong
  · exact ⟨hgrown.shrink rfl rfl (Nat.zero_le _), Nat.zero_le _⟩
  · refine ⟨hgrown, ?_⟩
    rw [hgrown.sameLim] at hlong
    exact not_lt.mp hlong

theorem kept_bounded (lim : Limits) : Kept (Bounded lim) where
  abandon s h := h.shrink rfl rfl (Nat.zero_le _)
  restart s h := ⟨⟨h.sameLim, Nat.zero_le _, nofun, .inl (Nat.zero_le _)⟩, Nat.zero_le _⟩
  describe s _ _ _ _ h := h.shrink rfl rfl le_rfl
  keySeen s h := h.shrink rfl rfl le_rfl
  retime s _ h := h.shrink rfl rfl le_rfl
  closeCurrent s h := h.closeCurrent
  openAt s dts _ _ h := by
    unfold openAt
    split_ifs
    · exact h
    · exact h.shrink rfl rfl le_rfl
  grow s frag fin h := h.grow frag fin

/-- Two segments of half the bytes each stay, and half the bytes may be in progress. -/
theorem Bounded.held_le (h : Bounded lim s) : 2 * s.heldBytes ≤ 3 * lim.maxBytes := by
  have hcur := h.cur
  rcases h.window with hfew | hfit
  · have hsum : (s.segs.map (·.data.length)).sum ≤ s.segs.length • (lim.maxBytes / 2) := by
      rw [← List.length_map (·.data.length)]
      exact List.sum_le_card_nsmul _ _ (List.forall_mem_map.mpr h.seg)
    have htwo : s.segs.length • (lim.maxBytes / 2) ≤ 2 * (lim.maxBytes / 2) :=
      Nat.mul_le_mul_right _ hfew
    unfold heldBytes
    omega
  · omega

end Segmenter

/-- After every feed of every run, whatever the limits. -/
theorem memory_run (lim : Limits) (fs : List Feed) :
    2 * (run Segmenter.feed { lim := lim } fs).heldBytes ≤ 3 * lim.maxBytes ∧
      (run Segmenter.feed { lim := lim } fs).segs.length ≤ lim.maxSegments := by
  have hinit : Segmenter.Bounded lim { lim := lim } :=
    ⟨⟨rfl, Nat.zero_le _, nofun, .inl (Nat.zero_le _)⟩, Nat.zero_le _⟩
  have h : Segmenter.Bounded lim (run Segmenter.feed { lim := lim } fs) :=
    run_invariant (P := Segmenter.Bounded lim)
      (fun _ f hs => (Segmenter.kept_bounded lim).feed hs f) hinit fs
  exact ⟨h.held_le, h.count⟩

end Machino.Hls
