import Machino.Basic.Runs
import Machino.Http.HlsSteps

namespace Machino.Fmp4

/-- Microseconds in the timescale of the init segment, rounded. -/
def ticks (us : ℤ) : ℕ := ((us * 90000 + 500000) / 1000000).toNat

namespace Timeline

def position (t : Timeline) : ℤ := t.lastUs - t.originUs - t.skewUs

/-- The step that is advertised: one out of bounds is a nominal one. -/
def step (t : Timeline) (ptsUs : ℤ) : ℤ :=
  if 0 < t.lastUs ∧ minStepUs < ptsUs - t.lastUs ∧ ptsUs - t.lastUs < maxStepUs then
    ptsUs - t.lastUs
  else fallbackStepUs

/-- How far a frame moves the timeline: by the step, once there is a time to step from. -/
def advance (t : Timeline) (ptsUs : ℤ) : ℤ :=
  if 0 < t.lastUs then t.step ptsUs else ptsUs - t.lastUs

theorem step_bounds (t : Timeline) (ptsUs : ℤ) :
    minStepUs < t.step ptsUs ∧ t.step ptsUs < maxStepUs := by
  unfold step
  split_ifs with h
  · exact h.2
  · exact ⟨by decide, by decide⟩

theorem next_ticks (t : Timeline) (ptsUs : ℤ) :
    (t.next ptsUs).2 = (ticks (max (t.next ptsUs).1.position 0), ticks (t.step ptsUs)) := rfl

theorem next_started (t : Timeline) (ptsUs : ℤ) : (t.next ptsUs).1.started = true := by
  unfold next
  dsimp only
  split_ifs with hfirst
  · rfl
  all_goals simpa using hfirst

theorem next_position (t : Timeline) (ptsUs : ℤ) :
    (t.next ptsUs).1.position = if t.started then t.position + t.advance ptsUs else 0 := by
  unfold next position advance step
  cases t.started with
  | false =>
    dsimp only
    simp
  | true =>
    dsimp only
    simp only [Bool.not_true, Bool.false_eq_true, if_false, if_true]
    split_ifs <;> first | omega | (dsimp only; omega)

end Timeline

end Machino.Fmp4

namespace Machino.Hls

open Fmp4 Runs

/-- A frame that was put into a segment: which of the access units it is, where the timeline stood
with it and the step to it. -/
structure Frame where
  au : ℕ
  clock : ℤ
  step : ℤ
  inBounds : minStepUs < step ∧ step < maxStepUs
  number : ℕ
  sample : Bytes
  key : Bool

namespace Frame

def dts (x : Frame) : ℕ := ticks (max x.clock 0)

def dur (x : Frame) : ℕ := ticks x.step

def data (x : Frame) : Bytes := fragment x.number x.dts x.dur x.sample x.key

end Frame

/-- A segment with the frames it was made of. -/
structure Published where
  seg : Seg
  frames : List Frame

/-- The segmenter, and what has become of the access units: how many there were, whether the last
of them had a sample, and the frames of the segments. -/
structure Watched where
  seg : Segmenter
  fed : ℕ := 0
  sampled : Bool := false
  clock : ℤ := 0
  cur : List Frame := []
  segs : List Published := []

/-- The last entries of a list. -/
def newest {α : Type} (n : ℕ) (l : List α) : List α := l.drop (l.length - n)

namespace Watched

def met (w : Watched) (f : Feed) : Watched :=
  let seg := w.seg.met f
  let lost := f.discontinuity || seg.initGen ≠ w.seg.initGen
  { w with seg, cur := if lost then [] else w.cur, segs := newest seg.segs.length w.segs }

def retime (w : Watched) (ptsUs : ℤ) : Watched :=
  { w with
    seg := w.seg.retime (w.seg.tl.next ptsUs).1
    clock := if w.seg.tl.started then w.clock + w.seg.tl.advance ptsUs else 0 }

def closeCurrent (w : Watched) : Watched :=
  let seg := w.seg.closeCurrent
  let ended := if w.seg.cur = [] then [] else [⟨w.seg.finished, w.cur⟩]
  { w with seg, cur := [], segs := newest seg.segs.length (w.segs ++ ended) }

def cut (w : Watched) (key : Bool) (dts : ℕ) : Watched :=
  if w.seg.cuts key dts then w.closeCurrent else w

def append (w : Watched) (f : Feed) (dts dur : ℕ) (x : Frame) : Watched :=
  let seg := w.seg.append f dts dur
  let put := if annexbToAvcc f.annexb = [] then [] else [x]
  { w with
    seg, cur := if seg.curOpen then w.cur ++ put else [], segs := newest seg.segs.length w.segs }

/-- What an access unit is as the next frame; `tl` is the timeline before it. -/
def frame (w : Watched) (tl : Timeline) (f : Feed) : Frame :=
  { au := w.fed, clock := w.clock, step := tl.step f.ptsUs, inBounds := tl.step_bounds f.ptsUs,
    number := w.seg.fragSeq, sample := annexbToAvcc f.annexb, key := f.key }

def addFrame (w : Watched) (f : Feed) : Watched :=
  let (_, dts, dur) := w.seg.tl.next f.ptsUs
  let t := (w.retime f.ptsUs).cut f.key dts
  if !t.seg.curOpen && !f.key then t else t.append f dts dur (t.frame w.seg.tl f)

def feed (w : Watched) (f : Feed) : Watched :=
  if f.annexb = [] then w
  else
    let t := w.met f
    let t := if t.seg.awaitKey || t.seg.init = [] then t else t.addFrame f
    { t with fed := w.fed + 1, sampled := annexbToAvcc f.annexb ≠ [] }

theorem seg_cut (w : Watched) (key : Bool) (dts : ℕ) : (w.cut key dts).seg = w.seg.cut key dts := by
  rw [Segmenter.cut_eq]
  unfold cut
  split_ifs <;> rfl

theorem fed_cut (w : Watched) (key : Bool) (dts : ℕ) : (w.cut key dts).fed = w.fed := by
  unfold cut
  split_ifs <;> rfl

theorem clock_cut (w : Watched) (key : Bool) (dts : ℕ) : (w.cut key dts).clock = w.clock := by
  unfold cut
  split_ifs <;> rfl

theorem seg_addFrame (w : Watched) (f : Feed) : (w.addFrame f).seg = w.seg.addFrame f := by
  unfold addFrame Segmenter.addFrame
  dsimp only
  rw [apply_ite Watched.seg]
  unfold append
  dsimp only
  rw [seg_cut]
  rfl

/-- What is watched is the segmenter. -/
theorem seg_feed (w : Watched) (f : Feed) : (w.feed f).seg = w.seg.feed f := by
  unfold feed
  rw [Segmenter.feed_eq]
  by_cases hempty : f.annexb = []
  · rw [if_pos hempty, if_pos hempty]
  · rw [if_neg hempty, if_neg hempty]
    dsimp only
    rw [apply_ite Watched.seg, seg_addFrame]
    rfl

theorem seg_run (w : Watched) (fs : List Feed) :
    (run feed w fs).seg = run Segmenter.feed w.seg fs := by
  induction fs generalizing w with
  | nil => rfl
  | cons f fs ih => rw [run_cons, run_cons, ih, seg_feed]

end Watched

theorem newest_suffix {α : Type} (n : ℕ) (l : List α) : newest n l <:+ l := List.drop_suffix _ l

theorem map_newest {α β : Type} (g : α → β) (n : ℕ) (l : List α) :
    (newest n l).map g = newest n (l.map g) := by
  unfold newest
  rw [List.map_drop, List.length_map]

theorem newest_of_suffix {α : Type} {l l' : List α} (h : l' <:+ l) : newest l'.length l = l' :=
  (List.suffix_iff_eq_drop.mp h).symm

namespace Segmenter

variable (s : Segmenter) (f : Feed)

theorem newParams_cases : (s.newParams f).tl = s.tl ∧
    ((s.newParams f).initGen = s.initGen ∧ (s.newParams f).segs = s.segs ∧
      (s.newParams f).cur = s.cur ∧ (s.newParams f).curOpen = s.curOpen ∨
    (s.newParams f).initGen ≠ s.initGen ∧ (s.newParams f).segs = [] ∧
      (s.newParams f).cur = [] ∧ (s.newParams f).curOpen = false) := by
  unfold newParams
  split
  · exact ⟨rfl, .inl ⟨rfl, rfl, rfl, rfl⟩⟩
  · dsimp only
    split_ifs
    · exact ⟨rfl, .inr ⟨Nat.succ_ne_self _, rfl, rfl, rfl⟩⟩
    · exact ⟨rfl, .inl ⟨rfl, rfl, rfl, rfl⟩⟩
    · exact ⟨rfl, .inl ⟨rfl, rfl, rfl, rfl⟩⟩

/-- What a frame finds of the window: all of it, or what new parameter sets leave. -/
theorem met_cases :
    (s.met f).tl = s.tl ∧
    ((s.met f).initGen = s.initGen ∧ (s.met f).segs = s.segs ∧
      (s.met f).cur = (if f.discontinuity then [] else s.cur) ∧
      (s.met f).curOpen = (if f.discontinuity then false else s.curOpen) ∨
    (s.met f).initGen ≠ s.initGen ∧ (s.met f).segs = [] ∧ (s.met f).cur = [] ∧
      (s.met f).curOpen = false) := by
  have hdrop : (if f.discontinuity then s.abandon else s).tl = s.tl ∧
      (if f.discontinuity then s.abandon else s).initGen = s.initGen ∧
      (if f.discontinuity then s.abandon else s).segs = s.segs ∧
      (if f.discontinuity then s.abandon else s).cur = (if f.discontinuity then [] else s.cur) ∧
      (if f.discontinuity then s.abandon else s).curOpen =
        (if f.discontinuity then false else s.curOpen) := by
    split_ifs <;> exact ⟨rfl, rfl, rfl, rfl, rfl⟩
  unfold met
  generalize (if f.discontinuity then s.abandon else s) = d at hdrop ⊢
  generalize (if f.discontinuity then [] else s.cur) = cur at hdrop ⊢
  generalize (if f.discontinuity then false else s.curOpen) = curOpen at hdrop ⊢
  obtain ⟨htl, hgen, hsegs, rfl, rfl⟩ := hdrop
  have hnew := d.newParams_cases f
  rw [htl, hgen, hsegs] at hnew
  dsimp only
  split_ifs
  · exact hnew
  · exact hnew
  · exact ⟨htl, .inl ⟨hgen, hsegs, rfl, rfl⟩⟩

theorem met_window : (s.met f).tl = s.tl ∧
    ((s.met f).cur = if f.discontinuity || (s.met f).initGen ≠ s.initGen then [] else s.cur) ∧
    (s.met f).segs <:+ s.segs := by
  obtain ⟨htl, ⟨hgen, hsegs, hcur, -⟩ | ⟨hgen, hsegs, hcur, -⟩⟩ := s.met_cases f
  · refine ⟨htl, ?_, hsegs ▸ List.suffix_rfl⟩
    rw [hcur, hgen]
    simp
  · refine ⟨htl, ?_, hsegs ▸ List.nil_suffix⟩
    rw [hcur]
    simp [hgen]

/-- A segment that is still open was not touched. -/
theorem met_open (hopen : (s.met f).curOpen = true) : f.discontinuity = false ∧
    (s.met f).initGen = s.initGen ∧ s.curOpen = true := by
  obtain ⟨-, ⟨hgen, -, -, ho⟩ | ⟨-, -, -, ho⟩⟩ := s.met_cases f
  · rw [hopen] at ho
    split_ifs at ho with hdisc
    · exact ⟨Bool.eq_false_iff.mpr hdisc, hgen, ho.symm⟩
  · exact absurd (ho.symm.trans hopen) Bool.false_ne_true

end Segmenter

theorem closeCurrent_window {s : Segmenter} (hopen : s.curOpen = true) :
    s.closeCurrent.tl = s.tl ∧ s.closeCurrent.cur = [] ∧
      s.closeCurrent.segs <:+ s.segs ++ if s.cur = [] then [] else [s.finished] := by
  unfold Segmenter.closeCurrent
  rw [hopen]
  rw [if_neg (by exact Bool.false_ne_true)]
  split_ifs with hcur
  · rw [List.append_nil]
    exact ⟨rfl, hcur, List.suffix_rfl⟩
  · exact ⟨rfl, rfl, (Segmenter.trimFrom_spec _ _ _ _).1⟩

theorem grow_window {s : Segmenter} (hopen : s.curOpen = true) (frag : Bytes) (fin : ℕ) :
    (s.grow frag fin).tl = s.tl ∧ (s.grow frag fin).segs <:+ s.segs ∧
      (s.grow frag fin).cur = if (s.grow frag fin).curOpen then s.cur ++ frag else [] := by
  unfold Segmenter.grow
  dsimp only
  split
  · exact ⟨rfl, (Segmenter.trimFrom_spec _ _ _ _).1, rfl⟩
  · exact ⟨rfl, (Segmenter.trimFrom_spec _ _ _ _).1, (if_pos hopen).symm⟩

theorem append_window (s : Segmenter) (f : Feed) (dts dur : ℕ) :
    (s.append f dts dur).tl = s.tl ∧ (s.append f dts dur).segs <:+ s.segs ∧
      (s.append f dts dur).cur = if (s.append f dts dur).curOpen then
        s.cur ++ (if annexbToAvcc f.annexb = [] then []
          else fragment s.fragSeq dts dur (annexbToAvcc f.annexb) f.key) else [] := by
  have hsame : (s.openAt dts).tl = s.tl ∧ (s.openAt dts).segs = s.segs ∧
      (s.openAt dts).cur = s.cur ∧ (s.openAt dts).fragSeq = s.fragSeq := by
    unfold Segmenter.openAt
    split_ifs <;> exact ⟨rfl, rfl, rfl, rfl⟩
  have hopen : (s.openAt dts).curOpen = true := by
    unfold Segmenter.openAt
    split_ifs with hwas
    · exact hwas
    · rfl
  obtain ⟨htl, hsegs, hcur, hseq⟩ := hsame
  rw [Segmenter.append_eq, hseq, ← htl, ← hsegs, ← hcur]
  by_cases hsample : annexbToAvcc f.annexb = []
  · rw [if_pos hsample, if_pos hsample, if_pos hopen, List.append_nil]
    exact ⟨rfl, List.suffix_rfl, rfl⟩
  · rw [if_neg hsample, if_neg hsample]
    exact grow_window hopen _ _

namespace Watched

/-- The bytes are those of the frames, and the timeline stands where the frames say. -/
structure Shows (w : Watched) : Prop where
  cur : w.seg.cur = w.cur.flatMap Frame.data
  segs : w.segs.map Published.seg = w.seg.segs
  data : ∀ p ∈ w.segs, p.seg.data = p.frames.flatMap Frame.data
  clock : w.seg.tl.started = true → w.clock = w.seg.tl.position

variable {w : Watched}

/-- Segments leave at the front only. -/
theorem newest_shows {ps : List Published} {segs segs' : List Seg}
    (hsegs : ps.map Published.seg = segs)
    (hdata : ∀ p ∈ ps, p.seg.data = p.frames.flatMap Frame.data) (hsuffix : segs' <:+ segs) :
    (newest segs'.length ps).map Published.seg = segs' ∧
      ∀ p ∈ newest segs'.length ps, p.seg.data = p.frames.flatMap Frame.data := by
  constructor
  · rw [map_newest, hsegs, newest_of_suffix hsuffix]
  · exact fun p hp => hdata p ((newest_suffix _ ps).subset hp)

theorem Shows.met (h : Shows w) (f : Feed) : Shows (w.met f) := by
  obtain ⟨htl, hcur, hsuffix⟩ := w.seg.met_window f
  obtain ⟨hsegs, hdata⟩ := newest_shows h.segs h.data hsuffix
  refine ⟨?_, hsegs, hdata, ?_⟩
  · change (w.seg.met f).cur = (if (f.discontinuity || (w.seg.met f).initGen ≠ w.seg.initGen) = true
      then [] else w.cur).flatMap Frame.data
    rw [hcur, h.cur]
    split_ifs <;> rfl
  · change (w.seg.met f).tl.started = true → w.clock = (w.seg.met f).tl.position
    rw [htl]
    exact h.clock

theorem cur_met {f : Feed} (hopen : (w.met f).seg.curOpen = true) : (w.met f).cur = w.cur := by
  obtain ⟨hdisc, hgen, -⟩ := w.seg.met_open f hopen
  unfold met
  dsimp only
  rw [hdisc, hgen]
  simp

theorem Shows.retime (h : Shows w) (ptsUs : ℤ) : Shows (w.retime ptsUs) := by
  refine ⟨h.cur, h.segs, h.data, fun _ => ?_⟩
  change (if w.seg.tl.started then w.clock + w.seg.tl.advance ptsUs else 0) =
    (w.seg.tl.next ptsUs).1.position
  rw [Timeline.next_position]
  split_ifs with hstarted
  · rw [h.clock hstarted]
  · rfl

theorem Shows.closeCurrent (h : Shows w) (hopen : w.seg.curOpen = true) :
    Shows w.closeCurrent := by
  obtain ⟨htl, hcur, hsuffix⟩ := closeCurrent_window hopen
  have hmore : (w.segs ++ if w.seg.cur = [] then []
      else [(⟨w.seg.finished, w.cur⟩ : Published)]).map Published.seg =
        w.seg.segs ++ if w.seg.cur = [] then [] else [w.seg.finished] := by
    rw [List.map_append, h.segs, apply_ite (List.map Published.seg)]
    rfl
  have hdata : ∀ p ∈ w.segs ++ if w.seg.cur = [] then []
      else [(⟨w.seg.finished, w.cur⟩ : Published)], p.seg.data = p.frames.flatMap Frame.data := by
    intro p hp
    rcases List.mem_append.mp hp with hold | hnew
    · exact h.data p hold
    · split_ifs at hnew
      · exact absurd hnew List.not_mem_nil
      · rw [List.mem_singleton.mp hnew]
        exact h.cur
  obtain ⟨hsegs, hdata⟩ := newest_shows hmore hdata hsuffix
  refine ⟨hcur, hsegs, hdata, ?_⟩
  change w.seg.closeCurrent.tl.started = true → w.clock = w.seg.closeCurrent.tl.position
  rw [htl]
  exact h.clock

theorem Shows.append (h : Shows w) (f : Feed) (dts dur : ℕ) (x : Frame)
    (hx : x.data = fragment w.seg.fragSeq dts dur (annexbToAvcc f.annexb) f.key) :
    Shows (w.append f dts dur x) := by
  obtain ⟨htl, hsuffix, hcur⟩ := append_window w.seg f dts dur
  obtain ⟨hsegs, hdata⟩ := newest_shows h.segs h.data hsuffix
  refine ⟨?_, hsegs, hdata, ?_⟩
  · change (w.seg.append f dts dur).cur = (if (w.seg.append f dts dur).curOpen then
      w.cur ++ if annexbToAvcc f.annexb = [] then [] else [x] else []).flatMap Frame.data
    rw [hcur, h.cur]
    split_ifs
    · rw [List.append_nil, List.append_nil]
    · rw [List.flatMap_append, List.flatMap_singleton, hx]
    · rfl
  · change (w.seg.append f dts dur).tl.started = true →
      w.clock = (w.seg.append f dts dur).tl.position
    rw [htl]
    exact h.clock

theorem Shows.cut (h : Shows w) (key : Bool) (dts : ℕ) : Shows (w.cut key dts) := by
  unfold Watched.cut
  split_ifs with hcuts
  · simp only [Segmenter.cuts, Bool.and_eq_true] at hcuts
    exact h.closeCurrent hcuts.1.2
  · exact h

theorem Shows.addFrame (h : Shows w) (f : Feed) : Shows (w.addFrame f) := by
  have htimed := h.retime f.ptsUs
  have hclock : (w.retime f.ptsUs).clock = (w.seg.tl.next f.ptsUs).1.position :=
    htimed.clock (Timeline.next_started _ _)
  have hcut := htimed.cut f.key (w.seg.tl.next f.ptsUs).2.1
  unfold Watched.addFrame
  dsimp only
  split_ifs
  · exact hcut
  · refine hcut.append f _ _ _ ?_
    unfold Frame.data Frame.dts Frame.dur frame
    dsimp only
    rw [clock_cut, hclock]
    rfl

theorem Shows.feed (h : Shows w) (f : Feed) : Shows (w.feed f) := by
  have hmet := h.met f
  unfold Watched.feed
  dsimp only
  split_ifs
  · exact h
  · exact ⟨hmet.cur, hmet.segs, hmet.data, hmet.clock⟩
  · have hadd := hmet.addFrame f
    exact ⟨hadd.cur, hadd.segs, hadd.data, hadd.clock⟩

theorem Shows.start (seg : Segmenter) (hcur : seg.cur = []) (hsegs : seg.segs = [])
    (htl : seg.tl.started = false) : Shows { seg } where
  cur := hcur
  segs := hsegs.symm
  data := nofun
  clock h := absurd (htl.symm.trans h) Bool.false_ne_true

end Watched

def paramSets : Bytes :=
  [0, 0, 0, 1, 0x67, 0x42, 0xc0, 0x1e, 0, 0, 0, 1, 0x68, 0xce, 0x3c, 0x80]

def idrSlice : Bytes := [0, 0, 0, 1, 0x65, 0x88]

def nonIdrSlice : Bytes := [0, 0, 0, 1, 0x41, 0x9a]

/-- An access unit of a small picture; `ms` is the capture time. -/
def unit (annexb : Bytes) (key : Bool) (ms : ℤ) (discontinuity : Bool := false) : Feed :=
  { annexb, key, ptsUs := ms * 1000, width := 640, height := 360, discontinuity }

end Machino.Hls
