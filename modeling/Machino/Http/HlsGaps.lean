import Mathlib.Algebra.Order.Group.Abs
import Mathlib.Algebra.Order.Group.Int
import Mathlib.Data.List.Chain
import Machino.Http.HlsMoves

namespace Machino.Hls

open Fmp4 Runs

/-- What is decoded next begins where the last frame ends, give or take the longest step. -/
def Joins (x y : Frame) : Prop := x.au + 1 = y.au ∨ |(y.dts : ℤ) - (x.dts + x.dur)| ≤ 90000

/-- The timeline has moved on by the step of the last frame, give or take the longest step less half
a tick. -/
def Near (x y : Frame) : Prop :=
  x.au + 1 = y.au ∨ |y.clock - x.clock - x.step| + 6 ≤ maxStepUs

instance (x y : Frame) : Decidable (Joins x y) := instDecidableOr

instance (x y : Frame) : Decidable (Near x y) := instDecidableOr

theorem ticks_cast {us : ℤ} (h : 0 ≤ us) :
    (ticks us : ℤ) = (us * 90000 + 500000) / 1000000 := by
  unfold ticks
  omega

/-- Rounding costs less than a tick. -/
theorem Near.joins {x y : Frame} (h : Near x y) : Joins x y := by
  refine h.imp_right fun hnear => ?_
  obtain ⟨hlow, hhigh⟩ := x.inBounds
  unfold minStepUs at hlow
  unfold maxStepUs at hhigh hnear
  have hbounds := abs_le.mp (show |y.clock - x.clock - x.step| ≤ 999994 by omega)
  have hx := ticks_cast (le_max_right x.clock 0)
  have hy := ticks_cast (le_max_right y.clock 0)
  have hstep : (ticks x.step : ℤ) = _ := ticks_cast (by omega)
  unfold Frame.dts Frame.dur
  rw [hx, hy, hstep, abs_le]
  constructor <;> omega

/-- The last frame of a segment and the first frame of the next. -/
def Meet (r : Frame → Frame → Prop) (xs ys : List Frame) : Prop :=
  ∃ x ∈ xs.getLast?, ∃ y ∈ ys.head?, r x y

instance (r : Frame → Frame → Prop) [∀ x y, Decidable (r x y)] (xs ys : List Frame) :
    Decidable (Meet r xs ys) := inferInstanceAs (Decidable (∃ _ ∈ _, _))

theorem Meet.mono {r r' : Frame → Frame → Prop} (hr : ∀ x y, r x y → r' x y) {xs ys : List Frame}
    (h : Meet r xs ys) : Meet r' xs ys := by
  obtain ⟨x, hx, y, hy, hxy⟩ := h
  exact ⟨x, hx, y, hy, hr x y hxy⟩

/-- The next segment is marked, or nothing was left out, or the timeline goes on. -/
def Follows (p q : Published) : Prop := q.seg.disc = true ∨ Meet Joins p.frames q.frames

instance (p q : Published) : Decidable (Follows p q) := instDecidableOr

/-- Whether a feed closes the segment in progress. -/
def Segmenter.closes (s : Segmenter) (f : Feed) : Bool :=
  f.annexb ≠ [] && !(s.met f).awaitKey && (s.met f).init ≠ [] && (s.met f).cur ≠ [] &&
    (s.met f).cuts f.key (s.tl.next f.ptsUs).2.1

namespace Tracked

/-- What was left out between two frames was not timed, or the timeline has not moved on over it by
more than the longest step. -/
def Spared (t : Tracked) (x y : Frame) : Prop :=
  x.au + 1 = y.au ∨ (t.out = [] ∧ 0 < t.lead) ∨ |t.gap - x.step| + 6 ≤ maxStepUs

instance (t : Tracked) (x y : Frame) : Decidable (Spared t x y) := instDecidableOr

/-- A segment is closed behind a listed one only where what was thrown away in front of it is
short. -/
def Spares (t : Tracked) (f : Feed) : Prop :=
  t.watched.seg.closes f = true → 2 ≤ t.watched.seg.lim.maxSegments →
    ∀ p ∈ t.watched.segs.getLast?, ∀ x ∈ p.frames.getLast?, ∀ y ∈ t.watched.cur.head?,
      t.Spared x y

instance (t : Tracked) (f : Feed) : Decidable (Spares t f) :=
  inferInstanceAs (Decidable (_ → _))

variable {t : Tracked}

/-- What the two frames are apart by is what the timeline moves between them. -/
theorem Timed.near (h : Timed t) {p : Published} {x y : Frame} (hp : p ∈ t.watched.segs.getLast?)
    (hx : x ∈ p.frames.getLast?) (hy : y ∈ t.watched.cur.head?) (hspared : t.Spared x y) :
    Near x y := by
  have hlisted := h.measured.listed p hp x hx
  have hfirst := h.measured.first y hy
  have hheld : t.held ≠ [] := by
    intro hnil
    rw [h.measured.held.mp hnil] at hy
    exact absurd hy (Option.not_mem_none _)
  obtain ⟨m, ms, hms⟩ := List.exists_cons_of_ne_nil hheld
  -- the moves behind the first frame count for both
  have hgap : y.clock - x.clock = t.gap := by
    unfold gap
    rw [hms] at hlisted hfirst ⊢
    rw [List.sum_cons] at hlisted
    rw [List.tail_cons] at hfirst
    rw [List.headD_cons]
    omega
  unfold Near
  rw [hgap]
  rcases hspared with hnext | ⟨hout, hlead⟩ | hshort
  · exact .inl hnext
  · -- the one move is a step, and so is that of the last listed frame
    obtain ⟨hlow, hhigh⟩ := h.measured.lead m (by rw [hms]; rfl) hlead
    obtain ⟨hlow', hhigh'⟩ := x.inBounds
    have hone : t.gap = m := by
      unfold gap
      rw [hout, hms, List.sum_nil, List.headD_cons, zero_add]
    unfold minStepUs at hlow hlow'
    unfold maxStepUs at hhigh hhigh' ⊢
    have habs : |t.gap - x.step| ≤ 999994 := abs_le.mpr ⟨by omega, by omega⟩
    exact .inr (by omega)
  · exact .inr hshort

end Tracked

namespace Watched

/-- Each segment has the bytes of its frames, and each gap between two is announced. -/
def Announced (w : Watched) : Prop :=
  w.segs.map Published.seg = w.seg.segs ∧
    (∀ p ∈ w.segs, p.seg.data = p.frames.flatMap Frame.data) ∧ w.segs.IsChain Follows

theorem isChain_newest {α : Type} {R : α → α → Prop} {l : List α} (h : l.IsChain R) (n : ℕ) :
    (newest n l).IsChain R := h.suffix (newest_suffix n l)

theorem isChain_of_short {α : Type} {R : α → α → Prop} {l : List α} (h : l.length ≤ 1) :
    l.IsChain R := by
  match l, h with
  | [], _ => exact .nil
  | [x], _ => exact .singleton x

theorem length_newest_le {α : Type} (n : ℕ) (l : List α) : (newest n l).length ≤ n := by
  unfold newest
  rw [List.length_drop]
  omega

end Watched

theorem Segmenter.kept_lim (lim : Limits) : Segmenter.Kept (·.lim = lim) where
  abandon _ h := h
  restart _ h := h
  describe _ _ _ _ _ h := h
  keySeen _ h := h
  retime _ _ h := h
  closeCurrent s h := by
    unfold Segmenter.closeCurrent
    split_ifs
    · exact h
    · exact h
    · exact h
  openAt s dts _ _ h := by
    unfold Segmenter.openAt
    split_ifs
    · exact h
    · exact h
  grow s frag fin h := by
    unfold Segmenter.grow
    dsimp only
    split_ifs
    · exact h
    · exact h

theorem length_closeCurrent_le {s : Segmenter} (hopen : s.curOpen = true) (hcur : s.cur ≠ []) :
    s.closeCurrent.segs.length ≤ s.lim.maxSegments := by
  unfold Segmenter.closeCurrent
  rw [hopen, if_neg (by exact Bool.false_ne_true), if_neg hcur]
  exact (Segmenter.trimFrom_spec _ _ _ _).2.1

namespace Watched

variable {w : Watched} {lim : Limits}

/-- Only what is closed behind a segment that stays has to continue it. -/
theorem chain_cut (hchain : w.segs.IsChain Follows) (key : Bool) (dts : ℕ)
    (hmeet : w.seg.cuts key dts = true → w.seg.cur ≠ [] → 2 ≤ w.seg.lim.maxSegments →
      ∀ p ∈ w.segs.getLast?, Meet Near p.frames w.cur) :
    (w.cut key dts).segs.IsChain Follows := by
  unfold cut
  split_ifs with hcuts
  · have hopen : w.seg.curOpen = true := by
      simp only [Segmenter.cuts, Bool.and_eq_true] at hcuts
      exact hcuts.1.2
    unfold closeCurrent
    dsimp only
    by_cases hcur : w.seg.cur = []
    · rw [if_pos hcur, List.append_nil]
      exact isChain_newest hchain _
    · rw [if_neg hcur]
      by_cases hfew : w.seg.lim.maxSegments ≤ 1
      · refine isChain_of_short ((length_newest_le _ _).trans ?_)
        exact (length_closeCurrent_le hopen hcur).trans hfew
      · refine isChain_newest (List.isChain_append.mpr ⟨hchain, .singleton _, ?_⟩) _
        intro p hp q hq
        obtain rfl := Option.some.inj hq
        exact .inr ((hmeet hcuts hcur (by omega) p hp).mono fun _ _ => Near.joins)
  · exact hchain

/-- What a feed lists continues what was listed, where the closing segment does. -/
theorem chain_feed (hchain : w.segs.IsChain Follows) (f : Feed)
    (hmeet : w.seg.closes f = true → 2 ≤ w.seg.lim.maxSegments →
      ∀ p ∈ w.segs.getLast?, Meet Near p.frames w.cur) :
    (w.feed f).segs.IsChain Follows := by
  have hlim : (w.met f).seg.lim = w.seg.lim := (Segmenter.kept_lim _).met rfl f
  have hmet : (w.met f).segs.IsChain Follows := isChain_newest hchain _
  unfold Watched.feed
  dsimp only
  split_ifs with hempty hwait
  · exact hchain
  · exact hmet
  · have hcut : (((w.met f).retime f.ptsUs).cut f.key
        ((w.met f).seg.tl.next f.ptsUs).2.1).segs.IsChain Follows := by
      refine chain_cut (w := (w.met f).retime f.ptsUs) hmet f.key _ fun hcuts hcur htwo p hp => ?_
      have hopen : (w.met f).seg.curOpen = true := by
        simp only [Segmenter.cuts, Bool.and_eq_true] at hcuts
        exact hcuts.1.2
      have hcloses : w.seg.closes f = true := by
        rw [Bool.or_eq_true, not_or, Bool.not_eq_true, decide_eq_true_eq] at hwait
        have htl : (w.met f).seg.tl = w.seg.tl := (w.seg.met_cases f).1
        rw [htl] at hcuts
        unfold Segmenter.closes
        simp only [Bool.and_eq_true, decide_eq_true_eq, Bool.not_eq_true']
        exact ⟨⟨⟨⟨hempty, hwait.1⟩, hwait.2⟩, hcur⟩, hcuts⟩
      change Meet Near p.frames (w.met f).cur
      rw [cur_met hopen]
      exact hmeet hcloses (hlim ▸ htwo) p (mem_getLast_newest hp)
    unfold addFrame
    dsimp only
    split_ifs
    · exact hcut
    · exact isChain_newest hcut _

/-- A feed that closes the segment in progress finds its frames. -/
theorem cur_of_closes (hshows : Shows w) {f : Feed} (hcloses : w.seg.closes f = true) :
    w.cur ≠ [] := by
  intro hcur
  simp only [Segmenter.closes, Segmenter.cuts, Bool.and_eq_true, decide_eq_true_eq] at hcloses
  have hopen : (w.met f).seg.curOpen = true := hcloses.2.1.2
  have hbytes := (hshows.met f).cur
  rw [cur_met hopen, hcur] at hbytes
  exact hcloses.1.2 hbytes

end Watched

namespace Tracked

variable {t : Tracked} {lim : Limits}

/-- What holds between two feeds while the segments continue each other. -/
structure Joined (lim : Limits) (t : Tracked) : Prop extends Timed t where
  sameLim : t.watched.seg.lim = lim
  chain : t.watched.segs.IsChain Follows

theorem Joined.feed (h : Joined lim t) {f : Feed} (hok : Spares t f) : Joined lim (t.feed f) := by
  refine ⟨h.toTimed.feed f, ?_, ?_⟩
  · rw [watched_feed, Watched.seg_feed]
    exact (Segmenter.kept_lim lim).feed h.sameLim f
  · rw [watched_feed]
    refine Watched.chain_feed h.chain f fun hcloses htwo p hp => ?_
    obtain ⟨x, hx⟩ := Option.ne_none_iff_exists'.mp
      (mt List.getLast?_eq_none_iff.mp (h.filled p (List.mem_of_getLast? hp)))
    obtain ⟨y, hy⟩ := Option.ne_none_iff_exists'.mp
      (mt List.head?_eq_none_iff.mp (Watched.cur_of_closes h.shows hcloses))
    exact ⟨x, hx, y, hy, h.near hp hx hy (hok hcloses htwo p hp x hx y hy)⟩

end Tracked

/-- Where a segment is closed behind a listed one only if what was timed and thrown away between
the two is short, each gap is announced, after every feed. -/
theorem announced_run (lim : Limits) {fs : List Feed}
    (h : Along Tracked.feed Tracked.Spares { watched := { seg := { lim := lim } } } fs) :
    Always Watched.feed Watched.Announced { seg := { lim := lim } } fs := by
  have hstart : Tracked.Joined lim { watched := { seg := { lim := lim } } } :=
    ⟨.start _ rfl rfl rfl, rfl, .nil⟩
  have hjoined : Always Tracked.feed (Tracked.Joined lim) _ fs :=
    always_of_along (P := Tracked.Joined lim) (fun _ _ ht hok => ht.feed hok) hstart h
  intro js hjs
  have hend := hjoined js hjs
  change Watched.Announced (run Watched.feed (Tracked.watched { watched := _ }) js)
  rw [← Tracked.watched_run]
  exact ⟨hend.shows.segs, hend.shows.data, hend.chain⟩

/-- The second segment is thrown away at a discontinuity 50 ms after it began; the third begins
1 s behind the last frame of the first, which was to last 0.9 s. -/
def shortGap : List Feed :=
  [unit (paramSets ++ idrSlice) true 1000, unit nonIdrSlice false 1900,
    unit nonIdrSlice false 2800, unit (paramSets ++ idrSlice) true 3700,
    unit nonIdrSlice false 3750 true, unit (paramSets ++ idrSlice) true 3800,
    unit nonIdrSlice false 4700, unit nonIdrSlice false 5600,
    unit (paramSets ++ idrSlice) true 6500]

theorem announced_run_shortGap :
    (run Watched.feed { seg := {} } shortGap).segs.map (·.frames.map Frame.au) =
        [[0, 1, 2], [5, 6, 7]] ∧
      Always Watched.feed Watched.Announced { seg := {} } shortGap :=
  ⟨by decide +kernel, announced_run {} (by decide +kernel)⟩

/-- Frames are dropped before the third key frame: the segment that the second began is thrown
away. -/
def dropped : List Feed :=
  [unit (paramSets ++ idrSlice) true 1000, unit nonIdrSlice false 1900,
    unit nonIdrSlice false 2800, unit (paramSets ++ idrSlice) true 3700,
    unit nonIdrSlice false 4600, unit nonIdrSlice false 5500,
    unit (paramSets ++ idrSlice) true 6400 true, unit nonIdrSlice false 7300,
    unit nonIdrSlice false 8200, unit (paramSets ++ idrSlice) true 9100]

/-- The third segment is listed behind the first, 2.7 s after it ends and without a mark. -/
theorem not_announced_dropped : ¬ Always Watched.feed Watched.Announced { seg := {} } dropped := by
  intro h
  have hchain : (run Watched.feed { seg := {} } dropped).segs.IsChain Follows :=
    (h dropped List.prefix_rfl).2.2
  exact absurd hchain (by decide +kernel)

end Machino.Hls
