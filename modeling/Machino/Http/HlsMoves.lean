import Mathlib.Algebra.BigOperators.Group.List.Basic
import Mathlib.Algebra.Ring.Int.Defs
import Machino.Http.HlsTrace

namespace Machino.Hls

open Fmp4 Runs

/-- What the timeline moves on by for a unit captured at `now` behind one captured at `before`:
their distance, and a nominal step where that is out of bounds. -/
def moved (before now : ℤ) : ℤ :=
  if 0 < before then
    if minStepUs < now - before ∧ now - before < maxStepUs then now - before else fallbackStepUs
  else now - before

theorem advance_eq_moved (tl : Timeline) (ptsUs : ℤ) :
    tl.advance ptsUs = moved tl.lastUs ptsUs := by
  unfold Timeline.advance Timeline.step moved
  split_ifs with hpos hstep hin hin
  · rfl
  · exact absurd hstep.2 hin
  · exact absurd ⟨hpos, hin⟩ hstep
  · rfl
  · rfl

theorem moved_bounds {before now : ℤ} (h : 0 < before) :
    minStepUs < moved before now ∧ moved before now < maxStepUs := by
  unfold moved
  rw [if_pos h]
  split_ifs with hin
  · exact hin
  · exact ⟨by decide, by decide⟩

theorem mem_getLast_newest {α : Type} {n : ℕ} {l : List α} {a : α}
    (h : a ∈ (newest n l).getLast?) : a ∈ l.getLast? := by
  unfold newest at h
  rw [List.getLast?_drop] at h
  split_ifs at h
  · exact absurd h (Option.not_mem_none _)
  · exact h

/-- The segmenter, and how far the capture times of the units move its timeline. -/
structure Tracked where
  watched : Watched
  /-- The capture time of the last unit that was timed. -/
  time : ℤ := 0
  /-- The capture time before the first frame of the segment in progress. -/
  lead : ℤ := 0
  /-- The moves over what was timed and left out in front of the segment in progress. -/
  out : List ℤ := []
  /-- The moves up to the last frame of the segment in progress; the first leads to its first. -/
  held : List ℤ := []
  /-- The moves over what was timed since and is in no segment. -/
  trail : List ℤ := []

namespace Tracked

/-- The segment in progress is thrown away; the timeline has moved on over its frames. -/
def lose (t : Tracked) : Tracked :=
  { t with out := [], held := [], trail := t.out ++ t.held ++ t.trail }

def skip (t : Tracked) (move : ℤ) : Tracked := { t with trail := t.trail ++ [move] }

def put (t : Tracked) (before move : ℤ) : Tracked :=
  -- the first frame of a segment takes over what was left out since the last listed one
  if t.held = [] then
    { t with lead := before, out := t.out ++ t.trail, held := [move], trail := [] }
  else { t with held := t.held ++ t.trail ++ [move], trail := [] }

def met (t : Tracked) (f : Feed) : Tracked :=
  let t' := { t with watched := t.watched.met f }
  if f.discontinuity || t'.watched.seg.initGen ≠ t.watched.seg.initGen then t'.lose else t'

def retime (t : Tracked) (ptsUs : ℤ) : Tracked := { t with watched := t.watched.retime ptsUs }

def closeCurrent (t : Tracked) : Tracked :=
  let t' := { t with watched := t.watched.closeCurrent }
  if t.watched.seg.cur = [] then t'.lose else { t' with out := [], held := [] }

def cut (t : Tracked) (key : Bool) (dts : ℕ) : Tracked :=
  if t.watched.seg.cuts key dts then t.closeCurrent else t

/-- A segment that becomes too long is thrown away with the frame that makes it so. -/
def append (t : Tracked) (f : Feed) (dts dur : ℕ) (x : Frame) (before move : ℤ) : Tracked :=
  -- a unit without a sample is timed, and is in no segment
  let t' := if annexbToAvcc f.annexb = [] then t.skip move else t.put before move
  let t' := { t' with watched := t.watched.append f dts dur x }
  if t'.watched.seg.curOpen then t' else t'.lose

def addFrame (t : Tracked) (f : Feed) : Tracked :=
  let (_, dts, dur) := t.watched.seg.tl.next f.ptsUs
  let move := moved t.time f.ptsUs
  let t' := (t.retime f.ptsUs).cut f.key dts
  let t' :=
    if !t'.watched.seg.curOpen && !f.key then t'.skip move
    else t'.append f dts dur (t'.watched.frame t.watched.seg.tl f) t.time move
  { t' with time := f.ptsUs }

def feed (t : Tracked) (f : Feed) : Tracked :=
  if f.annexb = [] then t
  else
    let t' := t.met f
    -- nothing is timed while a key frame is awaited
    let t' := if t'.watched.seg.awaitKey || t'.watched.seg.init = [] then t' else t'.addFrame f
    { t' with watched :=
      { t'.watched with fed := t.watched.fed + 1, sampled := annexbToAvcc f.annexb ≠ [] } }

/-- How far the timeline moves from the last listed frame to the first one of the segment in
progress. -/
def gap (t : Tracked) : ℤ := t.out.sum + t.held.headD 0

variable {t : Tracked}

theorem watched_met (t : Tracked) (f : Feed) : (t.met f).watched = t.watched.met f := by
  unfold met
  dsimp only
  split_ifs <;> rfl

theorem watched_cut (t : Tracked) (key : Bool) (dts : ℕ) :
    (t.cut key dts).watched = t.watched.cut key dts := by
  unfold cut closeCurrent Watched.cut
  dsimp only
  split_ifs <;> rfl

theorem watched_append (t : Tracked) (f : Feed) (dts dur : ℕ) (x : Frame) (before move : ℤ) :
    (t.append f dts dur x before move).watched = t.watched.append f dts dur x := by
  unfold append
  dsimp only
  split_ifs <;> rfl

theorem watched_addFrame (t : Tracked) (f : Feed) :
    (t.addFrame f).watched = t.watched.addFrame f := by
  unfold addFrame Watched.addFrame
  dsimp only
  rw [apply_ite Tracked.watched, watched_append]
  change (if _ then (cut _ _ _).watched else _) = _
  rw [watched_cut]
  rfl

theorem watched_feed (t : Tracked) (f : Feed) : (t.feed f).watched = t.watched.feed f := by
  unfold feed Watched.feed
  by_cases hempty : f.annexb = []
  · rw [if_pos hempty, if_pos hempty]
  · rw [if_neg hempty, if_neg hempty]
    dsimp only
    rw [apply_ite Tracked.watched, watched_addFrame, watched_met]

theorem watched_run (t : Tracked) (fs : List Feed) :
    (run feed t fs).watched = run Watched.feed t.watched fs := by
  induction fs generalizing t with
  | nil => rfl
  | cons f fs ih => rw [run_cons, run_cons, ih, watched_feed]

/-- The clock stands where the capture times say; the last move has not been put anywhere. -/
structure Measured (t : Tracked) (move : ℤ) : Prop where
  listed : ∀ p ∈ t.watched.segs.getLast?, ∀ x ∈ p.frames.getLast?,
    t.watched.clock = x.clock + t.out.sum + t.held.sum + t.trail.sum + move
  first : ∀ y ∈ t.watched.cur.head?,
    t.watched.clock = y.clock + t.held.tail.sum + t.trail.sum + move
  last : ∀ z ∈ t.watched.cur.getLast?, t.watched.clock = z.clock + t.trail.sum + move
  held : t.held = [] ↔ t.watched.cur = []
  lead : ∀ m ∈ t.held.head?, 0 < t.lead → minStepUs < m ∧ m < maxStepUs

namespace Measured

variable {move : ℤ} {w' : Watched}

theorem of_fresh (hsegs : t.watched.segs = []) (hcur : t.watched.cur = []) (hheld : t.held = []) :
    Measured t move where
  listed p hp := by
    rw [hsegs] at hp
    exact absurd hp (Option.not_mem_none _)
  first y hy := by
    rw [hcur] at hy
    exact absurd hy (Option.not_mem_none _)
  last z hz := by
    rw [hcur] at hz
    exact absurd hz (Option.not_mem_none _)
  held := iff_of_true hheld hcur
  lead m hm := by
    rw [hheld] at hm
    exact absurd hm (Option.not_mem_none _)

/-- Segments leave at the front only. -/
theorem window (h : Measured t move) (hclock : w'.clock = t.watched.clock)
    (hsegs : ∀ p ∈ w'.segs.getLast?, p ∈ t.watched.segs.getLast?)
    (hcur : w'.cur = t.watched.cur) : Measured { t with watched := w' } move where
  listed p hp x hx := hclock ▸ h.listed p (hsegs p hp) x hx
  first y hy := hclock ▸ h.first y (hcur ▸ hy)
  last z hz := hclock ▸ h.last z (hcur ▸ hz)
  held := h.held.trans (hcur ▸ Iff.rfl)
  lead := h.lead

theorem lose (h : Measured t move) (hclock : w'.clock = t.watched.clock)
    (hsegs : ∀ p ∈ w'.segs.getLast?, p ∈ t.watched.segs.getLast?) (hcur : w'.cur = []) :
    Measured (Tracked.lose { t with watched := w' }) move where
  listed p hp x hx := by
    have hlisted := h.listed p (hsegs p hp) x hx
    change w'.clock = x.clock + 0 + 0 + (t.out ++ t.held ++ t.trail).sum + move
    rw [hclock, List.sum_append, List.sum_append]
    omega
  first y hy := by
    change y ∈ w'.cur.head? at hy
    rw [hcur] at hy
    exact absurd hy (Option.not_mem_none _)
  last z hz := by
    change z ∈ w'.cur.getLast? at hz
    rw [hcur] at hz
    exact absurd hz (Option.not_mem_none _)
  held := iff_of_true rfl hcur
  lead := nofun

theorem skip (h : Measured t move) : Measured (t.skip move) 0 where
  listed p hp x hx := by
    have hlisted := h.listed p hp x hx
    change t.watched.clock = x.clock + t.out.sum + t.held.sum + (t.trail ++ [move]).sum + 0
    rw [List.sum_append, List.sum_singleton]
    omega
  first y hy := by
    have hfirst := h.first y hy
    change t.watched.clock = y.clock + t.held.tail.sum + (t.trail ++ [move]).sum + 0
    rw [List.sum_append, List.sum_singleton]
    omega
  last z hz := by
    have hlast := h.last z hz
    change t.watched.clock = z.clock + (t.trail ++ [move]).sum + 0
    rw [List.sum_append, List.sum_singleton]
    omega
  held := h.held
  lead := h.lead

/-- The frame that the clock stands at is put into the segment in progress. -/
theorem put (h : Measured t move) {before : ℤ} {x : Frame} (hx : x.clock = t.watched.clock)
    (hmove : 0 < before → minStepUs < move ∧ move < maxStepUs) :
    Measured { t.put before move with
      watched := { t.watched with cur := t.watched.cur ++ [x] } } 0 := by
  unfold Tracked.put
  by_cases hheld : t.held = []
  -- the segment begins here, and the move leads from the last listed frame over what was left out
  · have hcur := h.held.mp hheld
    rw [if_pos hheld]
    refine ⟨fun p hp a ha => ?_, fun y hy => ?_, fun z hz => ?_, ?_, fun m hm => ?_⟩
    · have hlisted := h.listed p hp a ha
      change t.watched.clock = a.clock + (t.out ++ t.trail).sum + [move].sum + 0 + 0
      rw [hheld, List.sum_nil] at hlisted
      rw [List.sum_append, List.sum_singleton]
      omega
    · change y ∈ (t.watched.cur ++ [x]).head? at hy
      rw [hcur] at hy
      obtain rfl := Option.some.inj hy
      change t.watched.clock = x.clock + 0 + 0 + 0
      omega
    · change z ∈ (t.watched.cur ++ [x]).getLast? at hz
      rw [List.getLast?_concat] at hz
      obtain rfl := Option.some.inj hz
      change t.watched.clock = x.clock + 0 + 0
      omega
    · exact iff_of_false (List.cons_ne_nil _ _) (List.append_ne_nil_of_right_ne_nil _ (by simp))
    · obtain rfl := Option.some.inj hm
      exact hmove
  -- the segment goes on, and its first frame stays
  · obtain ⟨m₀, ms, hms⟩ := List.exists_cons_of_ne_nil hheld
    rw [if_neg hheld]
    refine ⟨fun p hp a ha => ?_, fun y hy => ?_, fun z hz => ?_, ?_, fun m hm => ?_⟩
    · have hlisted := h.listed p hp a ha
      change t.watched.clock = a.clock + t.out.sum + (t.held ++ t.trail ++ [move]).sum + 0 + 0
      rw [List.sum_append, List.sum_append, List.sum_singleton]
      omega
    · have hne : t.watched.cur ≠ [] := fun hcur => hheld (h.held.mpr hcur)
      change y ∈ (t.watched.cur ++ [x]).head? at hy
      rw [List.head?_append_of_ne_nil _ hne] at hy
      have hfirst := h.first y hy
      change t.watched.clock = y.clock + (t.held ++ t.trail ++ [move]).tail.sum + 0 + 0
      rw [hms] at hfirst ⊢
      rw [List.tail_cons] at hfirst
      rw [List.cons_append, List.cons_append, List.tail_cons, List.sum_append, List.sum_append,
        List.sum_singleton]
      omega
    · change z ∈ (t.watched.cur ++ [x]).getLast? at hz
      rw [List.getLast?_concat] at hz
      obtain rfl := Option.some.inj hz
      change t.watched.clock = x.clock + 0 + 0
      omega
    · exact iff_of_false (List.append_ne_nil_of_right_ne_nil _ (by simp))
        (List.append_ne_nil_of_right_ne_nil _ (by simp))
    · refine h.lead m ?_
      change m ∈ (t.held ++ t.trail ++ [move]).head? at hm
      rw [hms] at hm ⊢
      exact hm

theorem met (h : Measured t 0) (f : Feed) : Measured (t.met f) 0 := by
  unfold Tracked.met
  dsimp only
  split_ifs with hlost
  · exact h.lose rfl (fun _ => mem_getLast_newest) (if_pos hlost)
  · exact h.window rfl (fun _ => mem_getLast_newest) (if_neg hlost)

/-- The frames of a segment that is closed are the last ones listed. -/
theorem closeCurrent (h : Measured t move) : Measured t.closeCurrent move := by
  unfold Tracked.closeCurrent
  dsimp only
  split_ifs with hcur
  -- without a byte nothing is listed
  · refine h.lose rfl (fun p hp => ?_) rfl
    unfold Watched.closeCurrent at hp
    dsimp only at hp
    rw [if_pos hcur, List.append_nil] at hp
    exact mem_getLast_newest hp
  · refine ⟨fun p hp x hx => ?_, fun _ hy => absurd hy (Option.not_mem_none _),
      fun _ hz => absurd hz (Option.not_mem_none _), iff_of_true rfl rfl,
      fun _ hm => absurd hm (Option.not_mem_none _)⟩
    change p ∈ (newest _ (t.watched.segs ++ if t.watched.seg.cur = [] then []
      else [(⟨t.watched.seg.finished, t.watched.cur⟩ : Published)])).getLast? at hp
    rw [if_neg hcur] at hp
    have hlast := mem_getLast_newest hp
    rw [List.getLast?_concat] at hlast
    obtain rfl := Option.some.inj hlast
    have hframe := h.last x hx
    change t.watched.clock = x.clock + 0 + 0 + t.trail.sum + move
    omega

theorem cut (h : Measured t move) (key : Bool) (dts : ℕ) : Measured (t.cut key dts) move := by
  unfold Tracked.cut
  split_ifs
  · exact h.closeCurrent
  · exact h

theorem append (h : Measured t move) (f : Feed) (dts dur : ℕ) {x : Frame} {before : ℤ}
    (hx : x.clock = t.watched.clock)
    (hmove : 0 < before → minStepUs < move ∧ move < maxStepUs) :
    Measured (t.append f dts dur x before move) 0 := by
  have hsegs {p : Published} (hp : p ∈ (t.watched.append f dts dur x).segs.getLast?) :
      p ∈ t.watched.segs.getLast? := mem_getLast_newest hp
  unfold Tracked.append
  dsimp only
  by_cases hsample : annexbToAvcc f.annexb = []
  · rw [if_pos hsample]
    have hskip := h.skip
    split_ifs with hopen
    · refine hskip.window rfl (fun _ => hsegs) ?_
      unfold Watched.append
      dsimp only
      rw [if_pos hsample, List.append_nil]
      exact if_pos hopen
    · exact hskip.lose rfl (fun _ => hsegs) (if_neg hopen)
  · rw [if_neg hsample]
    have hput := h.put hx hmove
    split_ifs with hopen
    · refine hput.window rfl (fun _ => hsegs) ?_
      unfold Watched.append
      dsimp only
      rw [if_neg hsample]
      exact if_pos hopen
    · exact hput.lose rfl (fun _ => hsegs) (if_neg hopen)

end Measured

end Tracked

namespace Watched

variable {w : Watched}

theorem tl_cut (w : Watched) (key : Bool) (dts : ℕ) : (w.cut key dts).seg.tl = w.seg.tl := by
  unfold cut
  split_ifs with hcuts
  · simp only [Segmenter.cuts, Bool.and_eq_true] at hcuts
    exact (closeCurrent_window hcuts.1.2).1
  · rfl

theorem tl_addFrame (w : Watched) (f : Feed) :
    (w.addFrame f).seg.tl = (w.seg.tl.next f.ptsUs).1 := by
  have hcut := tl_cut (w.retime f.ptsUs) f.key (w.seg.tl.next f.ptsUs).2.1
  unfold addFrame
  dsimp only
  split_ifs
  · exact hcut
  · exact (append_window _ _ _ _).1.trans hcut

/-- The segments have frames. -/
def Filled (w : Watched) : Prop := ∀ p ∈ w.segs, p.frames ≠ []

theorem Filled.cut (h : Filled w) (hshows : Shows w) (key : Bool) (dts : ℕ) :
    Filled (w.cut key dts) := by
  unfold Watched.cut
  split_ifs
  · intro p hp
    rcases List.mem_append.mp ((newest_suffix _ _).subset hp) with hold | hnew
    · exact h p hold
    · split_ifs at hnew with hcur
      · exact absurd hnew List.not_mem_nil
      · obtain rfl := List.mem_singleton.mp hnew
        intro (hframes : w.cur = [])
        exact hcur (hshows.cur.trans (by rw [hframes, List.flatMap_nil]))
  · exact h

theorem Filled.addFrame (h : Filled w) (hshows : Shows w) (f : Feed) : Filled (w.addFrame f) := by
  have hcut := Filled.cut (w := w.retime f.ptsUs) h (hshows.retime f.ptsUs) f.key
    (w.seg.tl.next f.ptsUs).2.1
  unfold Watched.addFrame
  dsimp only
  split_ifs
  · exact hcut
  · exact fun p hp => hcut p ((newest_suffix _ _).subset hp)

end Watched

namespace Tracked

variable {t : Tracked}

/-- What holds between two feeds, whatever is fed. -/
structure Timed (t : Tracked) : Prop where
  shows : t.watched.Shows
  filled : t.watched.Filled
  measured : Measured t 0
  time : t.time = t.watched.seg.tl.lastUs
  fresh : t.watched.seg.tl.started = false → t.watched.segs = [] ∧ t.watched.cur = []

namespace Timed

theorem met (h : Timed t) (f : Feed) : Timed (t.met f) := by
  have htl := (t.watched.seg.met_cases f).1
  have htime : (t.met f).time = t.time := by
    unfold Tracked.met
    dsimp only
    split_ifs <;> rfl
  refine ⟨?_, ?_, h.measured.met f, ?_, ?_⟩
  · rw [watched_met]
    exact h.shows.met f
  · rw [watched_met]
    exact fun p hp => h.filled p ((newest_suffix _ _).subset hp)
  · rw [watched_met, htime, h.time]
    exact congrArg Timeline.lastUs htl.symm
  · rw [watched_met]
    intro hnew
    obtain ⟨hsegs, hcur⟩ := h.fresh ((congrArg Timeline.started htl.symm).trans hnew)
    unfold Watched.met
    dsimp only
    rw [hsegs, hcur, ite_self]
    exact ⟨List.drop_nil, rfl⟩

/-- The clock moves as the capture times do. -/
theorem retime (h : Timed t) (ptsUs : ℤ) :
    Measured (t.retime ptsUs) (moved t.time ptsUs) := by
  cases hstarted : t.watched.seg.tl.started with
  | false =>
    obtain ⟨hsegs, hcur⟩ := h.fresh hstarted
    exact .of_fresh hsegs hcur (h.measured.held.mpr hcur)
  | true =>
    have hclock : (t.retime ptsUs).watched.clock = t.watched.clock + moved t.time ptsUs := by
      change (if t.watched.seg.tl.started then t.watched.clock + t.watched.seg.tl.advance ptsUs
        else 0) = _
      rw [if_pos hstarted, advance_eq_moved, h.time]
    refine ⟨fun p hp x hx => ?_, fun y hy => ?_, fun z hz => ?_, h.measured.held, h.measured.lead⟩
    · rw [hclock, h.measured.listed p hp x hx, add_zero]
      rfl
    · rw [hclock, h.measured.first y hy, add_zero]
      rfl
    · rw [hclock, h.measured.last z hz, add_zero]
      rfl

theorem addFrame (h : Timed t) (f : Feed) : Timed (t.addFrame f) := by
  have htimed := (h.retime f.ptsUs).cut f.key (t.watched.seg.tl.next f.ptsUs).2.1
  refine ⟨?_, ?_, ?_, ?_, ?_⟩
  · rw [watched_addFrame]
    exact h.shows.addFrame f
  · rw [watched_addFrame]
    exact h.filled.addFrame h.shows f
  · unfold Tracked.addFrame
    dsimp only
    split_ifs
    · exact ⟨htimed.skip.listed, htimed.skip.first, htimed.skip.last, htimed.skip.held,
        htimed.skip.lead⟩
    · have hframe : (((t.retime f.ptsUs).cut f.key
          (t.watched.seg.tl.next f.ptsUs).2.1).watched.frame t.watched.seg.tl f).clock =
          ((t.retime f.ptsUs).cut f.key (t.watched.seg.tl.next f.ptsUs).2.1).watched.clock := rfl
      have happend := htimed.append f (t.watched.seg.tl.next f.ptsUs).2.1
        (t.watched.seg.tl.next f.ptsUs).2.2 hframe moved_bounds
      exact ⟨happend.listed, happend.first, happend.last, happend.held, happend.lead⟩
  · rw [watched_addFrame, Watched.tl_addFrame]
    rfl
  · rw [watched_addFrame, Watched.tl_addFrame, Timeline.next_started]
    exact nofun

theorem count (h : Timed t) (fed : ℕ) (sampled : Bool) :
    Timed { t with watched := { t.watched with fed, sampled } } where
  shows := ⟨h.shows.cur, h.shows.segs, h.shows.data, h.shows.clock⟩
  filled := h.filled
  measured := ⟨h.measured.listed, h.measured.first, h.measured.last, h.measured.held,
    h.measured.lead⟩
  time := h.time
  fresh := h.fresh

theorem feed (h : Timed t) (f : Feed) : Timed (t.feed f) := by
  have hmet := h.met f
  unfold Tracked.feed
  dsimp only
  split_ifs
  · exact h
  · exact hmet.count _ _
  · exact (hmet.addFrame f).count _ _

theorem start (seg : Segmenter) (hcur : seg.cur = []) (hsegs : seg.segs = []) (htl : seg.tl = {}) :
    Timed { watched := { seg } } where
  shows := .start seg hcur hsegs (congrArg Timeline.started htl)
  filled _ hp := absurd hp List.not_mem_nil
  measured := .of_fresh rfl rfl rfl
  time := (congrArg Timeline.lastUs htl).symm
  fresh _ := ⟨rfl, rfl⟩

end Timed

end Tracked

end Machino.Hls
