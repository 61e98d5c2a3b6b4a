import Mathlib.Data.List.Chain
import Machino.Http.HlsTrace

namespace Machino.Hls

open Fmp4 Runs

/-- No frame but a key frame comes without the access unit before it, and the first is one. -/
def Linked (xs : List Frame) : Prop :=
  (∀ x ∈ xs.head?, x.key = true) ∧ xs.IsChain fun x y => y.key = true ∨ x.au + 1 = y.au

instance (xs : List Frame) : Decidable (Linked xs) := instDecidableAnd

theorem Linked.push {xs : List Frame} (h : Linked xs) {x : Frame}
    (hkey : x.key = true ∨ xs.getLast?.map (·.au + 1) = some x.au) : Linked (xs ++ [x]) := by
  rcases List.eq_nil_or_concat' xs with rfl | ⟨ys, y, rfl⟩
  · refine ⟨fun z hz => ?_, .singleton x⟩
    rw [← Option.some.inj hz]
    exact hkey.resolve_right nofun
  · refine ⟨fun z hz => h.1 z ?_, List.isChain_append.mpr ⟨h.2, .singleton x, fun z hz v hv => ?_⟩⟩
    · cases ys <;> exact hz
    · rw [List.getLast?_concat] at hz hkey
      obtain rfl := Option.some.inj hz
      obtain rfl := Option.some.inj hv
      exact hkey.imp_right fun h => Option.some.inj h

namespace Watched

/-- Each segment has the bytes of its frames, begins with a key frame and leaves no predecessor
out. -/
def Independent (w : Watched) : Prop :=
  w.segs.map Published.seg = w.seg.segs ∧
    ∀ p ∈ w.segs, p.seg.data = p.frames.flatMap Frame.data ∧ p.frames ≠ [] ∧ Linked p.frames

/-- No frame is put behind an access unit without a sample, unless it is a key frame. -/
def Unbroken (w : Watched) (f : Feed) : Prop :=
  f.key = false → f.discontinuity = false → w.seg.curOpen = true →
    annexbToAvcc f.annexb ≠ [] → w.sampled = true

instance (w : Watched) (f : Feed) : Decidable (Unbroken w f) := inferInstanceAs (Decidable (_ → _))

/-- What holds between two feeds while the frames are unbroken. -/
structure Whole (w : Watched) : Prop where
  shows : Shows w
  taking : w.seg.Taking
  segs : ∀ p ∈ w.segs, p.frames ≠ [] ∧ Linked p.frames
  cur : Linked w.cur
  last : w.seg.curOpen = true → w.sampled = true → w.cur.getLast?.map (·.au + 1) = some w.fed

variable {w : Watched}

theorem mem_closeCurrent {p : Published} (hp : p ∈ w.closeCurrent.segs) :
    p ∈ w.segs ∨ w.seg.cur ≠ [] ∧ p = ⟨w.seg.finished, w.cur⟩ := by
  have hmore := (newest_suffix _ _).subset hp
  rcases List.mem_append.mp hmore with hold | hnew
  · exact .inl hold
  · split_ifs at hnew with hnone
    · exact absurd hnew List.not_mem_nil
    · exact .inr ⟨hnone, List.mem_singleton.mp hnew⟩

/-- A segment that is closed was whole before. -/
theorem linked_cut (hshows : Shows w) (hsegs : ∀ p ∈ w.segs, p.frames ≠ [] ∧ Linked p.frames)
    (hcur : Linked w.cur) (key : Bool) (dts : ℕ) :
    (∀ p ∈ (w.cut key dts).segs, p.frames ≠ [] ∧ Linked p.frames) ∧ Linked (w.cut key dts).cur := by
  unfold cut
  split_ifs
  · refine ⟨fun p hp => ?_, fun _ h => absurd h (Option.not_mem_none _), .nil⟩
    rcases mem_closeCurrent hp with hold | ⟨hsome, rfl⟩
    · exact hsegs p hold
    · refine ⟨fun hnone => hsome ?_, hcur⟩
      rw [hshows.cur, show w.cur = [] from hnone]
      rfl
  · exact ⟨hsegs, hcur⟩

theorem cut_of_not_key (w : Watched) (dts : ℕ) : w.cut false dts = w := by
  unfold cut Segmenter.cuts
  rfl

theorem linked_append (hsegs : ∀ p ∈ w.segs, p.frames ≠ [] ∧ Linked p.frames)
    (hcur : Linked w.cur) (f : Feed) (dts dur : ℕ) {x : Frame}
    (hx : annexbToAvcc f.annexb ≠ [] →
      x.key = true ∨ w.cur.getLast?.map (·.au + 1) = some x.au) :
    ((∀ p ∈ (w.append f dts dur x).segs, p.frames ≠ [] ∧ Linked p.frames) ∧
      Linked (w.append f dts dur x).cur) ∧
      ((w.append f dts dur x).seg.curOpen = true → annexbToAvcc f.annexb ≠ [] →
        (w.append f dts dur x).cur.getLast? = some x) := by
  refine ⟨⟨fun p hp => hsegs p ((newest_suffix _ _).subset hp), ?_⟩, fun hopen hsample => ?_⟩
  · unfold append
    dsimp only
    split_ifs with hopen hsample
    · rwa [List.append_nil]
    · exact hcur.push (hx hsample)
    · exact ⟨fun _ h => absurd h (Option.not_mem_none _), .nil⟩
  · unfold append at hopen ⊢
    dsimp only at hopen ⊢
    rw [if_pos hopen, if_neg hsample, List.getLast?_concat]

/-- A frame that is put into a segment keeps it linked, and is the last of it. -/
theorem linked_addFrame (hshows : Shows w) (hsegs : ∀ p ∈ w.segs, p.frames ≠ [] ∧ Linked p.frames)
    (hcur : Linked w.cur) (f : Feed)
    (hbehind : f.key = false → w.seg.curOpen = true → annexbToAvcc f.annexb ≠ [] →
      w.cur.getLast?.map (·.au + 1) = some w.fed) :
    ((∀ p ∈ (w.addFrame f).segs, p.frames ≠ [] ∧ Linked p.frames) ∧ Linked (w.addFrame f).cur) ∧
      ((w.addFrame f).seg.curOpen = true → annexbToAvcc f.annexb ≠ [] →
        (w.addFrame f).cur.getLast?.map (·.au + 1) = some (w.fed + 1)) := by
  have hcut := linked_cut (hshows.retime f.ptsUs) hsegs hcur f.key (w.seg.tl.next f.ptsUs).2.1
  unfold addFrame
  dsimp only
  split_ifs with hskip
  · refine ⟨hcut, fun hopen => ?_⟩
    rw [hopen] at hskip
    exact absurd hskip Bool.false_ne_true
  · have hput : annexbToAvcc f.annexb ≠ [] → f.key = true ∨
        ((w.retime f.ptsUs).cut f.key (w.seg.tl.next f.ptsUs).2.1).cur.getLast?.map (·.au + 1) =
          some ((w.retime f.ptsUs).cut f.key (w.seg.tl.next f.ptsUs).2.1).fed := by
      intro hsample
      rw [fed_cut]
      cases hkey : f.key with
      | true => exact .inl rfl
      | false =>
        -- only a key frame ends a segment
        rw [hkey, cut_of_not_key, Bool.not_false, Bool.and_true, Bool.not_eq_true,
          Bool.not_eq_false'] at hskip
        rw [cut_of_not_key]
        exact .inr (hbehind hkey hskip hsample)
    have happend := linked_append hcut.1 hcut.2 f (w.seg.tl.next f.ptsUs).2.1
      (w.seg.tl.next f.ptsUs).2.2 (x := frame _ w.seg.tl f) hput
    refine ⟨happend.1, fun hopen hsample => ?_⟩
    rw [happend.2 hopen hsample]
    exact congrArg (fun n => some (n + 1)) (fed_cut (w.retime f.ptsUs) f.key _)

theorem Whole.feed (h : Whole w) {f : Feed} (hok : Unbroken w f) : Whole (w.feed f) := by
  have hshows := h.shows.feed f
  have htaking : (w.feed f).seg.Taking := by
    rw [seg_feed]
    exact Segmenter.kept_taking.feed h.taking f
  have hmetTaking : (w.met f).seg.Taking := Segmenter.kept_taking.met h.taking f
  have hmetSegs : ∀ p ∈ (w.met f).segs, p.frames ≠ [] ∧ Linked p.frames :=
    fun p hp => h.segs p ((newest_suffix _ _).subset hp)
  have hmetCur : Linked (w.met f).cur := by
    unfold met
    dsimp only
    split_ifs
    · exact ⟨fun _ h => absurd h (Option.not_mem_none _), .nil⟩
    · exact h.cur
  -- what is still open was open before, and goes on with the next access unit
  have hbehind : f.key = false → (w.met f).seg.curOpen = true → annexbToAvcc f.annexb ≠ [] →
      (w.met f).cur.getLast?.map (·.au + 1) = some (w.met f).fed := by
    intro hkey hopen hsample
    obtain ⟨hdisc, -, hwas⟩ := w.seg.met_open f hopen
    rw [cur_met hopen]
    exact h.last hwas (hok hkey hdisc hwas hsample)
  obtain ⟨⟨hsegs, hcur⟩, hlast⟩ := linked_addFrame (h.shows.met f) hmetSegs hmetCur f hbehind
  refine ⟨hshows, htaking, ?_, ?_, ?_⟩
  all_goals
    unfold Watched.feed
    dsimp only
    split_ifs with hempty hwait
  · exact h.segs
  · exact hmetSegs
  · exact hsegs
  · exact h.cur
  · exact hmetCur
  · exact hcur
  · exact h.last
  · intro hopen
    obtain ⟨hawait, hinit⟩ := hmetTaking hopen
    rw [hawait, Bool.false_or, decide_eq_true_eq] at hwait
    exact absurd hwait hinit
  · intro hopen hsampled
    exact hlast hopen (of_decide_eq_true hsampled)

end Watched

/-- Where no frame is put behind an access unit without a sample, each segment can be decoded by
itself, after every feed. -/
theorem independent_run (lim : Limits) {fs : List Feed}
    (h : Along Watched.feed Watched.Unbroken { seg := { lim := lim } } fs) :
    Always Watched.feed Watched.Independent { seg := { lim := lim } } fs := by
  have hstart : Watched.Whole { seg := { lim := lim } } :=
    ⟨.start _ rfl rfl rfl, nofun, nofun, ⟨fun _ h => absurd h (Option.not_mem_none _), .nil⟩, nofun⟩
  have hwhole : Always Watched.feed Watched.Whole { seg := { lim := lim } } fs :=
    always_of_along (P := Watched.Whole) (fun _ _ hw hok => hw.feed hok) hstart h
  exact hwhole.mono fun w hw => ⟨hw.shows.segs, fun p hp => ⟨hw.shows.data p hp, hw.segs p hp⟩⟩

/-- The second key frame publishes the frames before it. -/
def regular : List Feed :=
  [unit (paramSets ++ idrSlice) true 1000, unit nonIdrSlice false 1900,
    unit nonIdrSlice false 2800, unit (paramSets ++ idrSlice) true 3700]

theorem independent_run_regular :
    (run Watched.feed { seg := {} } regular).segs.length = 1 ∧
      Always Watched.feed Watched.Independent { seg := {} } regular :=
  ⟨by decide +kernel, independent_run {} (by decide +kernel)⟩

/-- The first access unit has parameter sets only. -/
def keyless : List Feed :=
  [unit paramSets true 1000, unit nonIdrSlice false 1900, unit nonIdrSlice false 2800,
    unit (paramSets ++ idrSlice) true 3700]

/-- A key access unit without a sample opens a segment, which then begins with another frame. -/
theorem not_independent_keyless :
    ¬ Always Watched.feed Watched.Independent { seg := {} } keyless := by
  intro h
  have hlinked : ∀ p ∈ (run Watched.feed { seg := {} } keyless).segs, Linked p.frames :=
    fun p hp => ((h keyless List.prefix_rfl).2 p hp).2.2
  exact absurd hlinked (by decide +kernel)

end Machino.Hls
