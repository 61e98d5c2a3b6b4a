import Machino.Basic.Runs
import Machino.Media.TuningService

namespace Machino.Media

open Api Power Runs

/-- What is asked for and what is held, and the depth of the queues. -/
def Unchanged (s t : Tuning) : Prop :=
  t.requested = s.requested ∧ t.override = s.override ∧ t.latency = s.latency ∧ t.depth = s.depth

/-- The operation goes well or changes nothing. -/
def Atomic (s : Tuning) (i : Op × Answers) : Prop :=
  (s.perform i.2 i.1).1.ok = false → Unchanged s (step s i)

namespace Tuning

variable (s : Tuning)

/-- A running pipeline does not take the new settings. -/
def LatencyFails (target : ResolvedLatency) (ans : Answers) : Prop :=
  ans.running = true ∧
    if s.stream.buffers ≠ target.framesourceBuffers ∨
        s.stream.encoderBuffers ≠ target.encoderBuffers then ∃ err, ans.restart = .error err
    else s.stream.gop ≠ target.gop ∧
      (target.gop < 1 ∨ 1000 < target.gop ∨ ∀ eff, ans.gop ≠ .done eff)

/-- The settings an operation asks for; none where the amount is out of its range. -/
def settings : LatencyOp → Option LatencySettings
  | .setLatencyProfile p => some { s.latency with profile := p }
  | .setGop n => if n < 1 ∨ 1000 < n then none else some { s.latency with gop := some n }
  | .setFramesourceBuffers n =>
    if n < 1 ∨ 8 < n then none else some { s.latency with framesourceBuffers := some n }
  | .setEncoderBuffers n =>
    if n < 1 ∨ 8 < n then none else some { s.latency with encoderBuffers := some n }
  | .setQueueDepth n =>
    if n < 1 ∨ 32 < n then none else some { s.latency with consumerQueueDepth := some n }
  | .clearFramesourceBuffers => some { s.latency with framesourceBuffers := none }
  | .clearEncoderBuffers => some { s.latency with encoderBuffers := none }
  | .clearQueueDepth => some { s.latency with consumerQueueDepth := none }
  | .refreshAfterStreamChange => some s.latency

end Tuning

/-- The steps that store something and then fail: an image value or a reset that the platform does
not take, and latency settings that a running pipeline does not take. -/
def Leaves (s : Tuning) : Op × Answers → Prop
  | (.setImage c v, ans) =>
    s.checkImage c v = .ok () ∧ s.override c < 0 ∧ ans.image.isFailed = true ∧ s.requested c ≠ v
  | (.clearImage c, ans) =>
    (s.caps c).support = .supported ∧ ans.running = true ∧ (∃ err, ans.restart = .error err) ∧
      s.requested c ≠ -1
  | (.latency op, ans) =>
    ∃ l, s.settings op = some l ∧ s.LatencyFails (s.resolve l) ans ∧
      (l ≠ s.latency ∨ defaultDepth (s.resolve l).consumerQueueDepth ≠ s.depth)
  | _ => False

namespace Tuning

variable {s : Tuning}

theorem update_eq_self {f : ImageControl → ℤ} {c : ImageControl} {v : ℤ} :
    update f c v = f ↔ f c = v := by
  constructor
  · intro h
    rw [← h]
    exact if_pos rfl
  · rintro rfl
    funext d
    unfold update
    split_ifs with hd
    · rw [hd]
    · rfl

theorem liveImage_cases (c : ImageControl) (value : ℤ) (ans : Live) :
    ((s.liveImage c value ans).1.ok = !ans.isFailed) ∧
      ∃ effective, (s.liveImage c value ans).2 = { s with effective } := by
  cases ans with
  | busy => exact ⟨rfl, _, rfl⟩
  | failed status => exact ⟨rfl, _, rfl⟩
  | done eff => exact ⟨rfl, _, rfl⟩

theorem applyImage_of_error {c : ImageControl} {value : ℤ} {e : ApplyMode × String}
    (h : s.checkImage c value = .error e) (record fromOverride : Bool) (ans : Answers) :
    s.applyImage c value record fromOverride ans = (.rejected e.1 e.2, s) := by
  unfold applyImage
  rw [h]

/-- A value that passes its checks is recorded, and refused only where it is written. -/
theorem applyImage_of_ok {c : ImageControl} {value : ℤ} (h : s.checkImage c value = .ok ())
    (record fromOverride : Bool) (ans : Answers) :
    ((s.applyImage c value record fromOverride ans).1.ok = false ↔
      (fromOverride = true ∨ s.override c < 0) ∧ ans.image.isFailed = true) ∧
    ∃ effective, (s.applyImage c value record fromOverride ans).2 =
      { s with
        requested := if record then update s.requested c value else s.requested
        effective } := by
  have hrecord : (if record then { s with requested := update s.requested c value } else s) =
      { s with requested := if record then update s.requested c value else s.requested } := by
    cases record with
    | true => rfl
    | false => rfl
  unfold applyImage
  rw [h]
  dsimp only
  rw [hrecord]
  by_cases hheld : 0 ≤ (if fromOverride = true then -1 else s.override c)
  · rw [if_pos hheld]
    refine ⟨?_, _, rfl⟩
    cases fromOverride with
    | true => exact absurd hheld (by rw [if_pos rfl]; decide)
    | false => simpa [ApplyResult.stored] using fun h => absurd h (not_lt.mpr hheld)
  · rw [if_neg hheld]
    obtain ⟨hok, heff⟩ := liveImage_cases (s := { s with
      requested := if record then update s.requested c value else s.requested }) c value ans.image
    refine ⟨?_, heff⟩
    have hfree : fromOverride = true ∨ s.override c < 0 := by
      cases fromOverride with
      | true => exact .inl rfl
      | false => exact .inr (not_le.mp hheld)
    rw [hok]
    simp [hfree]

theorem atomic_setImage_iff {c : ImageControl} {v : ℤ} {ans : Answers} :
    Atomic s (.setImage c v, ans) ↔ ¬ Leaves s (.setImage c v, ans) := by
  cases hcheck : s.checkImage c v with
  | error e =>
    have hsame : Atomic s (.setImage c v, ans) := by
      intro _
      show Unchanged s (s.applyImage c v true false ans).2
      rw [applyImage_of_error hcheck]
      exact ⟨rfl, rfl, rfl, rfl⟩
    exact iff_of_true hsame fun h => absurd (hcheck.symm.trans h.1) (by simp)
  | ok u =>
    obtain ⟨hok, effective, hstate⟩ := applyImage_of_ok hcheck true false ans
    show ((s.applyImage c v true false ans).1.ok = false →
      Unchanged s (s.applyImage c v true false ans).2) ↔ _
    rw [hok, hstate]
    have hkept : Unchanged s { s with requested := update s.requested c v, effective } ↔
        s.requested c = v :=
      ⟨fun h => update_eq_self.mp h.1, fun h => ⟨update_eq_self.mpr h, rfl, rfl, rfl⟩⟩
    show (_ → Unchanged s { s with requested := update s.requested c v, effective }) ↔ _
    rw [hkept]
    constructor
    · exact fun h hl => hl.2.2.2 (h ⟨.inr hl.2.1, hl.2.2.1⟩)
    · intro h hfail
      by_contra hne
      exact h ⟨hcheck, hfail.1.resolve_left Bool.false_ne_true, hfail.2, hne⟩

theorem atomic_setImageLive (c : ImageControl) (v : ℤ) (ans : Answers) :
    Atomic s (.setImageLive c v, ans) := by
  intro _
  show Unchanged s (s.applyImage c v false false ans).2
  cases hcheck : s.checkImage c v with
  | error e =>
    rw [applyImage_of_error hcheck]
    exact ⟨rfl, rfl, rfl, rfl⟩
  | ok u =>
    obtain ⟨-, effective, hstate⟩ := applyImage_of_ok hcheck false false ans
    rw [hstate]
    exact ⟨rfl, rfl, rfl, rfl⟩

/-- The hold that was there before comes back. -/
theorem atomic_setImageOverride (c : ImageControl) (v : ℤ) (ans : Answers) :
    Atomic s (.setImageOverride c v, ans) := by
  intro hfail
  have hback : update (update s.override c v) c (s.override c) = s.override := by
    funext d
    unfold update
    split_ifs with hd
    · rw [hd]
    · rfl
  obtain ⟨effective, hstate⟩ : ∃ effective, (applyImage
      { s with override := update s.override c v } c v false true ans).2 =
      { s with override := update s.override c v, effective } := by
    cases hcheck : checkImage { s with override := update s.override c v } c v with
    | error e =>
      rw [applyImage_of_error hcheck]
      exact ⟨_, rfl⟩
    | ok u =>
      obtain ⟨-, hstate⟩ := applyImage_of_ok hcheck false true ans
      exact hstate
  show Unchanged s (s.setImageOverride c v ans).2
  change (s.setImageOverride c v ans).1.ok = false at hfail
  unfold setImageOverride at hfail ⊢
  dsimp only at hfail ⊢
  split_ifs at hfail ⊢ with hok
  · rw [hstate]
    exact ⟨rfl, hback, rfl, rfl⟩
  · exact absurd hok (by rw [hfail]; decide)

theorem applyImagesAfterStart_eq (isp : ImageControl → Live) :
    ∃ effective, s.applyImagesAfterStart isp = { s with effective } := by
  unfold applyImagesAfterStart
  dsimp only
  split_ifs
  · exact ⟨_, rfl⟩
  · exact ⟨_, rfl⟩

/-- The stream is stored in any case. -/
theorem updateStream_cases (stream : EffectiveStream) (restart : Bool) (ans : Answers) :
    (∃ effective, (s.updateStream stream restart ans).2 = { s with stream, effective }) ∧
      ((s.updateStream stream restart ans).1 =
        if restart = true ∧ ans.running = true then ans.restart else .ok ()) := by
  unfold updateStream
  dsimp only
  by_cases h : restart = true ∧ ans.running = true
  · rw [if_pos (by simp [h]), if_pos h]
    cases hr : ans.restart with
    | error err => exact ⟨⟨_, rfl⟩, rfl⟩
    | ok u => exact ⟨applyImagesAfterStart_eq ans.isp, rfl⟩
  · rw [if_neg (by simpa using h), if_neg h]
    exact ⟨⟨_, rfl⟩, rfl⟩

/-- A reset is stored before the restart, which is all that can fail. -/
theorem clearImage_of_supported {c : ImageControl} (h : (s.caps c).support = .supported)
    (ans : Answers) :
    ((s.clearImage c ans).1.ok = false ↔
      ans.running = true ∧ ∃ err, ans.restart = .error err) ∧
    ∃ effective, (s.clearImage c ans).2 =
      { s with requested := update s.requested c (-1), effective } := by
  unfold clearImage
  rw [if_neg (not_not.mpr h)]
  dsimp only
  by_cases hrun : ans.running = true
  · rw [if_pos hrun]
    obtain ⟨⟨effective, hstate⟩, hres⟩ := updateStream_cases (s := { s with
      requested := update s.requested c (-1), effective := update s.effective c (-1) }) s.stream true
      ans
    rw [if_pos ⟨rfl, hrun⟩] at hres
    generalize updateStream _ s.stream true ans = r at hstate hres ⊢
    obtain ⟨res, t⟩ := r
    dsimp only at hstate hres
    subst hstate hres
    cases hr : ans.restart with
    | error err => exact ⟨iff_of_true rfl ⟨hrun, err, rfl⟩, _, rfl⟩
    | ok u => exact ⟨iff_of_false Bool.false_ne_true.symm (by simp), _, rfl⟩
  · rw [if_neg hrun]
    exact ⟨iff_of_false Bool.false_ne_true.symm (fun h => hrun h.1), _, rfl⟩

theorem atomic_clearImage_iff {c : ImageControl} {ans : Answers} :
    Atomic s (.clearImage c, ans) ↔ ¬ Leaves s (.clearImage c, ans) := by
  by_cases hcap : (s.caps c).support = .supported
  · obtain ⟨hok, effective, hstate⟩ := clearImage_of_supported hcap ans
    show ((s.clearImage c ans).1.ok = false → Unchanged s (s.clearImage c ans).2) ↔ _
    have hkept : Unchanged s { s with requested := update s.requested c (-1), effective } ↔
        s.requested c = -1 :=
      ⟨fun h => update_eq_self.mp h.1, fun h => ⟨update_eq_self.mpr h, rfl, rfl, rfl⟩⟩
    rw [hok, hstate, hkept]
    constructor
    · exact fun h hl => hl.2.2.2 (h ⟨hl.2.1, hl.2.2.1⟩)
    · intro h hfail
      by_contra hne
      exact h ⟨hcap, hfail.1, hfail.2, hne⟩
  · have hsame : Atomic s (.clearImage c, ans) := by
      intro _
      show Unchanged s (s.clearImage c ans).2
      unfold clearImage
      rw [if_pos hcap]
      exact ⟨rfl, rfl, rfl, rfl⟩
    exact iff_of_true hsame fun h => hcap h.1

/-- The settings and the depth are the new ones whether the pipeline takes them or not. -/
theorem applyLatency_cases (target : ResolvedLatency) (requested : ℤ) (what : String)
    (ans : Answers) :
    ((s.applyLatency target requested what ans).1.ok = false ↔ s.LatencyFails target ans) ∧
      (s.applyLatency target requested what ans).2.requested = s.requested ∧
      (s.applyLatency target requested what ans).2.override = s.override ∧
      (s.applyLatency target requested what ans).2.latency = s.latency ∧
      (s.applyLatency target requested what ans).2.depth =
        defaultDepth target.consumerQueueDepth := by
  unfold applyLatency LatencyFails
  dsimp only
  by_cases hrestart : s.stream.buffers ≠ target.framesourceBuffers ∨
      s.stream.encoderBuffers ≠ target.encoderBuffers
  · rw [if_pos hrestart, if_pos hrestart]
    obtain ⟨⟨effective, hstate⟩, hres⟩ := updateStream_cases
      (s := { s with depth := defaultDepth target.consumerQueueDepth })
      { s.stream with
        gop := target.gop, buffers := target.framesourceBuffers
        encoderBuffers := target.encoderBuffers } ans.running ans
    simp only [and_self] at hres
    generalize updateStream _ _ ans.running ans = r at hstate hres ⊢
    obtain ⟨res, t⟩ := r
    dsimp only at hstate hres
    subst hstate hres
    by_cases hrun : ans.running = true
    · rw [if_pos hrun]
      cases hr : ans.restart with
      | error err => exact ⟨iff_of_true rfl ⟨hrun, err, rfl⟩, rfl, rfl, rfl, rfl⟩
      | ok u =>
        refine ⟨iff_of_false ?_ (by simp), rfl, rfl, rfl, rfl⟩
        rw [if_pos hrun]
        exact Bool.false_ne_true.symm
    · rw [if_neg hrun]
      refine ⟨iff_of_false ?_ (fun h => hrun h.1), rfl, rfl, rfl, rfl⟩
      dsimp only
      rw [if_neg hrun]
      exact Bool.false_ne_true.symm
  · rw [if_neg hrestart, if_neg hrestart]
    by_cases hgop : s.stream.gop ≠ target.gop
    · rw [if_pos hgop]
      by_cases hrun : ans.running = true
      · rw [if_pos hrun]
        unfold liveGop
        by_cases hrange : target.gop < 1 ∨ 1000 < target.gop
        · rw [if_pos hrange]
          have hfails : target.gop < 1 ∨ 1000 < target.gop ∨ ∀ eff, ans.gop ≠ .done eff :=
            hrange.imp_right .inl
          exact ⟨iff_of_true rfl ⟨hrun, hgop, hfails⟩, rfl, rfl, rfl, rfl⟩
        · rw [if_neg hrange]
          rw [not_or] at hrange
          cases hans : ans.gop with
          | busy =>
            exact ⟨iff_of_true rfl ⟨hrun, hgop, .inr (.inr (by simp))⟩, rfl, rfl, rfl, rfl⟩
          | failed status =>
            exact ⟨iff_of_true rfl ⟨hrun, hgop, .inr (.inr (by simp))⟩, rfl, rfl, rfl, rfl⟩
          | done eff =>
            refine ⟨iff_of_false Bool.false_ne_true.symm ?_, rfl, rfl, rfl, rfl⟩
            simp [hrange]
      · rw [if_neg hrun]
        exact ⟨iff_of_false Bool.false_ne_true.symm (fun h => hrun h.1), rfl, rfl, rfl, rfl⟩
    · rw [if_neg hgop]
      exact ⟨iff_of_false Bool.false_ne_true.symm (fun h => hgop h.2.1), rfl, rfl, rfl, rfl⟩

/-- An amount out of its range is refused, and any other one stored. -/
theorem performLatency_cases (op : LatencyOp) (ans : Answers) :
    (s.settings op = none ∧ (s.performLatency ans op).2 = s) ∨
      ∃ l requested what, s.settings op = some l ∧
        s.performLatency ans op = s.storeLatency l requested what ans := by
  have hbounded (n hi : ℤ) (l : LatencySettings) (r : ApplyResult) (what : String) :
      ((if n < 1 ∨ hi < n then none else some l) = none ∧
        (if n < 1 ∨ hi < n then (r, s) else s.storeLatency l n what ans).2 = s) ∨
      ∃ l' requested what', (if n < 1 ∨ hi < n then none else some l) = some l' ∧
        (if n < 1 ∨ hi < n then (r, s) else s.storeLatency l n what ans) =
          s.storeLatency l' requested what' ans := by
    split_ifs
    · exact .inl ⟨rfl, rfl⟩
    · exact .inr ⟨l, n, what, rfl, rfl⟩
  cases op with
  | setLatencyProfile p => exact .inr ⟨_, _, _, rfl, rfl⟩
  | setGop n => exact hbounded n 1000 _ _ _
  | setFramesourceBuffers n => exact hbounded n 8 _ _ _
  | setEncoderBuffers n => exact hbounded n 8 _ _ _
  | setQueueDepth n => exact hbounded n 32 _ _ _
  | clearFramesourceBuffers => exact .inr ⟨_, _, _, rfl, rfl⟩
  | clearEncoderBuffers => exact .inr ⟨_, _, _, rfl, rfl⟩
  | clearQueueDepth => exact .inr ⟨_, _, _, rfl, rfl⟩
  | refreshAfterStreamChange => exact .inr ⟨_, _, _, rfl, rfl⟩

theorem atomic_latency_iff {op : LatencyOp} {ans : Answers} :
    Atomic s (.latency op, ans) ↔ ¬ Leaves s (.latency op, ans) := by
  rcases performLatency_cases (s := s) op ans with ⟨hnone, hsame⟩ | ⟨l, requested, what, hl, heq⟩
  · have hatomic : Atomic s (.latency op, ans) := by
      intro _
      show Unchanged s (s.performLatency ans op).2
      rw [hsame]
      exact ⟨rfl, rfl, rfl, rfl⟩
    refine iff_of_true hatomic ?_
    rintro ⟨l, hl, -⟩
    rw [hnone] at hl
    exact absurd hl (by simp)
  · obtain ⟨hok, hreq, hover, hlat, hdepth⟩ :=
      applyLatency_cases (s := { s with latency := l }) (s.resolve l) requested what ans
    show ((s.performLatency ans op).1.ok = false → Unchanged s (s.performLatency ans op).2) ↔ _
    rw [heq]
    unfold storeLatency
    have hkept : Unchanged s (applyLatency { s with latency := l } (s.resolve l) requested what
        ans).2 ↔ l = s.latency ∧ defaultDepth (s.resolve l).consumerQueueDepth = s.depth := by
      unfold Unchanged
      rw [hreq, hover, hlat, hdepth]
      simp
    rw [hok, hkept]
    constructor
    · rintro h ⟨l', hl', hfails, hdiff⟩
      obtain rfl := Option.some.inj (hl.symm.trans hl')
      obtain ⟨hsame, hdepth⟩ := h hfails
      exact hdiff.elim (fun hne => hne hsame) (fun hne => hne hdepth)
    · intro h hfails
      by_contra hdiff
      exact h ⟨l, hl, hfails, not_and_or.mp hdiff⟩

end Tuning

theorem atomic_iff (s : Tuning) (i : Op × Answers) : Atomic s i ↔ ¬ Leaves s i := by
  obtain ⟨op, ans⟩ := i
  cases op with
  | setImage c v => exact Tuning.atomic_setImage_iff
  | setImageLive c v => exact iff_of_true (Tuning.atomic_setImageLive c v ans) id
  | setImageOverride c v => exact iff_of_true (Tuning.atomic_setImageOverride c v ans) id
  | clearImage c => exact Tuning.atomic_clearImage_iff
  | latency op => exact Tuning.atomic_latency_iff

/-- All along a run, from any state, refused operations change nothing exactly where no step stores
something first and then fails. -/
theorem along_atomic_iff (s : Tuning) (is : List (Op × Answers)) :
    Along step Atomic s is ↔ Along step (fun s i => ¬ Leaves s i) s is :=
  ⟨Along.mono fun s i => (atomic_iff s i).mp, Along.mono fun s i => (atomic_iff s i).mpr⟩

/-- The sensor's image processing refuses a brightness, which stays as what is asked for. -/
theorem not_along_atomic :
    ¬ Along step Atomic
      { image := true, caps := fun _ => { support := .supported, apply := .live }
        base := ⟨25, 40, 2, 0⟩, latency := {}, resolved := ⟨.normal, 40, 2, 0, 4⟩
        requested := fun _ => -1, effective := fun _ => -1, override := fun _ => -1
        stream := ⟨25, 40, 2, 0⟩, depth := 4 }
      [(.setImage .brightness 100, { running := true, image := .failed "error" })] := by
  rintro ⟨h, -⟩
  exact absurd (congrFun (h rfl).1 .brightness) (by decide)

end Machino.Media
