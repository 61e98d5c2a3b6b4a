import Machino.Lifecycle.PlatformState

namespace Machino.Lifecycle

open PipelineManager Runs

/-- `m'` is as failed as `m` was: no platform call was made and no failure counted. -/
structure StillFailed (m m' : PipelineManager) : Prop where
  state : m'.state = .failed
  failedCount : m'.failedCount = m.failedCount
  log : m'.log = m.log

namespace StillFailed

theorem trans {a b c : PipelineManager} (h : StillFailed a b) (h' : StillFailed b c) :
    StillFailed a c :=
  ⟨h'.state, h'.failedCount.trans h.failedCount, h'.log.trans h.log⟩

theorem disarmUnit {m m' : PipelineManager} (h : StillFailed m m') (i : Slot) :
    StillFailed m (disarmUnit i m') := by
  unfold PipelineManager.disarmUnit
  split
  · exact ⟨h.state, h.failedCount, h.log⟩
  · exact h

theorem disarmJpeg {m m' : PipelineManager} (h : StillFailed m m') :
    StillFailed m (disarmJpeg m') := by
  unfold PipelineManager.disarmJpeg
  split
  · exact ⟨h.state, h.failedCount, h.log⟩
  · exact h

end StillFailed

section platform

variable (platform : ℕ → Result) {m : PipelineManager}

/-- A failed base refuses every new demand. -/
theorem ensureBaseLocked_failed (hs : m.state = .failed) (unit : Option UnitId) :
    ensureBaseLocked platform unit m = (false, { m with failedRefused := true }) := by
  unfold ensureBaseLocked
  rw [hs]

theorem acquireUnit_failed (hs : m.state = .failed) (unit : UnitId) (type : ConsumerType) :
    StillFailed m (acquireUnit platform unit type m).2 := by
  unfold acquireUnit
  split
  · exact ⟨hs, rfl, rfl⟩
  · split
    · exact ⟨hs, rfl, rfl⟩
    · rw [ensureBaseLocked_failed platform hs]
      exact ⟨hs, rfl, rfl⟩

theorem acquireBase_failed (hs : m.state = .failed) (type : ConsumerType) :
    StillFailed m (acquireBase platform type m).2 := by
  unfold acquireBase
  split
  · exact ⟨hs, rfl, rfl⟩
  · rw [ensureBaseLocked_failed platform hs]
    exact ⟨hs, rfl, rfl⟩

theorem snapshotBegin_failed (hs : m.state = .failed) :
    (snapshotBegin platform m).1.isOk = false ∧ StillFailed m (snapshotBegin platform m).2 := by
  unfold snapshotBegin
  split
  · exact ⟨rfl, hs, rfl, rfl⟩
  · split
    · exact ⟨rfl, hs, rfl, rfl⟩
    · split
      · exact ⟨rfl, hs, rfl, rfl⟩
      · rw [ensureBaseLocked_failed platform hs]
        exact ⟨rfl, hs, rfl, rfl⟩

theorem updateStream_failed (hs : m.state = .failed) (s : EffectiveStream) (restart : Bool) :
    StillFailed m (updateStream platform s restart m).2 := by
  unfold updateStream
  have hcold : ¬ ((m.modifyUnit .main fun u => { u with stream := s }).state = .active ∨
      (m.modifyUnit .main fun u => { u with stream := s }).state = .graceIdle) := by
    simp [modifyUnit, hs]
  dsimp only
  rw [if_neg fun h => hcold h.1]
  exact ⟨hs, rfl, rfl⟩

/-- Nothing runs in a failed state, so the substream has nothing to restart. -/
theorem updateSubStream_failed (hi : Inv m) (hs : m.state = .failed) (s : EffectiveStream)
    (enabled : Bool) : StillFailed m (updateSubStream platform s enabled m).2 := by
  have hidle : (m.unit .sub).chain.running = false := by
    rw [(hi.cold (.inr hs)).chain .sub]
  unfold updateSubStream
  split
  · dsimp only
    rw [if_neg (by simp [hidle])]
    exact ⟨hs, rfl, rfl⟩
  · split
    · exact ⟨hs, rfl, rfl⟩
    · dsimp only
      rw [if_pos (by simp [hidle])]
      exact ⟨hs, rfl, rfl⟩

theorem release_failed (hs : m.state = .failed) (h : DemandHandle) :
    StillFailed m (m.release h) := by
  have hd : StillFailed m (dropDemand h m) := by
    unfold dropDemand
    split
    · exact ⟨hs, rfl, rfl⟩
    · exact ⟨hs, rfl, rfl⟩
  have hna : (dropDemand h m).state ≠ .active := by simp [hd.state]
  unfold release
  split
  · rw [if_neg fun hc => hna hc.2.2]
    exact hd
  · dsimp only
    split
    · exact hd
    · rw [if_neg fun hc => hna hc.2, if_neg fun hc => hna hc.2.2]
      exact hd

theorem snapshotEnd_failed (hs : m.state = .failed) : StillFailed m m.snapshotEnd := by
  have hna : (dropSnapshot m).state ≠ .active := by simp [dropSnapshot, hs]
  unfold snapshotEnd
  dsimp only
  split
  · exact ⟨hs, rfl, rfl⟩
  · rw [if_neg fun hc => hna hc.2, if_neg fun hc => hna hc.2.2]
    exact ⟨hs, rfl, rfl⟩

theorem onGraceTimeout_failed (hs : m.state = .failed) : StillFailed m (onGraceTimeout m) := by
  unfold onGraceTimeout
  rw [if_pos (.inl (by simp [hs]))]
  exact ⟨hs, rfl, rfl⟩

theorem onUnitGrace_failed (hs : m.state = .failed) (i : Slot) :
    StillFailed m (onUnitGrace i m) := by
  have hna : (m.modifyUnit i fun u => { u with graceArmed := false }).state ≠ .active := by
    simp [modifyUnit, hs]
  unfold onUnitGrace
  dsimp only
  rw [if_neg fun hc => hna hc.2.2]
  exact ⟨hs, rfl, rfl⟩

theorem onJpegGrace_failed (hs : m.state = .failed) : StillFailed m (onJpegGrace m) := by
  unfold onJpegGrace
  dsimp only
  rw [if_neg fun hc => absurd (hs.symm.trans hc.2.2) (by decide)]
  exact ⟨hs, rfl, rfl⟩

theorem setJpegEnabled_failed (hs : m.state = .failed) (on : Bool) :
    StillFailed m (setJpegEnabled on m) := by
  unfold setJpegEnabled
  split
  · exact ⟨hs, rfl, rfl⟩
  · dsimp only
    rw [if_neg fun hc => absurd (hs.symm.trans hc.2.2.2) (by decide)]
    exact ⟨hs, rfl, rfl⟩

theorem shutDown_failed (hs : m.state = .failed) : StillFailed m m.shutDown := by
  have h : StillFailed m { m with shutdown := true, timer := m.timer.disarm } := ⟨hs, rfl, rfl⟩
  have hd := ((h.disarmUnit .main).disarmUnit .sub).disarmJpeg
  unfold shutDown
  dsimp only
  rw [if_neg (by simp [hd.state])]
  exact hd

theorem recordCapture_failed (hs : m.state = .failed) (t0 now : Int) (r : Result)
    (image : List UInt8) : StillFailed m (recordCapture t0 now r image m) := by
  unfold recordCapture
  split
  · exact ⟨hs, rfl, rfl⟩
  · exact ⟨hs, rfl, rfl⟩

theorem StillFailed.step {s : Sys} (h : SysInv s) (hs : s.mgr.state = .failed) (op : Op) :
    StillFailed s.mgr (s.step platform op).mgr := by
  unfold Sys.step
  cases op with
  | acquireUnit unit type => exact acquireUnit_failed platform hs unit type
  | acquireBase type => exact acquireBase_failed platform hs type
  | release hd =>
    dsimp only
    split
    · exact release_failed hs hd
    · exact ⟨hs, rfl, rfl⟩
  | onGraceTimeout fired =>
    cases fired with
    | true =>
      have hf := onGraceTimeout_failed (m := Sys.expireBase s.mgr) hs
      exact ⟨hf.state, hf.failedCount, hf.log⟩
    | false => exact onGraceTimeout_failed hs
  | onUnitGrace i fired =>
    cases fired with
    | true =>
      have hf := onUnitGrace_failed (m := Sys.expireUnit i s.mgr) hs i
      exact ⟨hf.state, hf.failedCount, hf.log⟩
    | false => exact onUnitGrace_failed hs i
  | onJpegGrace fired =>
    cases fired with
    | true =>
      have hf := onJpegGrace_failed (m := Sys.expireJpeg s.mgr) hs
      exact ⟨hf.state, hf.failedCount, hf.log⟩
    | false => exact onJpegGrace_failed hs
  | snapshotBegin =>
    obtain ⟨hr, hf⟩ := snapshotBegin_failed platform hs
    dsimp only
    rw [if_neg (by simp [hr])]
    exact hf
  | snapshotCapture k now maxAgeMs =>
    -- no encoder outlives the failure, so a capture finds none to ask
    have henc : s.mgr.jpeg.enc = none := (h.inv.cold (.inr hs)).enc
    rcases mgr_capture s k now maxAgeMs with he | ⟨e, he, -⟩
    · rw [he]
      exact ⟨hs, rfl, rfl⟩
    · rw [henc] at he
      cases he
  | snapshotCaptured k r image now =>
    rcases mgr_captured s k r image now with he | ⟨t0, r', he⟩
    · rw [he]
      exact ⟨hs, rfl, rfl⟩
    · rw [he]
      exact recordCapture_failed hs _ _ _ _
  | snapshotEnd k =>
    dsimp only
    split
    · exact snapshotEnd_failed hs
    · exact ⟨hs, rfl, rfl⟩
  | updateStream st restart => exact updateStream_failed platform hs st restart
  | updateSubStream st enabled => exact updateSubStream_failed platform h.inv hs st enabled
  | setJpegEnabled on => exact setJpegEnabled_failed hs on
  | configureSub st hasTimer => exact ⟨hs, rfl, rfl⟩
  | setUnitGraceTimer i hasTimer => exact ⟨hs, rfl, rfl⟩
  | configureJpeg p cacheMs graceMs hasTimer => exact ⟨hs, rfl, rfl⟩
  | setSensorFpsTarget fps => exact ⟨hs, rfl, rfl⟩
  | setPostStartHook set => exact ⟨hs, rfl, rfl⟩
  | shutDown => exact shutDown_failed hs

end platform

/-- Once a run has failed the manager, nothing brings it back: whatever follows makes no call to
the platform at all and counts no further failure. -/
theorem failed_run (platform : ℕ → Result) (stream : EffectiveStream) (cfg : LifecycleConfig)
    (ops : List Op) (hs : ((Sys.create stream cfg).run platform ops).mgr.state = .failed)
    (later : List Op) :
    StillFailed ((Sys.create stream cfg).run platform ops).mgr
      ((Sys.create stream cfg).run platform (ops ++ later)).mgr := by
  have hi := SysInv.run platform stream cfg ops
  have hrun : (Sys.create stream cfg).run platform (ops ++ later) =
      ((Sys.create stream cfg).run platform ops).run platform later := run_append ..
  rw [hrun]
  generalize (Sys.create stream cfg).run platform ops = s at hs hi
  -- each further operation starts from a failed state in which the invariant holds
  have hstep (t : Sys) (op : Op) (ht : SysInv t ∧ StillFailed s.mgr t.mgr) :
      SysInv (t.step platform op) ∧ StillFailed s.mgr (t.step platform op).mgr :=
    ⟨ht.1.step platform op, ht.2.trans (.step platform ht.1 ht.2.state op)⟩
  exact (run_invariant hstep ⟨hi, hs, rfl, rfl⟩ later).2

/-- A bring-up the platform refuses, and then every kind of later request. -/
theorem failed_run_refused :
    StillFailed ((Sys.create {} {}).run (fun _ => .error) [.acquireUnit .main .rtsp]).mgr
      ((Sys.create {} {}).run (fun _ => .error)
        ([.acquireUnit .main .rtsp] ++ [.acquireUnit .main .rtsp, .snapshotBegin,
          .updateStream {} true, .shutDown])).mgr :=
  failed_run _ _ _ _ rfl _

end Machino.Lifecycle
