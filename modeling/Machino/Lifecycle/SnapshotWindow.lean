import Machino.Lifecycle.PlatformState

namespace Machino.Lifecycle

open PipelineManager Runs

/-- The encoder a snapshot began with is still there, and is the one its capture asks. -/
structure Snapshot.Window (m : PipelineManager) (sn : Snapshot) : Prop where
  some : sn.enc.isSome = true
  alive : m.jpeg.enc = sn.enc
  used : ∀ p t0, sn.phase = .capturing p t0 → p = sn.enc

/-- No snapshot in flight has lost its encoder. -/
def SnapshotWindow (s : Sys) : Prop := ∀ sn ∈ s.snaps, sn.Window s.mgr

/-- The step does not take the base down over a snapshot in flight. -/
def KeepsWindow (s : Sys) : Op → Prop
  | .updateStream _ restart => restart = true → s.snaps = []
  | .shutDown => s.snaps = []
  | _ => True

instance (s : Sys) : DecidablePred (KeepsWindow s)
  | .updateStream _ restart => inferInstanceAs (Decidable (restart = true → s.snaps = []))
  | .shutDown => inferInstanceAs (Decidable (s.snaps = []))
  | .acquireUnit .. | .acquireBase .. | .release .. | .onGraceTimeout .. | .onUnitGrace ..
  | .onJpegGrace .. | .snapshotBegin | .snapshotCapture .. | .snapshotCaptured .. | .snapshotEnd ..
  | .updateSubStream .. | .setJpegEnabled .. | .configureSub .. | .setUnitGraceTimer ..
  | .configureJpeg .. | .setSensorFpsTarget .. | .setPostStartHook .. => isTrue trivial

/-- A snapshot encoder in demand stands in an active pipeline. -/
theorem Inv.active_of_demand {m : PipelineManager} (h : Inv m) (hd : 0 < m.jpeg.demand)
    (he : m.jpeg.enc.isSome = true) : m.state = .active := by
  have hcold (hc : Cold m) : False := by simp [hc.enc] at he
  rcases h.state_cases with hs | hs | hs | hs
  · exact (hcold (h.cold (.inl hs))).elim
  · exact (hcold (h.cold (.inr hs))).elim
  · exact hs
  · have hz := (h.grace hs).2.2.1
    unfold totalAll at hz
    omega

theorem totalAll_ne_of_demand {m : PipelineManager} (h : 0 < m.jpeg.demand) : m.totalAll ≠ 0 := by
  unfold totalAll
  omega

theorem jpeg_disarmUnit (i : Slot) (m : PipelineManager) : (disarmUnit i m).jpeg = m.jpeg := by
  unfold disarmUnit
  split <;> rfl

theorem jpeg_release (hd : DemandHandle) {m : PipelineManager} (hj : 0 < m.jpeg.demand) :
    (release hd m).jpeg = m.jpeg := by
  unfold release
  have hdrop : (dropDemand hd m).jpeg = m.jpeg := by
    unfold dropDemand
    split <;> rfl
  have hne : (dropDemand hd m).totalAll ≠ 0 := totalAll_ne_of_demand (by rw [hdrop]; exact hj)
  generalize dropDemand hd m = m₁ at hdrop hne ⊢
  match hd.unit.slot with
  | none =>
    dsimp only
    rw [if_neg fun hc => hne hc.2.1]
    exact hdrop
  | some i =>
    dsimp only
    rw [if_neg fun hc : m₁.totalAll = 0 ∧ _ => hne hc.1]
    split
    · exact hdrop
    split
    · split
      · exact hdrop
      · exact ((stopUnitLocked_step i m₁).jpeg).trans hdrop
    · exact hdrop

theorem jpeg_onGraceTimeout {m : PipelineManager} (hj : 0 < m.jpeg.demand) :
    (onGraceTimeout m).jpeg = m.jpeg := by
  unfold onGraceTimeout
  rw [if_pos (.inr (Nat.pos_of_ne_zero (totalAll_ne_of_demand hj)))]

theorem jpeg_onUnitGrace (i : Slot) (m : PipelineManager) : (onUnitGrace i m).jpeg = m.jpeg := by
  unfold onUnitGrace
  dsimp only
  split
  · exact (stopUnitLocked_step i _).jpeg
  · rfl

theorem enc_onJpegGrace {m : PipelineManager} (hj : 0 < m.jpeg.demand) :
    (onJpegGrace m).jpeg.enc = m.jpeg.enc := by
  unfold onJpegGrace
  dsimp only
  rw [if_neg fun hc => by omega]

theorem enc_setJpegEnabled (on : Bool) {m : PipelineManager} (hj : 0 < m.jpeg.demand) :
    (setJpegEnabled on m).jpeg.enc = m.jpeg.enc := by
  unfold setJpegEnabled
  split
  · rfl
  dsimp only
  rw [if_neg fun hc => by omega]

theorem enc_snapshotEnd {m : PipelineManager} (hj : 1 < m.jpeg.demand) :
    (snapshotEnd m).jpeg.enc = m.jpeg.enc := by
  unfold snapshotEnd
  have hd : (dropSnapshot m).jpeg.demand = m.jpeg.demand - 1 := rfl
  have he : (dropSnapshot m).jpeg.enc = m.jpeg.enc := rfl
  generalize dropSnapshot m = m₁ at hd he ⊢
  have hne : m₁.totalAll ≠ 0 := totalAll_ne_of_demand (by omega)
  dsimp only
  split
  · exact he
  · rw [if_neg fun hc => hne hc.1, if_neg fun hc => by omega]
    exact he

section platform

variable (platform : ℕ → Result)

theorem ensureBaseLocked_active (unit : Option UnitId) {m : PipelineManager}
    (hs : m.state = .active) : ensureBaseLocked platform unit m = (true, m) := by
  unfold ensureBaseLocked
  rw [hs]

theorem failIdleBase_of_demand {m : PipelineManager} (hj : 0 < m.jpeg.demand) :
    failIdleBase m = m := by
  unfold failIdleBase
  rw [if_neg fun hc => totalAll_ne_of_demand hj hc.1]

theorem jpeg_acquireUnit (unit : UnitId) (type : ConsumerType) {m : PipelineManager} (h : Inv m)
    (hs : m.state = .active) (hj : 0 < m.jpeg.demand) :
    (acquireUnit platform unit type m).2.jpeg = m.jpeg := by
  unfold acquireUnit
  match unit.slot with
  | none => rfl
  | some i =>
    dsimp only
    split
    · rfl
    rw [ensureBaseLocked_active platform _ hs]
    dsimp only
    have hsound : Sound (disarmUnit i m) := (SameMedia.disarmUnit i m).sound h.sound
    have hstart := startUnitLocked_spec platform (hsound.chain i)
    have hjpeg := hstart.step.jpeg.trans (jpeg_disarmUnit i m)
    match hr : startUnitLocked platform i (disarmUnit i m), hjpeg with
    | (false, m₁), hjpeg =>
      dsimp only
      rw [failIdleBase_of_demand (by rw [hjpeg]; exact hj)]
      exact hjpeg
    | (true, m₁), hjpeg => exact hjpeg

theorem jpeg_acquireBase (type : ConsumerType) {m : PipelineManager} (hs : m.state = .active) :
    (acquireBase platform type m).2.jpeg = m.jpeg := by
  unfold acquireBase
  split
  · rfl
  rw [ensureBaseLocked_active platform _ hs]

theorem enc_snapshotBegin {m : PipelineManager} (hs : m.state = .active)
    (he : m.jpeg.enc.isSome = true) : (snapshotBegin platform m).2.jpeg.enc = m.jpeg.enc := by
  unfold snapshotBegin
  split
  · rfl
  split
  · rfl
  split
  · rfl
  rw [ensureBaseLocked_active platform _ hs]
  dsimp only
  have hdis : (disarmJpeg m).jpeg.enc = m.jpeg.enc := (SameMedia.disarmJpeg m).enc
  have hstart := startJpegLocked_spec platform (disarmJpeg m)
  have hkept := (hstart.kept (by rw [hdis]; exact he)).trans hdis
  match hr : startJpegLocked platform (disarmJpeg m), hstart, hkept with
  | (false, m₁), hstart, hkept =>
    have hnone := hstart.idle rfl
    rw [hkept] at hnone
    simp [hnone] at he
  | (true, m₁), _, hkept => exact hkept

theorem jpeg_updateStream (s : EffectiveStream) (m : PipelineManager) :
    (updateStream platform s false m).2.jpeg = m.jpeg := by
  unfold updateStream
  simp [modifyUnit]

theorem jpeg_updateSubStream (s : EffectiveStream) (enabled : Bool) {m : PipelineManager}
    (h : Inv m) : (updateSubStream platform s enabled m).2.jpeg = m.jpeg := by
  unfold updateSubStream
  split
  · dsimp only
    split
    · exact (stopUnitLocked_step .sub m).jpeg
    · rfl
  split
  · rfl
  dsimp only
  generalize hm : m.modifyUnit .sub _ = m₁
  have hj₁ : m₁.jpeg = m.jpeg := by subst hm; rfl
  have hi : Inv m₁ := by
    subst hm
    exact h.modifyUnit .sub (fun _ => rfl) (fun _ => rfl) fun _ => rfl
  split
  · exact hj₁
  have hj₂ := (stopUnitLocked_step .sub m₁).jpeg.trans hj₁
  have hsound₂ := hi.sound.stopUnitLocked .sub
  generalize stopUnitLocked .sub m₁ = m₂ at hj₂ hsound₂ ⊢
  have hs := startUnitLocked_spec platform (i := .sub)
    (m := { m₂ with subRestartCount := m₂.subRestartCount + 1 }) (hsound₂.chain .sub)
  have hj₃ := hs.step.jpeg.trans hj₂
  match hr : startUnitLocked platform .sub
    { m₂ with subRestartCount := m₂.subRestartCount + 1 }, hj₃ with
  | (false, m₃), hj₃ => exact hj₃
  | (true, m₃), hj₃ => exact hj₃

/-- The system invariant, and every snapshot in flight with its encoder. -/
structure WindowInv (s : Sys) : Prop where
  sys : SysInv s
  window : SnapshotWindow s

theorem WindowInv.inFlight {s : Sys} (h : WindowInv s) (hne : s.snaps ≠ []) :
    s.mgr.jpeg.demand = s.snaps.length ∧ 0 < s.mgr.jpeg.demand ∧
      s.mgr.jpeg.enc.isSome = true ∧ s.mgr.state = .active := by
  have hd : s.mgr.jpeg.demand = s.snaps.length := congrArg (fun d => d.2.1) h.sys.counters.eq
  have hpos : 0 < s.mgr.jpeg.demand := by
    rw [hd]
    exact List.length_pos_iff.mpr hne
  obtain ⟨sn, hsn⟩ := List.exists_mem_of_ne_nil _ hne
  have hw := h.window sn hsn
  have he : s.mgr.jpeg.enc.isSome = true := by
    rw [hw.alive]
    exact hw.some
  exact ⟨hd, hpos, he, h.sys.inv.active_of_demand hpos he⟩

theorem Snapshot.Window.of_enc {m m' : PipelineManager} {sn : Snapshot} (h : sn.Window m)
    (he : m'.jpeg.enc = m.jpeg.enc) : sn.Window m' := ⟨h.some, he.trans h.alive, h.used⟩

/-- A step that keeps the encoder while a snapshot is in flight. -/
theorem SnapshotWindow.of_enc {s : Sys} (h : SnapshotWindow s) {m : PipelineManager}
    (he : s.snaps ≠ [] → m.jpeg.enc = s.mgr.jpeg.enc) : ∀ sn ∈ s.snaps, sn.Window m :=
  fun sn hsn => (h sn hsn).of_enc (he (List.ne_nil_of_mem hsn))

theorem SnapshotWindow.capture {s : Sys} (h : SnapshotWindow s) (k : ℕ) (now maxAgeMs : Int) :
    SnapshotWindow (s.capture k now maxAgeMs) := by
  unfold Sys.capture
  split
  · rename_i e hk
    have hw := h ⟨e, .begun⟩ (List.mem_of_getElem? hk)
    split
    · exact h
    split
    · intro sn hsn
      rcases List.mem_or_eq_of_mem_set hsn with hsn | rfl
      · exact h sn hsn
      · refine ⟨hw.some, hw.alive, ?_⟩
        intro p t0 hp; cases hp
    · have henc : (undo s.mgr.jpeg.enc .captureJpeg s.mgr).jpeg = s.mgr.jpeg := by
        cases s.mgr.jpeg.enc <;> rfl
      intro sn hsn
      rcases List.mem_or_eq_of_mem_set hsn with hsn | rfl
      · exact (h sn hsn).of_enc (congrArg JpegUnit.enc henc)
      · -- the capture asks the encoder that is there now, which is the one from the begin
        refine ⟨hw.some, (congrArg JpegUnit.enc henc).trans hw.alive, ?_⟩
        intro p t0 hp
        cases hp
        exact hw.alive
  · exact h

theorem SnapshotWindow.captured {s : Sys} (h : SnapshotWindow s) (k : ℕ) (r : Result)
    (image : List UInt8) (now : Int) : SnapshotWindow (s.captured k r image now) := by
  unfold Sys.captured
  split
  · rename_i e p t0 hk
    have hw := h ⟨e, .capturing p t0⟩ (List.mem_of_getElem? hk)
    have henc (r : Result) :
        (recordCapture t0 now r image s.mgr).jpeg.enc = s.mgr.jpeg.enc := by
      unfold recordCapture
      dsimp only
      split <;> rfl
    intro sn hsn
    rcases List.mem_or_eq_of_mem_set hsn with hsn | rfl
    · exact (h sn hsn).of_enc (henc _)
    · refine ⟨hw.some, (henc _).trans hw.alive, ?_⟩
      intro p t0 hp; cases hp
  · exact h

theorem WindowInv.snapshotBegin {s : Sys} (h : WindowInv s) :
    SnapshotWindow (s.step platform .snapshotBegin) := by
  have hr := snapshotBegin_spec platform h.sys.inv
  have hkept (hne : s.snaps ≠ []) :
      (PipelineManager.snapshotBegin platform s.mgr).2.jpeg.enc = s.mgr.jpeg.enc := by
    obtain ⟨-, -, he, hs⟩ := h.inFlight hne
    exact enc_snapshotBegin platform hs he
  unfold Sys.step
  dsimp only
  split
  · rename_i hok
    intro sn hsn
    rcases List.mem_append.mp hsn with hsn | hsn
    · exact h.window.of_enc hkept sn hsn
    · obtain rfl := List.mem_singleton.mp hsn
      refine ⟨(hr.granted hok).2, rfl, ?_⟩
      intro p t0 hp; cases hp
  · exact h.window.of_enc hkept

theorem WindowInv.snapshotEnd {s : Sys} (h : WindowInv s) (k : ℕ) :
    SnapshotWindow (s.step platform (.snapshotEnd k)) := by
  unfold Sys.step
  dsimp only
  split
  · rename_i r hk
    have hlt : k < s.snaps.length := (List.getElem?_eq_some_iff.mp hk).1
    intro sn hsn
    have hmem : sn ∈ s.snaps := List.mem_of_mem_eraseIdx hsn
    refine (h.window sn hmem).of_enc (enc_snapshotEnd ?_)
    -- the one that ends was not the last
    have hpos := List.length_pos_of_mem hsn
    rw [List.length_eraseIdx_of_lt hlt] at hpos
    rw [(h.inFlight (List.ne_nil_of_mem hmem)).1]
    omega
  · exact h.window

theorem WindowInv.step {s : Sys} (h : WindowInv s) {op : Op} (hok : KeepsWindow s op) :
    WindowInv (s.step platform op) := by
  refine ⟨h.sys.step platform op, ?_⟩
  have hi := h.sys.inv
  have hf (hne : s.snaps ≠ []) := h.inFlight hne
  cases op with
  | acquireUnit unit type =>
    refine h.window.of_enc fun hne => ?_
    obtain ⟨-, hpos, -, hs⟩ := hf hne
    exact congrArg JpegUnit.enc (jpeg_acquireUnit platform unit type hi hs hpos)
  | acquireBase type =>
    refine h.window.of_enc fun hne => ?_
    exact congrArg JpegUnit.enc (jpeg_acquireBase platform type (hf hne).2.2.2)
  | release hd =>
    unfold Sys.step
    dsimp only
    split
    · refine h.window.of_enc fun hne => ?_
      exact congrArg JpegUnit.enc (jpeg_release hd (hf hne).2.1)
    · exact h.window
  | onGraceTimeout fired =>
    refine h.window.of_enc fun hne => ?_
    have hpos := (hf hne).2.1
    cases fired
    · exact congrArg JpegUnit.enc (jpeg_onGraceTimeout hpos)
    · exact congrArg JpegUnit.enc (jpeg_onGraceTimeout (m := Sys.expireBase s.mgr) hpos)
  | onUnitGrace i fired =>
    refine h.window.of_enc fun _ => ?_
    cases fired
    · exact congrArg JpegUnit.enc (jpeg_onUnitGrace i s.mgr)
    · exact congrArg JpegUnit.enc (jpeg_onUnitGrace i (Sys.expireUnit i s.mgr))
  | onJpegGrace fired =>
    refine h.window.of_enc fun hne => ?_
    have hpos := (hf hne).2.1
    cases fired
    · exact enc_onJpegGrace hpos
    · exact enc_onJpegGrace (m := Sys.expireJpeg s.mgr) hpos
  | snapshotBegin => exact h.snapshotBegin platform
  | snapshotCapture k now maxAgeMs => exact h.window.capture k now maxAgeMs
  | snapshotCaptured k r image now => exact h.window.captured k r image now
  | snapshotEnd k => exact h.snapshotEnd platform k
  | updateStream st restart =>
    refine h.window.of_enc fun hne => ?_
    match restart, hok with
    | true, hok => exact absurd (hok rfl) hne
    | false, _ => exact congrArg JpegUnit.enc (jpeg_updateStream platform st s.mgr)
  | updateSubStream st enabled =>
    refine h.window.of_enc fun _ => ?_
    exact congrArg JpegUnit.enc (jpeg_updateSubStream platform st enabled hi)
  | setJpegEnabled on =>
    exact h.window.of_enc fun hne => enc_setJpegEnabled on (hf hne).2.1
  | shutDown => exact h.window.of_enc fun hne => absurd hok hne
  | configureSub st hasTimer => exact h.window.of_enc fun _ => rfl
  | setUnitGraceTimer i hasTimer => exact h.window.of_enc fun _ => rfl
  | configureJpeg p cacheMs graceMs hasTimer => exact h.window.of_enc fun _ => rfl
  | setSensorFpsTarget fps => exact h.window.of_enc fun _ => rfl
  | setPostStartHook set => exact h.window.of_enc fun _ => rfl

/-- As long as no restart and no shutdown takes the base down over a snapshot in flight, no
snapshot loses its encoder between its begin and its end. -/
theorem snapshot_window_run (stream : EffectiveStream) (cfg : LifecycleConfig) (ops : List Op)
    (h : Along (Sys.step platform) KeepsWindow (Sys.create stream cfg) ops) :
    Always (Sys.step platform) SnapshotWindow (Sys.create stream cfg) ops := by
  have h0 : WindowInv (Sys.create stream cfg) := by
    refine ⟨.create stream cfg, ?_⟩
    intro sn hsn; cases hsn
  exact (always_of_along (fun s op hs hok => hs.step platform hok) h0 h).mono fun s hs => hs.window

end platform

/-- A capture in flight beside a second one, a released stream and a grace that runs out. -/
theorem snapshot_window_run_two :
    Always (Sys.step fun _ => .ok) SnapshotWindow (Sys.create {} {})
      [.configureJpeg {} 300 2000 true, .acquireUnit .main .rtsp, .snapshotBegin, .snapshotBegin,
        .snapshotCapture 0 5 (-1), .release ⟨.rtsp, .main⟩, .onJpegGrace true,
        .snapshotCaptured 0 .ok [1] 6, .snapshotEnd 0, .snapshotCapture 0 7 (-1)] :=
  snapshot_window_run _ _ _ _ (by decide)

/-- A stream restart replaces the encoder under a capture. -/
theorem not_snapshotWindow_updateStream :
    ¬ SnapshotWindow ((Sys.create {} {}).run (fun _ => .ok)
      [.configureJpeg {} 300 2000 true, .snapshotBegin, .snapshotCapture 0 5 (-1),
        .updateStream {} true]) := by
  intro h
  have hw := (h ⟨some 1, .capturing (some 1) 5⟩ (by decide)).alive
  revert hw
  decide

end Machino.Lifecycle
