import Machino.Lifecycle.Invariant

namespace Machino.Lifecycle

open PipelineManager

abbrev Demands := (Slot → (ConsumerType → ℕ) × ℕ) × ℕ × ℕ

/-- The counters with one more demand of the handle's kind. -/
def addDemand (h : DemandHandle) (d : Demands) : Demands :=
  match h.unit.slot with
  | some i => (Function.update d.1 i
      (Function.update (d.1 i).1 h.type ((d.1 i).1 h.type + 1), (d.1 i).2 + 1), d.2)
  | none => (d.1, d.2.1, d.2.2 + 1)

def subDemand (h : DemandHandle) (d : Demands) : Demands :=
  match h.unit.slot with
  | some i => (Function.update d.1 i
      (Function.update (d.1 i).1 h.type ((d.1 i).1 h.type - 1), (d.1 i).2 - 1), d.2)
  | none => (d.1, d.2.1, d.2.2 - 1)

theorem totalAll_pos {m : PipelineManager} {i : Slot} (h : 0 < (m.unit i).total) :
    0 < m.totalAll := by
  unfold totalAll
  cases i <;> omega

theorem demands_modifyUnit_total (m : PipelineManager) (i : Slot)
    (f : StreamUnit → StreamUnit) (d : (ConsumerType → ℕ) × ℕ)
    (hf : ((f (m.unit i)).demand, (f (m.unit i)).total) = d) :
    demands (m.modifyUnit i f) = (Function.update (demands m).1 i d, (demands m).2) := by
  refine Prod.ext (funext fun j => ?_) rfl
  by_cases hj : j = i
  · subst hj; simpa [demands] using hf
  · simp [demands, hj]

section platform

variable (platform : ℕ → Result)

/-- What an acquire does: the handle it gives out is counted, a refusal counts nothing. -/
structure AcquireSpec (m : PipelineManager)
    (r : (Option DemandHandle × Result) × PipelineManager) : Prop where
  inv : Inv r.2
  refused : r.1.1 = none → demands r.2 = demands m
  granted : ∀ h, r.1.1 = some h → h.unit ≠ .jpeg ∧ demands r.2 = addDemand h (demands m)

theorem acquireUnit_spec (unit : UnitId) (type : ConsumerType) {m : PipelineManager} (h : Inv m) :
    AcquireSpec m (acquireUnit platform unit type m) := by
  unfold acquireUnit
  match hslot : unit.slot with
  | none => exact ⟨h, fun _ => rfl, by simp⟩
  | some i =>
    dsimp only
    split
    · exact ⟨h, fun _ => rfl, by simp⟩
    · rename_i hok
      have hsd : m.shutdown = false := by simp_all
      have he := ensureBaseLocked_spec platform (some unit) h hsd
      match hr : ensureBaseLocked platform (some unit) m, he with
      | (false, m₁), he => exact ⟨he.refused rfl, fun _ => he.demands, by simp⟩
      | (true, m₁), he =>
        have hw : Warm (disarmUnit i m₁) := (SameMedia.disarmUnit i m₁).warm (he.warm rfl)
        have hd : demands (disarmUnit i m₁) = demands m :=
          (demands_disarmUnit i m₁).trans he.demands
        have hs := startUnitLocked_spec platform (hw.sound.chain i)
        have hw₂ := hw.startUnitLocked platform i
        have hd₂ := (demands_of_books hs.step.books).trans hd
        dsimp only
        match hr₂ : startUnitLocked platform i (disarmUnit i m₁), hw₂, hd₂ with
        -- the unit refused, so a base that only came up for it goes down again
        | (false, m₂), hw₂, hd₂ =>
          exact ⟨hw₂.failIdleBase, fun _ => (demands_failIdleBase m₂).trans hd₂, by simp⟩
        | (true, m₂), hw₂, hd₂ =>
          refine ⟨?_, by simp, ?_⟩
          · refine Warm.inv (SameMedia.warm (.modifyUnit m₂ i ?_) hw₂) (totalAll_pos (i := i) ?_)
            · intro _; rfl
            · simp
          · rintro _ ⟨⟩
            refine ⟨?_, ?_⟩
            · rintro rfl
              cases hslot
            · unfold addDemand
              rw [hslot]
              dsimp only
              rw [demands_modifyUnit_total m₂ i _ _ rfl, ← hd₂]
              rfl

theorem acquireBase_spec (type : ConsumerType) {m : PipelineManager} (h : Inv m) :
    AcquireSpec m (acquireBase platform type m) := by
  unfold acquireBase
  split
  · exact ⟨h, fun _ => rfl, by simp⟩
  · rename_i hsd
    have he := ensureBaseLocked_spec platform none h (by simpa using hsd)
    match hr : ensureBaseLocked platform none m, he with
    | (false, m₁), he => exact ⟨he.refused rfl, fun _ => he.demands, by simp⟩
    | (true, m₁), he =>
      have hw := he.warm rfl
      refine ⟨?_, by simp, ?_⟩
      · have hs : SameMedia m₁ { m₁ with aiDemand := m₁.aiDemand + 1 } :=
          ⟨fun _ => rfl, rfl, rfl, rfl, rfl, rfl⟩
        refine (hs.warm hw).inv ?_
        unfold totalAll
        dsimp only
        omega
      · rintro _ ⟨⟩
        refine ⟨by simp, ?_⟩
        have hd := he.demands
        unfold addDemand
        rw [← hd]
        rfl

end platform

theorem totalAll_sub_le {m m' : PipelineManager} (hm : ∀ i, (m'.unit i).total ≤ (m.unit i).total)
    (hj : m'.jpeg.demand ≤ m.jpeg.demand) (ha : m'.aiDemand ≤ m.aiDemand) :
    m'.totalAll ≤ m.totalAll := by
  have h₁ := hm .main
  have h₂ := hm .sub
  unfold totalAll
  omega

/-- Demand has gone from `m` to `m'`; the last of it sends an active base into its grace. -/
theorem Inv.lessDemand {m m' : PipelineManager} (h : Inv m) (hs : SameMedia m m')
    (hle : m'.totalAll ≤ m.totalAll) (hne : ¬ (m'.totalAll = 0 ∧ m'.state = .active)) :
    Inv m' := by
  refine hs.inv h (fun hst => ?_) fun hz => by omega
  exact Nat.pos_of_ne_zero fun h0 => hne ⟨h0, hs.state.trans hst⟩

theorem SameMedia.dropDemand (hd : DemandHandle) (m : PipelineManager) :
    SameMedia m (dropDemand hd m) := by
  unfold PipelineManager.dropDemand
  split
  · exact ⟨fun _ => rfl, rfl, rfl, rfl, rfl, rfl⟩
  · refine .modifyUnit m _ ?_
    intro _; rfl

theorem totalAll_dropDemand_le (hd : DemandHandle) (m : PipelineManager) :
    (dropDemand hd m).totalAll ≤ m.totalAll := by
  unfold dropDemand
  split
  · exact totalAll_sub_le (fun _ => le_rfl) le_rfl (Nat.sub_le _ _)
  · rename_i i _
    refine totalAll_sub_le (fun j => ?_) le_rfl le_rfl
    by_cases hj : j = i
    · subst hj; simp
    · simp [hj]

theorem Inv.release {m : PipelineManager} (h : Inv m) (hd : DemandHandle) :
    Inv (release hd m) := by
  unfold PipelineManager.release
  have hs := SameMedia.dropDemand hd m
  have hle := totalAll_dropDemand_le hd m
  generalize PipelineManager.dropDemand hd m = m₁ at hs hle ⊢
  have hactive (hst : m₁.state = .active) : Warm m₁ := hs.warm (h.warm (hs.state.symm.trans hst))
  -- what is left of the demand decides between grace and carrying on
  match hd.unit.slot with
  | none =>
    dsimp only
    split
    · rename_i hc
      exact .enterGrace (hactive hc.2.2) hc.2.1
    · rename_i hc
      refine h.lessDemand hs hle fun ⟨hz, hst⟩ => hc ⟨?_, hz, hst⟩
      simp [(hactive hst).shutdown]
  | some i =>
    dsimp only
    split
    · rename_i hsd
      refine h.lessDemand hs hle fun ⟨_, hst⟩ => ?_
      simp [(hactive hst).shutdown] at hsd
    split
    · rename_i hc
      exact .enterGrace (hactive hc.2) hc.1
    rename_i hc
    have hi := h.lessDemand hs hle hc
    split
    · split
      · exact hi.modifyUnit i (fun _ => rfl) (fun _ => rfl) fun _ => rfl
      · exact hi.stopUnitLocked i
    · exact hi

theorem demands_stopUnitLocked (i : Slot) (m : PipelineManager) :
    demands (stopUnitLocked i m) = demands m := demands_of_books (stopUnitLocked_step i m).books

theorem demands_stopJpegLocked (m : PipelineManager) :
    demands (stopJpegLocked m) = demands m := demands_of_books (stopJpegLocked_books m)

theorem demands_dropDemand (hd : DemandHandle) (m : PipelineManager) :
    demands (dropDemand hd m) = subDemand hd (demands m) := by
  unfold dropDemand subDemand
  match hd.unit.slot with
  | none => rfl
  | some i => exact demands_modifyUnit_total m i _ _ rfl

theorem demands_release (hd : DemandHandle) (m : PipelineManager) :
    demands (release hd m) = subDemand hd (demands m) := by
  rw [← demands_dropDemand]
  unfold release
  generalize dropDemand hd m = m₁
  match hd.unit.slot with
  | none =>
    dsimp only
    split
    · exact demands_enterGrace _
    · rfl
  | some i =>
    dsimp only
    split
    · rfl
    split
    · exact demands_enterGrace m₁
    split
    · split
      · exact demands_modifyUnit m₁ i (fun _ => rfl) fun _ => rfl
      · exact demands_stopUnitLocked i m₁
    · rfl

theorem Inv.onGraceTimeout {m : PipelineManager} (h : Sound m)
    (hi : m.state ≠ .graceIdle ∨ 0 < m.totalAll → Inv m) : Inv (onGraceTimeout m) := by
  unfold PipelineManager.onGraceTimeout
  split
  · rename_i hc
    exact hi hc
  · exact h.baseDown (.inl rfl)

theorem demands_onGraceTimeout (m : PipelineManager) :
    demands (onGraceTimeout m) = demands m := by
  unfold onGraceTimeout
  split
  · rfl
  · exact demands_baseDown m .coldIdle

theorem Inv.onUnitGrace {m : PipelineManager} (h : Inv m) (i : Slot) : Inv (onUnitGrace i m) := by
  unfold PipelineManager.onUnitGrace
  have hi : Inv (m.modifyUnit i fun u => { u with graceArmed := false }) :=
    h.modifyUnit i (fun _ => rfl) (fun _ => rfl) fun _ => rfl
  dsimp only
  split
  · exact hi.stopUnitLocked i
  · exact hi

theorem demands_onUnitGrace (i : Slot) (m : PipelineManager) :
    demands (onUnitGrace i m) = demands m := by
  unfold onUnitGrace
  have hd : demands (m.modifyUnit i fun u => { u with graceArmed := false }) = demands m :=
    demands_modifyUnit m i (fun _ => rfl) fun _ => rfl
  dsimp only
  split
  · exact (demands_stopUnitLocked i _).trans hd
  · exact hd

theorem Inv.onJpegGrace {m : PipelineManager} (h : Inv m) : Inv (onJpegGrace m) := by
  unfold PipelineManager.onJpegGrace
  have hi : Inv { m with jpeg := { m.jpeg with graceArmed := false } } := h.withJpeg rfl rfl
  dsimp only
  split
  · exact hi.stopJpegLocked
  · exact hi

theorem demands_onJpegGrace (m : PipelineManager) : demands (onJpegGrace m) = demands m := by
  unfold onJpegGrace
  dsimp only
  split
  · exact demands_stopJpegLocked _
  · rfl

/-- The timers a shutdown cancels before it looks at the state. -/
theorem shutDown_eq (m : PipelineManager) :
    ∃ m₁, shutDown m = (if m₁.state = .active ∨ m₁.state = .graceIdle then
        (stopBaseLocked (m₁.transition .stopping)).transition .coldIdle else m₁) ∧
      (Sound m → Sound m₁) ∧ (Cold m → Cold m₁) ∧ demands m₁ = demands m ∧
      m₁.state = m.state ∧ m₁.jpeg.enc = m.jpeg.enc := by
  refine ⟨_, rfl, ?_⟩
  generalize hm : { m with shutdown := true, timer := m.timer.disarm } = m₀
  have hs := (SameMedia.disarmUnit .main m₀).trans ((SameMedia.disarmUnit .sub _).trans
    (SameMedia.disarmJpeg (disarmUnit .sub (disarmUnit .main m₀))))
  have hd := (demands_disarmJpeg (disarmUnit .sub (disarmUnit .main m₀))).trans
    ((demands_disarmUnit .sub _).trans (demands_disarmUnit .main m₀))
  subst hm
  exact ⟨fun h => hs.sound (h.of_eq (fun _ => rfl) rfl (fun _ => rfl) rfl),
    fun h => hs.cold (h.of_eq (fun _ => rfl) rfl rfl), hd, hs.state, hs.enc⟩

theorem Inv.shutDown {m : PipelineManager} (h : Inv m) : Inv (shutDown m) := by
  obtain ⟨m₁, heq, hsound, hcold, -, hst, -⟩ := shutDown_eq m
  rw [heq]
  split
  · exact (hsound h.sound).baseDown (.inl rfl)
  · rename_i hne
    have hcf : m.state = .coldIdle ∨ m.state = .failed := by
      rw [hst] at hne
      rcases h.state_cases with hs | hs | hs | hs <;> simp_all
    exact .of_cold (hsound h.sound) (hcold (h.cold hcf)) (by rw [hst]; exact hcf)

theorem demands_shutDown (m : PipelineManager) : demands (shutDown m) = demands m := by
  obtain ⟨m₁, heq, -, -, hd, -⟩ := shutDown_eq m
  rw [heq]
  split
  · exact (demands_baseDown m₁ .coldIdle).trans hd
  · exact hd

theorem Inv.setJpegEnabled {m : PipelineManager} (h : Inv m) (on : Bool) :
    Inv (setJpegEnabled on m) := by
  unfold PipelineManager.setJpegEnabled
  split
  · exact h
  have hi : Inv { m with jpeg := { m.jpeg with enabled := on } } := h.withJpeg rfl rfl
  dsimp only
  split
  · exact ((SameMedia.disarmJpeg _).inv_of_demands hi (demands_disarmJpeg _)).stopJpegLocked
  · exact hi

theorem demands_setJpegEnabled (on : Bool) (m : PipelineManager) :
    demands (setJpegEnabled on m) = demands m := by
  unfold setJpegEnabled
  dsimp only
  split
  · rfl
  split
  · exact (demands_stopJpegLocked _).trans (demands_disarmJpeg _)
  · rfl

section platform

variable (platform : ℕ → Result)

theorem updateStream_spec (s : EffectiveStream) (restart : Bool) {m : PipelineManager}
    (h : Inv m) : Inv (updateStream platform s restart m).2 ∧
      demands (updateStream platform s restart m).2 = demands m := by
  unfold updateStream
  dsimp only
  generalize hm : m.modifyUnit .main _ = m₁
  have hd : demands m₁ = demands m := by
    subst hm
    exact demands_modifyUnit m .main (fun _ => rfl) fun _ => rfl
  have hi : Inv m₁ := by
    subst hm
    exact h.modifyUnit .main (fun _ => rfl) (fun _ => rfl) fun _ => rfl
  split
  · rename_i hrun
    have hstop := stopBaseLocked_spec (m₁.transition .stopping)
    generalize stopBaseLocked (m₁.transition .stopping) = m₀ at hstop ⊢
    generalize hm₂ : PipelineManager.transition { m₀ with restartCount := _ } .starting = m₂
    have hsound : Sound m₂ := by
      subst hm₂
      exact (hstop.sound (hi.sound.of_eq (fun _ => rfl) rfl (fun _ => rfl) rfl)).of_eq
        (fun _ => rfl) rfl (fun _ => rfl) rfl
    have hdstop := demands_of_books hstop.books
    have hsdstop := shutdown_of_books hstop.books
    have hd₂ : demands m₂ = demands m := by
      subst hm₂
      exact Eq.trans hdstop hd
    have hsd₂ : m₂.shutdown = m₁.shutdown := by
      subst hm₂
      exact hsdstop
    -- the restart is a stop and a start, and the demand counters pass through both
    have hb := startBaseLocked_spec platform (some .main) hsound
    have hd₃ := (demands_of_books hb.books).trans hd₂
    have hsd₃ := (shutdown_of_books hb.books).trans hsd₂
    match hr : startBaseLocked platform (some .main) m₂, hb, hd₃, hsd₃ with
    | (false, m₃), hb, hd₃, _ =>
      exact ⟨.of_cold (hb.sound.of_eq (fun _ => rfl) rfl (fun _ => rfl) rfl)
        ((hb.cold rfl).of_eq (fun _ => rfl) rfl rfl) (.inr rfl), hd₃⟩
    | (true, m₃), hb, hd₃, hsd₃ =>
      have hsound₃ : Sound m₃ := hb.sound
      have hup₃ : platformUp m₃.log = true := hb.up rfl
      have ht : m₃.totalAll = m₁.totalAll := (totalAll_eq hd₃).trans (totalAll_eq hd).symm
      dsimp only
      rcases hrun.1 with hst | hst <;> rw [hst]
      · have hw := hi.warm hst
        refine ⟨Warm.inv ⟨hsound₃.of_eq (fun _ => rfl) rfl (fun _ => rfl) rfl, hup₃, rfl,
          hsd₃.trans hw.shutdown⟩ ?_, hd₃⟩
        exact Nat.lt_of_lt_of_eq (hi.total_pos hst) ht.symm
      · obtain ⟨-, hsd, hz, -⟩ := hi.grace hst
        exact ⟨⟨hsound₃.of_eq (fun _ => rfl) rfl (fun _ => rfl) rfl, hup₃, hsd₃.trans hsd,
          ht.trans hz, rfl⟩, hd₃⟩
  · exact ⟨hi, hd⟩

/-- A running unit is only found while the base is up. -/
theorem Inv.up_of_running {m : PipelineManager} (h : Inv m) {i : Slot}
    (hr : (m.unit i).chain.running = true) : m.state = .active ∨ m.state = .graceIdle := by
  have hne (hc : Cold m) : False := by simp [hc.chain i] at hr
  rcases h.state_cases with hs | hs | hs | hs
  · exact (hne (h.cold (.inl hs))).elim
  · exact (hne (h.cold (.inr hs))).elim
  · exact .inl hs
  · exact .inr hs

/-- Starting a unit keeps the invariant when the base is up. -/
theorem Inv.startUnitLocked {m : PipelineManager} (h : Inv m) (i : Slot)
    (hup : m.state = .active ∨ m.state = .graceIdle) :
    Inv (startUnitLocked platform i m).2 := by
  have hs := startUnitLocked_spec platform (h.sound.chain i)
  have hd := demands_of_books hs.step.books
  have hst := state_of_books hs.step.books
  have hc : ((PipelineManager.startUnitLocked platform i m).2.unit i).chain = {} ∨
      ((PipelineManager.startUnitLocked platform i m).2.unit i).chain.Live := by
    cases hr : (PipelineManager.startUnitLocked platform i m).1
    · exact .inl (hs.idle hr)
    · exact .inr (hs.live hr)
  have hwarm : ¬ (m.state = .coldIdle ∨ m.state = .failed) := by
    rcases hup with hs | hs <;> simp [hs]
  exact ⟨hs.step.sound h.sound hc (hs.ledger (h.sound.ledger i)),
    h.promise.of_eq (fun hcold => (hwarm hcold).elim) hst hs.step.up
      (shutdown_of_books hs.step.books) (totalAll_eq hd)
      fun _ => congrArg GraceTimer.armed (timer_of_books hs.step.books)⟩

theorem updateSubStream_spec (s : EffectiveStream) (enabled : Bool) {m : PipelineManager}
    (h : Inv m) : Inv (updateSubStream platform s enabled m).2 ∧
      demands (updateSubStream platform s enabled m).2 = demands m := by
  unfold updateSubStream
  split
  · have hi : Inv (if (m.unit .sub).chain.running then stopUnitLocked .sub m else m) := by
      split
      · exact h.stopUnitLocked .sub
      · exact h
    have hd : demands (if (m.unit .sub).chain.running then stopUnitLocked .sub m else m) =
        demands m := by
      split
      · exact demands_stopUnitLocked .sub m
      · rfl
    dsimp only
    generalize (if (m.unit .sub).chain.running then stopUnitLocked .sub m else m) = m₁ at hi hd ⊢
    -- switched off: the unit stops, and its demand is kept
    exact ⟨hi.modifyUnit .sub (fun _ => rfl) (fun _ => rfl) fun _ => rfl,
      Eq.trans (demands_modifyUnit m₁ .sub (fun _ => rfl) fun _ => rfl) hd⟩
  split
  · exact ⟨h, rfl⟩
  dsimp only
  generalize hm : m.modifyUnit .sub _ = m₁
  have hd : demands m₁ = demands m := by
    subst hm
    exact demands_modifyUnit m .sub (fun _ => rfl) fun _ => rfl
  have hi : Inv m₁ := by
    subst hm
    exact h.modifyUnit .sub (fun _ => rfl) (fun _ => rfl) fun _ => rfl
  split
  · exact ⟨hi, hd⟩
  · rename_i hrun
    have hup := hi.up_of_running (i := .sub) (by simpa using hrun)
    have hi₂ := hi.stopUnitLocked .sub
    have hst₂ := state_of_books (stopUnitLocked_step .sub m₁).books
    have hd₂ := (demands_stopUnitLocked .sub m₁).trans hd
    generalize stopUnitLocked .sub m₁ = m₂ at hi₂ hst₂ hd₂ ⊢
    have hi₃ : Inv { m₂ with subRestartCount := m₂.subRestartCount + 1 } :=
      SameMedia.inv_of_demands (m := m₂) ⟨fun _ => rfl, rfl, rfl, rfl, rfl, rfl⟩ hi₂ rfl
    have hi₄ := hi₃.startUnitLocked platform .sub (hst₂ ▸ hup)
    have hs := startUnitLocked_spec platform (hi₃.sound.chain .sub)
    have hd₄ := (demands_of_books hs.step.books).trans hd₂
    match hr : startUnitLocked platform .sub
      { m₂ with subRestartCount := m₂.subRestartCount + 1 }, hi₄, hd₄ with
    | (false, m₃), hi₄, hd₄ => exact ⟨hi₄, hd₄⟩
    | (true, m₃), hi₄, hd₄ => exact ⟨hi₄, hd₄⟩

/-- What the begin of a snapshot does: an accepted one is counted and finds an encoder. -/
structure SnapshotSpec (m : PipelineManager) (r : Result × PipelineManager) : Prop where
  inv : Inv r.2
  refused : r.1.isOk = false → demands r.2 = demands m
  granted : r.1.isOk = true →
    demands r.2 = ((demands m).1, (demands m).2.1 + 1, (demands m).2.2) ∧ r.2.jpeg.enc.isSome

theorem snapshotBegin_spec {m : PipelineManager} (h : Inv m) :
    SnapshotSpec m (snapshotBegin platform m) := by
  unfold snapshotBegin
  split
  · exact ⟨h, fun _ => rfl, by simp⟩
  split
  · exact ⟨h, fun _ => rfl, by simp⟩
  split
  · exact ⟨h, fun _ => rfl, by simp⟩
  rename_i hsd _ _
  have he := ensureBaseLocked_spec platform (some .jpeg) h (by simpa using hsd)
  match hr : ensureBaseLocked platform (some .jpeg) m, he with
  | (false, m₁), he => exact ⟨he.refused rfl, fun _ => he.demands, by simp⟩
  | (true, m₁), he =>
    have hw : Warm (disarmJpeg m₁) := (SameMedia.disarmJpeg m₁).warm (he.warm rfl)
    have hj := startJpegLocked_spec platform (disarmJpeg m₁)
    have hd := (demands_of_books hj.books).trans ((demands_disarmJpeg m₁).trans he.demands)
    have hw₂ : Warm (startJpegLocked platform (disarmJpeg m₁)).2 :=
      ⟨hj.sound hw.sound, hj.up.trans hw.up, (state_of_books hj.books).trans hw.state,
        (shutdown_of_books hj.books).trans hw.shutdown⟩
    dsimp only
    match hr₂ : startJpegLocked platform (disarmJpeg m₁), hj, hd, hw₂ with
    | (false, m₂), _, hd, hw₂ =>
      exact ⟨hw₂.failIdleBase, fun _ => (demands_failIdleBase m₂).trans hd, by simp⟩
    | (true, m₂), hj, hd, hw₂ =>
      refine ⟨?_, by simp, fun _ => ⟨?_, hj.live rfl⟩⟩
      · refine Warm.inv (SameMedia.warm (.jpeg m₂ ?_) hw₂) ?_
        · rfl
        unfold totalAll
        dsimp only
        omega
      · rw [← hd]
        rfl

theorem Inv.recordCapture {m : PipelineManager} (h : Inv m) (t0 now : Int) (r : Result)
    (image : List UInt8) : Inv (recordCapture t0 now r image m) := by
  unfold PipelineManager.recordCapture
  dsimp only
  split <;> exact h.withJpeg rfl rfl

theorem demands_recordCapture (t0 now : Int) (r : Result) (image : List UInt8)
    (m : PipelineManager) : demands (recordCapture t0 now r image m) = demands m := by
  unfold recordCapture
  dsimp only
  split <;> rfl

theorem Inv.snapshotEnd {m : PipelineManager} (h : Inv m) : Inv (snapshotEnd m) := by
  unfold PipelineManager.snapshotEnd
  have hs : SameMedia m (dropSnapshot m) := .jpeg m rfl
  have hle : (dropSnapshot m).totalAll ≤ m.totalAll :=
    totalAll_sub_le (fun _ => le_rfl) (Nat.sub_le _ _) le_rfl
  generalize dropSnapshot m = m₁ at hs hle ⊢
  have hactive (hst : m₁.state = .active) : Warm m₁ := hs.warm (h.warm (hs.state.symm.trans hst))
  dsimp only
  split
  · rename_i hsd
    refine h.lessDemand hs hle fun ⟨_, hst⟩ => ?_
    simp [(hactive hst).shutdown] at hsd
  split
  · rename_i hc
    exact .enterGrace (hactive hc.2) hc.1
  rename_i hc
  have hi := h.lessDemand hs hle hc
  split
  · split
    · exact hi.withJpeg rfl rfl
    · exact hi.stopJpegLocked
  · exact hi

theorem demands_snapshotEnd (m : PipelineManager) :
    demands (snapshotEnd m) = ((demands m).1, (demands m).2.1 - 1, (demands m).2.2) := by
  unfold snapshotEnd
  change _ = demands (dropSnapshot m)
  generalize dropSnapshot m = m₁
  dsimp only
  split
  · rfl
  split
  · exact demands_enterGrace _
  split
  · split
    · rfl
    · exact demands_stopJpegLocked _
  · rfl

end platform

end Machino.Lifecycle
