import Machino.Lifecycle.PlatformState

namespace Machino.Lifecycle

open PipelineManager Runs

/-- A unit that runs without demand has its own grace timer armed. -/
def StreamUnit.Winds (u : StreamUnit) : Prop :=
  u.chain.running = true → u.total = 0 → u.timer.armed = true

def JpegUnit.Winds (j : JpegUnit) : Prop :=
  j.enc.isSome = true → j.demand = 0 → j.timer.armed = true

/-- Everything but `unit` that runs without demand has its own grace timer armed. -/
structure WindsExcept (unit : Option UnitId) (m : PipelineManager) : Prop where
  stream : ∀ i, unit ≠ some i.unitId → (m.unit i).Winds
  jpeg : unit ≠ some .jpeg → m.jpeg.Winds

instance (u : StreamUnit) : Decidable u.Winds := inferInstanceAs (Decidable (_ → _ → _))

instance (j : JpegUnit) : Decidable j.Winds := inferInstanceAs (Decidable (_ → _ → _))

instance (unit : Option UnitId) (m : PipelineManager) : Decidable (WindsExcept unit m) :=
  decidable_of_iff (((unit ≠ some .main → (m.unit .main).Winds) ∧
      (unit ≠ some .sub → (m.unit .sub).Winds)) ∧ (unit ≠ some .jpeg → m.jpeg.Winds))
    ⟨fun h => ⟨fun i => by cases i; exacts [h.1.1, h.1.2], h.2⟩,
      fun h => ⟨⟨h.stream .main, h.stream .sub⟩, h.jpeg⟩⟩

/-- Nothing runs that has no demand. -/
structure OnlyDemanded (m : PipelineManager) : Prop where
  stream : ∀ i, (m.unit i).chain.running = true → 0 < (m.unit i).total
  jpeg : m.jpeg.enc.isSome = true → 0 < m.jpeg.demand

/-- A grace timer runs out. -/
def Op.Fires : Op → Prop
  | .onGraceTimeout fired | .onUnitGrace _ fired | .onJpegGrace fired => fired = true
  | _ => False

/-- The firings `fs` contain one of every armed timer. -/
structure CoversArmed (m : PipelineManager) (fs : List Op) : Prop where
  fires : ∀ op ∈ fs, op.Fires
  base : m.timer.armed = true → .onGraceTimeout true ∈ fs
  stream : ∀ i, (m.unit i).timer.armed = true → .onUnitGrace i true ∈ fs
  jpeg : m.jpeg.timer.armed = true → .onJpegGrace true ∈ fs

/-- No consumer, no pipeline: what runs without demand in an active pipeline is on its own
timer, and once every armed timer has fired only units in demand run. -/
structure NoConsumerNoPipeline (platform : ℕ → Result) (s : Sys) : Prop where
  winds : s.mgr.state = .active → WindsExcept none s.mgr
  fired : s.mgr.state = .active → ∀ fs, CoversArmed s.mgr fs →
    OnlyDemanded (s.run platform fs).mgr

instance (unit : UnitId) (m : PipelineManager) :
    Decidable (∃ i, unit.slot = some i ∧ (m.unit i).configured = true) :=
  match h : unit.slot with
  | none => .isFalse (by simp)
  | some i => decidable_of_iff ((m.unit i).configured = true) (by simp)

/-- The step neither takes a base out of its grace while something else in it still runs
without a timer, nor restarts an active base whose main unit has neither demand nor timer. -/
def NoWarmRejoin (s : Sys) : Op → Prop
  | .acquireUnit unit _ => s.mgr.state = .graceIdle →
      (∃ i, unit.slot = some i ∧ (s.mgr.unit i).configured = true) → WindsExcept (some unit) s.mgr
  | .acquireBase _ => s.mgr.state = .graceIdle → WindsExcept none s.mgr
  | .snapshotBegin => s.mgr.state = .graceIdle → s.mgr.jpeg.configured = true →
      s.mgr.jpeg.enabled = true → WindsExcept (some .jpeg) s.mgr
  | .updateStream _ restart => s.mgr.state = .active → restart = true →
      0 < (s.mgr.unit .main).total ∨ (s.mgr.unit .main).timer.armed = true
  | _ => True

instance (s : Sys) (op : Op) : Decidable (NoWarmRejoin s op) := by
  cases op <;> unfold NoWarmRejoin <;> infer_instance

theorem unitId_ne {i j : Slot} (h : j ≠ i) : some i.unitId ≠ some j.unitId := by
  cases i <;> cases j <;> simp_all [Slot.unitId]

theorem unitId_ne_jpeg (i : Slot) : some i.unitId ≠ some .jpeg := by
  cases i <;> simp [Slot.unitId]

theorem StreamUnit.Winds.of_eq {u u' : StreamUnit} (h : u.Winds) (hc : u'.chain = u.chain)
    (ht : u'.total = u.total) (ha : u'.timer = u.timer) : u'.Winds := by
  unfold Winds
  rw [hc, ht, ha]
  exact h

theorem StreamUnit.Winds.of_total {u : StreamUnit} (h : 0 < u.total) : u.Winds :=
  fun _ h0 => by omega

theorem StreamUnit.Winds.of_empty {u : StreamUnit} (h : u.chain = {}) : u.Winds :=
  fun hr _ => by simp [h] at hr

theorem JpegUnit.Winds.of_none {j : JpegUnit} (h : j.enc = none) : j.Winds :=
  fun hr _ => by simp [h] at hr

/-- What the books keep of a unit: all but its chain. -/
theorem StreamUnit.Winds.of_books {m m' : PipelineManager} {i : Slot} (h : (m.unit i).Winds)
    (hb : m'.books = m.books) (hc : (m'.unit i).chain = (m.unit i).chain) :
    (m'.unit i).Winds := by
  have hu := unitBooks_eq hb i
  exact h.of_eq hc (congrArg StreamUnit.total hu :) (congrArg StreamUnit.timer hu :)

namespace WindsExcept

theorem weaken {m : PipelineManager} (h : WindsExcept none m) (unit : Option UnitId) :
    WindsExcept unit m := ⟨fun i _ => h.stream i (by simp), fun _ => h.jpeg (by simp)⟩

theorem of_units {unit : Option UnitId} {m m' : PipelineManager} (h : WindsExcept unit m)
    (hu : m'.units = m.units) (hj : m'.jpeg = m.jpeg) : WindsExcept unit m' := by
  refine ⟨fun i hi => ?_, fun hne => by rw [hj]; exact h.jpeg hne⟩
  have hui : m'.unit i = m.unit i := congrArg (fun us => us.get i) hu
  rw [hui]
  exact h.stream i hi

/-- The one unit is dealt with, the others are left as they were. -/
theorem unit {i : Slot} {m m' : PipelineManager} (h : WindsExcept (some i.unitId) m)
    (hi : (m'.unit i).Winds) (hu : ∀ j, j ≠ i → m'.unit j = m.unit j)
    (hj : m'.jpeg = m.jpeg) : WindsExcept none m' := by
  refine ⟨fun j _ => ?_, fun _ => ?_⟩
  · by_cases hij : j = i
    · rw [hij]; exact hi
    · rw [hu j hij]
      exact h.stream j (unitId_ne hij)
  · rw [hj]
    exact h.jpeg (unitId_ne_jpeg i)

theorem modifyUnit {i : Slot} {m : PipelineManager} {f : StreamUnit → StreamUnit}
    (h : WindsExcept none m) (hi : (m.unit i).Winds → (f (m.unit i)).Winds) :
    WindsExcept none (m.modifyUnit i f) := by
  refine (h.weaken (some i.unitId)).unit (i := i) ?_ (fun j hj => by simp [hj]) rfl
  rw [unit_modifyUnit_self]
  exact hi (h.stream i (by simp))

theorem withJpeg {unit : Option UnitId} (hu : unit = none ∨ unit = some .jpeg)
    {m : PipelineManager} (h : WindsExcept unit m) {j : JpegUnit} (hj : j.Winds) :
    WindsExcept none { m with jpeg := j } := by
  refine ⟨fun i _ => h.stream i ?_, fun _ => hj⟩
  rcases hu with rfl | rfl
  · simp
  · exact (unitId_ne_jpeg i).symm

theorem stopUnitLocked {i : Slot} {m : PipelineManager} (h : WindsExcept (some i.unitId) m) :
    WindsExcept none (stopUnitLocked i m) := by
  have hs := stopUnitLocked_step i m
  refine ⟨fun j _ => ?_, fun _ => by rw [hs.jpeg]; exact h.jpeg (unitId_ne_jpeg i)⟩
  by_cases hij : j = i
  · subst hij
    exact .of_empty (stopUnitLocked_chain j m)
  · exact (h.stream j (unitId_ne hij)).of_books hs.books (hs.chain j hij)

theorem stopJpegLocked {m : PipelineManager} (h : WindsExcept (some .jpeg) m) :
    WindsExcept none (stopJpegLocked m) := by
  refine ⟨fun i _ => ?_, fun _ => .of_none (stopJpegLocked_enc m)⟩
  rw [stopJpegLocked_unit]
  exact h.stream i (unitId_ne_jpeg i).symm

end WindsExcept

/-- One unit of demand less: only that unit can have run out of it. -/
theorem winds_release {hd : DemandHandle} {m : PipelineManager} (h : Inv m)
    (ha : m.state = .active → WindsExcept none m) :
    (release hd m).state = .active → WindsExcept none (release hd m) := by
  unfold release dropDemand
  match hslot : hd.unit.slot with
  | none =>
    dsimp only
    split
    · intro hs; cases hs
    · exact fun hs => (ha hs).of_units rfl rfl
  | some i =>
    dsimp only
    generalize hm : m.modifyUnit i _ = m₁
    have hsd (hs : m₁.state = .active) : m₁.shutdown = false := by
      subst hm
      exact (h.warm hs).shutdown
    have hothers (hs : m₁.state = .active) : WindsExcept (some i.unitId) m₁ := by
      subst hm
      refine ⟨fun j hj => ?_, fun _ => (ha hs).jpeg (by simp)⟩
      have hne : j ≠ i := by
        rintro rfl
        exact hj rfl
      rw [unit_modifyUnit_of_ne _ hne]
      exact (ha hs).stream j (by simp)
    -- with demand left, or nothing running, the unit itself needs no timer
    have hself (hs : m₁.state = .active)
        (hc : ¬ ((m₁.unit i).total = 0 ∧ (m₁.unit i).chain.running ∧ m₁.state = .active)) :
        WindsExcept none m₁ := by
      refine (hothers hs).unit ?_ (fun _ _ => rfl) rfl
      exact fun hr h0 => absurd ⟨h0, hr, hs⟩ hc
    split
    · rename_i hdown
      intro hs
      simp [hsd hs] at hdown
    split
    · intro hs; cases hs
    split
    · rename_i hc
      have hs := hc.2.2
      split
      · intro _
        refine (hothers hs).unit (i := i) ?_ (fun j hj => by simp [hj]) rfl
        rw [unit_modifyUnit_self]
        exact fun _ _ => rfl
      · exact fun _ => (hothers hs).stopUnitLocked
    · rename_i hc
      exact fun hs => hself hs hc

/-- A snapshot less: only the snapshot encoder can have run out of demand. -/
theorem winds_snapshotEnd {m : PipelineManager} (h : Inv m)
    (ha : m.state = .active → WindsExcept none m) :
    (snapshotEnd m).state = .active → WindsExcept none (snapshotEnd m) := by
  unfold snapshotEnd
  dsimp only
  have hothers (hs : (dropSnapshot m).state = .active) :
      WindsExcept (some .jpeg) (dropSnapshot m) :=
    ⟨fun i _ => (ha hs).stream i (by simp), fun hne => absurd rfl hne⟩
  have hsd (hs : (dropSnapshot m).state = .active) : (dropSnapshot m).shutdown = false :=
    (h.warm hs).shutdown
  generalize dropSnapshot m = m₁ at hothers hsd ⊢
  split
  · rename_i hdown
    intro hs
    simp [hsd hs] at hdown
  split
  · intro hs; cases hs
  split
  -- last snapshot out: the unit gets its grace timer, or stops where there is no grace
  · rename_i hc
    split
    · exact fun _ => (hothers hc.2.2).withJpeg (.inr rfl) fun _ _ => rfl
    · exact fun _ => (hothers hc.2.2).stopJpegLocked
  · rename_i hc
    intro hs
    refine ⟨fun i _ => (hothers hs).stream i (unitId_ne_jpeg i).symm, fun _ => ?_⟩
    exact fun hr h0 => absurd ⟨h0, hr, hs⟩ hc

theorem stopUnitLocked_state (i : Slot) (m : PipelineManager) :
    (stopUnitLocked i m).state = m.state := state_of_books (stopUnitLocked_step i m).books

/-- A unit whose grace runs out does not run on without demand. -/
theorem winds_onGraceTimeout {m : PipelineManager} (h : m.state = .active → WindsExcept none m) :
    (onGraceTimeout m).state = .active → WindsExcept none (onGraceTimeout m) := by
  unfold onGraceTimeout
  split
  · exact h
  · intro hs; cases hs

theorem winds_onUnitGrace {i : Slot} {m : PipelineManager}
    (h : m.state = .active → WindsExcept (some i.unitId) m) :
    (onUnitGrace i m).state = .active → WindsExcept none (onUnitGrace i m) := by
  unfold onUnitGrace
  dsimp only
  generalize hm : m.modifyUnit i _ = m₁
  have hothers (hs : m₁.state = .active) : WindsExcept (some i.unitId) m₁ := by
    subst hm
    refine ⟨fun j hj => ?_, fun hne => (h hs).jpeg hne⟩
    have hne : j ≠ i := by
      rintro rfl
      exact hj rfl
    rw [unit_modifyUnit_of_ne _ hne]
    exact (h hs).stream j hj
  split
  · rename_i hc
    exact fun _ => (hothers hc.2.2).stopUnitLocked
  · rename_i hc
    intro hs
    refine (hothers hs).unit ?_ (fun _ _ => rfl) rfl
    exact fun hr h0 => absurd ⟨h0, hr, hs⟩ hc

theorem winds_onJpegGrace {m : PipelineManager}
    (h : m.state = .active → WindsExcept (some .jpeg) m) :
    (onJpegGrace m).state = .active → WindsExcept none (onJpegGrace m) := by
  unfold onJpegGrace
  dsimp only
  split
  · rename_i hc
    refine fun _ => WindsExcept.stopJpegLocked ?_
    exact ⟨fun i hi => (h hc.2.2).stream i hi, fun hne => absurd rfl hne⟩
  · rename_i hc
    intro hs
    refine ⟨fun i _ => (h hs).stream i (unitId_ne_jpeg i).symm, fun _ => ?_⟩
    exact fun hr h0 => absurd ⟨h0, hr, hs⟩ hc

theorem winds_setJpegEnabled (on : Bool) {m : PipelineManager}
    (ha : m.state = .active → WindsExcept none m) :
    (setJpegEnabled on m).state = .active → WindsExcept none (setJpegEnabled on m) := by
  unfold setJpegEnabled
  split
  · exact ha
  dsimp only
  split
  · rename_i hc
    refine fun _ => WindsExcept.stopJpegLocked ?_
    unfold disarmJpeg
    split <;>
      exact ⟨fun i _ => (ha hc.2.2.2).stream i (by simp), fun hne => absurd rfl hne⟩
  · intro hs
    refine (ha hs).withJpeg (.inl rfl) ?_
    exact (ha hs).jpeg (by simp)

section platform

variable (platform : ℕ → Result)

theorem ensureBaseLocked_refused (unit : Option UnitId) {m : PipelineManager}
    (h : (ensureBaseLocked platform unit m).1 = false) :
    (ensureBaseLocked platform unit m).2.state = .failed := by
  unfold ensureBaseLocked at h ⊢
  match hs : m.state with
  | .failed => rfl
  | .coldIdle =>
    rw [hs] at h
    dsimp only at h ⊢
    match hr : startBaseLocked platform unit (m.transition .starting) with
    | (false, m') => rfl
    | (true, m') => simp [hr] at h
  | .graceIdle | .active | .starting | .stopping => simp [hs] at h

/-- Once the base is up, only what it was asked for, what had demand, and what was running
before can run. -/
theorem ensureBaseLocked_winds {unit : Option UnitId} {m : PipelineManager} (h : Inv m)
    (hsd : m.shutdown = false) (ha : m.state = .active → WindsExcept none m)
    (hg : m.state = .graceIdle → WindsExcept unit m)
    (hok : (ensureBaseLocked platform unit m).1 = true) :
    WindsExcept unit (ensureBaseLocked platform unit m).2 := by
  have he := ensureBaseLocked_spec platform unit h hsd
  rcases h.state_cases with hs | hs | hs | hs
  · refine ⟨fun i hi hr h0 => ?_, fun _ => .of_none (he.enc hs)⟩
    obtain ⟨hw, hu⟩ := he.cold hs i
    have ht : ((ensureBaseLocked platform unit m).2.unit i).total = (m.unit i).total :=
      (congrArg StreamUnit.total hu :)
    rcases hw ((he.warm hok).sound.running hr) with hw | ⟨-, hw⟩
    · exact absurd hw hi
    · omega
  · unfold ensureBaseLocked at hok
    simp [hs] at hok
  · rw [he.same hs]
    exact (ha hs).weaken unit
  · rw [he.rejoin hs]
    exact (hg hs).of_units rfl rfl

/-- A refused start leaves an active base only behind when something else needs it. -/
theorem winds_failIdleBase {m : PipelineManager} (h : WindsExcept none m) :
    (failIdleBase m).state = .active → WindsExcept none (failIdleBase m) := by
  unfold failIdleBase
  split
  · intro hs; cases hs
  · exact fun _ => h

theorem unit_disarmUnit_of_ne {i j : Slot} (hj : j ≠ i) (m : PipelineManager) :
    (disarmUnit i m).unit j = m.unit j := by
  unfold disarmUnit
  split
  · simp [hj]
  · rfl

theorem winds_acquireUnit {unit : UnitId} {type : ConsumerType} {m : PipelineManager} (h : Inv m)
    (ha : m.state = .active → WindsExcept none m)
    (hg : m.state = .graceIdle → (∃ i, unit.slot = some i ∧ (m.unit i).configured = true) →
      WindsExcept (some unit) m) :
    (acquireUnit platform unit type m).2.state = .active →
      WindsExcept none (acquireUnit platform unit type m).2 := by
  unfold acquireUnit
  match hslot : unit.slot with
  | none => exact ha
  | some i =>
    obtain rfl := UnitId.slot_eq_some.mp hslot
    dsimp only
    split
    · exact ha
    rename_i hok
    have hsd : m.shutdown = false := by simp_all
    have hconf : (m.unit i).configured = true := by simp_all
    have he := ensureBaseLocked_spec platform (some i.unitId) h hsd
    have hw := ensureBaseLocked_winds platform h hsd ha fun hs => hg hs ⟨i, hslot, hconf⟩
    have hf := ensureBaseLocked_refused platform (some i.unitId) (m := m)
    match hr : ensureBaseLocked platform (some i.unitId) m, he, hw, hf with
    | (false, m₁), _, _, hf =>
      intro hs
      rw [hf rfl] at hs
      cases hs
    | (true, m₁), he, hw, _ =>
      have hsound : Sound (disarmUnit i m₁) := (SameMedia.disarmUnit i m₁).sound (he.warm rfl).sound
      have hs := startUnitLocked_spec platform (hsound.chain i)
      dsimp only
      -- what the start leaves of the other units is what the base came up with
      have hother (j : Slot) (hj : j ≠ i) :
          ((startUnitLocked platform i (disarmUnit i m₁)).2.unit j).Winds := by
        have hj₁ : (m₁.unit j).Winds := (hw rfl).stream j (unitId_ne hj)
        rw [← unit_disarmUnit_of_ne hj m₁] at hj₁
        exact hj₁.of_books hs.step.books (hs.step.chain j hj)
      have hjpeg : (startUnitLocked platform i (disarmUnit i m₁)).2.jpeg.Winds := by
        rw [hs.step.jpeg]
        have hj₁ := (hw rfl).jpeg (unitId_ne_jpeg i)
        unfold disarmUnit
        split <;> exact hj₁
      match hr₂ : startUnitLocked platform i (disarmUnit i m₁), hs, hother, hjpeg with
      | (false, m₂), hs, hother, hjpeg =>
        refine winds_failIdleBase ⟨fun j _ => ?_, fun _ => hjpeg⟩
        by_cases hj : j = i
        · subst hj; exact .of_empty (hs.idle rfl)
        · exact hother j hj
      | (true, m₂), hs, hother, hjpeg =>
        intro _
        refine ⟨fun j _ => ?_, fun _ => hjpeg⟩
        by_cases hj : j = i
        · subst hj
          refine .of_total ?_
          simp
        · rw [unit_modifyUnit_of_ne _ hj]
          exact hother j hj

theorem winds_acquireBase {type : ConsumerType} {m : PipelineManager} (h : Inv m)
    (ha : m.state = .active → WindsExcept none m)
    (hg : m.state = .graceIdle → WindsExcept none m) :
    (acquireBase platform type m).2.state = .active →
      WindsExcept none (acquireBase platform type m).2 := by
  unfold acquireBase
  split
  · exact ha
  rename_i hsd
  have hw := ensureBaseLocked_winds platform h (by simpa using hsd) ha hg
  have hf := ensureBaseLocked_refused platform none (m := m)
  match hr : ensureBaseLocked platform none m, hw, hf with
  | (false, m₁), _, hf =>
    intro hs
    rw [hf rfl] at hs
    cases hs
  | (true, m₁), hw, _ => exact fun _ => (hw rfl).of_units rfl rfl

theorem winds_snapshotBegin {m : PipelineManager} (h : Inv m)
    (ha : m.state = .active → WindsExcept none m)
    (hg : m.state = .graceIdle → m.jpeg.configured = true → m.jpeg.enabled = true →
      WindsExcept (some .jpeg) m) :
    (snapshotBegin platform m).2.state = .active →
      WindsExcept none (snapshotBegin platform m).2 := by
  unfold snapshotBegin
  split
  · exact ha
  split
  · exact ha
  split
  · exact ha
  rename_i hsd hconf hen
  have hw := ensureBaseLocked_winds platform h (by simpa using hsd) ha
    fun hs => hg hs (by simpa using hconf) (by simpa using hen)
  have hf := ensureBaseLocked_refused platform (some .jpeg) (m := m)
  match hr : ensureBaseLocked platform (some .jpeg) m, hw, hf with
  | (false, m₁), _, hf =>
    intro hs
    rw [hf rfl] at hs
    cases hs
  -- the base is up; only the JPEG unit's own timer may have been disarmed by the request
  | (true, m₁), hw, _ =>
    have hj := startJpegLocked_spec platform (disarmJpeg m₁)
    have hstream (i : Slot) : ((startJpegLocked platform (disarmJpeg m₁)).2.unit i).Winds := by
      have hu : (startJpegLocked platform (disarmJpeg m₁)).2.units = m₁.units := by
        rw [hj.units]
        unfold disarmJpeg
        split <;> rfl
      have hui : (startJpegLocked platform (disarmJpeg m₁)).2.unit i = m₁.unit i :=
        congrArg (fun us => us.get i) hu
      rw [hui]
      exact (hw rfl).stream i (unitId_ne_jpeg i).symm
    dsimp only
    match hr₂ : startJpegLocked platform (disarmJpeg m₁), hj, hstream with
    | (false, m₂), hj, hstream =>
      exact winds_failIdleBase ⟨fun i _ => hstream i, fun _ => .of_none (hj.idle rfl)⟩
    | (true, m₂), _, hstream =>
      -- the snapshot itself is the demand that keeps the JPEG unit
      intro _
      exact ⟨fun i _ => hstream i, fun _ _ h0 => absurd h0 (Nat.succ_ne_zero _)⟩

theorem winds_updateStream (s : EffectiveStream) (restart : Bool) {m : PipelineManager}
    (h : Inv m) (ha : m.state = .active → WindsExcept none m)
    (hr : m.state = .active → restart = true →
      0 < (m.unit .main).total ∨ (m.unit .main).timer.armed = true) :
    (updateStream platform s restart m).2.state = .active →
      WindsExcept none (updateStream platform s restart m).2 := by
  unfold updateStream
  dsimp only
  generalize hm : m.modifyUnit .main _ = m₁
  have hst : m₁.state = m.state := by subst hm; rfl
  have hwinds (hs : m₁.state = .active) : WindsExcept none m₁ := by
    subst hm
    refine (ha hs).modifyUnit ?_
    intro hw
    exact hw.of_eq rfl rfl rfl
  have hi : Inv m₁ := by
    subst hm
    exact h.modifyUnit .main (fun _ => rfl) (fun _ => rfl) fun _ => rfl
  have hmain (hs : m₁.state = .active) (hrs : restart = true) :
      0 < (m₁.unit .main).total ∨ (m₁.unit .main).timer.armed = true := by
    subst hm
    exact hr hs hrs
  split
  · rename_i hrun
    have hstop := stopBaseLocked_spec (m₁.transition .stopping)
    generalize stopBaseLocked (m₁.transition .stopping) = m₀ at hstop ⊢
    generalize hm₂ : PipelineManager.transition { m₀ with restartCount := _ } .starting = m₂
    have hcold : Cold m₂ := by
      subst hm₂
      exact hstop.cold.of_eq (fun _ => rfl) rfl rfl
    have hsound : Sound m₂ := by
      subst hm₂
      exact (hstop.sound (hi.sound.of_eq (fun _ => rfl) rfl (fun _ => rfl) rfl)).of_eq
        (fun _ => rfl) rfl (fun _ => rfl) rfl
    have hunit (i : Slot) : unitBooks m₂ i = unitBooks m₁ i := by
      subst hm₂
      have hu := unitBooks_eq hstop.books i
      exact hu
    have hb := startBaseLocked_spec platform (some .main) hsound
    match hr₂ : startBaseLocked platform (some .main) m₂, hb with
    | (false, m₃), _ => intro hs; cases hs
    | (true, m₃), hb =>
      dsimp only
      have hu (i : Slot) : unitBooks m₃ i = unitBooks m₁ i :=
        (unitBooks_eq hb.books i).trans (hunit i)
      have ht (i : Slot) : (m₃.unit i).total = (m₁.unit i).total :=
        (congrArg StreamUnit.total (hu i) :)
      have htm (i : Slot) : (m₃.unit i).timer = (m₁.unit i).timer :=
        (congrArg StreamUnit.timer (hu i) :)
      have hjpeg : m₃.jpeg.enc = none := by rw [hb.jpeg rfl]; exact hcold.enc
      -- after a restart the main unit runs, and beyond it only what has demand
      have hstream (hs : m₁.state = .active) (i : Slot) : (m₃.unit i).Winds := by
        intro hrun₃ h0
        by_cases hw : Wanted (some .main) m₂ i
        · have ht₂ : (m₂.unit i).total = (m₁.unit i).total :=
            (congrArg StreamUnit.total (hunit i) :)
          rcases hw with hw | ⟨-, hpos⟩
          · have hi : i = .main := by cases i <;> simp_all [Slot.unitId]
            subst hi
            have h0₁ := ht .main
            rw [htm]
            exact (hmain hs hrun.2).resolve_left (by omega)
          · have h0₁ := ht i
            omega
        · have hc := hb.idle rfl i hw
          rw [hcold.chain i] at hc
          exact StreamUnit.Winds.of_empty hc hrun₃ h0
      rcases hrun.1 with hs | hs <;> rw [hs]
      · exact fun _ => ⟨fun i _ => hstream hs i, fun _ => .of_none hjpeg⟩
      · intro h'; cases h'
  · exact fun hs => hwinds hs

theorem winds_updateSubStream (s : EffectiveStream) (enabled : Bool) {m : PipelineManager}
    (h : Inv m) (hw : WindsExcept none m) :
    WindsExcept none (updateSubStream platform s enabled m).2 := by
  unfold updateSubStream
  split
  · have hw₁ : WindsExcept none (if (m.unit .sub).chain.running then stopUnitLocked .sub m else m) := by
      split
      · exact (hw.weaken _).stopUnitLocked
      · exact hw
    refine hw₁.modifyUnit ?_
    intro hu
    exact hu.of_eq rfl rfl rfl
  split
  · exact hw
  dsimp only
  generalize hm : m.modifyUnit .sub _ = m₁
  have hi : Inv m₁ := by
    subst hm
    exact h.modifyUnit .sub (fun _ => rfl) (fun _ => rfl) fun _ => rfl
  have hw₁ : WindsExcept none m₁ := by
    subst hm
    refine hw.modifyUnit ?_
    intro hu
    exact hu.of_eq rfl rfl rfl
  split
  · exact hw₁
  rename_i hrun
  have hsub := stopUnitLocked_step .sub m₁
  have hsound := hi.sound.stopUnitLocked .sub
  have hidle := (hw₁.weaken (some Slot.sub.unitId)).stopUnitLocked
  generalize stopUnitLocked .sub m₁ = m₂ at hsub hsound hidle ⊢
  generalize hm₃ : PipelineManager.mk _ _ _ _ _ _ _ _ _ _ (m₂.subRestartCount + 1) _ _ _ _ _ _ _ = m₃
  have hb₃ : m₃.unitBooks .sub = m₁.unitBooks .sub := by
    subst hm₃
    exact unitBooks_eq hsub.books .sub
  have hw₃ : WindsExcept none m₃ := by subst hm₃; exact hidle.of_units rfl rfl
  have hs₃ : Sound m₃ := by
    subst hm₃
    exact hsound.of_eq (fun _ => rfl) rfl (fun _ => rfl) rfl
  have hstart := startUnitLocked_spec platform (hs₃.chain .sub)
  -- the sub unit ran before, so its demand or its timer is there as before
  have hres : WindsExcept none (startUnitLocked platform .sub m₃).2 := by
    refine ⟨fun j _ => ?_, fun _ => by rw [hstart.step.jpeg]; exact hw₃.jpeg (by simp)⟩
    by_cases hj : j = .sub
    · subst hj
      have hu := (unitBooks_eq hstart.step.books .sub).trans hb₃
      intro _ h0
      have ht : ((startUnitLocked platform .sub m₃).2.unit .sub).total = (m₁.unit .sub).total :=
        (congrArg StreamUnit.total hu :)
      have htm : ((startUnitLocked platform .sub m₃).2.unit .sub).timer = (m₁.unit .sub).timer :=
        (congrArg StreamUnit.timer hu :)
      rw [htm]
      exact hw₁.stream .sub (by simp) (by simpa using hrun) (by omega)
    · exact (hw₃.stream j (by simp)).of_books hstart.step.books (hstart.step.chain j hj)
  match hr : startUnitLocked platform .sub m₃, hres with
  | (false, m₄), hres => exact hres
  | (true, m₄), hres => exact hres

theorem updateSubStream_state (s : EffectiveStream) (enabled : Bool) {m : PipelineManager}
    (h : Inv m) : (updateSubStream platform s enabled m).2.state = m.state := by
  unfold updateSubStream
  split
  · dsimp only
    split
    · exact stopUnitLocked_state .sub m
    · rfl
  split
  · rfl
  dsimp only
  generalize hm : m.modifyUnit .sub _ = m₁
  have hst : m₁.state = m.state := by subst hm; rfl
  have hi : Inv m₁ := by
    subst hm
    exact h.modifyUnit .sub (fun _ => rfl) (fun _ => rfl) fun _ => rfl
  split
  · exact hst
  have hst₂ := (stopUnitLocked_state .sub m₁).trans hst
  have hsound₂ := hi.sound.stopUnitLocked .sub
  generalize stopUnitLocked .sub m₁ = m₂ at hst₂ hsound₂ ⊢
  have hs := startUnitLocked_spec platform (i := .sub)
    (m := { m₂ with subRestartCount := m₂.subRestartCount + 1 }) (hsound₂.chain .sub)
  have hst₃ := (state_of_books hs.step.books).trans hst₂
  match hr : startUnitLocked platform .sub
    { m₂ with subRestartCount := m₂.subRestartCount + 1 }, hst₃ with
  | (false, m₃), hst₃ => exact hst₃
  | (true, m₃), hst₃ => exact hst₃

/-- The system invariant, and every warm unit of an active pipeline on its timer. -/
structure GraceInv (s : Sys) : Prop where
  sys : SysInv s
  winds : s.mgr.state = .active → WindsExcept none s.mgr

theorem winds_capture {s : Sys} (h : s.mgr.state = .active → WindsExcept none s.mgr) (k : ℕ)
    (now maxAgeMs : Int) : (s.capture k now maxAgeMs).mgr.state = .active →
      WindsExcept none (s.capture k now maxAgeMs).mgr := by
  rcases mgr_capture s k now maxAgeMs with he | ⟨e, -, he⟩
  · rw [he]
    exact h
  · rw [he]
    exact fun hs => (h hs).of_units rfl rfl

theorem winds_recordCapture {m : PipelineManager} (h : m.state = .active → WindsExcept none m)
    (t0 now : Int) (r : Result) (image : List UInt8) :
    (recordCapture t0 now r image m).state = .active →
      WindsExcept none (recordCapture t0 now r image m) := by
  unfold recordCapture
  dsimp only
  split <;> exact fun hs => (h hs).withJpeg (.inl rfl) ((h hs).jpeg (by simp))

theorem winds_captured {s : Sys} (h : s.mgr.state = .active → WindsExcept none s.mgr) (k : ℕ)
    (r : Result) (image : List UInt8) (now : Int) :
    (s.captured k r image now).mgr.state = .active →
      WindsExcept none (s.captured k r image now).mgr := by
  rcases mgr_captured s k r image now with he | ⟨t0, r', he⟩
  · rw [he]
    exact h
  · rw [he]
    exact winds_recordCapture h _ _ _ _

theorem winds_expireBase {m : PipelineManager} (h : m.state = .active → WindsExcept none m) :
    (Sys.expireBase m).state = .active → WindsExcept none (Sys.expireBase m) :=
  fun hs => (h hs).of_units rfl rfl

/-- The unit whose timer has run out is the one its handler is about. -/
theorem winds_expireUnit {m : PipelineManager} (h : m.state = .active → WindsExcept none m)
    (i : Slot) : (Sys.expireUnit i m).state = .active →
      WindsExcept (some i.unitId) (Sys.expireUnit i m) := by
  intro hs
  refine ⟨fun j hj => ?_, fun _ => (h hs).jpeg (by simp)⟩
  have hne : j ≠ i := by
    rintro rfl
    exact hj rfl
  unfold Sys.expireUnit
  rw [unit_modifyUnit_of_ne _ hne]
  exact (h hs).stream j (by simp)

theorem winds_expireJpeg {m : PipelineManager} (h : m.state = .active → WindsExcept none m) :
    (Sys.expireJpeg m).state = .active → WindsExcept (some .jpeg) (Sys.expireJpeg m) :=
  fun hs => ⟨fun i _ => (h hs).stream i (by simp), fun hne => absurd rfl hne⟩

theorem GraceInv.step {s : Sys} (h : GraceInv s) {op : Op} (hok : NoWarmRejoin s op) :
    GraceInv (s.step platform op) := by
  refine ⟨h.sys.step platform op, ?_⟩
  have hi := h.sys.inv
  have ha := h.winds
  cases op with
  | acquireUnit unit type => exact winds_acquireUnit platform hi ha hok
  | acquireBase type => exact winds_acquireBase platform hi ha hok
  | release hd =>
    unfold Sys.step
    dsimp only
    split
    · exact winds_release hi ha
    · exact ha
  | onGraceTimeout fired =>
    refine winds_onGraceTimeout ?_
    split
    · exact winds_expireBase ha
    · exact ha
  | onUnitGrace i fired =>
    refine winds_onUnitGrace ?_
    split
    · exact winds_expireUnit ha i
    · exact fun hs => (ha hs).weaken _
  | onJpegGrace fired =>
    refine winds_onJpegGrace ?_
    split
    · exact winds_expireJpeg ha
    · exact fun hs => (ha hs).weaken _
  | snapshotBegin =>
    unfold Sys.step
    dsimp only
    split <;> exact winds_snapshotBegin platform hi ha hok
  | snapshotCapture k now maxAgeMs => exact winds_capture ha k now maxAgeMs
  | snapshotCaptured k r image now => exact winds_captured ha k r image now
  | snapshotEnd k =>
    unfold Sys.step
    dsimp only
    split
    · exact winds_snapshotEnd hi ha
    · exact ha
  | updateStream st restart => exact winds_updateStream platform st restart hi ha hok
  | updateSubStream st enabled =>
    intro hs
    have hst := updateSubStream_state platform st enabled hi
    exact winds_updateSubStream platform st enabled hi (ha (hst.symm.trans hs))
  | setJpegEnabled on => exact winds_setJpegEnabled on ha
  | configureSub st hasTimer =>
    intro hs
    refine (ha hs).modifyUnit ?_
    exact fun hu => hu.of_eq rfl rfl rfl
  | setUnitGraceTimer i hasTimer =>
    intro hs
    refine (ha hs).modifyUnit ?_
    exact fun hu => hu.of_eq rfl rfl rfl
  | configureJpeg p cacheMs graceMs hasTimer =>
    exact fun hs => (ha hs).withJpeg (.inl rfl) ((ha hs).jpeg (by simp))
  | setSensorFpsTarget fps => exact fun hs => (ha hs).of_units rfl rfl
  | setPostStartHook set => exact fun hs => (ha hs).of_units rfl rfl
  | shutDown =>
    intro hs
    obtain ⟨m₁, heq, -⟩ := shutDown_eq s.mgr
    change (shutDown s.mgr).state = .active at hs
    rw [heq] at hs
    split at hs
    · cases hs
    · rename_i hne
      exact absurd (.inl hs) hne

/-- From `m` to `m'` timers have fired in an active pipeline. -/
structure Burnt (m m' : PipelineManager) : Prop where
  state : m'.state = .active
  demands : demands m' = demands m
  running : ∀ i, (m'.unit i).chain.running = true → (m.unit i).chain.running = true
  enc : m'.jpeg.enc.isSome = true → m.jpeg.enc.isSome = true

namespace Burnt

theorem total {m m' : PipelineManager} (h : Burnt m m') (i : Slot) :
    (m'.unit i).total = (m.unit i).total := congrArg (fun d => (d.1 i).2) h.demands

theorem demand {m m' : PipelineManager} (h : Burnt m m') : m'.jpeg.demand = m.jpeg.demand :=
  congrArg (fun d => d.2.1) h.demands

theorem trans {a b c : PipelineManager} (h : Burnt a b) (h' : Burnt b c) : Burnt a c :=
  ⟨h'.state, h'.demands.trans h.demands, fun i hi => h.running i (h'.running i hi),
    fun he => h.enc (h'.enc he)⟩

theorem modifyUnit {m : PipelineManager} (hs : m.state = .active) (i : Slot)
    {f : StreamUnit → StreamUnit} (hc : ∀ u, (f u).chain = u.chain)
    (hd : ∀ u, (f u).demand = u.demand) (ht : ∀ u, (f u).total = u.total) :
    Burnt m (m.modifyUnit i f) := by
  refine ⟨hs, demands_modifyUnit m i hd ht, fun j hj => ?_, id⟩
  have hsame := (SameMedia.modifyUnit m i hc).chain j
  rw [hsame] at hj
  exact hj

theorem stopUnitLocked {m : PipelineManager} (hs : m.state = .active) (i : Slot) :
    Burnt m (stopUnitLocked i m) := by
  have hstep := stopUnitLocked_step i m
  refine ⟨(stopUnitLocked_state i m).trans hs, demands_stopUnitLocked i m, fun j hj => ?_, ?_⟩
  · by_cases hij : j = i
    · subst hij
      rw [stopUnitLocked_chain] at hj
      cases hj
    · rw [hstep.chain j hij] at hj
      exact hj
  · rw [hstep.jpeg]
    exact id

theorem onUnitGrace {m : PipelineManager} (hs : m.state = .active) (i : Slot) :
    Burnt m (onUnitGrace i m) ∧
      (((PipelineManager.onUnitGrace i m).unit i).chain.running = true → 0 < (m.unit i).total) := by
  unfold PipelineManager.onUnitGrace
  have hb : Burnt m (m.modifyUnit i fun u => { u with graceArmed := false }) :=
    modifyUnit hs i (fun _ => rfl) (fun _ => rfl) fun _ => rfl
  dsimp only
  generalize m.modifyUnit i _ = m₁ at hb ⊢
  split
  · refine ⟨hb.trans (stopUnitLocked hb.state i), fun hr => ?_⟩
    rw [stopUnitLocked_chain] at hr
    cases hr
  · rename_i hc
    refine ⟨hb, fun hr => Nat.pos_of_ne_zero fun h0 => hc ⟨?_, hr, hb.state⟩⟩
    rw [hb.total i]
    exact h0

theorem onJpegGrace {m : PipelineManager} (hs : m.state = .active) :
    Burnt m (onJpegGrace m) ∧
      ((PipelineManager.onJpegGrace m).jpeg.enc.isSome = true → 0 < m.jpeg.demand) := by
  unfold PipelineManager.onJpegGrace
  dsimp only
  split
  · refine ⟨⟨(stopJpegLocked_state _).trans hs, ?_, fun i hi => ?_, by simp⟩, by simp⟩
    · exact demands_stopJpegLocked _
    · rw [stopJpegLocked_unit] at hi
      exact hi
  · rename_i hc
    exact ⟨⟨hs, rfl, fun _ => id, id⟩, fun he => Nat.pos_of_ne_zero fun h0 => hc ⟨h0, he, hs⟩⟩

end Burnt

theorem Burnt.step {s : Sys} (hs : s.mgr.state = .active) {op : Op} (hop : op.Fires) :
    Burnt s.mgr (s.step platform op).mgr := by
  cases op with
  | onGraceTimeout fired =>
    cases hop
    unfold Sys.step PipelineManager.onGraceTimeout
    have hne : (Sys.expireBase s.mgr).state ≠ .graceIdle := by
      intro h
      have h' := hs.symm.trans h
      cases h'
    simp only [if_true, if_pos (Or.inl hne)]
    exact ⟨hs, rfl, fun _ => id, id⟩
  | onUnitGrace i fired =>
    cases hop
    have hb : Burnt s.mgr (Sys.expireUnit i s.mgr) :=
      modifyUnit hs i (fun _ => rfl) (fun _ => rfl) fun _ => rfl
    exact hb.trans (onUnitGrace hb.state i).1
  | onJpegGrace fired =>
    cases hop
    have hb : Burnt s.mgr (Sys.expireJpeg s.mgr) := ⟨hs, rfl, fun _ => id, id⟩
    exact hb.trans (onJpegGrace hb.state).1
  | _ => exact hop.elim

theorem Burnt.run {s : Sys} (hs : s.mgr.state = .active) {fs : List Op}
    (hfs : ∀ op ∈ fs, op.Fires) : Burnt s.mgr (s.run platform fs).mgr := by
  induction fs generalizing s with
  | nil => exact ⟨hs, rfl, fun _ => id, id⟩
  | cons op fs ih =>
    have hb := Burnt.step platform hs (hfs op List.mem_cons_self)
    exact hb.trans (ih hb.state fun op hop => hfs op (List.mem_cons_of_mem _ hop))

/-- A firing somewhere among others: what came before it, its step, and what came after. -/
theorem Burnt.split {s : Sys} (hs : s.mgr.state = .active) {fs : List Op}
    (hfs : ∀ op ∈ fs, op.Fires) {op : Op} (hop : op ∈ fs) :
    ∃ t : Sys, Burnt s.mgr t.mgr ∧ t.mgr.state = .active ∧
      Burnt (t.step platform op).mgr (s.run platform fs).mgr := by
  obtain ⟨pre, post, rfl⟩ := List.append_of_mem hop
  have hpre : Burnt s.mgr (s.run platform pre).mgr :=
    .run platform hs fun op hop => hfs op (List.mem_append_left _ hop)
  refine ⟨s.run platform pre, hpre, hpre.state, ?_⟩
  have hrun : s.run platform (pre ++ op :: post) =
      ((s.run platform pre).step platform op).run platform post := by
    unfold Sys.run
    rw [run_append, run_cons]
  rw [hrun]
  refine .run platform (Burnt.step platform hpre.state (hfs op hop)).state ?_
  exact fun op hop => hfs op (List.mem_append_right _ (List.mem_cons_of_mem _ hop))

theorem onlyDemanded_of_fired {s : Sys} (hs : s.mgr.state = .active)
    (hw : WindsExcept none s.mgr) {fs : List Op} (hfs : CoversArmed s.mgr fs) :
    OnlyDemanded (s.run platform fs).mgr := by
  have hrun : Burnt s.mgr (s.run platform fs).mgr := .run platform hs hfs.fires
  refine ⟨fun i hi => ?_, fun he => ?_⟩
  · rw [hrun.total i]
    refine Nat.pos_of_ne_zero fun h0 => ?_
    -- the unit ran without demand, so its timer was armed and one of the firings was its own
    have ha := hw.stream i (by simp) (hrun.running i hi) h0
    obtain ⟨t, hpre, ht, hpost⟩ := Burnt.split platform hs hfs.fires (hfs.stream i ha)
    have hb : Burnt t.mgr (Sys.expireUnit i t.mgr) :=
      .modifyUnit ht i (fun _ => rfl) (fun _ => rfl) fun _ => rfl
    have hpos := (Burnt.onUnitGrace hb.state i).2 (hpost.running i hi)
    rw [hb.total i, hpre.total i] at hpos
    omega
  · rw [hrun.demand]
    refine Nat.pos_of_ne_zero fun h0 => ?_
    have ha := hw.jpeg (by simp) (hrun.enc he) h0
    obtain ⟨t, hpre, ht, hpost⟩ := Burnt.split platform hs hfs.fires (hfs.jpeg ha)
    have hb : Burnt t.mgr (Sys.expireJpeg t.mgr) := ⟨ht, rfl, fun _ => id, id⟩
    have hpos := (Burnt.onJpegGrace hb.state).2 (hpost.enc he)
    rw [hb.demand, hpre.demand] at hpos
    omega

/-- As long as no step rejoins or restarts a base over a unit left warm without a timer,
whatever runs without demand is on its timer. -/
theorem grace_timers_run (stream : EffectiveStream) (cfg : LifecycleConfig) (ops : List Op)
    (h : Along (Sys.step platform) NoWarmRejoin (Sys.create stream cfg) ops) :
    Always (Sys.step platform) (NoConsumerNoPipeline platform) (Sys.create stream cfg) ops := by
  have h0 : GraceInv (Sys.create stream cfg) := by
    refine ⟨.create stream cfg, ?_⟩
    intro hs; cases hs
  refine (always_of_along (fun s op hs hok => hs.step platform hok) h0 h).mono fun s hs => ?_
  exact ⟨hs.winds, fun hst fs hfs => onlyDemanded_of_fired platform hst (hs.winds hst) hfs⟩

end platform

/-- A main unit that comes back after its grace, beside a sub unit that winds down alone. -/
theorem grace_timers_run_rejoin :
    Always (Sys.step fun _ => .ok) (NoConsumerNoPipeline fun _ => .ok) (Sys.create {} {})
      [.configureSub {} true, .acquireUnit .main .rtsp, .acquireUnit .sub .ai, .release ⟨.ai, .sub⟩,
        .onUnitGrace .sub true, .release ⟨.rtsp, .main⟩, .acquireUnit .main .rtsp] :=
  grace_timers_run _ _ _ _ (by decide)

/-- A main unit in its grace runs on without demand or timer when the base is taken up for
the AI alone. -/
theorem not_noConsumerNoPipeline_acquireBase :
    ¬ NoConsumerNoPipeline (fun _ => .ok) ((Sys.create {} {}).run (fun _ => .ok)
      [.acquireUnit .main .rtsp, .release ⟨.rtsp, .main⟩, .acquireBase .ai]) := by
  intro h
  have hw := h.winds (by decide)
  revert hw
  decide

end Machino.Lifecycle
