import Machino.Lifecycle.PlatformState

namespace Machino.Lifecycle

open PipelineManager Runs

/-- A configured unit that is in demand runs. -/
def StreamUnit.Served (u : StreamUnit) : Prop :=
  u.configured = true → 0 < u.total → u.chain.running = true

/-- An active manager serves every unit. -/
def Served (m : PipelineManager) : Prop := m.state = .active → ∀ i, (m.unit i).Served

/-- The step does not stop a substream in demand without starting it again, nor configure one
that is in demand and stopped: a restart makes five calls to take the substream down, and the
platform accepts the five calls after them. -/
def Restarts (platform : ℕ → Result) (s : Sys) : Op → Prop
  | .updateSubStream _ enabled => s.mgr.state = .active → enabled = true →
      (s.mgr.unit .sub).configured = true → 0 < (s.mgr.unit .sub).total →
      (s.mgr.unit .sub).chain.running = true →
      ∀ k < 5, (platform (s.mgr.log.length + 5 + k)).isOk = true
  | .configureSub _ _ => s.mgr.state = .active → 0 < (s.mgr.unit .sub).total →
      (s.mgr.unit .sub).chain.running = true
  | _ => True

theorem StreamUnit.Served.of_eq {u u' : StreamUnit} (h : u.Served)
    (hconf : u'.configured = u.configured) (ht : u'.total = u.total) (hc : u'.chain = u.chain) :
    u'.Served := by
  unfold Served
  rw [hconf, ht, hc]
  exact h

theorem StreamUnit.Served.of_zero {u : StreamUnit} (h : u.total = 0) : u.Served := by
  intro _ hpos
  omega

/-- What the books keep of a unit: all but its chain. -/
theorem StreamUnit.Served.of_books {m m' : PipelineManager} {i : Slot} (h : (m.unit i).Served)
    (hb : m'.books = m.books) (hc : (m'.unit i).chain = (m.unit i).chain) :
    (m'.unit i).Served := by
  have hu := unitBooks_eq hb i
  exact h.of_eq (congrArg StreamUnit.configured hu :) (congrArg StreamUnit.total hu :) hc

namespace Served

variable {m m' : PipelineManager}

theorem of_state (h : m.state ≠ .active) : Served m := fun hs => absurd hs h

theorem of_units (h : Served m) (hs : m'.state = m.state) (hu : m'.units = m.units) :
    Served m' := by
  intro hact i
  have hui : m'.unit i = m.unit i := congrArg (fun us => us.get i) hu
  rw [hui]
  exact h (hs.symm.trans hact) i

theorem modifyUnit (h : Served m) (i : Slot) {f : StreamUnit → StreamUnit}
    (hf : (m.unit i).Served → (f (m.unit i)).Served) : Served (m.modifyUnit i f) := by
  intro hact j
  by_cases hj : j = i
  · subst hj
    rw [unit_modifyUnit_self]
    exact hf (h hact j)
  · rw [unit_modifyUnit_of_ne _ hj]
    exact h hact j

/-- A unit may be taken down when nobody wants it. -/
theorem stopUnitLocked (h : Served m) {i : Slot} (h0 : (m.unit i).total = 0) :
    Served (stopUnitLocked i m) := by
  have hs := stopUnitLocked_step i m
  intro hact j
  have hj := h ((state_of_books hs.books).symm.trans hact) j
  by_cases hij : j = i
  · subst hij
    have ht := congrArg StreamUnit.total (unitBooks_eq hs.books j)
    exact .of_zero (Eq.trans ht h0)
  · exact hj.of_books hs.books (hs.chain j hij)

theorem stopJpegLocked (h : Served m) : Served (stopJpegLocked m) :=
  h.of_units (stopJpegLocked_state m) (stopJpegLocked_units m)

theorem disarmUnit (h : Served m) (i : Slot) : Served (disarmUnit i m) := by
  unfold PipelineManager.disarmUnit
  split
  · exact h.modifyUnit i fun hu => hu.of_eq rfl rfl rfl
  · exact h

theorem disarmJpeg (h : Served m) : Served (disarmJpeg m) := by
  unfold PipelineManager.disarmJpeg
  split
  · exact h.of_units rfl rfl
  · exact h

theorem dropDemand (h : Served m) (hd : DemandHandle) : Served (dropDemand hd m) := by
  unfold PipelineManager.dropDemand
  split
  · exact h.of_units rfl rfl
  · refine h.modifyUnit _ fun hu hconf hpos => ?_
    exact hu hconf (Nat.lt_of_lt_of_le hpos (Nat.sub_le _ _))

theorem release (h : Served m) (hd : DemandHandle) : Served (m.release hd) := by
  have hdrop := h.dropDemand hd
  unfold PipelineManager.release
  generalize PipelineManager.dropDemand hd m = m₁ at hdrop ⊢
  dsimp only
  split
  · split
    · exact .of_state (by simp [enterGrace, transition])
    · exact hdrop
  · split
    · exact hdrop
    split
    · exact .of_state (by simp [enterGrace, transition])
    split
    · rename_i hc
      split
      · exact hdrop.modifyUnit _ fun hu => hu.of_eq rfl rfl rfl
      · exact hdrop.stopUnitLocked hc.1
    · exact hdrop

theorem snapshotEnd (h : Served m) : Served m.snapshotEnd := by
  have hdrop : Served (dropSnapshot m) := h.of_units rfl rfl
  unfold PipelineManager.snapshotEnd
  generalize dropSnapshot m = m₁ at hdrop ⊢
  dsimp only
  split
  · exact hdrop
  split
  · exact .of_state (by simp [enterGrace, transition])
  split
  · split
    · exact hdrop.of_units rfl rfl
    · exact hdrop.stopJpegLocked
  · exact hdrop

theorem onGraceTimeout (h : Served m) : Served (onGraceTimeout m) := by
  unfold PipelineManager.onGraceTimeout
  split
  · exact h
  · exact .of_state (by simp [transition])

theorem onUnitGrace (h : Served m) (i : Slot) : Served (onUnitGrace i m) := by
  have hdis : Served (m.modifyUnit i fun u => { u with graceArmed := false }) :=
    h.modifyUnit i fun hu => hu.of_eq rfl rfl rfl
  unfold PipelineManager.onUnitGrace
  dsimp only
  split
  · rename_i hc
    exact hdis.stopUnitLocked hc.1
  · exact hdis

theorem onJpegGrace (h : Served m) : Served (onJpegGrace m) := by
  have hdis : Served { m with jpeg := { m.jpeg with graceArmed := false } } := h.of_units rfl rfl
  unfold PipelineManager.onJpegGrace
  dsimp only
  split
  · exact hdis.stopJpegLocked
  · exact hdis

theorem setJpegEnabled (h : Served m) (on : Bool) : Served (setJpegEnabled on m) := by
  unfold PipelineManager.setJpegEnabled
  split
  · exact h
  · have hset : Served { m with jpeg := { m.jpeg with enabled := on } } := h.of_units rfl rfl
    dsimp only
    split
    · exact hset.disarmJpeg.stopJpegLocked
    · exact hset

theorem recordCapture (h : Served m) (t0 now : Int) (r : Result) (image : List UInt8) :
    Served (recordCapture t0 now r image m) := by
  unfold PipelineManager.recordCapture
  dsimp only
  split <;> exact h.of_units rfl rfl

theorem shutDown (m : PipelineManager) : Served m.shutDown := by
  obtain ⟨m₁, heq, -⟩ := shutDown_eq m
  rw [heq]
  split
  · exact .of_state (by simp [transition])
  · rename_i hne
    exact .of_state fun hs => hne (.inl hs)

end Served

section platform

variable (platform : ℕ → Result)

/-- A stage of a unit start succeeds when its own call and the rest of the start do. -/
theorem acquireStage_fst {i : Slot} {stage : String} {call : Chain → ℕ → Result → Call}
    {record : ℕ → Chain → Chain} {code : Result → Int}
    {next : PipelineManager → Bool × PipelineManager} {m : PipelineManager} {n : ℕ}
    (hnext : ∀ m', m'.log.length = m.log.length + 1 →
      ((next m').1 = true ↔ ∀ k < n, (platform (m'.log.length + k)).isOk = true)) :
    (acquireStage platform i stage call record code next m).1 = true ↔
      ∀ k < n + 1, (platform (m.log.length + k)).isOk = true := by
  unfold acquireStage
  dsimp only
  generalize hr : platform m.log.length = r
  have hlog : ((m.tell (call (m.unit i).chain m.log.length r)).modifyChain i
      (record m.log.length)).log.length = m.log.length + 1 := by simp
  have hrest := hnext _ hlog
  rw [hlog] at hrest
  -- the call itself is the one at distance 0, the rest of the start begins one further
  have hshift : (∀ k < n + 1, (platform (m.log.length + k)).isOk = true) ↔
      r.isOk = true ∧ ∀ k < n, (platform (m.log.length + 1 + k)).isOk = true := by
    rw [Nat.forall_lt_succ_left, Nat.add_zero, hr]
    simp only [Nat.add_assoc, Nat.add_comm 1]
  rw [hshift]
  split
  · rename_i hok
    rw [hrest]
    simp [hok]
  · rename_i hok
    simp [failUnit, hok]

/-- An idle unit comes up when the platform accepts all five of its calls. -/
theorem startUnitLocked_fst {i : Slot} {m : PipelineManager} (h : (m.unit i).chain = {}) :
    (startUnitLocked platform i m).1 = true ↔
      ∀ k < 5, (platform (m.log.length + k)).isOk = true := by
  unfold startUnitLocked
  rw [if_neg (by simp [h])]
  refine acquireStage_fst platform fun m₁ _ => ?_
  refine acquireStage_fst platform fun m₂ _ => ?_
  refine acquireStage_fst platform fun m₃ _ => ?_
  refine acquireStage_fst platform fun m₄ _ => ?_
  refine acquireStage_fst platform fun m₅ _ => ?_
  simp

/-- Taking a running unit down takes five calls. -/
theorem length_log_stopUnitLocked {i : Slot} {m : PipelineManager}
    (h : (m.unit i).chain.Live) : (stopUnitLocked i m).log.length = m.log.length + 5 := by
  obtain ⟨fs, enc, h⟩ := h
  simp [stopUnitLocked, h, undo]

/-- A start of one unit leaves the others as they were, and a unit in demand runs before it. -/
theorem Served.startUnitLocked {m : PipelineManager} (h : Served m) (hm : Sound m) (i : Slot) :
    Served (startUnitLocked platform i m).2 := by
  have hs := startUnitLocked_spec platform (hm.chain i)
  intro hact j
  have hj := h ((state_of_books hs.step.books).symm.trans hact) j
  by_cases hij : j = i
  · subst hij
    rcases hm.chain j with hempty | hlive
    · -- the unit did not run, so nobody wants it
      have hu := unitBooks_eq hs.step.books j
      intro hconf hpos
      have hconf₀ : (m.unit j).configured = true :=
        Eq.trans (congrArg StreamUnit.configured hu).symm hconf
      have hpos₀ : 0 < (m.unit j).total :=
        Nat.lt_of_lt_of_eq hpos (congrArg StreamUnit.total hu :)
      have hrun := hj hconf₀ hpos₀
      simp [hempty] at hrun
    · unfold PipelineManager.startUnitLocked
      rw [if_pos hlive.running]
      exact hj
  · exact hj.of_books hs.step.books (hs.step.chain j hij)

/-- Whatever asks for the base, it comes up with every unit in demand. -/
theorem Served.ensureBaseLocked {m : PipelineManager} (h : Served m) (hi : Inv m)
    (unit : Option UnitId) : Served (ensureBaseLocked platform unit m).2 := by
  unfold PipelineManager.ensureBaseLocked
  rcases hi.state_cases with hs | hs | hs | hs <;> rw [hs] <;> dsimp only
  · have hsound : Sound (m.transition .starting) :=
      hi.sound.of_eq (fun _ => rfl) rfl (fun _ => rfl) rfl
    have hb := startBaseLocked_spec platform unit hsound
    match hr : startBaseLocked platform unit (m.transition .starting), hb with
    | (false, m'), _ => exact .of_state (by simp [transition])
    | (true, m'), hb =>
      intro _ i hconf hpos
      have hw : Wanted unit m' i := .inr ⟨hconf, hpos⟩
      exact (hb.live rfl i ((Wanted.of_books hb.books i).mp hw)).running
  · exact .of_state (by simp)
  · exact h
  · -- a base in its grace has no demand at all
    have hz (i : Slot) : (m.unit i).total = 0 := by
      refine Nat.eq_zero_of_not_pos fun hpos => ?_
      have hall := totalAll_pos hpos
      have hnone := (hi.grace hs).2.2.1
      omega
    exact fun _ i => .of_zero (hz i)

theorem Served.failIdleBase {m : PipelineManager} (h : Served m) : Served (failIdleBase m) := by
  unfold PipelineManager.failIdleBase
  split
  · exact .of_state (by simp [transition])
  · exact h

theorem Served.acquireUnit {m : PipelineManager} (h : Served m) (hi : Inv m) (unit : UnitId)
    (type : ConsumerType) : Served (acquireUnit platform unit type m).2 := by
  unfold PipelineManager.acquireUnit
  match hslot : unit.slot with
  | none => exact h
  | some i =>
    dsimp only
    split
    · exact h
    rename_i hok
    have hsd : m.shutdown = false := by simp_all
    have he := ensureBaseLocked_spec platform (some unit) hi hsd
    have hbase := h.ensureBaseLocked platform hi (some unit)
    match hr : PipelineManager.ensureBaseLocked platform (some unit) m, he, hbase with
    | (false, m₁), _, hbase => exact hbase
    | (true, m₁), he, hbase =>
      have hsound : Sound (PipelineManager.disarmUnit i m₁) :=
        (SameMedia.disarmUnit i m₁).sound (he.warm rfl).sound
      have hs := startUnitLocked_spec platform (hsound.chain i)
      have hstart := (hbase.disarmUnit i).startUnitLocked platform hsound i
      dsimp only
      match hr₂ : PipelineManager.startUnitLocked platform i (PipelineManager.disarmUnit i m₁),
        hs, hstart with
      | (false, m₂), _, hstart => exact hstart.failIdleBase
      | (true, m₂), hs, hstart =>
        exact hstart.modifyUnit i fun _ _ _ => (hs.live rfl).running

theorem Served.acquireBase {m : PipelineManager} (h : Served m) (hi : Inv m)
    (type : ConsumerType) : Served (acquireBase platform type m).2 := by
  unfold PipelineManager.acquireBase
  split
  · exact h
  · have hbase := h.ensureBaseLocked platform hi none
    match hr : PipelineManager.ensureBaseLocked platform none m, hbase with
    | (false, m₁), hbase => exact hbase
    | (true, m₁), hbase => exact hbase.of_units rfl rfl

theorem Served.snapshotBegin {m : PipelineManager} (h : Served m) (hi : Inv m) :
    Served (snapshotBegin platform m).2 := by
  unfold PipelineManager.snapshotBegin
  split
  · exact h
  split
  · exact h
  split
  · exact h
  have hbase := h.ensureBaseLocked platform hi (some .jpeg)
  match hr : PipelineManager.ensureBaseLocked platform (some .jpeg) m, hbase with
  | (false, m₁), hbase => exact hbase
  | (true, m₁), hbase =>
    have hj := startJpegLocked_spec platform (PipelineManager.disarmJpeg m₁)
    have hstart : Served (startJpegLocked platform (PipelineManager.disarmJpeg m₁)).2 :=
      hbase.disarmJpeg.of_units (state_of_books hj.books) hj.units
    dsimp only
    match hr₂ : startJpegLocked platform (PipelineManager.disarmJpeg m₁), hstart with
    | (false, m₂), hstart => exact hstart.failIdleBase
    | (true, m₂), hstart => exact hstart.of_units rfl rfl

/-- A restart of the base brings every unit in demand back, or ends in the failed state. -/
theorem Served.updateStream {m : PipelineManager} (h : Served m) (hi : Inv m)
    (s : EffectiveStream) (restart : Bool) : Served (updateStream platform s restart m).2 := by
  unfold PipelineManager.updateStream
  dsimp only
  generalize hm : m.modifyUnit .main _ = m₁
  have hset : Served m₁ := by
    subst hm
    exact h.modifyUnit .main fun hu => hu.of_eq rfl rfl rfl
  have hi₁ : Inv m₁ := by
    subst hm
    exact hi.modifyUnit .main (fun _ => rfl) (fun _ => rfl) fun _ => rfl
  split
  · rename_i hrun
    have hstop := stopBaseLocked_spec (m₁.transition .stopping)
    generalize stopBaseLocked (m₁.transition .stopping) = m₀ at hstop ⊢
    generalize hm₂ : PipelineManager.transition { m₀ with restartCount := _ } .starting = m₂
    have hsound : Sound m₂ := by
      subst hm₂
      exact (hstop.sound (hi₁.sound.of_eq (fun _ => rfl) rfl (fun _ => rfl) rfl)).of_eq
        (fun _ => rfl) rfl (fun _ => rfl) rfl
    have hb := startBaseLocked_spec platform (some .main) hsound
    match hr : startBaseLocked platform (some .main) m₂, hb with
    | (false, m₃), _ => exact .of_state (by simp [transition])
    | (true, m₃), hb =>
      have hlive (i : Slot) : (m₃.unit i).Served := by
        intro hconf hpos
        have hw : Wanted (some .main) m₃ i := .inr ⟨hconf, hpos⟩
        exact (hb.live rfl i ((Wanted.of_books hb.books i).mp hw)).running
      rcases hrun.1 with hs | hs <;> rw [hs]
      · exact fun _ => hlive
      · exact .of_state (by simp [transition])
  · exact hset

/-- A running unit that is stopped and started again serves its demand just when the platform
accepts the start. -/
theorem served_restart {i : Slot} {m : PipelineManager} (m' : PipelineManager) (h : Served m)
    (hm : Sound m)
    (hrun : (m.unit i).chain.running = true) (hconf : (m.unit i).configured = true)
    (hm' : m'.units = (stopUnitLocked i m).units ∧ m'.log = (stopUnitLocked i m).log ∧
      m'.state = (stopUnitLocked i m).state) :
    Served (startUnitLocked platform i m').2 ↔ (m.state = .active → 0 < (m.unit i).total →
      ∀ k < 5, (platform (m.log.length + 5 + k)).isOk = true) := by
  obtain ⟨hunits, hlog, hst⟩ := hm'
  have hstop := stopUnitLocked_step i m
  have hunit (j : Slot) : m'.unit j = (stopUnitLocked i m).unit j :=
    congrArg (fun us => us.get j) hunits
  have hempty : (m'.unit i).chain = {} := by rw [hunit i, stopUnitLocked_chain]
  have hs := startUnitLocked_spec platform (.inl hempty)
  have hfst := startUnitLocked_fst platform hempty
  rw [hlog, length_log_stopUnitLocked (hm.running hrun)] at hfst
  rw [← hfst]
  -- what the restart leaves of the books, and of the other unit
  have hbooks (j : Slot) : (startUnitLocked platform i m').2.unitBooks j = m.unitBooks j := by
    rw [unitBooks_eq hs.step.books j, ← unitBooks_eq hstop.books j]
    unfold unitBooks
    rw [hunit j]
  have hstate : (startUnitLocked platform i m').2.state = m.state :=
    (state_of_books hs.step.books).trans (hst.trans (state_of_books hstop.books))
  have htot : ((startUnitLocked platform i m').2.unit i).total = (m.unit i).total :=
    (congrArg StreamUnit.total (hbooks i) :)
  have hconf' : ((startUnitLocked platform i m').2.unit i).configured = true :=
    Eq.trans (congrArg StreamUnit.configured (hbooks i) :) hconf
  constructor
  · intro hserved hact hpos
    by_contra hno
    have hidle := hs.idle (by simpa using hno)
    have hr := hserved (hstate.trans hact) i hconf' (htot ▸ hpos)
    simp [hidle] at hr
  · intro hok hact j
    have hact₀ := hstate.symm.trans hact
    by_cases hij : j = i
    · subst hij
      intro _ hpos
      exact (hs.live (hok hact₀ (htot ▸ hpos))).running
    · have hc : ((startUnitLocked platform i m').2.unit j).chain = (m.unit j).chain := by
        rw [hs.step.chain j hij, hunit j, hstop.chain j hij]
      exact (h hact₀ j).of_eq (congrArg StreamUnit.configured (hbooks j) :)
        (congrArg StreamUnit.total (hbooks j) :) hc

/-- An update of the substream leaves every unit served just when it has none in demand to
restart, or the platform accepts the restart. -/
theorem served_updateSubStream {m : PipelineManager} (h : Served m) (hi : Inv m)
    (s : EffectiveStream) (enabled : Bool) :
    Served (updateSubStream platform s enabled m).2 ↔
      (m.state = .active → enabled = true → (m.unit .sub).configured = true →
        0 < (m.unit .sub).total → (m.unit .sub).chain.running = true →
        ∀ k < 5, (platform (m.log.length + 5 + k)).isOk = true) := by
  unfold updateSubStream
  split
  · rename_i hen
    refine iff_of_true ?_ (fun _ hen' => by simp [hen'] at hen)
    dsimp only
    -- the unit goes down whoever wants it, and is then not configured any more
    intro hact i
    have hst : m.state = .active := by
      split at hact
      · exact (state_of_books (stopUnitLocked_step .sub m).books).symm.trans hact
      · exact hact
    by_cases hsub : i = .sub
    · subst hsub
      rw [unit_modifyUnit_self]
      intro hconf
      cases hconf
    · rw [unit_modifyUnit_of_ne _ hsub]
      split
      · have hs := stopUnitLocked_step .sub m
        exact (h hst i).of_books hs.books (hs.chain i hsub)
      · exact h hst i
  · split
    · rename_i hconf
      exact iff_of_true h fun _ _ hconf' => by simp [hconf'] at hconf
    · rename_i hen hconf
      dsimp only
      generalize hm : m.modifyUnit .sub _ = m₁
      have hset : Served m₁ := by
        subst hm
        exact h.modifyUnit .sub fun hu => hu.of_eq rfl rfl rfl
      have hi₁ : Inv m₁ := by
        subst hm
        exact hi.modifyUnit .sub (fun _ => rfl) (fun _ => rfl) fun _ => rfl
      have hlog : m₁.log = m.log := by subst hm; rfl
      have hst : m₁.state = m.state := by subst hm; rfl
      have hconf₁ : (m₁.unit .sub).configured = (m.unit .sub).configured := by subst hm; rfl
      have htot : (m₁.unit .sub).total = (m.unit .sub).total := by subst hm; rfl
      have hchain : (m₁.unit .sub).chain = (m.unit .sub).chain := by subst hm; rfl
      rw [← hlog, ← hst, ← hconf₁, ← htot, ← hchain]
      rw [← hconf₁] at hconf
      clear hm hlog hst hconf₁ htot hchain
      split
      · rename_i hrun
        exact iff_of_true hset fun _ _ _ _ hrun' => by simp [hrun'] at hrun
      · rename_i hrun
        have hconf' : (m₁.unit .sub).configured = true := by simpa using hconf
        have hrun' : (m₁.unit .sub).chain.running = true := by simpa using hrun
        have hre := served_restart platform { stopUnitLocked .sub m₁ with
          subRestartCount := (stopUnitLocked .sub m₁).subRestartCount + 1 } hset hi₁.sound hrun'
          hconf' ⟨rfl, rfl, rfl⟩
        have hcond : (m₁.state = .active → enabled = true → (m₁.unit .sub).configured = true →
            0 < (m₁.unit .sub).total → (m₁.unit .sub).chain.running = true →
            ∀ k < 5, (platform (m₁.log.length + 5 + k)).isOk = true) ↔
            (m₁.state = .active → 0 < (m₁.unit .sub).total →
              ∀ k < 5, (platform (m₁.log.length + 5 + k)).isOk = true) :=
          ⟨fun h hact hpos => h hact (by simpa using hen) hconf' hpos hrun',
            fun h hact _ _ hpos _ => h hact hpos⟩
        rw [hcond, ← hre]
        generalize PipelineManager.mk _ _ _ _ _ _ _ _ _ _
          ((stopUnitLocked .sub m₁).subRestartCount + 1) _ _ _ _ _ _ _ = m₂
        match startUnitLocked platform .sub m₂ with
        | (false, m₃) => exact Iff.rfl
        | (true, m₃) => exact Iff.rfl

/-- The system invariant, with every unit served. -/
structure ServedInv (s : Sys) : Prop where
  sys : SysInv s
  served : Served s.mgr

theorem ServedInv.step {s : Sys} (h : ServedInv s) {op : Op} (hok : Restarts platform s op) :
    ServedInv (s.step platform op) := by
  refine ⟨h.sys.step platform op, ?_⟩
  have hi := h.sys.inv
  have hs := h.served
  unfold Sys.step
  cases op with
  | acquireUnit unit type => exact hs.acquireUnit platform hi unit type
  | acquireBase type => exact hs.acquireBase platform hi type
  | release hd =>
    dsimp only
    split
    · exact hs.release hd
    · exact hs
  | onGraceTimeout fired =>
    refine Served.onGraceTimeout ?_
    split
    · exact hs.of_units rfl rfl
    · exact hs
  | onUnitGrace i fired =>
    refine Served.onUnitGrace ?_ i
    split
    · exact hs.modifyUnit i fun hu => hu.of_eq rfl rfl rfl
    · exact hs
  | onJpegGrace fired =>
    refine Served.onJpegGrace ?_
    split
    · exact hs.of_units rfl rfl
    · exact hs
  | snapshotBegin =>
    dsimp only
    split <;> exact hs.snapshotBegin platform hi
  | snapshotCapture k now maxAgeMs =>
    rcases mgr_capture s k now maxAgeMs with he | ⟨e, -, he⟩
    · rw [he]
      exact hs
    · rw [he]
      exact hs.of_units rfl rfl
  | snapshotCaptured k r image now =>
    rcases mgr_captured s k r image now with he | ⟨t0, r', he⟩
    · rw [he]
      exact hs
    · rw [he]
      exact hs.recordCapture _ _ _ _
  | snapshotEnd k =>
    dsimp only
    split
    · exact hs.snapshotEnd
    · exact hs
  | updateStream st restart => exact hs.updateStream platform hi st restart
  | updateSubStream st enabled => exact (served_updateSubStream platform hs hi st enabled).mpr hok
  | setJpegEnabled on => exact hs.setJpegEnabled on
  | configureSub st hasTimer =>
    intro hact i
    by_cases hsub : i = .sub
    · subst hsub
      intro _ hpos
      simp only [configureSub, unit_modifyUnit_self] at hpos ⊢
      exact hok hact hpos
    · unfold configureSub
      rw [unit_modifyUnit_of_ne _ hsub]
      exact hs hact i
  | setUnitGraceTimer i hasTimer => exact hs.modifyUnit i fun hu => hu.of_eq rfl rfl rfl
  | configureJpeg p cacheMs graceMs hasTimer => exact hs.of_units rfl rfl
  | setSensorFpsTarget fps => exact hs.of_units rfl rfl
  | setPostStartHook set => exact hs.of_units rfl rfl
  | shutDown => exact .shutDown s.mgr

/-- A step that leaves a stopped substream in demand leaves it unserved. -/
theorem ServedInv.broken {s : Sys} (h : ServedInv s) {op : Op} (hbad : ¬ Restarts platform s op) :
    ¬ Served (s.step platform op).mgr := by
  cases op with
  | updateSubStream st enabled =>
    have hre := served_updateSubStream platform h.served h.sys.inv st enabled
    exact fun hs => hbad (hre.mp hs)
  | configureSub st hasTimer =>
    intro hs
    refine hbad fun hact hpos => ?_
    have hsub := hs hact .sub
    simp only [Sys.step, configureSub, StreamUnit.Served, unit_modifyUnit_self] at hsub
    exact hsub trivial hpos
  | _ => exact absurd trivial hbad

/-- Every unit in demand is served in all states of a run just when the platform accepts each
restart of a substream in demand, and none is configured while it is in demand and stopped. -/
theorem served_run (stream : EffectiveStream) (cfg : LifecycleConfig) (ops : List Op) :
    Always (Sys.step platform) (fun s => Served s.mgr) (Sys.create stream cfg) ops ↔
      Along (Sys.step platform) (Restarts platform) (Sys.create stream cfg) ops := by
  have h0 : ServedInv (Sys.create stream cfg) :=
    ⟨.create stream cfg, .of_state (by simp [Sys.create, PipelineManager.create])⟩
  exact always_iff_along (fun s op h hok => h.step platform hok) (fun s h => h.served)
    (fun s op h hbad => h.broken platform hbad) h0

end platform

/-- The substream of an active pipeline stays down, with its handle still counted, after an
update whose restart the platform refused. -/
theorem not_served_updateSubStream :
    ¬ Served ((Sys.create {} {}).run (fun n => if n = 16 then .error else .ok)
      [.configureSub {} false, .acquireUnit .main .rtsp, .acquireUnit .sub .rtsp,
        .updateSubStream {} true]).mgr := by
  intro h
  have hsub := h (by decide) .sub
  revert hsub
  unfold StreamUnit.Served
  decide

end Machino.Lifecycle
