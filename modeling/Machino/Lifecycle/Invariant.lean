import Machino.Lifecycle.Media
import Machino.Lifecycle.PipelineManager

namespace Machino.Lifecycle

open Ledger PipelineManager

/-- Every demand counter of the manager: per unit and type, per unit, snapshots, base only. -/
def demands (m : PipelineManager) : (Slot → (ConsumerType → ℕ) × ℕ) × ℕ × ℕ :=
  (fun i => ((m.unit i).demand, (m.unit i).total), m.jpeg.demand, m.aiDemand)

theorem totalAll_eq {m m' : PipelineManager} (h : demands m' = demands m) :
    m'.totalAll = m.totalAll := by
  have ht (i : Slot) : (m'.unit i).total = (m.unit i).total :=
    congrArg (fun d => (d.1 i).2) h
  have hj : m'.jpeg.demand = m.jpeg.demand := congrArg (fun d => d.2.1) h
  have ha : m'.aiDemand = m.aiDemand := congrArg (fun d => d.2.2) h
  unfold totalAll
  rw [ht, ht, hj, ha]

theorem demands_of_books {m m' : PipelineManager} (h : m'.books = m.books) :
    demands m' = demands m := by
  have hu (i : Slot) := unitBooks_eq h i
  refine Prod.ext (funext fun i => Prod.ext ?_ ?_) (Prod.ext ?_ ?_)
  · exact (congrArg StreamUnit.demand (hu i) :)
  · exact (congrArg StreamUnit.total (hu i) :)
  · exact (congrArg (fun b => b.jpeg.demand) h :)
  · exact (congrArg PipelineManager.aiDemand h :)

theorem state_of_books {m m' : PipelineManager} (h : m'.books = m.books) : m'.state = m.state :=
  (congrArg PipelineManager.state h :)

theorem shutdown_of_books {m m' : PipelineManager} (h : m'.books = m.books) :
    m'.shutdown = m.shutdown := (congrArg PipelineManager.shutdown h :)

theorem timer_of_books {m m' : PipelineManager} (h : m'.books = m.books) : m'.timer = m.timer :=
  (congrArg PipelineManager.timer h :)

/-- What the manager owes in each state. Between two operations it is never half-way. -/
def Promise (m : PipelineManager) : Prop :=
  match m.state with
  | .coldIdle | .failed => Cold m
  | .active => platformUp m.log = true ∧ m.shutdown = false ∧ 0 < m.totalAll
  | .graceIdle =>
    platformUp m.log = true ∧ m.shutdown = false ∧ m.totalAll = 0 ∧ m.timer.armed = true
  | .starting | .stopping => False

structure Inv (m : PipelineManager) : Prop where
  sound : Sound m
  promise : Promise m

/-- The base is up for a demand that is not counted yet. -/
structure Warm (m : PipelineManager) : Prop where
  sound : Sound m
  up : platformUp m.log = true
  state : m.state = .active
  shutdown : m.shutdown = false

theorem Warm.inv {m : PipelineManager} (h : Warm m) (ht : 0 < m.totalAll) : Inv m :=
  ⟨h.sound, by unfold Promise; rw [h.state]; exact ⟨h.up, h.shutdown, ht⟩⟩

theorem Inv.warm {m : PipelineManager} (h : Inv m) (hs : m.state = .active) : Warm m := by
  have hp := h.promise
  unfold Promise at hp
  rw [hs] at hp
  exact ⟨h.sound, hp.1, hs, hp.2.1⟩

theorem Inv.total_pos {m : PipelineManager} (h : Inv m) (hs : m.state = .active) :
    0 < m.totalAll := by
  have hp := h.promise
  unfold Promise at hp
  rw [hs] at hp
  exact hp.2.2

theorem Inv.grace {m : PipelineManager} (h : Inv m) (hs : m.state = .graceIdle) :
    platformUp m.log = true ∧ m.shutdown = false ∧ m.totalAll = 0 ∧ m.timer.armed = true := by
  have hp := h.promise
  unfold Promise at hp
  rw [hs] at hp
  exact hp

theorem Inv.cold {m : PipelineManager} (h : Inv m)
    (hs : m.state = .coldIdle ∨ m.state = .failed) : Cold m := by
  have hp := h.promise
  unfold Promise at hp
  rcases hs with hs | hs <;> rw [hs] at hp <;> exact hp

theorem Inv.of_cold {m : PipelineManager} (hs : Sound m) (hc : Cold m)
    (h : m.state = .coldIdle ∨ m.state = .failed) : Inv m :=
  ⟨hs, by unfold Promise; rcases h with h | h <;> rw [h] <;> exact hc⟩

/-- What the promise reads: the cold parts, and what a base that is up reads. -/
theorem Promise.of_eq {m m' : PipelineManager} (h : Promise m)
    (hc : m.state = .coldIdle ∨ m.state = .failed → Cold m') (hs : m'.state = m.state)
    (hup : platformUp m'.log = platformUp m.log) (hsd : m'.shutdown = m.shutdown)
    (ht : m'.totalAll = m.totalAll)
    (ha : m.state = .graceIdle → m'.timer.armed = m.timer.armed) : Promise m' := by
  unfold Promise at h ⊢
  rw [hs, hup, hsd, ht]
  cases hst : m.state with
  | coldIdle => exact hc (.inl hst)
  | failed => exact hc (.inr hst)
  | active => rw [hst] at h; exact h
  | graceIdle =>
    rw [hst] at h
    exact ⟨h.1, h.2.1, h.2.2.1, (ha hst).trans h.2.2.2⟩
  | starting => rw [hst] at h; exact h
  | stopping => rw [hst] at h; exact h

theorem Inv.state_cases {m : PipelineManager} (h : Inv m) :
    m.state = .coldIdle ∨ m.state = .failed ∨ m.state = .active ∨ m.state = .graceIdle := by
  have hp := h.promise
  unfold Promise at hp
  cases hs : m.state <;> rw [hs] at hp <;> simp_all

/-- `m'` agrees with `m` in everything the invariant reads but the demand. -/
structure SameMedia (m m' : PipelineManager) : Prop where
  chain : ∀ i, (m'.unit i).chain = (m.unit i).chain
  enc : m'.jpeg.enc = m.jpeg.enc
  log : m'.log = m.log
  state : m'.state = m.state
  shutdown : m'.shutdown = m.shutdown
  armed : m'.timer.armed = m.timer.armed

namespace SameMedia

theorem refl (m : PipelineManager) : SameMedia m m := ⟨fun _ => rfl, rfl, rfl, rfl, rfl, rfl⟩

theorem trans {a b c : PipelineManager} (h : SameMedia a b) (h' : SameMedia b c) :
    SameMedia a c :=
  ⟨fun i => (h'.chain i).trans (h.chain i), h'.enc.trans h.enc, h'.log.trans h.log,
    h'.state.trans h.state, h'.shutdown.trans h.shutdown, h'.armed.trans h.armed⟩

theorem modifyUnit (m : PipelineManager) (i : Slot) {f : StreamUnit → StreamUnit}
    (hf : ∀ u, (f u).chain = u.chain) : SameMedia m (m.modifyUnit i f) := by
  refine ⟨fun j => ?_, rfl, rfl, rfl, rfl, rfl⟩
  by_cases hj : j = i
  · subst hj; simp [hf]
  · simp [hj]

theorem jpeg (m : PipelineManager) {j : JpegUnit} (hj : j.enc = m.jpeg.enc) :
    SameMedia m { m with jpeg := j } := ⟨fun _ => rfl, hj, rfl, rfl, rfl, rfl⟩

theorem disarmUnit (i : Slot) (m : PipelineManager) : SameMedia m (disarmUnit i m) := by
  unfold PipelineManager.disarmUnit
  split
  · exact modifyUnit m i fun _ => rfl
  · exact refl m

theorem disarmJpeg (m : PipelineManager) : SameMedia m (disarmJpeg m) := by
  unfold PipelineManager.disarmJpeg
  split
  · exact jpeg m rfl
  · exact refl m

theorem sound {m m' : PipelineManager} (h : SameMedia m m') (hm : Sound m) : Sound m' :=
  hm.of_eq h.chain h.enc (fun i => by rw [h.log]) (by rw [h.log])

theorem cold {m m' : PipelineManager} (h : SameMedia m m') (hm : Cold m) : Cold m' :=
  hm.of_eq h.chain h.enc (by rw [h.log])

theorem warm {m m' : PipelineManager} (h : SameMedia m m') (hm : Warm m) : Warm m' :=
  ⟨h.sound hm.sound, by rw [h.log]; exact hm.up, h.state.trans hm.state,
    h.shutdown.trans hm.shutdown⟩

/-- The invariant survives a change of the demand that stays on the right side of zero. -/
theorem inv {m m' : PipelineManager} (h : SameMedia m m') (hm : Inv m)
    (hpos : m.state = .active → 0 < m'.totalAll)
    (hzero : m.totalAll = 0 → m'.totalAll = 0) : Inv m' := by
  rcases hm.state_cases with hs | hs | hs | hs
  · exact .of_cold (h.sound hm.sound) (h.cold (hm.cold (.inl hs))) (.inl (h.state.trans hs))
  · exact .of_cold (h.sound hm.sound) (h.cold (hm.cold (.inr hs))) (.inr (h.state.trans hs))
  · exact (h.warm (hm.warm hs)).inv (hpos hs)
  · obtain ⟨hup, hsd, ht, ha⟩ := hm.grace hs
    refine ⟨h.sound hm.sound, ?_⟩
    unfold Promise
    rw [h.state, hs]
    exact ⟨by rw [h.log]; exact hup, h.shutdown.trans hsd, hzero ht, h.armed.trans ha⟩

theorem inv_of_demands {m m' : PipelineManager} (h : SameMedia m m') (hm : Inv m)
    (hd : demands m' = demands m) : Inv m' :=
  h.inv hm (fun hs => by rw [totalAll_eq hd]; exact hm.total_pos hs)
    fun hz => (totalAll_eq hd).trans hz

end SameMedia

theorem demands_modifyUnit (m : PipelineManager) (i : Slot) {f : StreamUnit → StreamUnit}
    (hd : ∀ u, (f u).demand = u.demand) (ht : ∀ u, (f u).total = u.total) :
    demands (m.modifyUnit i f) = demands m := by
  refine Prod.ext (funext fun j => ?_) rfl
  by_cases hj : j = i
  · subst hj; simp [demands, hd, ht]
  · simp [demands, hj]

theorem demands_disarmUnit (i : Slot) (m : PipelineManager) :
    demands (disarmUnit i m) = demands m := by
  unfold disarmUnit
  split
  · exact demands_modifyUnit m i (fun _ => rfl) fun _ => rfl
  · rfl

theorem demands_disarmJpeg (m : PipelineManager) : demands (disarmJpeg m) = demands m := by
  unfold disarmJpeg
  split <;> rfl

theorem Inv.modifyUnit {m : PipelineManager} (h : Inv m) (i : Slot)
    {f : StreamUnit → StreamUnit} (hc : ∀ u, (f u).chain = u.chain)
    (hd : ∀ u, (f u).demand = u.demand) (ht : ∀ u, (f u).total = u.total) :
    Inv (m.modifyUnit i f) :=
  (SameMedia.modifyUnit m i hc).inv_of_demands h (demands_modifyUnit m i hd ht)

theorem Inv.withJpeg {m : PipelineManager} (h : Inv m) {j : JpegUnit} (he : j.enc = m.jpeg.enc)
    (hd : j.demand = m.jpeg.demand) : Inv { m with jpeg := j } := by
  refine (SameMedia.jpeg m he).inv_of_demands h ?_
  unfold demands
  dsimp only
  rw [hd]
  rfl

theorem Inv.stopUnitLocked {m : PipelineManager} (h : Inv m) (i : Slot) :
    Inv (stopUnitLocked i m) := by
  have hs := stopUnitLocked_step i m
  have hsound := h.sound.stopUnitLocked i
  have hd := demands_of_books hs.books
  have hcold (hc : Cold m) : Cold (PipelineManager.stopUnitLocked i m) := by
    refine ⟨fun j => ?_, by rw [hs.jpeg]; exact hc.enc, hs.up.trans hc.up⟩
    by_cases hj : j = i
    · subst hj; exact stopUnitLocked_chain j m
    · rw [hs.chain j hj]; exact hc.chain j
  exact ⟨hsound, h.promise.of_eq (fun hst => hcold (h.cold hst)) (state_of_books hs.books) hs.up
    (shutdown_of_books hs.books) (totalAll_eq hd)
    fun _ => congrArg GraceTimer.armed (timer_of_books hs.books)⟩

theorem Inv.stopJpegLocked {m : PipelineManager} (h : Inv m) : Inv (stopJpegLocked m) := by
  have hb := stopJpegLocked_books m
  have hcold (hc : Cold m) : Cold (PipelineManager.stopJpegLocked m) :=
    ⟨fun j => by rw [stopJpegLocked_unit]; exact hc.chain j, stopJpegLocked_enc m,
      (stopJpegLocked_up m).trans hc.up⟩
  exact ⟨h.sound.stopJpegLocked, h.promise.of_eq (fun hst => hcold (h.cold hst))
    (stopJpegLocked_state m) (stopJpegLocked_up m) (shutdown_of_books hb)
    (totalAll_eq (demands_of_books hb)) fun _ => congrArg GraceTimer.armed (timer_of_books hb)⟩

/-- The base goes down from any sound state, to a cold one. -/
theorem Sound.baseDown {m : PipelineManager} (h : Sound m) {s : State}
    (hs : s = .coldIdle ∨ s = .failed) :
    Inv ((stopBaseLocked (m.transition .stopping)).transition s) := by
  have hstop := stopBaseLocked_spec (m.transition .stopping)
  have hsound : Sound (m.transition .stopping) :=
    h.of_eq (fun _ => rfl) rfl (fun _ => rfl) rfl
  exact .of_cold ((hstop.sound hsound).of_eq (fun _ => rfl) rfl (fun _ => rfl) rfl)
    (hstop.cold.of_eq (fun _ => rfl) rfl rfl) hs

theorem demands_baseDown (m : PipelineManager) (s : State) :
    demands ((stopBaseLocked (m.transition .stopping)).transition s) = demands m := by
  have hd := demands_of_books (stopBaseLocked_spec (m.transition .stopping)).books
  exact hd

theorem Inv.enterGrace {m : PipelineManager} (h : Warm m) (ht : m.totalAll = 0) :
    Inv (enterGrace m) := by
  have hs := (SameMedia.disarmUnit .main m).trans (SameMedia.disarmUnit .sub (disarmUnit .main m))
  have hd := (demands_disarmUnit .sub (disarmUnit .main m)).trans (demands_disarmUnit .main m)
  have hw := hs.warm h
  refine ⟨hw.sound.of_eq (fun _ => rfl) rfl (fun _ => rfl) rfl, ?_⟩
  exact ⟨hw.up, hw.shutdown, (totalAll_eq hd).trans ht, rfl⟩

theorem demands_enterGrace (m : PipelineManager) : demands (enterGrace m) = demands m :=
  (demands_disarmUnit .sub (disarmUnit .main m)).trans (demands_disarmUnit .main m)

section platform

variable (platform : ℕ → Result)

/-- What asking for the base does: it is up, or the pipeline is failed and cold. -/
structure EnsureSpec (unit : Option UnitId) (m : PipelineManager) (r : Bool × PipelineManager) :
    Prop where
  demands : demands r.2 = demands m
  warm : r.1 = true → Warm r.2
  refused : r.1 = false → Inv r.2
  same : m.state = .active → r = (true, m)
  rejoin : m.state = .graceIdle →
    r = (true, { m with timer := m.timer.disarm }.transition .active)
  cold : m.state = .coldIdle → ∀ i, ((r.2.unit i).chain.Live → Wanted unit m i) ∧
    { r.2.unit i with chain := {} } = { m.unit i with chain := {} }
  enc : m.state = .coldIdle → r.2.jpeg.enc = none

theorem ensureBaseLocked_spec (unit : Option UnitId) {m : PipelineManager} (h : Inv m)
    (hsd : m.shutdown = false) : EnsureSpec unit m (ensureBaseLocked platform unit m) := by
  unfold ensureBaseLocked
  rcases h.state_cases with hs | hs | hs | hs <;> rw [hs] <;> dsimp only
  -- cold: the base is started, and a failed start leaves it failed and cold again
  · have hcold := h.cold (.inl hs)
    have hsound : Sound (m.transition .starting) :=
      h.sound.of_eq (fun _ => rfl) rfl (fun _ => rfl) rfl
    have hb := startBaseLocked_spec platform unit hsound
    have hunit (i : Slot) := unitBooks_eq hb.books i
    have hd := demands_of_books hb.books
    match hr : startBaseLocked platform unit (m.transition .starting), hb, hunit, hd with
    | (false, m'), hb, hunit, hd =>
      have hc : Cold m' := hb.cold rfl
      refine ⟨hd, by simp, fun _ => ?_, by simp [hs], by simp [hs],
        fun _ i => ⟨fun hl => ?_, hunit i⟩, fun _ => hc.enc⟩
      · exact .of_cold (hb.sound.of_eq (fun _ => rfl) rfl (fun _ => rfl) rfl)
          (hc.of_eq (fun _ => rfl) rfl rfl) (.inr rfl)
      · have he : ((m'.transition .failed).unit i).chain = {} := hc.chain i
        rw [he] at hl
        obtain ⟨_, _, hl⟩ := hl
        cases hl
    | (true, m'), hb, hunit, hd =>
      refine ⟨hd, fun _ => ?_, by simp, by simp [hs], by simp [hs],
        fun _ i => ⟨fun hl => ?_, hunit i⟩, fun _ => ?_⟩
      · exact ⟨hb.sound.of_eq (fun _ => rfl) rfl (fun _ => rfl) rfl, hb.up rfl, rfl,
          (shutdown_of_books hb.books).trans hsd⟩
      · by_contra hw
        have he : ((m'.transition .active).unit i).chain = {} :=
          (hb.idle rfl i hw).trans (hcold.chain i)
        rw [he] at hl
        obtain ⟨_, _, hl⟩ := hl
        cases hl
      · exact (congrArg JpegUnit.enc (hb.jpeg rfl)).trans hcold.enc
  -- failed: refused without touching the platform
  · refine ⟨rfl, by simp, fun _ => ?_, by simp [hs], by simp [hs], by simp [hs], by simp [hs]⟩
    exact SameMedia.inv_of_demands (m := m) ⟨fun _ => rfl, rfl, rfl, hs.symm, rfl, rfl⟩ h rfl
  · exact ⟨rfl, fun _ => h.warm hs, by simp, fun _ => rfl, by simp [hs], by simp [hs], by simp [hs]⟩
  -- grace: the base is still up, only its timer is cancelled
  · obtain ⟨hup, hsd, -, -⟩ := h.grace hs
    refine ⟨rfl, fun _ => ?_, by simp, by simp [hs], fun _ => rfl, by simp [hs], by simp [hs]⟩
    exact ⟨h.sound.of_eq (fun _ => rfl) rfl (fun _ => rfl) rfl, hup, rfl, hsd⟩

theorem Warm.failIdleBase {m : PipelineManager} (h : Warm m) : Inv (failIdleBase m) := by
  unfold PipelineManager.failIdleBase
  split
  · exact h.sound.baseDown (.inr rfl)
  · rename_i hne
    exact h.inv (Nat.pos_of_ne_zero fun h0 => hne ⟨h0, h.state⟩)

theorem demands_failIdleBase (m : PipelineManager) : demands (failIdleBase m) = demands m := by
  unfold failIdleBase
  split
  · exact demands_baseDown m .failed
  · rfl

/-- A unit start leaves the base up whether it succeeds or not. -/
theorem Warm.startUnitLocked {m : PipelineManager} (h : Warm m) (i : Slot) :
    Warm (startUnitLocked platform i m).2 := by
  have hs := startUnitLocked_spec platform (h.sound.chain i)
  have hc : ((PipelineManager.startUnitLocked platform i m).2.unit i).chain = {} ∨
      ((PipelineManager.startUnitLocked platform i m).2.unit i).chain.Live := by
    cases hr : (PipelineManager.startUnitLocked platform i m).1
    · exact .inl (hs.idle hr)
    · exact .inr (hs.live hr)
  exact ⟨hs.step.sound h.sound hc (hs.ledger (h.sound.ledger i)), hs.step.up.trans h.up,
    (state_of_books hs.step.books).trans h.state, (shutdown_of_books hs.step.books).trans h.shutdown⟩

end platform

end Machino.Lifecycle
