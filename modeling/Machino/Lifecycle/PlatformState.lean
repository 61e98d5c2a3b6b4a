import Mathlib.Algebra.BigOperators.Group.Finset.Piecewise
import Machino.Lifecycle.Operations

namespace Machino.Lifecycle

open PipelineManager Runs

/-- What the demand counters must say, given the live handles and the snapshots in flight. -/
def counted (hs : List DemandHandle) (n : ℕ) : Demands :=
  (fun i => (fun t => hs.count ⟨t, i.unitId⟩, hs.countP fun h => h.unit = i.unitId), n,
    hs.countP fun h => h.unit = .ai)

theorem counted_cons {h : DemandHandle} (hj : h.unit ≠ .jpeg) (hs : List DemandHandle) (n : ℕ) :
    counted (h :: hs) n = addDemand h (counted hs n) := by
  obtain ⟨t, u⟩ := h
  unfold addDemand
  match hu : u.slot with
  | none =>
    have hai : u = .ai := by cases u <;> simp_all [UnitId.slot]
    subst hai
    refine Prod.ext (funext fun i => Prod.ext (funext fun t' => ?_) ?_) (Prod.ext rfl ?_)
    · cases i <;> simp [counted, List.count_cons, Slot.unitId]
    · cases i <;> simp [counted, List.countP_cons, Slot.unitId]
    · simp [counted, List.countP_cons]
  | some i =>
    obtain rfl := UnitId.slot_eq_some.mp hu
    refine Prod.ext (funext fun j => Prod.ext (funext fun t' => ?_) ?_) (Prod.ext rfl ?_)
    · by_cases hj : j = i
      · subst hj
        by_cases ht : t' = t
        · subst ht; simp [counted]
        · simp [counted, ht, List.count_cons, Ne.symm ht]
      · have hne : ¬ i.unitId = j.unitId := by cases i <;> cases j <;> simp_all [Slot.unitId]
        simp [counted, hj, List.count_cons, hne]
    · by_cases hj : j = i
      · subst hj; simp [counted]
      · have hne : ¬ i.unitId = j.unitId := by cases i <;> cases j <;> simp_all [Slot.unitId]
        simp [counted, hj, List.countP_cons, hne]
    · cases i <;> simp [counted, List.countP_cons, Slot.unitId]

theorem subDemand_addDemand (h : DemandHandle) (d : Demands) : subDemand h (addDemand h d) = d := by
  unfold subDemand addDemand
  match h.unit.slot with
  | none => rfl
  | some i => simp

theorem counted_perm {hs hs' : List DemandHandle} (hp : hs.Perm hs') (n : ℕ) :
    counted hs n = counted hs' n := by
  unfold counted
  rw [hp.countP_eq]
  refine Prod.ext (funext fun i => Prod.ext (funext fun t => ?_) ?_) rfl
  · exact hp.count_eq _
  · exact hp.countP_eq _

theorem counted_erase {h : DemandHandle} {hs : List DemandHandle} (hm : h ∈ hs)
    (hj : h.unit ≠ .jpeg) (n : ℕ) : counted (hs.erase h) n = subDemand h (counted hs n) := by
  rw [counted_perm (List.perm_cons_erase hm) n, counted_cons hj, subDemand_addDemand]

/-- The counters of the system are right, and no handle is on the snapshot unit. -/
structure Counted (s : Sys) : Prop where
  eq : demands s.mgr = counted s.handles s.snaps.length
  unit : ∀ h ∈ s.handles, h.unit ≠ .jpeg

theorem Counted.of_mgr {s : Sys} (h : Counted s) {m : PipelineManager}
    (hd : demands m = demands s.mgr) : Counted { s with mgr := m } :=
  ⟨hd.trans h.eq, h.unit⟩

/-- The invariant of the whole system. -/
structure SysInv (s : Sys) : Prop where
  inv : Inv s.mgr
  counters : Counted s

theorem SysInv.of_mgr {s : Sys} (h : SysInv s) {m : PipelineManager} (hi : Inv m)
    (hd : demands m = demands s.mgr) : SysInv { s with mgr := m } :=
  ⟨hi, h.counters.of_mgr hd⟩

section platform

variable (platform : ℕ → Result)

theorem SysInv.grant {s : Sys} (h : SysInv s)
    {r : (Option DemandHandle × Result) × PipelineManager} (hr : AcquireSpec s.mgr r) :
    SysInv (s.grant r) := by
  refine ⟨hr.inv, ?_⟩
  unfold Sys.grant
  match hg : r.1.1 with
  | none => exact ⟨(hr.refused hg).trans h.counters.eq, h.counters.unit⟩
  | some hd =>
    obtain ⟨hj, hdm⟩ := hr.granted hd hg
    refine ⟨?_, ?_⟩
    · refine hdm.trans ?_
      rw [h.counters.eq]
      exact (counted_cons hj _ _).symm
    · intro h' hh'
      rcases List.mem_cons.mp hh' with rfl | hh'
      · exact hj
      · exact h.counters.unit h' hh'

theorem SysInv.release {s : Sys} (h : SysInv s) {hd : DemandHandle} (hm : hd ∈ s.handles) :
    SysInv { s with mgr := s.mgr.release hd, handles := s.handles.erase hd } := by
  refine ⟨h.inv.release hd, ?_, fun h' hh' => h.counters.unit h' (List.mem_of_mem_erase hh')⟩
  have hj := h.counters.unit hd hm
  rw [demands_release, h.counters.eq]
  exact (counted_erase hm hj _).symm

theorem Inv.captureJpeg {m : PipelineManager} (h : Inv m) (o : Option ℕ) :
    Inv (undo o .captureJpeg m) := by
  match o with
  | none => exact h
  | some e =>
    have hup : platformUp (m.tell (.captureJpeg e)).log = platformUp m.log := by
      simp [platformUp]
    refine ⟨h.sound.of_eq (fun _ => rfl) rfl ?_ ?_, ?_⟩
    · intro i; simp [undo, ledger, Call.entry]
    · simp [undo, jpegLedger, Call.jpegEntry]
    · exact h.promise.of_eq (fun hs => (h.cold hs).of_eq (fun _ => rfl) rfl hup) rfl hup rfl rfl
        fun _ => rfl

theorem demands_undo (o : Option ℕ) (f : ℕ → Call) (m : PipelineManager) :
    demands (undo o f m) = demands m := by cases o <;> rfl

theorem length_set_snaps (s : Sys) (k : ℕ) (sn : Snapshot) :
    (s.snaps.set k sn).length = s.snaps.length := List.length_set

/-- All the manager sees of a capture is the call to the encoder, where there is one. -/
theorem mgr_capture (s : Sys) (k : ℕ) (now maxAgeMs : Int) :
    (s.capture k now maxAgeMs).mgr = s.mgr ∨ ∃ e, s.mgr.jpeg.enc = some e ∧
      (s.capture k now maxAgeMs).mgr = s.mgr.tell (.captureJpeg e) := by
  unfold Sys.capture
  split
  · split
    · exact .inl rfl
    split
    · exact .inl rfl
    · cases he : s.mgr.jpeg.enc with
      | none => exact .inl rfl
      | some e => exact .inr ⟨e, rfl, rfl⟩
  · exact .inl rfl

theorem mgr_captured (s : Sys) (k : ℕ) (r : Result) (image : List UInt8) (now : Int) :
    (s.captured k r image now).mgr = s.mgr ∨
      ∃ t0 r', (s.captured k r image now).mgr = recordCapture t0 now r' image s.mgr := by
  unfold Sys.captured
  split
  · exact .inr ⟨_, _, rfl⟩
  · exact .inl rfl

theorem SysInv.capture {s : Sys} (h : SysInv s) (k : ℕ) (now maxAgeMs : Int) :
    SysInv (s.capture k now maxAgeMs) := by
  unfold Sys.capture
  split
  · split
    · exact h
    split
    · exact ⟨h.inv, by simpa using h.counters.eq, h.counters.unit⟩
    · refine ⟨h.inv.captureJpeg _, ?_, h.counters.unit⟩
      rw [length_set_snaps]
      exact (demands_undo _ _ _).trans h.counters.eq
  · exact h

theorem SysInv.captured {s : Sys} (h : SysInv s) (k : ℕ) (r : Result) (image : List UInt8)
    (now : Int) : SysInv (s.captured k r image now) := by
  unfold Sys.captured
  split
  · refine ⟨h.inv.recordCapture _ _ _ _, ?_, h.counters.unit⟩
    rw [length_set_snaps]
    exact (demands_recordCapture _ _ _ _ _).trans h.counters.eq
  · exact h

theorem SysInv.snapshotBegin {s : Sys} (h : SysInv s) :
    SysInv (s.step platform .snapshotBegin) := by
  have hr := snapshotBegin_spec platform h.inv
  unfold Sys.step
  dsimp only
  split
  · rename_i hok
    refine ⟨hr.inv, ?_, h.counters.unit⟩
    rw [(hr.granted hok).1, h.counters.eq, List.length_append]
    rfl
  · rename_i hno
    exact h.of_mgr hr.inv (hr.refused (by simpa using hno))

theorem SysInv.snapshotEnd {s : Sys} (h : SysInv s) (k : ℕ) :
    SysInv (s.step platform (.snapshotEnd k)) := by
  unfold Sys.step
  dsimp only
  split
  · rename_i hk
    refine ⟨h.inv.snapshotEnd, ?_, h.counters.unit⟩
    have hlt : k < s.snaps.length := (List.getElem?_eq_some_iff.mp hk).1
    rw [demands_snapshotEnd, h.counters.eq, List.length_eraseIdx_of_lt hlt]
    rfl
  · exact h

/-- A base timer that runs out only matters to a base in its grace, which it ends. -/
theorem SysInv.graceTimeout {s : Sys} (h : SysInv s) (fired : Bool) :
    SysInv (s.step platform (.onGraceTimeout fired)) := by
  unfold Sys.step
  dsimp only
  generalize hm : (if fired then Sys.expireBase s.mgr else s.mgr) = m
  have hsound : Sound m := by
    subst hm
    split
    · exact h.inv.sound.of_eq (fun _ => rfl) rfl (fun _ => rfl) rfl
    · exact h.inv.sound
  have hd : demands m = demands s.mgr := by
    subst hm
    split <;> rfl
  have hst : m.state = s.mgr.state := by
    subst hm
    split <;> rfl
  refine h.of_mgr (.onGraceTimeout hsound fun hc => ?_) ((demands_onGraceTimeout m).trans hd)
  have hng : s.mgr.state ≠ .graceIdle := by
    intro hs
    have hz := (totalAll_eq hd).trans (h.inv.grace hs).2.2.1
    rcases hc with hc | hc
    · exact hc (hst.trans hs)
    · omega
  -- outside its grace the manager does not look at the base timer
  refine ⟨hsound, ?_⟩
  subst hm
  split
  · exact h.inv.promise.of_eq (fun hs => (h.inv.cold hs).of_eq (fun _ => rfl) rfl rfl) rfl rfl rfl
      rfl fun hs => absurd hs hng
  · exact h.inv.promise

theorem SysInv.step {s : Sys} (h : SysInv s) (op : Op) : SysInv (s.step platform op) := by
  cases op with
  | acquireUnit unit type => exact h.grant (acquireUnit_spec platform unit type h.inv)
  | acquireBase type => exact h.grant (acquireBase_spec platform type h.inv)
  | release hd =>
    unfold Sys.step
    dsimp only
    split
    · rename_i hm
      exact h.release hm
    · exact h
  | onGraceTimeout fired => exact h.graceTimeout platform fired
  | onUnitGrace i fired =>
    unfold Sys.step
    have hi : Inv (if fired then Sys.expireUnit i s.mgr else s.mgr) := by
      split
      · exact h.inv.modifyUnit i (fun _ => rfl) (fun _ => rfl) fun _ => rfl
      · exact h.inv
    have hd : demands (if fired then Sys.expireUnit i s.mgr else s.mgr) = demands s.mgr := by
      split
      · exact demands_modifyUnit s.mgr i (fun _ => rfl) fun _ => rfl
      · rfl
    exact h.of_mgr (hi.onUnitGrace i) ((demands_onUnitGrace i _).trans hd)
  | onJpegGrace fired =>
    unfold Sys.step
    have hi : Inv (if fired then Sys.expireJpeg s.mgr else s.mgr) := by
      split
      · exact h.inv.withJpeg rfl rfl
      · exact h.inv
    have hd : demands (if fired then Sys.expireJpeg s.mgr else s.mgr) = demands s.mgr := by
      split <;> rfl
    exact h.of_mgr hi.onJpegGrace ((demands_onJpegGrace _).trans hd)
  | snapshotBegin => exact h.snapshotBegin platform
  | snapshotCapture k now maxAgeMs => exact h.capture k now maxAgeMs
  | snapshotCaptured k r image now => exact h.captured k r image now
  | snapshotEnd k => exact h.snapshotEnd platform k
  | updateStream st restart =>
    have hu := updateStream_spec platform st restart h.inv
    exact h.of_mgr hu.1 hu.2
  | updateSubStream st enabled =>
    have hu := updateSubStream_spec platform st enabled h.inv
    exact h.of_mgr hu.1 hu.2
  | setJpegEnabled on => exact h.of_mgr (h.inv.setJpegEnabled on) (demands_setJpegEnabled on _)
  | configureSub st hasTimer =>
    exact h.of_mgr (h.inv.modifyUnit .sub (fun _ => rfl) (fun _ => rfl) fun _ => rfl)
      (demands_modifyUnit s.mgr .sub (fun _ => rfl) fun _ => rfl)
  | setUnitGraceTimer i hasTimer =>
    exact h.of_mgr (h.inv.modifyUnit i (fun _ => rfl) (fun _ => rfl) fun _ => rfl)
      (demands_modifyUnit s.mgr i (fun _ => rfl) fun _ => rfl)
  | configureJpeg p cacheMs graceMs hasTimer => exact h.of_mgr (h.inv.withJpeg rfl rfl) rfl
  | setSensorFpsTarget fps =>
    exact h.of_mgr
      (SameMedia.inv_of_demands (m := s.mgr) ⟨fun _ => rfl, rfl, rfl, rfl, rfl, rfl⟩ h.inv rfl) rfl
  | setPostStartHook set =>
    exact h.of_mgr
      (SameMedia.inv_of_demands (m := s.mgr) ⟨fun _ => rfl, rfl, rfl, rfl, rfl, rfl⟩ h.inv rfl) rfl
  | shutDown => exact h.of_mgr h.inv.shutDown (demands_shutDown s.mgr)

theorem SysInv.create (stream : EffectiveStream) (cfg : LifecycleConfig) :
    SysInv (Sys.create stream cfg) := by
  have hc (i : Slot) : ((PipelineManager.create stream cfg).unit i).chain = {} := by
    cases i <;> rfl
  refine ⟨.of_cold ⟨fun i => .inl (hc i), fun i => ?_, rfl⟩ ⟨hc, rfl, rfl⟩ (.inl rfl), ?_,
    by simp [Sys.create]⟩
  · unfold LedgerAt
    rw [show (Sys.create stream cfg).mgr = PipelineManager.create stream cfg from rfl, hc i]
    rfl
  · refine Prod.ext (funext fun i => ?_) rfl
    cases i <;> rfl

/-- The system invariant holds in every reachable state. -/
theorem SysInv.run (stream : EffectiveStream) (cfg : LifecycleConfig) (ops : List Op) :
    SysInv ((Sys.create stream cfg).run platform ops) :=
  run_invariant (fun _ op h => h.step platform op) (SysInv.create stream cfg) ops

end platform

/-- The platform and the demand counters agree with the state. -/
structure PlatformState (s : Sys) : Prop where
  up : platformUp s.mgr.log = true ↔ s.mgr.state = .active ∨ s.mgr.state = .graceIdle
  cold : s.mgr.state = .coldIdle ∨ s.mgr.state = .failed →
    (∀ i, (s.mgr.unit i).chain.enc = none) ∧ s.mgr.jpeg.enc = none
  graceIdle : s.mgr.shutdown = false → s.mgr.state = .graceIdle →
    s.mgr.totalAll = 0 ∧ s.mgr.timer.armed = true
  active : s.mgr.shutdown = false → s.mgr.state = .active → 0 < s.mgr.totalAll
  total : s.mgr.totalAll = s.handles.length + s.snaps.length
  unitTotal : ∀ i, (s.mgr.unit i).total = ∑ t, (s.mgr.unit i).demand t

theorem sum_count (hs : List DemandHandle) (u : UnitId) :
    ∑ t, hs.count ⟨t, u⟩ = hs.countP fun h => h.unit = u := by
  induction hs with
  | nil => simp
  | cons h hs ih =>
    obtain ⟨t', u'⟩ := h
    simp only [List.count_cons, List.countP_cons, Finset.sum_add_distrib, ih, beq_iff_eq,
      DemandHandle.mk.injEq, decide_eq_true_eq, Nat.add_left_cancel_iff]
    by_cases hu : u' = u
    · simp [hu, Finset.sum_ite_eq]
    · simp [hu]

theorem length_eq_countP {hs : List DemandHandle} (h : ∀ d ∈ hs, d.unit ≠ .jpeg) :
    hs.length = hs.countP (fun d => d.unit = .main) + hs.countP (fun d => d.unit = .sub) +
      hs.countP (fun d => d.unit = .ai) := by
  induction hs with
  | nil => rfl
  | cons d hs ih =>
    have ih := ih fun d' hd' => h d' (List.mem_cons_of_mem _ hd')
    have hd := h d List.mem_cons_self
    obtain ⟨t, u⟩ := d
    cases u <;> simp_all <;> omega

/-- In every reachable state, whatever the platform answers, it is up exactly while the state
says so, nothing exists in a cold state, and the counters are those of the live demand. -/
theorem platform_state_run (platform : ℕ → Result) (stream : EffectiveStream)
    (cfg : LifecycleConfig) (ops : List Op) :
    PlatformState ((Sys.create stream cfg).run platform ops) := by
  obtain ⟨hi, hc⟩ := SysInv.run platform stream cfg ops
  generalize (Sys.create stream cfg).run platform ops = s at hi hc
  have hu (i : Slot) : ((s.mgr.unit i).demand, (s.mgr.unit i).total) = (counted s.handles 0).1 i :=
    congrFun (congrArg Prod.fst hc.eq) i
  have ht (i : Slot) : (s.mgr.unit i).total = s.handles.countP fun h => h.unit = i.unitId :=
    congrArg Prod.snd (hu i)
  refine ⟨?_, ?_, ?_, ?_, ?_, ?_⟩
  · rcases hi.state_cases with hs | hs | hs | hs
    · simp [hs, (hi.cold (.inl hs)).up]
    · simp [hs, (hi.cold (.inr hs)).up]
    · simp [hs, (hi.warm hs).up]
    · simp [hs, (hi.grace hs).1]
  · intro hs
    have hcold := hi.cold hs
    exact ⟨fun i => by rw [hcold.chain i], hcold.enc⟩
  · intro _ hs
    exact (hi.grace hs).2.2
  · intro _ hs
    exact hi.total_pos hs
  · have hj : s.mgr.jpeg.demand = s.snaps.length := congrArg (fun d => d.2.1) hc.eq
    have ha : s.mgr.aiDemand = s.handles.countP fun h => h.unit = .ai :=
      congrArg (fun d => d.2.2) hc.eq
    have hm : (s.mgr.unit .main).total = s.handles.countP fun h => h.unit = .main := ht .main
    have hsub : (s.mgr.unit .sub).total = s.handles.countP fun h => h.unit = .sub := ht .sub
    have hlen := length_eq_countP hc.unit
    unfold totalAll
    omega
  · intro i
    have hd : (s.mgr.unit i).demand = fun t => s.handles.count ⟨t, i.unitId⟩ :=
      congrArg Prod.fst (hu i)
    rw [ht i, hd]
    exact (sum_count s.handles i.unitId).symm

open Ledger Runs

/-- The pipeline is down: cold, failed, or shut down. -/
def Down (s : Sys) : Prop :=
  s.mgr.state = .coldIdle ∨ s.mgr.state = .failed ∨ s.mgr.shutdown = true

/-- The acquisitions and the undos of one ledger fit together: nothing is undone that is not
held, and once the pipeline is down each acquisition has been undone exactly once, the last
one first. -/
structure Unwound (down : Prop) (es : List (Entry Resource)) : Prop where
  held : ∃ st, held [] es = some st
  balanced : down → Balanced es
  once : down → ∀ r, es.count (.acquired r) = es.count (.undone r)

theorem Unwound.of_held {down : Prop} {es : List (Entry Resource)} {st : List Resource}
    (h : Ledger.held [] es = some st) (hd : down → st = []) : Unwound down es := by
  have hb (hdown : down) : Balanced es := balanced_of_held es (by rw [h, hd hdown])
  exact ⟨⟨st, h⟩, hb, fun hdown r => (hb hdown).count_eq r⟩

/-- Over every run and every pattern of refusals, the calls made for each unit and for the
snapshot encoder unwind exactly what they acquired. -/
theorem unwind_run (platform : ℕ → Result) (stream : EffectiveStream) (cfg : LifecycleConfig)
    (ops : List Op) :
    let s := (Sys.create stream cfg).run platform ops
    (∀ i, Unwound (Down s) (ledger i s.mgr.log)) ∧ Unwound (Down s) (jpegLedger s.mgr.log) := by
  intro s
  have h : SysInv s := SysInv.run platform stream cfg ops
  have hcold (hdown : Down s) : Cold s.mgr := by
    rcases hdown with hs | hs | hsd
    · exact h.inv.cold (.inl hs)
    · exact h.inv.cold (.inr hs)
    · rcases h.inv.state_cases with hs | hs | hs | hs
      · exact h.inv.cold (.inl hs)
      · exact h.inv.cold (.inr hs)
      · simp [(h.inv.warm hs).shutdown] at hsd
      · simp [(h.inv.grace hs).2.1] at hsd
  refine ⟨fun i => .of_held (h.inv.sound.ledger i) fun hdown => ?_,
    .of_held h.inv.sound.jpegLedger fun hdown => ?_⟩
  · rw [(hcold hdown).chain i]
    rfl
  · rw [(hcold hdown).enc]
    rfl

end Machino.Lifecycle
