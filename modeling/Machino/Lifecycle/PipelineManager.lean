import Machino.Basic.Runs
import Machino.Lifecycle.Types

namespace Machino.Lifecycle

/-- The manager's state, with the log of the platform calls it has made. -/
structure PipelineManager where
  cfg : LifecycleConfig := {}
  timer : GraceTimer := {}
  units : Units
  jpeg : JpegUnit := {}
  state : State := .coldIdle
  generation : ℕ := 0
  startCount : ℕ := 0
  stopCount : ℕ := 0
  failedCount : ℕ := 0
  restartCount : ℕ := 0
  subRestartCount : ℕ := 0
  aiDemand : ℕ := 0
  lastError : String := ""
  shutdown : Bool := false
  failedRefused : Bool := false
  sensorFpsTarget : Int := -1
  postStart : Bool := false
  log : List Call := []

namespace PipelineManager

/-- The constructor: only the main unit is configured, and nothing is running. -/
def create (stream : EffectiveStream) (cfg : LifecycleConfig) : PipelineManager where
  cfg := cfg
  units := ⟨{ configured := true, stream := stream }, {}⟩

def unit (m : PipelineManager) (i : Slot) : StreamUnit := m.units.get i

def modifyUnit (m : PipelineManager) (i : Slot) (f : StreamUnit → StreamUnit) : PipelineManager :=
  { m with units := m.units.modify i f }

def modifyChain (m : PipelineManager) (i : Slot) (f : Chain → Chain) : PipelineManager :=
  m.modifyUnit i fun u => { u with chain := f u.chain }

def tell (m : PipelineManager) (c : Call) : PipelineManager := { m with log := m.log ++ [c] }

def transition (m : PipelineManager) (s : State) : PipelineManager := { m with state := s }

def totalAll (m : PipelineManager) : ℕ :=
  (m.unit .main).total + (m.unit .sub).total + m.jpeg.demand + m.aiDemand

/-- One undo of the unwind: made only on an object that is there. -/
def undo (o : Option ℕ) (c : ℕ → Call) (m : PipelineManager) : PipelineManager :=
  match o with
  | some n => m.tell (c n)
  | none => m

def stopUnitLocked (i : Slot) (m : PipelineManager) : PipelineManager :=
  let c := (m.unit i).chain
  let m := if c.encStarted then undo c.enc (.stop i) m else m
  let m := if c.fsEnabled then undo c.fs (.disable i) m else m
  let m := match c.fs, c.enc with
    | some fs, some enc => if c.bound then m.tell (.unbind i fs enc) else m
    | _, _ => m
  let m := undo c.enc (.destroyEncoder i) m
  let m := undo c.fs (.destroyFramesource i) m
  m.modifyChain i fun _ => {}

def stopJpegLocked (m : PipelineManager) : PipelineManager :=
  match m.jpeg.enc with
  | none => m
  | some enc =>
    { m.tell (.destroyJpeg enc) with jpeg := { m.jpeg with enc := none, cache := [], cacheAtUs := -1 } }

def stopBaseLocked (m : PipelineManager) : PipelineManager :=
  let m := stopUnitLocked .sub m
  let m := stopUnitLocked .main m
  let m := stopJpegLocked m
  let m := m.tell .tearDown
  { m with stopCount := m.stopCount + 1 }

/-- The `fail` of a unit start: note the stage and release what this unit has acquired. -/
def failUnit (i : Slot) (stage : String) (code : Int) (m : PipelineManager) :
    Bool × PipelineManager :=
  (false, stopUnitLocked i
    { m with lastError := unitName i ++ " " ++ stage ++ " failed (" ++ toString code ++ ")" })

section platform

-- `platform n` is what the platform answers to the n-th call made to it.
variable (platform : ℕ → Result)

/-- One acquisition of a unit start: the platform is asked, a refusal ends the start and
unwinds, an acceptance is recorded in the chain before the next stage. -/
def acquireStage (i : Slot) (stage : String) (call : Chain → ℕ → Result → Call)
    (record : ℕ → Chain → Chain) (code : Result → Int)
    (next : PipelineManager → Bool × PipelineManager) (m : PipelineManager) :
    Bool × PipelineManager :=
  let n := m.log.length
  let r := platform n
  let m := m.tell (call (m.unit i).chain n r)
  if r.isOk then next (m.modifyChain i (record n)) else failUnit i stage (code r) m

def createFramesource (i : Slot) (s : EffectiveStream) :=
  acquireStage platform i "framesource create" (fun _ n r => .createFramesource i n s r)
    (fun n c => { c with fs := some n }) (fun _ => -1)

def createEncoder (i : Slot) (s : EffectiveStream) :=
  acquireStage platform i "encoder create" (fun _ n r => .createEncoder i n s r)
    (fun n c => { c with enc := some n }) (fun _ => -1)

def bind (i : Slot) :=
  acquireStage platform i "bind" (fun c _ r => .bind i (c.fs.getD 0) (c.enc.getD 0) r)
    (fun _ c => { c with bound := true }) Result.code

def enable (i : Slot) :=
  acquireStage platform i "framesource enable" (fun c _ r => .enable i (c.fs.getD 0) r)
    (fun _ c => { c with fsEnabled := true }) Result.code

def start (i : Slot) :=
  acquireStage platform i "encoder start" (fun c _ r => .start i (c.enc.getD 0) r)
    (fun _ c => { c with encStarted := true }) Result.code

def startUnitLocked (i : Slot) (m : PipelineManager) : Bool × PipelineManager :=
  if (m.unit i).chain.running then (true, m) else
  let s := (m.unit i).stream
  createFramesource platform i s (createEncoder platform i s (bind platform i
    (enable platform i (start platform i
      fun m => (true, m.modifyChain i fun c => { c with running := true }))))) m

def startJpegLocked (m : PipelineManager) : Bool × PipelineManager :=
  if m.jpeg.enc.isSome then (true, m) else
  let s := (m.unit .main).stream
  let p := m.jpeg.params
  let p := if p.width ≤ 0 ∨ p.height ≤ 0 then { p with width := s.width, height := s.height } else p
  let n := m.log.length
  let r := platform n
  let m := m.tell (.createJpeg n p r)
  if r.isOk then (true, { m with jpeg := { m.jpeg with enc := some n } })
  else (false, { m with lastError := "jpeg encoder create failed" })

/-- The units to start with the base: the requesting one and every one that holds demand. -/
def wanted (first : Option UnitId) (m : PipelineManager) (i : Slot) : Bool :=
  (first = some i.unitId || ((m.unit i).configured && 0 < (m.unit i).total)) &&
    !(m.unit i).chain.running

def startWanted (first : Option UnitId) : List Slot → PipelineManager → Bool × PipelineManager
  | [], m => (true, m)
  | i :: is, m =>
    if wanted first m i then
      match startUnitLocked platform i m with
      | (true, m) => startWanted first is m
      | (false, m) => (false, m)
    else startWanted first is m

/-- The end of a base start: the sensor rate is a separate knob from the stream rate, and a
refusal of it does not undo the start. -/
def startBaseTail (m : PipelineManager) : PipelineManager :=
  let m := if 0 < m.sensorFpsTarget then
      m.tell (.setSensorFps m.sensorFpsTarget (platform m.log.length))
    else m
  let m := if m.postStart then m.tell .postStart else m
  { m with generation := m.generation + 1 }

def startBaseLocked (first : Option UnitId) (m : PipelineManager) : Bool × PipelineManager :=
  let m := { m with startCount := m.startCount + 1, lastError := "" }
  let r := platform m.log.length
  let m := m.tell (.bringUp r)
  if r.isOk then
    match startWanted platform first [.main, .sub] m with
    | (false, m) =>
      let m := stopBaseLocked m
      (false, { m with failedCount := m.failedCount + 1 })
    | (true, m) => (true, startBaseTail platform m)
  else
    let m := { m with lastError := "platform bring-up failed (" ++ toString r.code ++ ")" }
    let m := stopBaseLocked m
    (false, { m with failedCount := m.failedCount + 1 })

def ensureBaseLocked (unit : Option UnitId) (m : PipelineManager) : Bool × PipelineManager :=
  match m.state with
  | .failed => (false, { m with failedRefused := true })
  | .coldIdle =>
    match startBaseLocked platform unit (m.transition .starting) with
    | (false, m) => (false, m.transition .failed)
    | (true, m) => (true, m.transition .active)
  | .graceIdle => (true, { m with timer := m.timer.disarm }.transition .active)
  | .active | .starting | .stopping => (true, m)

/-- Cancel the unit's pending grace, when it has one and a timer to cancel it on. -/
def disarmUnit (i : Slot) (m : PipelineManager) : PipelineManager :=
  if (m.unit i).graceArmed && (m.unit i).hasTimer then
    m.modifyUnit i fun u => { u with timer := u.timer.disarm, graceArmed := false }
  else m

def disarmJpeg (m : PipelineManager) : PipelineManager :=
  if m.jpeg.graceArmed && m.jpeg.hasTimer then
    { m with jpeg := { m.jpeg with timer := m.jpeg.timer.disarm, graceArmed := false } }
  else m

/-- A base that was brought up for a start that then failed does not stay up. -/
def failIdleBase (m : PipelineManager) : PipelineManager :=
  if m.totalAll = 0 ∧ m.state = .active then
    (stopBaseLocked (m.transition .stopping)).transition .failed
  else m

def acquireUnit (unit : UnitId) (type : ConsumerType) (m : PipelineManager) :
    (Option DemandHandle × Result) × PipelineManager :=
  match unit.slot with
  | none => ((none, if m.shutdown then .busy else .unsupported), m)
  | some i =>
    if m.shutdown || !(m.unit i).configured then
      ((none, if m.shutdown then .busy else .unsupported), m)
    else
    match ensureBaseLocked platform (some unit) m with
    | (false, m) => ((none, .error), m)
    | (true, m) =>
      match startUnitLocked platform i (disarmUnit i m) with
      | (false, m) => ((none, .error), failIdleBase m)
      | (true, m) =>
        ((some ⟨type, unit⟩, .ok), m.modifyUnit i fun u =>
          { u with demand := Function.update u.demand type (u.demand type + 1), total := u.total + 1 })

def acquireBase (type : ConsumerType) (m : PipelineManager) :
    (Option DemandHandle × Result) × PipelineManager :=
  if m.shutdown then ((none, .busy), m) else
  match ensureBaseLocked platform none m with
  | (false, m) => ((none, .error), m)
  | (true, m) => ((some ⟨type, .ai⟩, .ok), { m with aiDemand := m.aiDemand + 1 })

end platform

/-- The last demand is gone: every pending unit grace is cancelled and the base one armed. -/
def enterGrace (m : PipelineManager) : PipelineManager :=
  let m := disarmUnit .main m
  let m := disarmUnit .sub m
  let m := m.transition .graceIdle
  { m with timer := m.timer.arm m.cfg.idleGraceMs }

/-- The counters of a release; none goes below zero. -/
def dropDemand (h : DemandHandle) (m : PipelineManager) : PipelineManager :=
  match h.unit.slot with
  | none => { m with aiDemand := m.aiDemand - 1 }
  | some i => m.modifyUnit i fun u => { u with
      demand := Function.update u.demand h.type (u.demand h.type - 1), total := u.total - 1 }

def release (h : DemandHandle) (m : PipelineManager) : PipelineManager :=
  let m := dropDemand h m
  match h.unit.slot with
  | none => if !m.shutdown ∧ m.totalAll = 0 ∧ m.state = .active then enterGrace m else m
  | some i =>
    if m.shutdown then m
    else if m.totalAll = 0 ∧ m.state = .active then enterGrace m
    else if (m.unit i).total = 0 ∧ (m.unit i).chain.running ∧ m.state = .active then
      if (m.unit i).hasTimer then
        m.modifyUnit i fun u => { u with timer := u.timer.arm m.cfg.idleGraceMs, graceArmed := true }
      else stopUnitLocked i m
    else m

def onGraceTimeout (m : PipelineManager) : PipelineManager :=
  if m.state ≠ .graceIdle ∨ 0 < m.totalAll then m
  else (stopBaseLocked (m.transition .stopping)).transition .coldIdle

def onUnitGrace (i : Slot) (m : PipelineManager) : PipelineManager :=
  let m := m.modifyUnit i fun u => { u with graceArmed := false }
  if (m.unit i).total = 0 ∧ (m.unit i).chain.running ∧ m.state = .active then stopUnitLocked i m
  else m

def onJpegGrace (m : PipelineManager) : PipelineManager :=
  let m := { m with jpeg := { m.jpeg with graceArmed := false } }
  if m.jpeg.demand = 0 ∧ m.jpeg.enc.isSome ∧ m.state = .active then stopJpegLocked m else m

/-- The manager's `shutdown()`. -/
def shutDown (m : PipelineManager) : PipelineManager :=
  let m := { m with shutdown := true, timer := m.timer.disarm }
  let m := disarmUnit .main m
  let m := disarmUnit .sub m
  let m := disarmJpeg m
  if m.state = .active ∨ m.state = .graceIdle then
    (stopBaseLocked (m.transition .stopping)).transition .coldIdle
  else m

def configureSub (s : EffectiveStream) (hasTimer : Bool) (m : PipelineManager) : PipelineManager :=
  m.modifyUnit .sub fun u => { u with configured := true, stream := s, hasTimer := hasTimer }

def setUnitGraceTimer (i : Slot) (hasTimer : Bool) (m : PipelineManager) : PipelineManager :=
  m.modifyUnit i fun u => { u with hasTimer := hasTimer }

def configureJpeg (p : JpegParams) (cacheMs graceMs : Int) (hasTimer : Bool)
    (m : PipelineManager) : PipelineManager :=
  { m with jpeg := { m.jpeg with
      configured := true, params := p, cacheMs := cacheMs, graceMs := graceMs, hasTimer := hasTimer } }

def setJpegEnabled (on : Bool) (m : PipelineManager) : PipelineManager :=
  if m.jpeg.enabled = on then m else
  let m := { m with jpeg := { m.jpeg with enabled := on } }
  if !on ∧ m.jpeg.enc.isSome ∧ m.jpeg.demand = 0 ∧ m.state = .active then
    stopJpegLocked (disarmJpeg m)
  else m

section platform

variable (platform : ℕ → Result)

def updateStream (s : EffectiveStream) (restartIfRunning : Bool) (m : PipelineManager) :
    Result × PipelineManager :=
  let m := m.modifyUnit .main fun u => { u with stream := s }
  if (m.state = .active ∨ m.state = .graceIdle) ∧ restartIfRunning then
    let back := m.state
    let m := stopBaseLocked (m.transition .stopping)
    let m := { m with restartCount := m.restartCount + 1 }
    match startBaseLocked platform (some .main) (m.transition .starting) with
    | (false, m) => (.error, m.transition .failed)
    | (true, m) =>
      let m := m.transition back
      (.ok, if back = .graceIdle then { m with timer := m.timer.arm m.cfg.idleGraceMs } else m)
  else (.ok, m)

def updateSubStream (s : EffectiveStream) (enabled : Bool) (m : PipelineManager) :
    Result × PipelineManager :=
  if !enabled then
    let m := if (m.unit .sub).chain.running then stopUnitLocked .sub m else m
    (.ok, m.modifyUnit .sub fun u => { u with configured := false })
  else if !(m.unit .sub).configured then (.unsupported, m)
  else
    let m := m.modifyUnit .sub fun u => { u with stream := s }
    if !(m.unit .sub).chain.running then (.ok, m)
    else
      let m := stopUnitLocked .sub m
      let m := { m with subRestartCount := m.subRestartCount + 1 }
      match startUnitLocked platform .sub m with
      | (false, m) => (.error, m)
      | (true, m) => (.ok, m)

/-- The first locked section of `snapshot`: the base and the encoder are made ready and the
demand is counted. -/
def snapshotBegin (m : PipelineManager) : Result × PipelineManager :=
  if m.shutdown then (.busy, m)
  else if !m.jpeg.configured then (.unsupported, m)
  else if !m.jpeg.enabled then (.unsupported, m)
  else
    match ensureBaseLocked platform (some .jpeg) m with
    | (false, m) => (.error, m)
    | (true, m) =>
      match startJpegLocked platform (disarmJpeg m) with
      | (false, m) => (.error, failIdleBase m)
      | (true, m) => (.ok, { m with jpeg := { m.jpeg with demand := m.jpeg.demand + 1 } })

end platform

/-- Whether a capture at `now` is answered from the cache. -/
def cacheFresh (now maxAgeMs : Int) (m : PipelineManager) : Bool :=
  0 < m.jpeg.cacheAtUs &&
    now - m.jpeg.cacheAtUs < (if 0 ≤ maxAgeMs then maxAgeMs else m.jpeg.cacheMs) * 1000 &&
    m.jpeg.cache ≠ []

/-- The locked section after a capture that began at `t0` and returned `r` with the image. -/
def recordCapture (t0 now : Int) (r : Result) (image : List UInt8) (m : PipelineManager) :
    PipelineManager :=
  let m := { m with jpeg := { m.jpeg with lastCaptureMs := (now - t0) / 1000 } }
  if r.isOk then
    { m with jpeg := { m.jpeg with captures := m.jpeg.captures + 1, cache := image, cacheAtUs := now } }
  else { m with jpeg := { m.jpeg with failures := m.jpeg.failures + 1 } }

def dropSnapshot (m : PipelineManager) : PipelineManager :=
  { m with jpeg := { m.jpeg with demand := m.jpeg.demand - 1 } }

/-- The last locked section of `snapshot`: the demand goes. -/
def snapshotEnd (m : PipelineManager) : PipelineManager :=
  let m := dropSnapshot m
  if m.shutdown then m
  else if m.totalAll = 0 ∧ m.state = .active then enterGrace m
  else if m.jpeg.demand = 0 ∧ m.jpeg.enc.isSome ∧ m.state = .active then
    if m.jpeg.hasTimer then
      { m with jpeg := { m.jpeg with timer := m.jpeg.timer.arm m.jpeg.graceMs, graceArmed := true } }
    else stopJpegLocked m
  else m

end PipelineManager

open PipelineManager

/-- Where a `snapshot` call stands between its locked sections. -/
inductive Phase where
  | begun
  | capturing (enc : Option ℕ) (t0 : Int)
  | captured (r : Result)
  deriving DecidableEq, Repr

/-- A `snapshot` call in flight, with the encoder that was there at its begin. -/
structure Snapshot where
  enc : Option ℕ
  phase : Phase := .begun
  deriving DecidableEq, Repr

def Snapshot.isCapturing (sn : Snapshot) : Bool :=
  match sn.phase with
  | .capturing _ _ => true
  | _ => false

/-- The manager among its clients: the live demand handles and the snapshots in flight. -/
structure Sys where
  mgr : PipelineManager
  handles : List DemandHandle := []
  snaps : List Snapshot := []

/-- What can happen to the manager next. A grace handler is called either because its timer
has just run out (`fired`), or late, for an earlier arming. -/
inductive Op where
  | acquireUnit (unit : UnitId) (type : ConsumerType)
  | acquireBase (type : ConsumerType)
  | release (h : DemandHandle)
  | onGraceTimeout (fired : Bool)
  | onUnitGrace (i : Slot) (fired : Bool)
  | onJpegGrace (fired : Bool)
  | snapshotBegin
  | snapshotCapture (k : ℕ) (now maxAgeMs : Int)
  | snapshotCaptured (k : ℕ) (r : Result) (image : List UInt8) (now : Int)
  | snapshotEnd (k : ℕ)
  | updateStream (s : EffectiveStream) (restartIfRunning : Bool)
  | updateSubStream (s : EffectiveStream) (enabled : Bool)
  | setJpegEnabled (on : Bool)
  | configureSub (s : EffectiveStream) (hasTimer : Bool)
  | setUnitGraceTimer (i : Slot) (hasTimer : Bool)
  | configureJpeg (p : JpegParams) (cacheMs graceMs : Int) (hasTimer : Bool)
  | setSensorFpsTarget (fps : Int)
  | setPostStartHook (set : Bool)
  | shutDown

namespace Sys

/-- The base timer runs out. -/
def expireBase (m : PipelineManager) : PipelineManager := { m with timer := m.timer.disarm }

def expireUnit (i : Slot) (m : PipelineManager) : PipelineManager :=
  m.modifyUnit i fun u => { u with timer := u.timer.disarm }

def expireJpeg (m : PipelineManager) : PipelineManager :=
  { m with jpeg := { m.jpeg with timer := m.jpeg.timer.disarm } }

def grant (s : Sys) (r : (Option DemandHandle × Result) × PipelineManager) : Sys :=
  { s with mgr := r.2, handles := r.1.1.toList ++ s.handles }

variable (platform : ℕ → Result)

/-- The unlocked middle of `snapshot`, up to the call into the encoder. `snap_m_` lets one
snapshot at a time in. -/
def capture (k : ℕ) (now maxAgeMs : Int) (s : Sys) : Sys :=
  match s.snaps[k]? with
  | some ⟨e, .begun⟩ =>
    if s.snaps.any Snapshot.isCapturing then s
    else if cacheFresh now maxAgeMs s.mgr then { s with snaps := s.snaps.set k ⟨e, .captured .ok⟩ }
    else { s with
      mgr := undo s.mgr.jpeg.enc .captureJpeg s.mgr
      snaps := s.snaps.set k ⟨e, .capturing s.mgr.jpeg.enc now⟩ }
  | _ => s

/-- The capture returns, `busy` when there was no encoder to ask. -/
def captured (k : ℕ) (r : Result) (image : List UInt8) (now : Int) (s : Sys) : Sys :=
  match s.snaps[k]? with
  | some ⟨e, .capturing p t0⟩ =>
    let r := if p.isSome then r else .busy
    { s with mgr := recordCapture t0 now r image s.mgr, snaps := s.snaps.set k ⟨e, .captured r⟩ }
  | _ => s

def step (s : Sys) : Op → Sys
  | .acquireUnit unit type => s.grant (acquireUnit platform unit type s.mgr)
  | .acquireBase type => s.grant (acquireBase platform type s.mgr)
  | .release h =>
    if h ∈ s.handles then { s with mgr := s.mgr.release h, handles := s.handles.erase h } else s
  | .onGraceTimeout fired =>
    { s with mgr := onGraceTimeout (if fired then expireBase s.mgr else s.mgr) }
  | .onUnitGrace i fired =>
    { s with mgr := onUnitGrace i (if fired then expireUnit i s.mgr else s.mgr) }
  | .onJpegGrace fired =>
    { s with mgr := onJpegGrace (if fired then expireJpeg s.mgr else s.mgr) }
  | .snapshotBegin =>
    let r := snapshotBegin platform s.mgr
    if r.1.isOk then { s with mgr := r.2, snaps := s.snaps ++ [{ enc := r.2.jpeg.enc }] }
    else { s with mgr := r.2 }
  | .snapshotCapture k now maxAgeMs => s.capture k now maxAgeMs
  | .snapshotCaptured k r image now => s.captured k r image now
  | .snapshotEnd k =>
    match s.snaps[k]? with
    | some ⟨_, .captured _⟩ => { s with mgr := s.mgr.snapshotEnd, snaps := s.snaps.eraseIdx k }
    | _ => s
  | .updateStream st restart => { s with mgr := (updateStream platform st restart s.mgr).2 }
  | .updateSubStream st enabled => { s with mgr := (updateSubStream platform st enabled s.mgr).2 }
  | .setJpegEnabled on => { s with mgr := setJpegEnabled on s.mgr }
  | .configureSub st hasTimer => { s with mgr := configureSub st hasTimer s.mgr }
  | .setUnitGraceTimer i hasTimer => { s with mgr := setUnitGraceTimer i hasTimer s.mgr }
  | .configureJpeg p cacheMs graceMs hasTimer =>
    { s with mgr := configureJpeg p cacheMs graceMs hasTimer s.mgr }
  | .setSensorFpsTarget fps => { s with mgr := { s.mgr with sensorFpsTarget := fps } }
  | .setPostStartHook set => { s with mgr := { s.mgr with postStart := set } }
  | .shutDown => { s with mgr := s.mgr.shutDown }

/-- A freshly constructed manager nobody uses yet. -/
def create (stream : EffectiveStream) (cfg : LifecycleConfig) : Sys where
  mgr := PipelineManager.create stream cfg

abbrev run (s : Sys) (ops : List Op) : Sys := Runs.run (step platform) s ops

end Sys

end Machino.Lifecycle
