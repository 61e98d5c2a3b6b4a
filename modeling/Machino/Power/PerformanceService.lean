import Mathlib.Data.List.Dedup
import Mathlib.Data.List.Sort
import Machino.Power.Apply

namespace Machino.Power

open Api

structure SensorMode where
  width : ℤ
  height : ℤ
  fps : ℤ

structure BoardPresets where
  balancedFps : Option ℤ := none
  batteryFps : Option ℤ := none
  balancedBitrate : Option ℤ := none
  batteryBitrate : Option ℤ := none

/-- What is resolved of the sensor and the board. -/
structure Hardware where
  modes : List SensorMode
  mode : SensorMode
  presets : BoardPresets := {}
  allowUnverified : Bool := false

/-- The verified rates at the resolved size, ascending. -/
def Hardware.verifiedFps (hw : Hardware) : List ℤ :=
  (((hw.modes.filter fun m => m.width = hw.mode.width ∧ m.height = hw.mode.height).map
    (·.fps)).insertionSort (· ≤ ·)).dedup

structure Caps where
  videoFps : Control := {}
  bitrate : Control := {}
  sensorFps : Control := {}

/-- What the pipeline's main stream is set to. -/
structure Stream where
  fps : ℤ
  bitrateKbps : ℤ
  deriving DecidableEq

structure Service where
  hw : Hardware
  caps : Caps
  bitrateDefault : ℤ
  profile : Profile := .performance
  sensorFpsReq : ℤ
  stream : Stream

/-- The service over a pipeline with a stream; the bounds of the rates come from verified modes. -/
def Service.new (hw : Hardware) (caps : Caps) (videoBitrate : ℤ) (stream : Stream) : Service :=
  let v := hw.verifiedFps
  let bounded (c : Control) : Control :=
    if 2 ≤ v.length then { c with min := v.headD 0, max := v.getLastD 0 } else c
  let fps := bounded caps.videoFps
  { hw, stream, bitrateDefault := videoBitrate, sensorFpsReq := hw.mode.fps
    caps := { caps with
      sensorFps := bounded caps.sensorFps
      videoFps := { fps with
        support := if fps.support = .unknown then .supported else fps.support
        apply := if fps.apply = .unsupported then .pipelineRestart else fps.apply } } }

/-- What the platform answers during one operation. -/
structure Answers where
  fps : Restart := .cold
  sensor : Live := .busy
  bitrate : Live := .busy
  bitrateRestart : Restart := .cold

namespace Service

variable (s : Service)

def sensorFpsMode : ApplyMode :=
  if s.caps.sensorFps.support = .supported then s.caps.sensorFps.apply else .unsupported

def presetFps : Profile → ℤ × String
  | .performance => (s.hw.mode.fps, "")
  | .balanced =>
    let v := s.hw.verifiedFps
    match s.hw.presets.balancedFps with
    | some fps => (fps, "")
    | none =>
      match if 2 ≤ v.length then v.reverse.find? (· < s.hw.mode.fps) else none with
      | some fps => (fps, "")
      | none => (s.hw.mode.fps, "no lower verified operating point - balanced == performance")
  | .battery =>
    match s.hw.presets.batteryFps with
    | some fps => (fps, "")
    | none =>
      match s.hw.verifiedFps.head?.filter (· < s.hw.mode.fps) with
      | some fps => (fps, "")
      | none => (s.hw.mode.fps, "no lower verified operating point - battery == performance")
  | .custom => (s.hw.mode.fps, "")

def presetBitrate : Profile → ℤ
  | .balanced => s.hw.presets.balancedBitrate.getD s.bitrateDefault
  | .battery => s.hw.presets.batteryBitrate.getD s.bitrateDefault
  | _ => s.bitrateDefault

def checkStreamFps (fps : ℤ) : Except String Unit :=
  if fps ≤ 0 then .error "fps must be > 0"
  else if !s.caps.videoFps.inRange fps then .error "fps outside known range"
  else if s.hw.verifiedFps ≠ [] ∧ fps ∉ s.hw.verifiedFps ∧ !s.hw.allowUnverified then
    .error "not a verified operating point (set sensor.allow_unverified_mode = 1 to test)"
  else .ok ()

def checkBitrate (kbps : ℤ) : Except String Unit :=
  if kbps ≤ 0 then .error "bitrate must be > 0"
  else if !s.caps.bitrate.inRange kbps then .error "bitrate outside known range"
  else .ok ()

def checkSensorFps (fps : ℤ) : Except String Unit :=
  if fps ≤ 0 then .error "fps must be > 0"
  else if !s.caps.sensorFps.inRange fps then .error "sensor fps outside known range"
  else .ok ()

def custom : Service := { s with profile := .custom }

/-- The stream is stored even where the restart with it fails. -/
def applyStreamRestart (fps : ℤ) (what : String) : Restart → ApplyResult × Service
  | .failed err =>
    (.rejected .pipelineRestart (what ++ ": restart failed: " ++ err),
      { s with stream := { s.stream with fps } })
  | .cold =>
    (.stored .pipelineRestart fps "stored; takes effect at next pipeline start",
      { s with stream := { s.stream with fps } })
  | .done =>
    (.applied .pipelineRestart fps "pipeline restarted with demand preserved",
      { s with stream := { s.stream with fps } })

def setStreamFps (fps : ℤ) (ans : Answers) : ApplyResult × Service :=
  match s.checkStreamFps fps with
  | .error why => (.rejected s.caps.videoFps.apply why, s)
  | .ok _ =>
    if s.stream.fps = fps then (.applied .live fps "unchanged", s)
    else s.custom.applyStreamRestart fps "stream fps" ans.fps

/-- The live call behind both ways to set the sensor's rate. -/
def liveSensorFps (fps : ℤ) : Live → ApplyResult
  | .busy => .stored s.sensorFpsMode fps "stored; applied at next pipeline start"
  | .failed status => .rejected s.sensorFpsMode ("platform rejected sensor fps (" ++ status ++ ")")
  | .done eff =>
    .applied s.sensorFpsMode (if 0 < eff then eff else fps)
      (if 0 < eff then "read back from hardware" else "no readback available")

def setSensorFps (fps : ℤ) (ans : Answers) : ApplyResult × Service :=
  let mode := s.sensorFpsMode
  if fps ≤ 0 then (.rejected mode "fps must be > 0", s)
  else if mode = .unsupported then
    (.rejected mode "sensor fps control unsupported on this platform (stream fps only)",
      { s with sensorFpsReq := fps })
  else
    match s.checkSensorFps fps with
    | .error why => (.rejected mode why, s)
    | .ok _ => (s.liveSensorFps fps ans.sensor, { s with sensorFpsReq := fps })

def clearStreamFps (ans : Answers) : ApplyResult × Service :=
  if s.stream.fps = s.hw.mode.fps then
    (.applied .live s.hw.mode.fps "already at the mode default", s)
  else s.applyStreamRestart s.hw.mode.fps "stream fps (reset)" ans.fps

def clearSensorFps (ans : Answers) : ApplyResult × Service :=
  (if s.sensorFpsMode = .unsupported then
      .applied .live s.hw.mode.fps "sensor fps follows the mode on this platform"
    else s.liveSensorFps s.hw.mode.fps ans.sensor,
    { s with sensorFpsReq := s.hw.mode.fps })

def bitrateMode : ApplyMode :=
  if s.caps.bitrate.support = .supported then s.caps.bitrate.apply else .pipelineRestart

/-- The bitrate goes into the stream, with a restart where there is no live control. -/
def storeBitrate (kbps : ℤ) (restart : Restart) : ApplyResult × Service :=
  let stored : Service := { s with stream := { s.stream with bitrateKbps := kbps } }
  if s.bitrateMode = .live then
    (.stored .live kbps "stored; takes effect at next pipeline start", stored)
  else
    match restart with
    | .failed err => (.rejected .pipelineRestart ("restart failed: " ++ err), stored)
    | _ => (.stored .pipelineRestart kbps "stored; takes effect at next pipeline start", stored)

def setBitrate (kbps : ℤ) (ans : Answers) : ApplyResult × Service :=
  match s.checkBitrate kbps with
  | .error why => (.rejected s.bitrateMode why, s)
  | .ok _ =>
    if s.stream.bitrateKbps = kbps then (.applied .live kbps "unchanged", s)
    else if s.bitrateMode = .live then
      match ans.bitrate with
      | .done eff =>
        let eff := if 0 < eff then eff else kbps
        (.applied .live eff "read back from encoder",
          { s.custom with stream := { s.stream with bitrateKbps := eff } })
      -- a failed call is not followed by a restart either
      | _ => s.custom.storeBitrate kbps ans.bitrateRestart
    else s.custom.storeBitrate kbps ans.bitrateRestart

def profileName : Profile → String
  | .performance => "performance"
  | .balanced => "balanced"
  | .battery => "battery"
  | .custom => "custom"

/-- Every part of the operating point is checked before anything is touched. -/
def checkProfile (p : Profile) : Except (ApplyMode × String) Unit := do
  let fps := (s.presetFps p).1
  let kbps := s.presetBitrate p
  let refuse (mode : ApplyMode) (req : ℤ) (what : String) : Except String Unit →
      Except (ApplyMode × String) Unit :=
    Except.mapError fun why => (mode, profileName p ++ " not applied (nothing changed): " ++ what ++
      " " ++ toString req ++ ": " ++ why)
  refuse s.caps.videoFps.apply fps "stream fps" (s.checkStreamFps fps)
  refuse s.caps.bitrate.apply kbps "bitrate" (s.checkBitrate kbps)
  if s.sensorFpsMode ≠ .unsupported then
    refuse s.sensorFpsMode fps "sensor fps" (s.checkSensorFps fps)

/-- A part that fails leaves a mixed operating point, which is what custom means. -/
def partialProfile (p : Profile) (fps : ℤ) (r : ApplyResult) (which : String) :
    ApplyResult × Service :=
  (.rejected r.mode (profileName p ++ " only partially applied: " ++ which ++ " failed (" ++
      r.message ++ "); stream fps " ++ toString fps ++
      " is in effect, no rollback was attempted - reported as custom"),
    s.custom)

/-- What follows once the stream rate is in effect: the sensor rate, where there is a control, and
the bitrate. -/
def applyRest (p : Profile) (fps kbps : ℤ) (ans : Answers) (r1 : ApplyResult) (note : String) :
    ApplyResult × Service :=
  let (r2, s) :=
    if s.sensorFpsMode ≠ .unsupported then s.setSensorFps fps ans
    else (.applied .unsupported (-1) "platform has no sensor rate control", s)
  if !r2.ok then s.partialProfile p fps r2 "sensor fps"
  else
    let (r3, s) := s.setBitrate kbps ans
    if !r3.ok then s.partialProfile p fps r3 "bitrate"
    else
      ({ ApplyResult.applied r1.mode r1.effective note with deferred := r1.deferred },
        { s with profile := p })

def applyProfile (p : Profile) (ans : Answers) : ApplyResult × Service :=
  if p = .custom then (.applied .live 3 "custom: individual settings apply", s.custom)
  else
    let (fps, note) := s.presetFps p
    let kbps := s.presetBitrate p
    match s.checkProfile p with
    | .error (mode, why) => (.rejected mode why, s)
    | .ok _ =>
      let (r1, s) := s.setStreamFps fps ans
      if !r1.ok then (r1, s) else s.applyRest p fps kbps ans r1 note

end Service

inductive Op where
  | applyProfile (p : Profile)
  | setStreamFps (fps : ℤ)
  | setSensorFps (fps : ℤ)
  | setBitrate (kbps : ℤ)
  | clearStreamFps
  | clearSensorFps

def Service.perform (s : Service) (ans : Answers) : Op → ApplyResult × Service
  | .applyProfile p => s.applyProfile p ans
  | .setStreamFps fps => s.setStreamFps fps ans
  | .setSensorFps fps => s.setSensorFps fps ans
  | .setBitrate kbps => s.setBitrate kbps ans
  | .clearStreamFps => s.clearStreamFps ans
  | .clearSensorFps => s.clearSensorFps ans

/-- One operation, with what the platform answers in it. -/
def step (s : Service) (i : Op × Answers) : Service := (s.perform i.2 i.1).2

end Machino.Power
