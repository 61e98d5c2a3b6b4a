import Machino.Power.Apply

namespace Machino.Media

open Api Power

/-- What is asked for; an amount that is set wins over the profile. -/
structure LatencySettings where
  profile : LatencyProfile := .normal
  gop : Option ℤ := none
  framesourceBuffers : Option ℤ := none
  encoderBuffers : Option ℤ := none
  consumerQueueDepth : Option ℤ := none
  deriving DecidableEq

structure ResolvedLatency where
  profile : LatencyProfile
  gop : ℤ
  framesourceBuffers : ℤ
  encoderBuffers : ℤ
  consumerQueueDepth : ℤ

/-- What the pipeline's main stream is set to. -/
structure EffectiveStream where
  fps : ℤ
  gop : ℤ
  buffers : ℤ
  encoderBuffers : ℤ

/-- `set_default_depth`, with its cast to `size_t`. -/
def defaultDepth (d : ℤ) : ℕ := if d = 0 then 1 else (d % 2 ^ 32).toNat

/-- The service over its pipeline and hub; a negative amount of a control is none. -/
structure Tuning where
  /-- There is an image control. -/
  image : Bool
  caps : ImageControl → Control
  base : EffectiveStream
  latency : LatencySettings
  resolved : ResolvedLatency
  requested : ImageControl → ℤ
  effective : ImageControl → ℤ
  override : ImageControl → ℤ
  stream : EffectiveStream
  depth : ℕ

/-- What the pipeline and the platform answer during one operation. -/
structure Answers where
  running : Bool := false
  image : Live := .busy
  restart : Except String Unit := .ok ()
  gop : Live := .busy
  /-- The image controls, as they are set again after a start. -/
  isp : ImageControl → Live := fun _ => .busy

def update (f : ImageControl → ℤ) (c : ImageControl) (v : ℤ) : ImageControl → ℤ :=
  fun d => if d = c then v else f d

namespace Tuning

variable (s : Tuning)

def resolve (l : LatencySettings) : ResolvedLatency :=
  -- one frame group a second and one buffer at each stage
  let low := l.profile = .low
  { profile := l.profile
    gop := l.gop.getD (if low then max 1 s.stream.fps else s.base.gop)
    framesourceBuffers := l.framesourceBuffers.getD (if low then 1 else s.base.buffers)
    encoderBuffers := l.encoderBuffers.getD (if low then 1 else s.base.encoderBuffers)
    consumerQueueDepth := l.consumerQueueDepth.getD (if low then 1 else 4) }

/-- The checks in front of a value. -/
def checkImage (c : ImageControl) (value : ℤ) : Except (ApplyMode × String) Unit :=
  if !s.image ∨ (s.caps c).support ≠ .supported then
    .error (.unsupported, c.name ++ " is not supported")
  else if !(s.caps c).inRange value ∨ (c = .antiFlicker ∧ value ≠ 0 ∧ value ≠ 50 ∧ value ≠ 60) then
    .error ((s.caps c).apply, c.name ++ " outside supported values")
  else .ok ()

/-- The call into the sensor's image processing, and what is known of it after. -/
def liveImage (c : ImageControl) (value : ℤ) : Live → ApplyResult × Tuning
  | .busy =>
    (.stored (s.caps c).apply value "stored; pipeline transition in progress", s)
  | .failed _ => (.rejected (s.caps c).apply "ISP rejected the image control", s)
  | .done eff =>
    (.applied (s.caps c).apply (if 0 ≤ eff then eff else value) "read back from ISP",
      { s with effective := update s.effective c eff })

/-- The value is recorded before the call; one under a hold is recorded and not written. -/
def applyImage (c : ImageControl) (value : ℤ) (record fromOverride : Bool) (ans : Answers) :
    ApplyResult × Tuning :=
  match s.checkImage c value with
  | .error (mode, why) => (.rejected mode why, s)
  | .ok _ =>
    let s := if record then { s with requested := update s.requested c value } else s
    let held := if fromOverride then -1 else s.override c
    if 0 ≤ held then
      (.stored (s.caps c).apply value "stored; the night mode holds this control", s)
    else s.liveImage c value ans.image

def setImage (c : ImageControl) (value : ℤ) (ans : Answers) : ApplyResult × Tuning :=
  s.applyImage c value true false ans

/-- The preview does not change what is asked for. -/
def setImageLive (c : ImageControl) (value : ℤ) (ans : Answers) : ApplyResult × Tuning :=
  s.applyImage c value false false ans

/-- The hold is there before the value is written, and goes when that fails. -/
def setImageOverride (c : ImageControl) (value : ℤ) (ans : Answers) : ApplyResult × Tuning :=
  let before := s.override c
  let (r, s) := applyImage { s with override := update s.override c value } c value false true ans
  if !r.ok then (r, { s with override := update s.override c before }) else (r, s)

/-- The held values and the ones asked for, as they are set again after a start. -/
def applyImagesAfterStart (isp : ImageControl → Live) : Tuning :=
  let value (c : ImageControl) := if 0 ≤ s.override c then s.override c else s.requested c
  if !s.image then s
  else
    { s with effective := fun c =>
        if value c < 0 then s.effective c
        else
          match isp c with
          | .done eff => eff
          | _ => s.effective c }

/-- `update_stream`: the stream is stored, and a running pipeline is restarted where asked for. -/
def updateStream (stream : EffectiveStream) (restart : Bool) (ans : Answers) :
    Except String Unit × Tuning :=
  let s := { s with stream }
  if restart && ans.running then
    match ans.restart with
    | .error err => (.error err, s)
    | .ok _ => (.ok (), s.applyImagesAfterStart ans.isp)
  else (.ok (), s)

/-- Back to the tuning's own default, which takes a restart. -/
def clearImage (c : ImageControl) (ans : Answers) : ApplyResult × Tuning :=
  if (s.caps c).support ≠ .supported then
    (.rejected .unsupported (c.name ++ " is not supported"), s)
  else
    let s := { s with
      requested := update s.requested c (-1), effective := update s.effective c (-1) }
    if ans.running then
      match s.updateStream s.stream true ans with
      | (.error err, s) =>
        (.rejected .pipelineRestart (c.name ++ ": restart to defaults failed: " ++ err), s)
      | (.ok _, s) =>
        (.applied .pipelineRestart (-1) "cleared; pipeline restarted to tuning defaults", s)
    else (.applied .live (-1) "cleared", s)

/-- `live_gop`, with its own bounds. -/
def liveGop (frames : ℤ) (ans : Live) : Bool × Tuning :=
  if frames < 1 ∨ 1000 < frames then (false, s)
  else
    match ans with
    | .done _ => (true, { s with stream := { s.stream with gop := frames } })
    | _ => (false, s)

def applyLatency (target : ResolvedLatency) (requested : ℤ) (what : String) (ans : Answers) :
    ApplyResult × Tuning :=
  let stream := { s.stream with
    gop := target.gop, buffers := target.framesourceBuffers
    encoderBuffers := target.encoderBuffers }
  let restartChange := s.stream.buffers ≠ target.framesourceBuffers ∨
    s.stream.encoderBuffers ≠ target.encoderBuffers
  let gopChange := s.stream.gop ≠ target.gop
  -- the depth is the new one whatever becomes of the rest
  let s := { s with depth := defaultDepth target.consumerQueueDepth }
  if restartChange then
    match s.updateStream stream ans.running ans with
    | (.error err, s) => (.rejected .pipelineRestart (what ++ ": restart failed: " ++ err), s)
    | (.ok _, s) =>
      (if ans.running then .applied .pipelineRestart requested "pipeline restarted once"
        else .stored .pipelineRestart requested "stored; takes effect at next pipeline start",
        { s with resolved := target })
  else if gopChange then
    if ans.running then
      match s.liveGop target.gop ans.gop with
      | (false, s) => (.rejected .live (what ++ ": encoder rejected GOP"), s)
      | (true, s) =>
        (.applied .live requested "applied without restart", { s with resolved := target })
    else
      (.stored .live requested "stored; takes effect at next pipeline start",
        { s with stream, resolved := target })
  else (.applied .live requested "applied without restart", { s with resolved := target })

/-- What the setters below share: the settings are stored, then what they come to is applied. -/
def storeLatency (l : LatencySettings) (requested : ℤ) (what : String) (ans : Answers) :
    ApplyResult × Tuning :=
  applyLatency { s with latency := l } (s.resolve l) requested what ans

def profileCode : LatencyProfile → ℤ
  | .normal => 0
  | .low => 1
  | .custom => 2

def setLatencyProfile (p : LatencyProfile) (ans : Answers) : ApplyResult × Tuning :=
  s.storeLatency { s.latency with profile := p } (profileCode p) "latency profile" ans

def setGop (frames : ℤ) (ans : Answers) : ApplyResult × Tuning :=
  if frames < 1 ∨ 1000 < frames then (.rejected .live "GOP must be in 1..1000", s)
  else s.storeLatency { s.latency with gop := some frames } frames "GOP" ans

def setFramesourceBuffers (n : ℤ) (ans : Answers) : ApplyResult × Tuning :=
  if n < 1 ∨ 8 < n then (.rejected .pipelineRestart "FrameSource buffers must be in 1..8", s)
  else s.storeLatency { s.latency with framesourceBuffers := some n } n "FrameSource buffers" ans

def setEncoderBuffers (n : ℤ) (ans : Answers) : ApplyResult × Tuning :=
  if n < 1 ∨ 8 < n then (.rejected .pipelineRestart "encoder buffers must be in 1..8", s)
  else s.storeLatency { s.latency with encoderBuffers := some n } n "encoder buffers" ans

def setQueueDepth (n : ℤ) (ans : Answers) : ApplyResult × Tuning :=
  if n < 1 ∨ 32 < n then (.rejected .live "consumer queue depth must be in 1..32", s)
  else s.storeLatency { s.latency with consumerQueueDepth := some n } n "consumer queue depth" ans

def clearFramesourceBuffers (ans : Answers) : ApplyResult × Tuning :=
  s.storeLatency { s.latency with framesourceBuffers := none } 0 "FrameSource buffers (reset)" ans

def clearEncoderBuffers (ans : Answers) : ApplyResult × Tuning :=
  s.storeLatency { s.latency with encoderBuffers := none } 0 "encoder buffers (reset)" ans

def clearQueueDepth (ans : Answers) : ApplyResult × Tuning :=
  s.storeLatency { s.latency with consumerQueueDepth := none } 0 "consumer queue depth (reset)" ans

/-- What the profile comes to at another stream rate. -/
def refreshAfterStreamChange (ans : Answers) : ApplyResult × Tuning :=
  s.storeLatency s.latency (profileCode s.latency.profile) "latency profile refresh" ans

end Tuning

inductive LatencyOp where
  | setLatencyProfile (p : LatencyProfile)
  | setGop (frames : ℤ)
  | setFramesourceBuffers (n : ℤ)
  | setEncoderBuffers (n : ℤ)
  | setQueueDepth (n : ℤ)
  | clearFramesourceBuffers
  | clearEncoderBuffers
  | clearQueueDepth
  | refreshAfterStreamChange

inductive Op where
  | setImage (c : ImageControl) (value : ℤ)
  | setImageLive (c : ImageControl) (value : ℤ)
  | setImageOverride (c : ImageControl) (value : ℤ)
  | clearImage (c : ImageControl)
  | latency (op : LatencyOp)

namespace Tuning

def performLatency (s : Tuning) (ans : Answers) : LatencyOp → ApplyResult × Tuning
  | .setLatencyProfile p => s.setLatencyProfile p ans
  | .setGop n => s.setGop n ans
  | .setFramesourceBuffers n => s.setFramesourceBuffers n ans
  | .setEncoderBuffers n => s.setEncoderBuffers n ans
  | .setQueueDepth n => s.setQueueDepth n ans
  | .clearFramesourceBuffers => s.clearFramesourceBuffers ans
  | .clearEncoderBuffers => s.clearEncoderBuffers ans
  | .clearQueueDepth => s.clearQueueDepth ans
  | .refreshAfterStreamChange => s.refreshAfterStreamChange ans

def perform (s : Tuning) (ans : Answers) : Op → ApplyResult × Tuning
  | .setImage c v => s.setImage c v ans
  | .setImageLive c v => s.setImageLive c v ans
  | .setImageOverride c v => s.setImageOverride c v ans
  | .clearImage c => s.clearImage c ans
  | .latency op => s.performLatency ans op

end Tuning

/-- One operation, with what it meets. -/
def step (s : Tuning) (i : Op × Answers) : Tuning := (s.perform i.2 i.1).2

end Machino.Media
