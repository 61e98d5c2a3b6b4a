import Machino.Core.ConfigFile
import Machino.Core.Number

namespace Machino

inductive Profile where
  | performance | balanced | battery | custom
  deriving DecidableEq, Repr

inductive LatencyProfile where
  | normal | low | custom
  deriving DecidableEq, Repr

inductive PerfLevel where
  | auto | low | high
  deriving DecidableEq, Repr

inductive RcMode where
  | cbr | vbr | fixQp
  deriving DecidableEq, Repr

inductive OsdAnchor where
  | proportional | topLeft | top | topRight | left | center | right | bottomLeft | bottom
  | bottomRight
  deriving DecidableEq, Repr

/-- What a name stands for in a list of names. -/
def named {α : Type} (names : List (String × α)) (s : Text) : Option α :=
  (names.find? fun p => p.1.toList = s).map Prod.snd

def parseProfile : Text → Option Profile :=
  named [("performance", .performance), ("balanced", .balanced), ("battery", .battery),
    ("custom", .custom)]

def parseLatencyProfile : Text → Option LatencyProfile :=
  named [("normal", .normal), ("low", .low), ("custom", .custom)]

def parsePerfLevel : Text → Option PerfLevel :=
  named [("auto", .auto), ("low", .low), ("high", .high)]

def parseRcMode : Text → Option RcMode := named [("cbr", .cbr), ("vbr", .vbr), ("fixqp", .fixQp)]

def osdAnchorParse : Text → Option OsdAnchor :=
  named [("proportional", .proportional), ("top-left", .topLeft), ("top", .top),
    ("top-right", .topRight), ("left", .left), ("center", .center), ("right", .right),
    ("bottom-left", .bottomLeft), ("bottom", .bottom), ("bottom-right", .bottomRight)]

/-- The frequency that goes with the name of an anti-flicker mode. -/
def antiFlickerParse : Text → Option Int := named [("off", 0), ("50hz", 50), ("60hz", 60)]

def previewParse (s : Text) : Option Text :=
  if s ∈ ["auto", "live", "off"].map String.toList then some s else none

/-- The members that a line of the file can set. -/
inductive Field where
  | hardwareBoardId | boardProfileFile | hardwarePlatform | hardwareSensor | wiringI2cBus
  | wiringI2cAddr | wiringMclk | wiringResetGpio | wiringPwdnGpio | allowUnverifiedMode
  | performanceSensorFps | videoWidth | videoHeight | videoFps | videoGop | videoBitrateKbps
  | videoProfile | videoQp | videoBuffers | videoEncoderBuffers | videoRc | latencyProfile
  | latencyGop | latencyFramesourceBuffers | latencyEncoderBuffers | latencyConsumerQueueDepth
  | imageBrightness | imageContrast | imageSaturation | imageSharpness | imageHue | imageHflip
  | imageVflip | imageAntiFlicker | imageAeCompensation | imageHighlightDepress
  | imageBacklightComp | imageWhiteBalanceMode | imageRunningMode | imageTemporalNr
  | imageSpatialNr | imageDpc | imageDefog | rtspEnabled | rtspAuthEnabled | rtspPort | rtspPath
  | rtspSendBufferBytes | rtspSendStallMs | rtspMaxClients | rtspSubPath | rtspMjpegFps
  | video1Enabled | video1Width | video1Height | video1Fps | video1Gop | video1BitrateKbps
  | video1Profile | video1Buffers | video1EncoderBuffers | onvifEnabled | onvifUsername
  | onvifPassword | systemUnsafe | watchdogEnabled | watchdogTimeoutS | osdEnabled | osdTmpl
  | osdFont | osdSize | osdOutline | osdOffsetX | osdOffsetY | osdPosX | osdPosY | osdBgAlpha
  | osdImageDir | videoOsd | video1Osd | osdThin | osdAnchor | jpegEnabled | jpegQuality
  | webuiDashboardPreview | snapshotCacheMs | snapshotGraceMs | aiEnabled | aiDetector
  | aiInferenceFps | aiModelPath | audioEnabled | audioSrate | audioVolume | audioGain
  | audioOutputEnabled | audioOutputVolume | audioGraceMs | pipelineAlwaysOn
  | pipelineIdleGraceMs | pipelinePollTimeoutMs | performanceProfile | performanceIsp
  | performanceEncoder | performanceCpu | telemetryLogIntervalS | apiEnabled | apiBind | apiPort
  | apiUpstreamHost | apiUpstreamPort | apiAuth | revision | logLevel | logSyslog
  deriving DecidableEq, Repr

/-- The value of a member; an `optional` without one is unset. -/
inductive Value where
  | unset
  | int (n : Int)
  | bool (b : Bool)
  | text (s : Text)
  | profile (p : Profile)
  | latency (p : LatencyProfile)
  | level (l : PerfLevel)
  | rc (m : RcMode)
  | anchor (a : OsdAnchor)
  deriving DecidableEq, Repr

structure AppConfig where
  value : Field → Value

namespace AppConfig

def set (c : AppConfig) (f : Field) (v : Value) : AppConfig where
  value g := if g = f then v else c.value g

@[simp] theorem set_self (c : AppConfig) (f : Field) (v : Value) : (c.set f v).value f = v :=
  if_pos rfl

theorem set_of_ne (c : AppConfig) {f g : Field} (h : g ≠ f) (v : Value) :
    (c.set f v).value g = c.value g := if_neg h

/-- What the members hold before any line is read. -/
def initial : AppConfig where
  value
    | .hardwareBoardId | .boardProfileFile | .hardwarePlatform | .hardwareSensor => .text []
    | .wiringI2cBus | .wiringI2cAddr | .wiringMclk | .wiringResetGpio | .wiringPwdnGpio => .unset
    | .allowUnverifiedMode => .bool false
    | .performanceSensorFps => .int 0
    | .videoWidth | .videoHeight | .videoFps => .unset
    | .videoGop => .int 40
    | .videoBitrateKbps => .int 3000
    | .videoProfile => .int 2
    | .videoQp => .int 35
    | .videoBuffers => .int 2
    | .videoEncoderBuffers => .int 0
    | .videoRc => .rc .cbr
    | .latencyProfile => .latency .normal
    | .latencyGop | .latencyFramesourceBuffers | .latencyEncoderBuffers
    | .latencyConsumerQueueDepth => .unset
    | .imageBrightness | .imageContrast | .imageSaturation | .imageSharpness | .imageHue
    | .imageHflip | .imageVflip | .imageAntiFlicker | .imageAeCompensation
    | .imageHighlightDepress | .imageBacklightComp | .imageWhiteBalanceMode | .imageRunningMode
    | .imageTemporalNr | .imageSpatialNr | .imageDpc | .imageDefog => .unset
    | .rtspEnabled => .bool true
    | .rtspAuthEnabled => .bool true
    | .rtspPort => .int 554
    | .rtspPath => .text "/ch0".toList
    | .rtspSendBufferBytes => .int 65536
    | .rtspSendStallMs => .int 750
    | .rtspMaxClients => .int 4
    | .rtspSubPath => .text "/ch1".toList
    | .rtspMjpegFps => .int 5
    | .video1Enabled => .bool false
    | .video1Width | .video1Height | .video1Fps => .unset
    | .video1Gop => .int 40
    | .video1BitrateKbps => .int 512
    | .video1Profile => .int 2
    | .video1Buffers => .int 2
    | .video1EncoderBuffers => .int 0
    | .onvifEnabled => .bool false
    | .onvifUsername => .text "root".toList
    | .onvifPassword => .text []
    | .systemUnsafe => .bool false
    | .watchdogEnabled => .bool true
    | .watchdogTimeoutS => .int 15
    | .osdEnabled => .bool false
    | .osdTmpl => .text "%d.%m.%Y %H:%M:%S".toList
    | .osdFont => .text "/usr/share/fonts/truetype/UbuntuMono-Regular.ttf".toList
    | .osdSize => .text "1.0".toList
    | .osdOutline => .bool true
    | .osdOffsetX | .osdOffsetY => .text "0".toList
    | .osdPosX | .osdPosY => .int 16
    | .osdBgAlpha => .int 25
    | .osdImageDir => .text "/etc/machino/osd".toList
    | .videoOsd | .video1Osd => .bool true
    | .osdThin => .bool false
    | .osdAnchor => .anchor .proportional
    | .jpegEnabled => .bool false
    | .jpegQuality => .int 80
    | .webuiDashboardPreview => .text "auto".toList
    | .snapshotCacheMs => .int 300
    | .snapshotGraceMs => .int 2000
    | .aiEnabled => .bool false
    | .aiDetector => .text "motion".toList
    | .aiInferenceFps => .int 5
    | .aiModelPath => .text []
    | .audioEnabled => .bool false
    | .audioSrate => .int 8000
    | .audioVolume => .int 30
    | .audioGain => .int (-1)
    | .audioOutputEnabled => .bool false
    | .audioOutputVolume => .int 30
    | .audioGraceMs => .int 2000
    | .pipelineAlwaysOn => .bool false
    | .pipelineIdleGraceMs => .int 5000
    | .pipelinePollTimeoutMs => .int 500
    | .performanceProfile => .profile .performance
    | .performanceIsp | .performanceEncoder | .performanceCpu => .level .auto
    | .telemetryLogIntervalS => .int 0
    | .apiEnabled => .bool true
    | .apiBind => .text "0.0.0.0".toList
    | .apiPort => .int 8080
    | .apiUpstreamHost => .text "127.0.0.1".toList
    | .apiUpstreamPort => .int 0
    | .apiAuth => .bool true
    | .revision => .int 1
    | .logLevel => .int 2
    | .logSyslog => .bool false

end AppConfig

/-- `to_int`: the text up to a zero byte, in any of the bases of C. -/
def toInt (v : Text) : Option Int :=
  match Text.strtol 0 (Text.cString v) with
  | some (n, []) => some n
  | _ => none

theorem isDigit_or_minus_of_mem_ofInt {n : Int} {c : Char} (h : c ∈ Text.ofInt n) :
    (c.isDigit || c = '-') = true := by
  unfold Text.ofInt at h
  split at h
  · rcases List.mem_cons.mp h with rfl | h
    · decide
    · simp [Text.isDigit_of_mem_ofNat h]
  · simp [Text.isDigit_of_mem_ofNat h]

theorem toInt_ofInt {n : Int} (hlo : -2 ^ 31 ≤ n) (hhi : n < 2 ^ 31) :
    toInt (Text.ofInt n) = some n := by
  have hwhole : Text.cString (Text.ofInt n) = Text.ofInt n := by
    unfold Text.cString
    rw [List.takeWhile_eq_self_iff]
    intro c hc
    have hdigit := isDigit_or_minus_of_mem_ofInt hc
    simp only [decide_eq_true_eq]
    intro hzero
    have hc0 : c = .ofNat 0 := by rw [← hzero, Char.ofNat_toNat]
    rw [hc0] at hdigit
    exact absurd hdigit (by decide)
  unfold toInt
  rw [hwhole, Text.strtol_ofInt (.inl rfl) hlo hhi]

def toBool (v : Text) : Option Bool :=
  if v ∈ ["1", "true", "yes", "on"].map String.toList then some true
  else if v ∈ ["0", "false", "no", "off"].map String.toList then some false
  else none

def intIn (lo hi : Int) (v : Text) : Option Int := (toInt v).filter fun n => lo ≤ n ∧ n ≤ hi

def toGpio (v : Text) : Option Int :=
  if v = "none".toList ∨ v = "-1".toList then some (-1) else intIn 0 255 v

/-- How a line's value is read. -/
inductive Kind where
  | int (lo hi : Int)
  | gpio | bool | str | rcMode | latencyProfile | antiFlicker | weight | anchor | preview | srate
  | profile | level | revision
  deriving DecidableEq, Repr

/-- A value that is refused leaves the member as it was. -/
def Kind.read (kind : Kind) (v : Text) : Option Value :=
  match kind with
  | .int lo hi => (intIn lo hi v).map .int
  | .gpio => (toGpio v).map .int
  | .bool => (toBool v).map .bool
  | .str => some (.text v)
  | .rcMode => (parseRcMode v).map .rc
  | .latencyProfile => (parseLatencyProfile v).map .latency
  | .antiFlicker => (antiFlickerParse v).map .int
  | .weight => (named [("normal", false), ("thin", true)] v).map .bool
  | .anchor => (osdAnchorParse v).map .anchor
  | .preview => (previewParse v).map .text
  | .srate => ((toInt v).filter fun n => n = 8000 ∨ n = 16000).map .int
  | .profile => (parseProfile v).map .profile
  | .level => (parsePerfLevel v).map .level
  | .revision => ((toInt v).filter fun n => 0 < n).map .int

/-- A key, the member its lines set and how. -/
structure Row where
  key : String
  field : Field
  kind : Kind
  deriving DecidableEq, Repr

def rows : List Row := [
    ⟨"board", .hardwareBoardId, .str⟩, ⟨"board_profile_file", .boardProfileFile, .str⟩,
    ⟨"platform", .hardwarePlatform, .str⟩, ⟨"sensor.model", .hardwareSensor, .str⟩,
    ⟨"sensor.i2c_bus", .wiringI2cBus, .int 0 15⟩,
    ⟨"sensor.i2c_addr", .wiringI2cAddr, .int 0 0x7f⟩, ⟨"sensor.mclk", .wiringMclk, .int 0 7⟩,
    ⟨"sensor.reset_gpio", .wiringResetGpio, .gpio⟩, ⟨"sensor.pwdn_gpio", .wiringPwdnGpio, .gpio⟩,
    ⟨"sensor.allow_unverified_mode", .allowUnverifiedMode, .bool⟩,
    ⟨"sensor.fps", .performanceSensorFps, .int 1 120⟩,
    ⟨"video.width", .videoWidth, .int 64 8192⟩, ⟨"video.height", .videoHeight, .int 64 8192⟩,
    ⟨"video.fps", .videoFps, .int 1 120⟩, ⟨"video0.fps", .videoFps, .int 1 120⟩,
    ⟨"video.gop", .videoGop, .int 1 1000⟩, ⟨"video.bitrate", .videoBitrateKbps, .int 32 100000⟩,
    ⟨"video0.bitrate", .videoBitrateKbps, .int 32 100000⟩,
    ⟨"video.profile", .videoProfile, .int 0 2⟩, ⟨"video.qp", .videoQp, .int 1 51⟩,
    ⟨"video.buffers", .videoBuffers, .int 1 8⟩,
    ⟨"video.encoder_buffers", .videoEncoderBuffers, .int 1 8⟩,
    ⟨"video.rc_mode", .videoRc, .rcMode⟩, ⟨"latency.profile", .latencyProfile, .latencyProfile⟩,
    ⟨"latency.gop", .latencyGop, .int 1 1000⟩,
    ⟨"latency.framesource_buffers", .latencyFramesourceBuffers, .int 1 8⟩,
    ⟨"latency.encoder_buffers", .latencyEncoderBuffers, .int 1 8⟩,
    ⟨"latency.queue_depth", .latencyConsumerQueueDepth, .int 1 32⟩,
    ⟨"image.brightness", .imageBrightness, .int 0 255⟩,
    ⟨"image.contrast", .imageContrast, .int 0 255⟩,
    ⟨"image.saturation", .imageSaturation, .int 0 255⟩,
    ⟨"image.sharpness", .imageSharpness, .int 0 255⟩, ⟨"image.hue", .imageHue, .int 0 255⟩,
    ⟨"image.hflip", .imageHflip, .int 0 1⟩, ⟨"image.vflip", .imageVflip, .int 0 1⟩,
    ⟨"image.anti_flicker", .imageAntiFlicker, .antiFlicker⟩,
    ⟨"image.ae_compensation", .imageAeCompensation, .int 0 255⟩,
    ⟨"image.highlight_depress", .imageHighlightDepress, .int 0 10⟩,
    ⟨"image.backlight_comp", .imageBacklightComp, .int 0 10⟩,
    ⟨"image.white_balance_mode", .imageWhiteBalanceMode, .int 0 9⟩,
    ⟨"image.running_mode", .imageRunningMode, .int 0 1⟩,
    ⟨"image.temporal_nr", .imageTemporalNr, .int 0 1⟩,
    ⟨"image.spatial_nr", .imageSpatialNr, .int 0 1⟩, ⟨"image.dpc", .imageDpc, .int 0 1⟩,
    ⟨"image.defog", .imageDefog, .int 0 1⟩, ⟨"rtsp.enabled", .rtspEnabled, .bool⟩,
    ⟨"rtsp.auth", .rtspAuthEnabled, .bool⟩, ⟨"rtsp.port", .rtspPort, .int 1 65535⟩,
    ⟨"rtsp.path", .rtspPath, .str⟩,
    ⟨"rtsp.send_buffer_bytes", .rtspSendBufferBytes, .int 4096 1048576⟩,
    ⟨"rtsp.send_stall_ms", .rtspSendStallMs, .int 50 10000⟩,
    ⟨"rtsp.max_clients", .rtspMaxClients, .int 1 16⟩, ⟨"rtsp.sub_path", .rtspSubPath, .str⟩,
    ⟨"rtsp.mjpeg_fps", .rtspMjpegFps, .int 1 30⟩, ⟨"video.1.enabled", .video1Enabled, .bool⟩,
    ⟨"video.1.width", .video1Width, .int 128 4096⟩,
    ⟨"video.1.height", .video1Height, .int 96 4096⟩, ⟨"video.1.fps", .video1Fps, .int 1 240⟩,
    ⟨"video.1.gop", .video1Gop, .int 1 1000⟩,
    ⟨"video.1.bitrate", .video1BitrateKbps, .int 1 200000⟩,
    ⟨"video.1.profile", .video1Profile, .int 0 2⟩, ⟨"video.1.buffers", .video1Buffers, .int 1 8⟩,
    ⟨"video.1.encoder_buffers", .video1EncoderBuffers, .int 0 8⟩,
    ⟨"onvif.enabled", .onvifEnabled, .bool⟩, ⟨"onvif.username", .onvifUsername, .str⟩,
    ⟨"onvif.password", .onvifPassword, .str⟩, ⟨"system.unsafe", .systemUnsafe, .bool⟩,
    ⟨"watchdog.enabled", .watchdogEnabled, .bool⟩,
    ⟨"watchdog.timeout", .watchdogTimeoutS, .int 1 300⟩, ⟨"osd.enabled", .osdEnabled, .bool⟩,
    ⟨"osd.template", .osdTmpl, .str⟩, ⟨"osd.font", .osdFont, .str⟩, ⟨"osd.size", .osdSize, .str⟩,
    ⟨"osd.outline", .osdOutline, .bool⟩, ⟨"osd.offset_x", .osdOffsetX, .str⟩,
    ⟨"osd.offset_y", .osdOffsetY, .str⟩, ⟨"osd.pos_x", .osdPosX, .int (-16) 16⟩,
    ⟨"osd.pos_y", .osdPosY, .int (-16) 16⟩, ⟨"osd.bg_alpha", .osdBgAlpha, .int 0 100⟩,
    ⟨"osd.image_dir", .osdImageDir, .str⟩, ⟨"video.0.osd", .videoOsd, .bool⟩,
    ⟨"video.1.osd", .video1Osd, .bool⟩, ⟨"osd.weight", .osdThin, .weight⟩,
    ⟨"osd.anchor", .osdAnchor, .anchor⟩, ⟨"jpeg.enabled", .jpegEnabled, .bool⟩,
    ⟨"jpeg.quality", .jpegQuality, .int 1 99⟩,
    ⟨"webui.dashboard_preview", .webuiDashboardPreview, .preview⟩,
    ⟨"snapshot.cache_ms", .snapshotCacheMs, .int 0 5000⟩,
    ⟨"snapshot.grace_ms", .snapshotGraceMs, .int 0 30000⟩, ⟨"ai.enabled", .aiEnabled, .bool⟩,
    ⟨"ai.detector", .aiDetector, .str⟩, ⟨"ai.inference_fps", .aiInferenceFps, .int 1 60⟩,
    ⟨"ai.model_path", .aiModelPath, .str⟩, ⟨"audio.enabled", .audioEnabled, .bool⟩,
    ⟨"audio.srate", .audioSrate, .srate⟩, ⟨"audio.volume", .audioVolume, .int 0 100⟩,
    ⟨"audio.gain", .audioGain, .int (-1) 31⟩,
    ⟨"audio.output_enabled", .audioOutputEnabled, .bool⟩,
    ⟨"audio.output_volume", .audioOutputVolume, .int 0 100⟩,
    ⟨"audio.grace_ms", .audioGraceMs, .int 0 60000⟩,
    ⟨"pipeline.always_on", .pipelineAlwaysOn, .bool⟩,
    ⟨"lifecycle.idle_grace_ms", .pipelineIdleGraceMs, .int 0 600000⟩,
    ⟨"pipeline.grace_ms", .pipelineIdleGraceMs, .int 0 600000⟩,
    ⟨"pipeline.poll_timeout_ms", .pipelinePollTimeoutMs, .int 10 5000⟩,
    ⟨"performance.profile", .performanceProfile, .profile⟩,
    ⟨"power.isp_performance", .performanceIsp, .level⟩,
    ⟨"power.encoder_performance", .performanceEncoder, .level⟩,
    ⟨"power.cpu_performance", .performanceCpu, .level⟩,
    ⟨"telemetry.log_interval_s", .telemetryLogIntervalS, .int 0 3600⟩,
    ⟨"api.enabled", .apiEnabled, .bool⟩, ⟨"api.bind", .apiBind, .str⟩,
    ⟨"api.port", .apiPort, .int 1 65535⟩, ⟨"api.upstream_host", .apiUpstreamHost, .str⟩,
    ⟨"api.upstream_port", .apiUpstreamPort, .int 0 65535⟩, ⟨"api.auth", .apiAuth, .bool⟩,
    ⟨"config.revision", .revision, .revision⟩, ⟨"log.level", .logLevel, .int 0 3⟩,
    ⟨"log.syslog", .logSyslog, .bool⟩]

def rowOf (k : Text) : Option Row := rows.find? fun r => r.key.toList = k

/-- The tables are compared as they are written, which takes no characters apart. -/
theorem rowOf_toList (key : String) : rowOf key.toList = rows.find? fun r => r.key = key := by
  simp only [rowOf, String.toList_inj]

/-- What a line sets, if anything. -/
def said (p : Text × Text) : Option (Field × Value) :=
  (rowOf p.1).bind fun r => (r.kind.read p.2).map fun v => (r.field, v)

/-- `apply`, for the members there are here. -/
def applyLine (c : AppConfig) (p : Text × Text) : AppConfig :=
  match said p with
  | some (f, v) => c.set f v
  | none => c

/-- A path begins with a slash. -/
def fixPath (c : AppConfig) : AppConfig :=
  match c.value .rtspPath with
  | .text (ch :: path) => if ch = '/' then c else c.set .rtspPath (.text ('/' :: ch :: path))
  | _ => c

def parseConfigText (text : Text) (c : AppConfig) : AppConfig :=
  fixPath ((configLines text).foldl applyLine c)

/-- What a line tells of this member. -/
def tells (f : Field) (p : Text × Text) : Option Value :=
  (said p).bind fun q => if q.1 = f then some q.2 else none

/-- What the last line that tells anything of the member tells. -/
def lastSaid (f : Field) (ps : List (Text × Text)) : Option Value :=
  ps.foldl (fun o p => (tells f p).or o) none

theorem lastSaid_concat (f : Field) (ps : List (Text × Text)) (p : Text × Text) :
    lastSaid f (ps ++ [p]) = (tells f p).or (lastSaid f ps) := by
  unfold lastSaid
  rw [List.foldl_append]
  rfl

theorem lastSaid_append (f : Field) (ps qs : List (Text × Text)) :
    lastSaid f (ps ++ qs) = (lastSaid f qs).or (lastSaid f ps) := by
  induction qs using List.reverseRecOn with
  | nil => rw [List.append_nil]; rfl
  | append_singleton qs q ih =>
    rw [← List.append_assoc, lastSaid_concat, lastSaid_concat, ih, Option.or_assoc]

theorem value_applyLine (f : Field) (c : AppConfig) (p : Text × Text) :
    (applyLine c p).value f = (tells f p).getD (c.value f) := by
  unfold applyLine tells
  cases hp : said p with
  | none => rfl
  | some q =>
    obtain ⟨g, v⟩ := q
    by_cases hg : g = f
    · simp [hg]
    · simp [hg, AppConfig.set_of_ne _ (Ne.symm hg)]

theorem value_foldl (f : Field) (ps : List (Text × Text)) (c : AppConfig) :
    (ps.foldl applyLine c).value f = (lastSaid f ps).getD (c.value f) := by
  induction ps using List.reverseRecOn with
  | nil => rfl
  | append_singleton ps p ih =>
    rw [List.foldl_append, lastSaid_concat, List.foldl_cons, List.foldl_nil, value_applyLine, ih]
    cases tells f p <;> rfl

/-- Every member but the path holds what is said last, else what it held. -/
theorem value_parseConfigText {f : Field} (hf : f ≠ .rtspPath) (text : Text) (c : AppConfig) :
    (parseConfigText text c).value f = (lastSaid f (configLines text)).getD (c.value f) := by
  have hfix (d : AppConfig) : (fixPath d).value f = d.value f := by
    unfold fixPath
    split
    · split
      · rfl
      · exact AppConfig.set_of_ne _ hf _
    · rfl
  unfold parseConfigText
  rw [hfix, value_foldl]

end Machino
