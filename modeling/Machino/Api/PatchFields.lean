import Machino.Core.AppConfig
import Machino.Core.Json

namespace Machino.Api

inductive Cap where
  | unknown | supported | unsupported
  deriving DecidableEq, Repr

inductive ApplyMode where
  | live | pipelineRestart | daemonRestart | bootOnly | unsupported
  deriving DecidableEq, Repr

/-- A control with its bounds; a negative bound is not known. -/
structure RangeCap where
  support : Cap := .unknown
  min : Int := -1
  max : Int := -1

def RangeCap.inRange (c : RangeCap) (v : Int) : Bool :=
  (c.min < 0 || c.min ≤ v) && (c.max < 0 || v ≤ c.max)

inductive ImageControl where
  | brightness | contrast | saturation | sharpness | hue | hFlip | vFlip | antiFlicker
  | aeCompensation | highlightDepress | backlightComp | whiteBalanceMode | runningMode | temporalNr
  | spatialNr | dpc | defog | wdr | drc
  deriving DecidableEq, Repr

namespace ImageControl

def all : List ImageControl :=
  [brightness, contrast, saturation, sharpness, hue, hFlip, vFlip, antiFlicker, aeCompensation,
    highlightDepress, backlightComp, whiteBalanceMode, runningMode, temporalNr, spatialNr, dpc,
    defog, wdr, drc]

/-- `image_control_name`. -/
def name : ImageControl → String
  | brightness => "brightness"
  | contrast => "contrast"
  | saturation => "saturation"
  | sharpness => "sharpness"
  | hue => "hue"
  | hFlip => "hflip"
  | vFlip => "vflip"
  | antiFlicker => "anti_flicker"
  | aeCompensation => "ae_compensation"
  | highlightDepress => "highlight_depress"
  | backlightComp => "backlight_comp"
  | whiteBalanceMode => "white_balance_mode"
  | runningMode => "running_mode"
  | temporalNr => "temporal_nr"
  | spatialNr => "spatial_nr"
  | dpc => "dpc"
  | defog => "defog"
  | wdr => "wdr"
  | drc => "drc"

/-- `image_control_from_name`. -/
def fromName (n : Text) : Option ImageControl := all.find? fun c => c.name.toList = n

def key (c : ImageControl) : String := "image." ++ c.name

end ImageControl

/-- What a request meets besides its own fields: the capabilities and the services there are. -/
structure Platform where
  sensorFps : Cap
  image : ImageControl → RangeCap
  jpeg : Cap
  ai : Cap
  detection : Bool
  night : Bool
  audio : Bool

/-- An answer that refuses. -/
structure Fault where
  status : ℕ
  code : String
  path : Text
  message : String
  deriving DecidableEq

/-- `get_int`. -/
def getInt : Json → Option Int
  | .number n => if Json.isInteger n then some n.num else none
  | _ => none

/-- How the value of a field is checked, with what is said when it is refused. -/
inductive Check where
  | int (lo hi : Int) (message : String)
  | rate (message : String)
  | bool (message : String)
  | word (names : List String) (noString unknown : String)
  | modelPath
  | pin (noString : String)
  deriving DecidableEq

def modelPathChar (ch : Char) : Bool :=
  ('a' ≤ ch && ch ≤ 'z') || ('A' ≤ ch && ch ≤ 'Z') || ('0' ≤ ch && ch ≤ '9') || ch = '/' ||
    ch = '.' || ch = '-' || ch = '_'

/-- A path on a card: below the models of some medium. -/
def onCard (mp : Text) : Bool :=
  let medium := (mp.drop 5).takeWhile (· ≠ '/')
  "/mnt/".toList.isPrefixOf mp && medium ≠ [] &&
    "/models/".toList.isPrefixOf (mp.drop (5 + medium.length))

def modelPathRooted (mp : Text) : Bool :=
  "/etc/machino/models/".toList.isPrefixOf mp || "/tmp/models/".toList.isPrefixOf mp || onCard mp

def takeModelPath (mp : Text) : Except String Text := do
  if mp = [] then return mp
  ensure (modelPathRooted mp && mp.length ≤ 255 && !Text.contains mp "/../" &&
      !"/..".toList.isSuffixOf mp)
    "model_path must be under /etc/machino/models, /mnt/<medium>/models or /tmp/models, without '..'"
  ensure (mp.all modelPathChar) "model_path may contain only letters, digits, and / . - _"
  return mp

def pinChar (ch : Char) : Bool := ch.isAlphanum || ch = '_'

def takePin (pv : Text) : Except String Text := do
  ensure (pv.length ≤ 15) "pin name too long"
  ensure (pv.all pinChar) "pin name may hold letters, digits and _ only"
  return pv

/-- What is stored for the value, unless it is refused. -/
def Check.take (check : Check) (val : Json) : Except String Text :=
  match check with
  | .int lo hi message =>
    match (getInt val).filter fun n => lo ≤ n ∧ n ≤ hi with
    | some n => .ok (Text.ofInt n)
    | none => .error message
  | .rate message =>
    match (getInt val).filter fun n => n = 8000 ∨ n = 16000 with
    | some n => .ok (Text.ofInt n)
    | none => .error message
  | .bool message =>
    match val with
    | .bool b => .ok (if b then "true".toList else "false".toList)
    | _ => .error message
  | .word names noString unknown =>
    match val with
    | .string s => if s ∈ names.map String.toList then .ok s else .error unknown
    | _ => .error noString
  | .modelPath =>
    match val with
    | .string s => takeModelPath s
    | _ => .error "model_path must be a string"
  | .pin noString =>
    match val with
    | .string s => takePin s
    | _ => .error noString

/-- A field, the key it is stored under and its check. -/
structure FieldSpec where
  name : String
  key : String
  check : Check
  deriving DecidableEq

def performanceFields : List FieldSpec := [
    ⟨"profile", "performance.profile", .word ["performance", "balanced", "battery", "custom"]
      "profile must be a string" "unknown profile (performance|balanced|battery|custom)"⟩]

def sensorFields : List FieldSpec := [
    ⟨"fps", "sensor.fps", .int 1 240 "fps must be an integer in 1..240"⟩]

def video0Fields : List FieldSpec := [
    ⟨"fps", "video.fps", .int 1 240 "fps must be an integer in 1..240"⟩,
    ⟨"bitrate_kbps", "video.bitrate", .int 1 200000 "bitrate_kbps must be an integer in 1..200000"⟩,
    ⟨"gop", "latency.gop", .int 1 1000 "gop must be an integer in 1..1000"⟩]

def video1Fields : List FieldSpec := [
    ⟨"enabled", "video.1.enabled", .bool "enabled must be a boolean"⟩,
    ⟨"fps", "video.1.fps", .int 1 240 "fps must be an integer in 1..240"⟩,
    ⟨"width", "video.1.width", .int 16 8192 "width must be an integer in 16..8192"⟩,
    ⟨"height", "video.1.height", .int 16 8192 "height must be an integer in 16..8192"⟩,
    ⟨"bitrate_kbps", "video.1.bitrate",
      .int 1 200000 "bitrate_kbps must be an integer in 1..200000"⟩,
    ⟨"gop", "video.1.gop", .int 1 1000 "gop must be an integer in 1..1000"⟩]

def latencyFields : List FieldSpec := [
    ⟨"profile", "latency.profile", .word ["normal", "low", "custom"]
      "profile must be normal|low|custom" "unknown latency profile (normal|low|custom)"⟩,
    ⟨"gop", "latency.gop", .int 1 1000 "gop must be in 1..1000"⟩,
    ⟨"framesource_buffers", "latency.framesource_buffers",
      .int 1 8 "framesource_buffers must be in 1..8"⟩,
    ⟨"encoder_buffers", "latency.encoder_buffers", .int 1 8 "encoder_buffers must be in 1..8"⟩,
    ⟨"consumer_queue_depth", "latency.queue_depth",
      .int 1 32 "consumer_queue_depth must be in 1..32"⟩,
    ⟨"socket_send_buffer_bytes", "rtsp.send_buffer_bytes",
      .int 4096 1048576 "socket_send_buffer_bytes must be in 4096..1048576"⟩,
    ⟨"send_stall_ms", "rtsp.send_stall_ms", .int 50 10000 "send_stall_ms must be in 50..10000"⟩]

def rtspFields : List FieldSpec := [
    ⟨"enabled", "rtsp.enabled", .bool "enabled must be a boolean"⟩,
    ⟨"port", "rtsp.port", .int 1 65535 "port must be an integer in 1..65535"⟩,
    ⟨"max_clients", "rtsp.max_clients", .int 1 16 "max_clients must be an integer in 1..16"⟩]

def lifecycleFields : List FieldSpec := [
    ⟨"idle_grace_ms", "lifecycle.idle_grace_ms",
      .int 0 600000 "idle_grace_ms must be an integer in 0..600000"⟩]

def levelCheck : Check :=
  .word ["auto", "low", "high"] "level must be a string (auto|low|high)"
    "unknown level (auto|low|high)"

def powerFields : List FieldSpec := [
    ⟨"isp_performance", "power.isp_performance", levelCheck⟩,
    ⟨"encoder_performance", "power.encoder_performance", levelCheck⟩,
    ⟨"cpu_performance", "power.cpu_performance", levelCheck⟩]

def aiFields : List FieldSpec := [
    ⟨"enabled", "ai.enabled", .bool "enabled must be a boolean"⟩,
    ⟨"detector", "ai.detector",
      .word ["motion", "person"] "detector must be a string" "unknown detector (motion|person)"⟩,
    ⟨"inference_fps", "ai.inference_fps", .int 1 60 "inference_fps must be an integer in 1..60"⟩,
    ⟨"model_path", "ai.model_path", .modelPath⟩]

def nightFields : List FieldSpec := [
    ⟨"ircut", "night.ircut", .bool "ircut must be a boolean"⟩,
    ⟨"ircut_single_invert", "night.ircut_single_invert",
      .bool "ircut_single_invert must be a boolean"⟩,
    ⟨"backlight", "night.backlight", .bool "backlight must be a boolean"⟩,
    ⟨"light_sensor_invert", "night.light_sensor_invert",
      .bool "light_sensor_invert must be a boolean"⟩,
    ⟨"light_monitor", "night.light_monitor", .bool "light_monitor must be a boolean"⟩,
    ⟨"color_to_gray", "night.color_to_gray", .bool "color_to_gray must be a boolean"⟩,
    ⟨"auto_night_delay", "night.auto_night_delay",
      .int 0 3600 "auto_night_delay must be seconds in 0..3600"⟩,
    ⟨"auto_day_delay", "night.auto_day_delay",
      .int 0 3600 "auto_day_delay must be seconds in 0..3600"⟩,
    ⟨"ircut_pin1", "night.ircut_pin1",
      .pin "ircut_pin1 must be a string pin name (e.g. PB18) or empty"⟩,
    ⟨"ircut_pin2", "night.ircut_pin2",
      .pin "ircut_pin2 must be a string pin name (e.g. PB18) or empty"⟩,
    ⟨"backlight_pin", "night.backlight_pin",
      .pin "backlight_pin must be a string pin name (e.g. PB18) or empty"⟩,
    ⟨"light_sensor_pin", "night.light_sensor_pin",
      .pin "light_sensor_pin must be a string pin name (e.g. PB18) or empty"⟩]

def audioFields : List FieldSpec := [
    ⟨"enabled", "audio.enabled", .bool "enabled must be a boolean"⟩,
    ⟨"output_enabled", "audio.output_enabled", .bool "output_enabled must be a boolean"⟩,
    ⟨"srate", "audio.srate", .rate "srate must be 8000 or 16000 (the rates the codec runs)"⟩,
    ⟨"volume", "audio.volume", .int 0 100 "volume must be an integer in 0..100"⟩,
    ⟨"output_volume", "audio.output_volume",
      .int 0 100 "output_volume must be an integer in 0..100"⟩,
    ⟨"gain", "audio.gain",
      .int (-1) 31 "gain must be an integer in 0..31, or -1 for the driver default"⟩]

def jpegFields : List FieldSpec := [⟨"enabled", "jpeg.enabled", .bool "enabled must be a boolean"⟩]

def webuiFields : List FieldSpec := [
    ⟨"dashboard_preview", "webui.dashboard_preview", .word ["auto", "live", "off"]
      "dashboard_preview must be a string" "dashboard_preview must be auto, live or off"⟩]

/-- One value that is to be stored. -/
structure Change where
  path : Text
  requested : Json
  key : Text
  value : Text

/-- The reader of a section: the path, the name of the field and its value. -/
abbrev Section := Platform → Text → Text → Json → Except Fault (List Change)

def fieldIn (specs : List FieldSpec) (path name : Text) (val : Json) : Except Fault Change :=
  match specs.find? fun sp => sp.name.toList = name with
  | none => .error ⟨400, "unknown_field", path, "unknown field"⟩
  | some sp =>
    match sp.check.take val with
    | .ok value => .ok ⟨path, val, sp.key.toList, value⟩
    | .error message => .error ⟨422, "invalid_value", path, message⟩

def fields (specs : List FieldSpec) : Section :=
  fun _ path name val => (fieldIn specs path name val).map fun c => [c]

/-- A section that is refused as a whole where it is not there. -/
def ifThere (there : Platform → Bool) (message : String) (sec : Section) : Section :=
  fun p path name val =>
    if there p then sec p path name val
    else .error ⟨422, "unsupported_control", path, message⟩

/-- The capability is looked at behind the value. -/
def ifCapable (capable : Platform → Bool) (message : String) (sec : Section) : Section :=
  fun p path name val => do
    let cs ← sec p path name val
    if capable p then .ok cs else .error ⟨422, "unsupported_control", path, message⟩

/-- A stream with fields of its own. -/
def stream (specs : List FieldSpec) (message : String) (path : Text) (val : Json) :
    Except Fault (List Change) :=
  if val.isObject then val.members.mapM fun f => fieldIn specs (path ++ '.' :: f.1) f.1 f.2
  else .error ⟨400, "unknown_field", path, message⟩

def videoSection : Section := fun _ path name val =>
  if name = "0".toList then stream video0Fields "video.0 must be an object" path val
  else if name = "1".toList then stream video1Fields "video.1 must be an object" path val
  else .error ⟨400, "unknown_field", path, "unknown field"⟩

/-- Whatever is no profile has to be an integer, also where the field is not known. -/
def latencySection : Section := fun p path name val =>
  if name ≠ "profile".toList ∧ getInt val = none then
    .error ⟨422, "invalid_value", path, "value must be an integer"⟩
  else fields latencyFields p path name val

def wbNames : List String :=
  ["auto", "manual", "daylight", "cloudy", "incandescent", "fluorescent", "twilight", "shade",
    "warm_fluorescent", "color_tendency"]

/-- `wb_mode`. -/
def wbMode (s : Text) : Option Int :=
  ((wbNames.map String.toList).idxOf? s).map Int.ofNat

/-- The value of an image control; an integer goes through an `int`. -/
def takeImage (control : ImageControl) (cap : RangeCap) (val : Json) : Except String Text :=
  match control, val with
  | .antiFlicker, .string s =>
    if (antiFlickerParse s).isSome then .ok s else .error "anti_flicker must be off|50hz|60hz"
  | .antiFlicker, _ => .error "anti_flicker must be off|50hz|60hz"
  | .whiteBalanceMode, .string s =>
    match wbMode s with
    | some iv => .ok (Text.ofInt iv)
    | none => .error "unknown white-balance mode"
  | _, val =>
    match getInt val with
    | none => .error "image control must be an integer"
    | some n =>
      let iv := n.bmod (2 ^ 32)
      if cap.inRange iv then .ok (Text.ofInt iv)
      else .error "image control outside capability range"

def imageSection : Section := fun p path name val =>
  match ImageControl.fromName name with
  | none => .error ⟨400, "unknown_field", path, "unknown image control"⟩
  | some control =>
    if (p.image control).support ≠ .supported then
      .error ⟨422, "unsupported_control", path,
        "image control is not supported by this adapter/mode"⟩
    else
      match takeImage control (p.image control) val with
      | .ok value => .ok [⟨path, val, "image.".toList ++ name, value⟩]
      | .error message => .error ⟨422, "invalid_value", path, message⟩

def jpegSection : Section := fun p path name val =>
  if name = "enabled".toList then
    ifCapable (·.jpeg = .supported) "this platform has no JPEG path" (fields jpegFields) p path
      name val
  else
    .error ⟨400, "unknown_field", path,
      "jpeg.quality is set in machino.conf (needs a daemon restart)"⟩

def sections : List (String × Section) := [
    ("performance", fields performanceFields),
    ("sensor", ifCapable (·.sensorFps ≠ .unsupported)
      "sensor fps control is not available on this platform" (fields sensorFields)),
    ("video", videoSection), ("latency", latencySection), ("image", imageSection),
    ("rtsp", fields rtspFields), ("lifecycle", fields lifecycleFields),
    ("power", fields powerFields),
    ("ai", ifThere (fun p => p.detection && p.ai = .supported)
      "detection/AI is not available on this platform" (fields aiFields)),
    ("night", ifThere (·.night) "day/night is not wired on this platform" (fields nightFields)),
    ("audio", ifThere (·.audio) "audio is not wired in this build" (fields audioFields)),
    ("jpeg", jpegSection), ("webui", fields webuiFields)]

/-- One field of a section. -/
def patchField (p : Platform) (s name : Text) (val : Json) : Except Fault (List Change) :=
  let path := s ++ '.' :: name
  match sections.find? fun sec => sec.1.toList = s with
  | some (_, sec) => sec p path name val
  | none => .error ⟨400, "unknown_field", path, "unknown field"⟩

def patchSection (p : Platform) (sec : Text × Json) : Except Fault (List Change) :=
  if sec.1 = "revision".toList then .ok []
  else if sec.2.isObject then
    (sec.2.members.mapM fun kv => patchField p sec.1 kv.1 kv.2).map List.flatten
  else .error ⟨400, "unknown_field", sec.1, "section must be an object"⟩

/-- What the body asks for, before anything is applied. -/
def changesOf (p : Platform) (doc : Json) : Except Fault (List Change) :=
  (doc.members.mapM (patchSection p)).map List.flatten

end Machino.Api
