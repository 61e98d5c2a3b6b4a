import Machino.Core.AppConfig

namespace Machino.Compat

open Lines

def isLow (c : Char) : Bool := c.toNat ≤ 32

def trim (s : Text) : Text := Text.strip isLow isLow s

def lower (s : Text) : Text := s.map Char.toLower

def apostrophe : Char := .ofNat 39

/-- A text inside a pair of quotes of one kind. -/
def InQuotes (v : Text) : Prop :=
  2 ≤ v.length ∧ (v.head? = some quotationMark ∧ v.getLast? = some quotationMark ∨
    v.head? = some apostrophe ∧ v.getLast? = some apostrophe)

instance (v : Text) : Decidable (InQuotes v) := inferInstanceAs (Decidable (_ ∧ _))

/-- A comment ends a value unless that starts with a quote. -/
def stripValue (v : Text) : Text :=
  let v := trim v
  let v :=
    if v.head? = some quotationMark ∨ v.head? = some apostrophe then v
    else
      match Text.find " #".toList v with
      | some h => trim (v.take h)
      | none => v
  if InQuotes v then v.tail.dropLast else v

/-- The leaves with their dotted keys in the order of the document, and the keys of what is a list
or a flow map. -/
structure Flat where
  kv : List (Text × Text) := []
  structural : List Text := []
  deriving DecidableEq

/-- The maps a line is inside of, the innermost first, each with its indentation. -/
structure Yaml where
  stack : List (ℕ × Text) := []
  flat : Flat := {}

def addKey (path key : Text) : Text := (if path = [] then [] else path ++ ['.']) ++ key

def Yaml.path (y : Yaml) : Text := (y.stack.reverse.map Prod.snd).foldl addKey []

/-- The parent of a list is noted once. -/
def Yaml.listItem (y : Yaml) : Yaml :=
  let p := y.path
  if p ≠ [] ∧ y.flat.structural.getLast? ≠ some p then
    { y with flat := { y.flat with structural := y.flat.structural ++ [p] } }
  else y

/-- A key without a value opens a map. -/
def Yaml.pair (y : Yaml) (indent : ℕ) (key val : Text) : Yaml :=
  let y := { y with stack := y.stack.dropWhile fun e => decide (indent ≤ e.1) }
  match val with
  | [] => { y with stack := (indent, key) :: y.stack }
  | c :: _ =>
    let dotted := addKey y.path key
    if c = '[' ∨ c = '\x7b' then
      { y with flat := { y.flat with structural := y.flat.structural ++ [dotted] } }
    else { y with flat := { y.flat with kv := y.flat.kv ++ [(dotted, val)] } }

def Yaml.line (y : Yaml) (line : Text) : Yaml :=
  let line := if line.getLast? = some '\r' then line.dropLast else line
  let indent := (line.takeWhile (· = ' ')).length
  let body := trim line
  if body = [] ∨ body.head? = some '#' ∨ body = "---".toList ∨ body = "...".toList then y
  else if body.head? = some '-' then y.listItem
  else if ':' ∉ body then y
  else
    y.pair indent (trim (body.takeWhile (· ≠ ':'))) (stripValue (body.dropWhile (· ≠ ':')).tail)

def parseYamlFlat (text : Text) : Flat := ((split '\n' text).foldl Yaml.line {}).flat

example : (parseYamlFlat "video0:\n  fps: 25   # a second\n  size: \"64x64\"\n".toList).kv =
    [("video0.fps".toList, "25".toList), ("video0.size".toList, "64x64".toList)] := by
  decide +kernel

theorem trim_sublist (v : Text) : (trim v).Sublist v :=
  (List.rdropWhile_prefix _ _).sublist.trans (List.dropWhile_suffix _).sublist

theorem stripValue_sublist (v : Text) : (stripValue v).Sublist v := by
  have hcut : ∀ w : Text, w.Sublist (trim v) →
      (if InQuotes w then w.tail.dropLast else w).Sublist v := by
    intro w hw
    split
    · have hin := (List.dropLast_sublist _).trans (List.tail_sublist w)
      exact (hin.trans hw).trans (trim_sublist v)
    · exact hw.trans (trim_sublist v)
  unfold stripValue
  refine hcut _ ?_
  split
  · exact List.Sublist.refl _
  · split
    · exact (trim_sublist _).trans (List.take_sublist _ _)
    · exact List.Sublist.refl _

def Yaml.Free (y : Yaml) : Prop := ∀ p ∈ y.flat.kv, '\n' ∉ p.2

theorem Yaml.Free.pair {y : Yaml} (h : y.Free) (indent : ℕ) (key : Text) {val : Text}
    (hv : '\n' ∉ val) : (y.pair indent key val).Free := by
  unfold Yaml.pair
  dsimp only
  split
  · exact h
  · split
    · exact h
    · intro p hp
      rcases List.mem_append.mp hp with hp | hp
      · exact h p hp
      · rw [List.mem_singleton.mp hp]
        exact hv

theorem Yaml.Free.line {y : Yaml} (h : y.Free) {l : Text} (hl : '\n' ∉ l) : (y.line l).Free := by
  have hl' : '\n' ∉ (if l.getLast? = some '\r' then l.dropLast else l) := by
    split
    · exact fun hm => hl ((List.dropLast_sublist _).subset hm)
    · exact hl
  unfold Yaml.line
  generalize (if l.getLast? = some '\r' then l.dropLast else l) = l' at hl' ⊢
  dsimp only
  split
  · exact h
  · split
    · unfold Yaml.listItem
      dsimp only
      split
      · exact h
      · exact h
    · split
      · exact h
      · refine h.pair _ _ fun hm => hl' ?_
        have hm' := (List.tail_sublist _).subset ((stripValue_sublist _).subset hm)
        exact (trim_sublist _).subset ((List.dropWhile_suffix _).subset hm')

theorem parseYamlFlat_free (text : Text) : ∀ p ∈ (parseYamlFlat text).kv, '\n' ∉ p.2 :=
  List.foldlRecOn (motive := Yaml.Free) (split '\n' text) Yaml.line
    (fun _ hp => absurd hp List.not_mem_nil)
    fun _ h _ hl => h.line (not_mem_of_mem_split hl)

open Lines

inductive Disposition where
  | mapped | converted | ignored | unsupported | invalid
  deriving DecidableEq, Repr

structure MigrationEntry where
  sourceKey : Text
  sourceValue : Text
  targetKey : Text := []
  value : Text := []
  disp : Disposition := .ignored
  note : Text := []
  deriving DecidableEq

def isTruthy (v : Text) : Bool :=
  lower v ∈ ["true", "1", "yes", "on", "enable", "enabled"].map String.toList

/-- A `long long` to base 10, with nothing behind it. -/
def toInt (s : Text) : Option Int :=
  match Text.scanNumber 10 (Text.cString s) with
  | some (neg, n, []) => some (max (-2 ^ 63) (min (if neg then -n else n) (2 ^ 63 - 1)))
  | _ => none

def boolText (b : Bool) : Text := (if b then "true" else "false").toList

def flagText (b : Bool) : Text := (if b then "1" else "0").toList

/-- Controls of 0 to 100 there are controls of 0 to 255 here. -/
def scale100To255 (v : Int) : Int := (max 0 (min v 100) * 255 + 50) / 100

def splitCommas (s : Text) : List Text := s.splitOn ','

/-- Width and height, from WIDTHxHEIGHT. -/
def sizeOf (sv : Text) : Option (Int × Int) :=
  match Text.find ['x'] sv <|> Text.find ['X'] sv with
  | none => none
  | some x =>
    match toInt (sv.take x), toInt (sv.drop (x + 1)) with
    | some w, some h => if 0 < w ∧ 0 < h then some (w, h) else none
    | _, _ => none

section entries

variable (sk sv : Text)

def mapped (tk tv : Text) : MigrationEntry := ⟨sk, sv, tk, tv, .mapped, []⟩

def converted (tk tv note : Text) : MigrationEntry := ⟨sk, sv, tk, tv, .converted, note⟩

def ignored (note : String) : MigrationEntry := ⟨sk, sv, [], [], .ignored, note.toList⟩

def unsupported (note : String) : MigrationEntry := ⟨sk, sv, [], [], .unsupported, note.toList⟩

def invalid (note : Text) : MigrationEntry := ⟨sk, sv, [], [], .invalid, note⟩

/-- The value of the last leaf of the key. -/
def lastLeaf (kv : List (Text × Text)) (key : Text) : Option Text :=
  (kv.reverse.find? fun p => p.1 = key).map Prod.snd

def noFps : Text := "cannot convert GOP (seconds) without a numeric ".toList

/-- Seconds there are frames here. -/
def mapGop (kv : List (Text × Text)) (fpsKey : String) (target : Text) : MigrationEntry :=
  match toInt sv with
  | none => invalid sk sv "GOP must be a positive integer".toList
  | some g =>
    if g ≤ 0 then invalid sk sv "GOP must be a positive integer".toList
    else
      match (lastLeaf kv fpsKey.toList).bind toInt with
      | none => invalid sk sv (noFps ++ fpsKey.toList)
      | some fps =>
        if fps ≤ 0 then invalid sk sv (noFps ++ fpsKey.toList)
        else
          converted sk sv target
            (Text.ofInt (max 1 (min ((g * fps).bmod (2 ^ 64)) 1000)))
            ("majestic GOP is seconds; converted to frames using ".toList ++ fpsKey.toList)

def mapSize (wkey hkey : Text) : MigrationEntry :=
  match sizeOf sv with
  | none => invalid sk sv "resolution must look like WIDTHxHEIGHT".toList
  | some (w, h) =>
    converted sk sv (wkey ++ ',' :: hkey) (Text.ofInt w ++ ',' :: Text.ofInt h)
      ("split into ".toList ++ wkey ++ '/' :: hkey)

/-- The image controls that are numbers, and their keys here. -/
def imageScale : List (String × String) :=
  [("contrast", "image.contrast"), ("hue", "image.hue"), ("saturation", "image.saturation"),
    ("luminance", "image.brightness"), ("brightness", "image.brightness"),
    ("sharpness", "image.sharpness")]

def mapImage (leaf : Text) : MigrationEntry :=
  if leaf = "mirror".toList then
    converted sk sv "image.hflip".toList (flagText (isTruthy sv)) "boolean -> 0/1".toList
  else if leaf = "flip".toList then
    converted sk sv "image.vflip".toList (flagText (isTruthy sv)) "boolean -> 0/1".toList
  else
    match imageScale.find? fun p => p.1.toList = leaf with
    | none => unsupported sk sv "no machino image equivalent"
    | some p =>
      match toInt sv with
      | none => invalid sk sv "image control must be an integer".toList
      | some v =>
        converted sk sv p.2.toList (Text.ofInt (scale100To255 v)) "rescaled 0..100 -> 0..255".toList

def mapRateControl (key : Text) : MigrationEntry :=
  let l := lower sv
  if l = "cbr".toList ∨ l = "vbr".toList ∨ l = "fixqp".toList then mapped sk sv key l
  else if l = "avbr".toList then
    converted sk sv key "vbr".toList "avbr approximated as vbr".toList
  else unsupported sk sv "unknown rate-control mode"

def mapVideo (leaf : Text) (subStream : Bool) : MigrationEntry :=
  let vp := (if subStream then "video.1." else "video.").toList
  if leaf = "fps".toList then mapped sk sv (vp ++ "fps".toList) sv
  else if leaf = "bitrate".toList then mapped sk sv (vp ++ "bitrate".toList) sv
  else if leaf = "size".toList then mapSize sk sv (vp ++ "width".toList) (vp ++ "height".toList)
  else if leaf = "rcmode".toList ∨ leaf = "rc".toList then
    mapRateControl sk sv (if subStream then "video.1.rc_mode" else "video.rc_mode").toList
  else if leaf = "codec".toList ∨ leaf = "type".toList then
    if lower sv = "h264".toList ∨ lower sv = "avc".toList then
      ignored sk sv "machino streams H.264"
    else unsupported sk sv "machino builds H.264 only"
  else if leaf = "enabled".toList then
    if subStream then mapped sk sv "video.1.enabled".toList (boolText (isTruthy sv))
    else if isTruthy sv then ignored sk sv "main stream is demand-driven, always available"
    else unsupported sk sv "machino cannot disable the main stream"
  else unsupported sk sv "no machino equivalent"

def mapLogLevel : MigrationEntry :=
  let l := lower sv
  let lvl : Int :=
    if l = "error".toList ∨ l = "err".toList then 0
    else if l = "warn".toList ∨ l = "warning".toList then 1
    else if l = "info".toList then 2
    else if l = "debug".toList ∨ l = "trace".toList then 3
    else 2
  converted sk sv "log.level".toList (Text.ofInt lvl) "majestic log level -> machino 0..3".toList

def mapJpeg (leaf : Text) : MigrationEntry :=
  if leaf = "quality".toList ∨ leaf = "qualitylevel".toList then
    match toInt sv with
    | none => invalid sk sv "quality must be an integer".toList
    | some q =>
      if 99 < q then
        converted sk sv "jpeg.quality".toList "99".toList "clamped to machino max (99)".toList
      else mapped sk sv "jpeg.quality".toList (Text.ofInt (max 1 q))
  else ignored sk sv "no machino equivalent"

def mapMotion (leaf : Text) : MigrationEntry :=
  if leaf = "enabled".toList then
    if isTruthy sv then
      converted sk sv "ai.enabled,ai.detector".toList "true,motion".toList
        "mapped to machino detection (IMP_IVS motion)".toList
    else
      converted sk sv "ai.enabled".toList "false".toList
        "mapped to machino detection (IMP_IVS motion)".toList
  else
    unsupported sk sv "machino motion uses a fixed grid; per-region config not migrated"

def mapWatchdog (leaf : Text) : MigrationEntry :=
  if leaf = "enabled".toList then mapped sk sv "watchdog.enabled".toList sv
  else if leaf = "timeout".toList then mapped sk sv "watchdog.timeout".toList sv
  else unsupported sk sv "machino's watchdog takes only enabled and timeout"

def mapVolume (key : Text) : MigrationEntry :=
  match toInt sv with
  | none => invalid sk sv "volume must be an integer in 0..100".toList
  | some v =>
    if v < 0 ∨ 100 < v then invalid sk sv "volume must be an integer in 0..100".toList
    else mapped sk sv key sv

def mapSrate : MigrationEntry :=
  match toInt sv with
  | none => invalid sk sv "srate must be an integer".toList
  | some v =>
    if v = 8000 ∨ v = 16000 then mapped sk sv "audio.srate".toList sv
    else
      converted sk sv "audio.srate".toList (if 8000 < v then "16000" else "8000").toList
        "the T40 inner codec runs 8000 or 16000 Hz; nearest rate taken".toList

def mapAudio (leaf : Text) : MigrationEntry :=
  if leaf = "enabled".toList then mapped sk sv "audio.enabled".toList sv
  else if leaf = "outputenabled".toList then mapped sk sv "audio.output_enabled".toList sv
  else if leaf = "volume".toList then mapVolume sk sv "audio.volume".toList
  else if leaf = "outputvolume".toList then mapVolume sk sv "audio.output_volume".toList
  else if leaf = "srate".toList then mapSrate sk sv
  else if leaf = "codec".toList then
    unsupported sk sv
      "machino serves PCM and G.711 (/audio.pcm, .alaw, .ulaw); Opus/AAC are not built"
  else
    unsupported sk sv "machino's audio takes enabled, volume, srate, outputEnabled and outputVolume"

def mapDelay (key : Text) : MigrationEntry :=
  match toInt sv with
  | none => invalid sk sv "delay must be 0..3600 seconds".toList
  | some v =>
    if v < 0 ∨ 3600 < v then invalid sk sv "delay must be 0..3600 seconds".toList
    else mapped sk sv key (Text.ofInt v)

def mapNight (leaf : Text) : MigrationEntry :=
  if leaf = "lightmonitor".toList then
    mapped sk sv "night.light_monitor".toList (boolText (isTruthy sv))
  else if leaf = "colortogray".toList then
    mapped sk sv "night.color_to_gray".toList (boolText (isTruthy sv))
  else if leaf = "autonightdelay".toList then mapDelay sk sv "night.auto_night_delay".toList
  else if leaf = "autodaydelay".toList then mapDelay sk sv "night.auto_day_delay".toList
  else
    unsupported sk sv "day/night pins and thresholds are set on the Day / Night page, not migrated"

def sectionOf (key : Text) : Text := key.takeWhile (· ≠ '.')

def leafOf (key : Text) : Text := (key.dropWhile (· ≠ '.')).tail

end entries

/-- One leaf; the leaves are all those of the document. -/
def mapOne (kv : List (Text × Text)) (p : Text × Text) : MigrationEntry :=
  let sec := lower (sectionOf p.1)
  let leaf := lower (leafOf p.1)
  if sec = "system".toList then
    if leaf = "loglevel".toList then mapLogLevel p.1 p.2
    else ignored p.1 p.2 "machino WebUI is served by the selector httpd (fixed port 80)"
  else if sec = "isp".toList then
    ignored p.1 p.2 "sensor/ISP wiring comes from the machino board profile"
  else if sec = "image".toList then mapImage p.1 p.2 leaf
  else if sec = "video0".toList then
    if leaf = "gop".toList then mapGop p.1 p.2 kv "video0.fps" "latency.gop".toList
    else mapVideo p.1 p.2 leaf false
  else if sec = "video1".toList then
    if leaf = "gop".toList then mapGop p.1 p.2 kv "video1.fps" "video.1.gop".toList
    else mapVideo p.1 p.2 leaf true
  else if sec = "rtsp".toList then
    if leaf = "port".toList then mapped p.1 p.2 "rtsp.port".toList p.2
    else if leaf = "enabled".toList then ignored p.1 p.2 "RTSP is always available in machino"
    else ignored p.1 p.2 "no machino equivalent"
  else if sec = "jpeg".toList then mapJpeg p.1 p.2 leaf
  else if sec = "motiondetect".toList then mapMotion p.1 p.2 leaf
  else if sec = "watchdog".toList then mapWatchdog p.1 p.2 leaf
  else if sec = "audio".toList then mapAudio p.1 p.2 leaf
  else if sec = "records".toList ∨ sec = "record".toList then
    unsupported p.1 p.2 "no on-device recording"
  else if sec = "mqtt".toList then unsupported p.1 p.2 "no MQTT integration"
  else if sec = "outgoing".toList then
    unsupported p.1 p.2 "no outgoing/stream-push integration"
  else if sec = "onvif".toList then unsupported p.1 p.2 "no ONVIF service"
  else if sec = "nightmode".toList ∨ sec = "night".toList then mapNight p.1 p.2 leaf
  else unsupported p.1 p.2 "unknown majestic key"

namespace MigrationEntry

def carried (e : MigrationEntry) : Bool := e.disp = .mapped || e.disp = .converted

/-- The lines of the new file: the keys and the values of an entry, paired by position. -/
def config (e : MigrationEntry) : List (Text × Text) :=
  if e.carried ∧ e.targetKey ≠ [] then
    ((splitCommas e.targetKey).zip (splitCommas e.value)).map fun p => (trim p.1, trim p.2)
  else []

end MigrationEntry

/-- A list or a flow map. -/
def structuralEntry (key : Text) : MigrationEntry :=
  ⟨key, "<list/flow>".toList, [], [], .unsupported, "structured value not migrated".toList⟩

/-- What has been found of each setting; the numbers and the lines follow from it. -/
structure MigrationResult where
  entries : List MigrationEntry

namespace MigrationResult

def count (r : MigrationResult) (d : Disposition) : ℕ := r.entries.countP fun e => e.disp = d

def config (r : MigrationResult) : List (Text × Text) := r.entries.flatMap MigrationEntry.config

end MigrationResult

def run (flat : Flat) : MigrationResult :=
  ⟨flat.kv.map (mapOne flat.kv) ++ flat.structural.map structuralEntry⟩

def migrateMajesticYaml (text : Text) : Except String MigrationResult :=
  if trim text = [] then .error "empty document"
  else
    let flat := parseYamlFlat text
    if flat.kv = [] ∧ flat.structural = [] then .error "no recognisable majestic keys"
    else .ok (run flat)

def confTitle : Text := "# machino.conf migrated from majestic.yaml".toList

def confSummary (r : MigrationResult) : Text :=
  "# ".toList ++ Text.ofNat (r.count .mapped) ++ " mapped, ".toList ++
    Text.ofNat (r.count .converted) ++ " converted, ".toList ++
    Text.ofNat (r.count .unsupported) ++ " unsupported, ".toList ++
    Text.ofNat (r.count .invalid) ++ " invalid (see migration report)".toList

/-- The lines of the configuration under two of comment. -/
def toMachinoConf (r : MigrationResult) : Text :=
  join '\n' (confTitle :: confSummary r :: r.config.map fun p => assignment p.1 p.2)

end Machino.Compat
