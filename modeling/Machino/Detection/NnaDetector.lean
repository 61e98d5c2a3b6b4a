import Machino.Basic.Lines
import Machino.Core.JsonText
import Machino.Core.Result

namespace Machino.Nna

section scan

-- what the C library makes of a number beyond the range of the type
variable (wrap : ℤ → ℤ)

/-- A signed integer of some bits, as `sscanf` reads it, and what is behind it. -/
def scanInt (bits : ℕ) (s : Text) : Option (ℤ × Text) :=
  (Text.scanNumber 10 s).map fun (neg, n, rest) =>
    let v : ℤ := if neg then -n else n
    (if -2 ^ (bits - 1) ≤ v ∧ v < 2 ^ (bits - 1) then v else (wrap v).bmod (2 ^ bits), rest)

end scan

/-- The `float` next to a number; none where it is not finite. -/
def floatOf (q : ℚ) : Option ℚ :=
  let unit : ℚ := 2 ^ max (Int.log 2 |q| - 23) (-149)
  let r : ℚ := Double.roundHalfEven (|q| / unit) * unit
  if q = 0 then some 0
  else if 2 ^ 128 ≤ r then none
  else if q < 0 then some (-r)
  else some r

/-- What is behind the mark of an exponent: one without digits is an error. -/
def scanExponent (mark : Char) (s : Text) : Option (ℤ × Text) :=
  match s with
  | [] => some (0, [])
  | c :: t =>
    if c.toLower ≠ mark then some (0, s)
    else
      let (neg, t) := Text.sign t
      (Text.scanDigits 10 t).map fun (n, rest) => (if neg then -n else n, rest)

/-- Digits, around a point, and an exponent of the base `power`. -/
def scanMantissa (base power : ℕ) (mark : Char) (s : Text) : Option (ℚ × Text) :=
  let whole := s.takeWhile (Text.digitValue · < base)
  let (frac, rest) :=
    match s.drop whole.length with
    | '.' :: t =>
      let frac := t.takeWhile (Text.digitValue · < base)
      (frac, t.drop frac.length)
    | t => ([], t)
  if whole = [] ∧ frac = [] then none
  else (scanExponent mark rest).map fun (e, rest) =>
    ((Text.ofDigits base (whole ++ frac) : ℚ) / base ^ frac.length * power ^ e, rest)

/-- A `%f`; one that is infinite or no number is left out, as no check below lets it through. -/
def scanFloat (s : Text) : Option (ℚ × Text) := do
  let (neg, s) := Text.sign (s.dropWhile Text.isSpace)
  let (q, rest) ← match s with
    | '0' :: x :: t =>
      if x.toLower = 'x' then scanMantissa 16 2 'p' t else scanMantissa 10 10 'e' s
    | s => scanMantissa 10 10 'e' s
  let r ← floatOf (if neg then -q else q)
  return (r, rest)

/-- The child, whose pipes may be closed while it is not reaped, what was read of its output and
not handed out, and what it has written or will, for what it was told. -/
structure NnaProcess where
  pid : Bool := false
  fds : Bool := false
  buf : Text := []
  pipe : Text := []
  stdin : Text := []

namespace NnaProcess

variable (p : NnaProcess)

/-- All that is still to be read. -/
def unread : Text := p.buf ++ p.pipe

def terminate : NnaProcess := { p with pid := false, fds := false, buf := [], pipe := [] }

/-- A new child, for the old one; `output` is what it prints of itself. -/
def spawn (started : Bool) (output : Text) : Bool × NnaProcess :=
  let p := p.terminate
  if started then (true, { p with pid := true, fds := true, pipe := output, stdin := [] })
  else (false, p)

/-- What `waitpid` tells of the child. -/
inductive Wait where
  | running | exited | failed
  deriving DecidableEq

def alive (wait : Wait) : Bool × NnaProcess :=
  if !p.pid then (false, p)
  else match wait with
    | .running => (true, p)
    | .exited => (false, { p with pid := false, fds := false, pipe := [] })
    | .failed => (false, p)

/-- A line to the child; `reply` is what that prints for it, sooner or later. -/
def writeLine (written : Bool) (line reply : Text) : Bool × NnaProcess :=
  if !p.fds || !written then (false, p)
  else (true, { p with stdin := p.stdin ++ line, pipe := p.pipe ++ reply })

/-- The first line of what was read, with its end. -/
def takeLine : Option (Text × NnaProcess) :=
  match p.buf.dropWhile (· ≠ '\n') with
  | [] => none
  | nl :: rest => some (p.buf.takeWhile (· ≠ '\n') ++ [nl], { p with buf := rest })

/-- The loop over `poll` and `read`; each chunk is what one read finds, and there are no more
within the time. -/
def readMore : List ℕ → NnaProcess → Option Text × NnaProcess
  | [], p => (none, p)
  | k :: chunks, p =>
    let tmp := p.pipe.take (min k 512)
    if tmp = [] then (none, p)
    else
      let p := { p with buf := p.buf ++ tmp, pipe := p.pipe.drop (min k 512) }
      match p.takeLine with
      | some (line, p) => (some line, p)
      | none => readMore chunks p

def readLine (chunks : List ℕ) : Option Text × NnaProcess :=
  if !p.fds then (none, p)
  else match p.takeLine with
    | some (line, p) => (some line, p)
    | none => readMore chunks p

end NnaProcess

structure Line where
  text : Text
  oneLine : '\n' ∉ text

/-- What is answered to a frame. -/
inductive Block where
  | error (what : Line)
  | result (dets : List Line) (few : dets.length ≤ 256)

/-- The result line of a frame of that time. -/
def resultLine (pts : Int64) (n : ℕ) : Text :=
  "result".toList ++ ' ' :: (Text.ofInt pts.toInt ++ ' ' :: Text.ofNat n)

def Block.text (pts : Int64) : Block → Text
  | .error what => "error".toList ++ what.text ++ ['\n']
  | .result dets _ =>
    resultLine pts dets.length ++ '\n' :: Lines.join '\n' (dets.map Line.text)

structure Box where
  x : ℚ
  y : ℚ
  w : ℚ
  h : ℚ
  deriving DecidableEq

structure Detection where
  classId : ℤ
  label : Text
  confidence : ℤ
  box : Box
  deriving DecidableEq

structure DetectionResult where
  detections : List Detection := []
  framePtsUs : Int64 := 0
  inferDurationMs : ℤ := -1
  deriving DecidableEq

structure AnalysisFrame where
  size : ℕ
  width : ℤ
  height : ℤ
  stride : ℤ
  ptsUs : Int64

structure NnaDetectorConfig where
  framePath : Text := []
  inferenceFps : ℤ := 5
  readyTimeoutMs : ℤ := 20000
  restartBackoffMs : ℤ := 5000

inductive Helper where
  | down | loading | ready
  deriving DecidableEq

structure NnaDetector where
  cfg : NnaDetectorConfig
  running : Bool := false
  helper : Helper := .down
  loadingSinceMs : ℤ := 0
  lastSpawnMs : ℤ := -1
  nextDueMs : ℤ := 0
  skipped : UInt32 := 0

/-- The frame's line. -/
def frameLine (f : AnalysisFrame) (path : Text) : Text :=
  "frame ".toList ++ Text.ofInt f.ptsUs.toInt ++ ' ' :: Text.ofInt f.width ++
    ' ' :: Text.ofInt f.height ++ ' ' :: Text.ofInt f.stride ++ ' ' :: Text.ofNat f.size ++
    ' ' :: path ++ ['\n']

section parse

variable (wrap : ℤ → ℤ)

/-- `result %lld %d`. -/
def scanResult (line : Text) : Option (Int64 × ℤ) := do
  let s ← (Text.cString line).dropPrefix? "result".toList
  let (pts, s) ← scanInt wrap 64 s
  let (n, _) ← scanInt wrap 32 s
  return (.ofInt pts, n)

/-- `det %d %d %f %f %f %f %n`: the numbers, and how much is read. -/
def scanDet (line : Text) : Option (ℤ × ℤ × Box × ℕ) := do
  let seen := Text.cString line
  let s ← seen.dropPrefix? "det".toList
  let (cls, s) ← scanInt wrap 32 s
  let (conf, s) ← scanInt wrap 32 s
  let (x, s) ← scanFloat s
  let (y, s) ← scanFloat s
  let (w, s) ← scanFloat s
  let (h, s) ← scanFloat s
  return (cls, conf, { x, y, w, h }, seen.length - (s.dropWhile Text.isSpace).length)

def Box.inFrame (b : Box) : Bool :=
  0 ≤ b.x && 0 ≤ b.y && 0 < b.w && 0 < b.h && b.x ≤ 1 && b.y ≤ 1 && b.w ≤ 1 && b.h ≤ 1

def parseDetLine (line : Text) : Option Detection := do
  let (cls, conf, box, at_) ← scanDet wrap line
  if conf < 0 ∨ 100 < conf then none
  else if !box.inFrame then none
  else
    let label := ((line.drop at_).reverse.dropWhile fun c => c = '\n' ∨ c = '\r').reverse
    return { classId := cls, confidence := conf, box
             label := if label = [] then "object".toList else label }

end parse

/-- What the clock, the source, the system and the helper answer during one call. -/
structure Answers where
  now : ℤ := 0
  spawnedAt : ℤ := 0
  loadingAt : ℤ := 0
  startedAt : ℤ := 0
  doneAt : ℤ := 0
  spawned : Bool := true
  /-- What a new child prints until it is asked. -/
  output : Text := []
  wait : NnaProcess.Wait := .running
  got : Result := .ok
  frame : AnalysisFrame
  /-- The frame's file was written. -/
  filed : Bool := true
  written : Bool := true
  /-- What the helper answers to the frame. -/
  block : Block
  /-- What is found by the reads for each line. -/
  reads : ℕ → List ℕ

namespace NnaDetector

variable (a : Answers)

/-- `spawn_helper`. -/
def spawnHelper (d : NnaDetector) (p : NnaProcess) : Bool × NnaDetector × NnaProcess :=
  let d := { d with lastSpawnMs := a.spawnedAt }
  let (ok, p) := p.spawn a.spawned a.output
  if !ok then (false, { d with helper := .down }, p)
  else (true, { d with helper := .loading, loadingSinceMs := a.loadingAt }, p)

def start (source : Result) (d : NnaDetector) (p : NnaProcess) :
    Result × NnaDetector × NnaProcess :=
  if d.running then (.ok, d, p)
  else if !source.isOk then (source, d, p)
  else
    let d := { d with running := true, nextDueMs := a.now, skipped := 0 }
    (.ok, (d.spawnHelper a p).2)

def stop (d : NnaDetector) (p : NnaProcess) : Result × NnaDetector × NnaProcess :=
  if !d.running then (.ok, d, p)
  else
    let d := { d with running := false }
    if d.helper = .down then (.ok, d, p)
    else (.ok, { d with helper := .down },
      (p.writeLine a.written "quit\n".toList []).2.terminate)

/-- `advance_loading`. -/
def advanceLoading (d : NnaDetector) (p : NnaProcess) : Result × NnaDetector × NnaProcess :=
  match p.readLine (a.reads 0) with
  | (some line, p) =>
    if "ready".toList.isPrefixOf line then (.timeout, { d with helper := .ready }, p)
    else if "error".toList.isPrefixOf line then (.error, { d with helper := .down }, p.terminate)
    else (.timeout, d, p)
  | (none, p) =>
    let (alive, p) := p.alive a.wait
    if !alive then (.error, { d with helper := .down }, p)
    else if d.cfg.readyTimeoutMs < a.now - d.loadingSinceMs then
      (.error, { d with helper := .down }, p.terminate)
    else (.timeout, d, p)

/-- The helper is down if it is no longer alive. -/
def noticeDeath (d : NnaDetector) (p : NnaProcess) : NnaDetector × NnaProcess :=
  let (alive, p) := p.alive a.wait
  (if alive then d else { d with helper := .down }, p)

/-- The det lines, of which those that are malformed are skipped. -/
def readDets (wrap : ℤ → ℤ) : ℕ → ℕ → List Detection → NnaProcess →
    Bool × List Detection × NnaProcess
  | 0, _, dets, p => (true, dets, p)
  | n + 1, i, dets, p =>
    match p.readLine (a.reads i) with
    | (none, p) => (false, dets, p)
    | (some line, p) => readDets wrap n (i + 1) (dets ++ (parseDetLine wrap line).toList) p

/-- The answer to a frame, as far as it comes. -/
def readAnswer (wrap : ℤ → ℤ) (out : DetectionResult) (d : NnaDetector) (p : NnaProcess) :
    Result × DetectionResult × NnaDetector × NnaProcess :=
  match p.readLine (a.reads 0) with
  | (none, p) => (.error, out, d.noticeDeath a p)
  | (some line, p) =>
    if "error".toList.isPrefixOf line then (.error, out, d, p)
    else match scanResult wrap line with
      -- A malformed answer is left where it is: what follows it stays unread.
      | none => (.error, out, d, p)
      | some (pts, n) =>
        if n < 0 ∨ 256 < n then (.error, out, d, p)
        else
          let (all, dets, p) := readDets a wrap n.toNat 1 out.detections p
          let out := { out with framePtsUs := pts, detections := dets }
          if !all then (.error, out, d, p)
          else (.ok, { out with inferDurationMs := a.doneAt - a.startedAt }, d, p)

/-- `infer_one`. -/
def inferOne (wrap : ℤ → ℤ) (out : DetectionResult) (d : NnaDetector) (p : NnaProcess) :
    Result × DetectionResult × NnaDetector × NnaProcess :=
  if !a.got.isOk then (if a.got.status = .timeout then .timeout else a.got, out, d, p)
  else
    let (sent, p) :=
      if a.filed then
        p.writeLine a.written (frameLine a.frame d.cfg.framePath) (a.block.text a.frame.ptsUs)
      else (false, p)
    if !sent then (.error, out, d.noticeDeath a p)
    else d.readAnswer a wrap out p

/-- The next frame is due, and when the one after it is. -/
def pace (t : ℤ) (d : NnaDetector) : Option NnaDetector :=
  let period := 1000 / (if 0 < d.cfg.inferenceFps then d.cfg.inferenceFps else 5)
  if t < d.nextDueMs then none
  else
    let next := (if d.nextDueMs = 0 then t else d.nextDueMs) + period
    if next < t then some { d with
      skipped := d.skipped + .ofInt ((t - next) / period + 1), nextDueMs := t + period }
    else some { d with nextDueMs := next }

def poll (wrap : ℤ → ℤ) (out : DetectionResult) (d : NnaDetector) (p : NnaProcess) :
    Result × DetectionResult × NnaDetector × NnaProcess :=
  if !d.running then (.busy, out, d, p)
  else match d.helper with
    | .down =>
      if 0 ≤ d.lastSpawnMs ∧ a.now - d.lastSpawnMs < d.cfg.restartBackoffMs then
        (.timeout, out, d, p)
      else
        let (ok, d, p) := d.spawnHelper a p
        (if ok then .timeout else .error, out, d, p)
    | .loading =>
      let (r, d, p) := d.advanceLoading a p
      (r, out, d, p)
    | .ready =>
      match d.pace a.now with
      | none => (.timeout, out, d, p)
      | some d => d.inferOne a wrap out p

end NnaDetector

end Machino.Nna
