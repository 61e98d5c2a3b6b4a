import Machino.Basic.Runs
import Machino.Core.Result

namespace Machino.Detection

structure AiConfig where
  enabled : Bool := false
  detector : String := "motion"
  inferenceFps : ℤ := 5
  modelPath : String := ""
  deriving DecidableEq

inductive AiState where
  | disabled | starting | active | error
  deriving DecidableEq

/-- What pipeline and platform answer to a start. -/
inductive StartAnswer where
  | noBase
  | noBackend
  | startFails (backend : String) (r : Result)
  | starts (backend : String)

structure PollThread where
  ended : Bool := false
  joins : ℕ := 0
  deriving DecidableEq

/-- What a control call does behind its stop. -/
inductive AfterStop where
  | done | restart | ifEnabled
  deriving DecidableEq

/-- A `stop_locked` that has given the lock back: it joins the thread, or has joined it and waits
for the lock. -/
structure Stop where
  joining : Option ℕ
  after : AfterStop
  deriving DecidableEq

/-- `threads` and `detectors` are all that were ever made, with the detectors that are live; `doubled`
says that one was made beside a live one, `wanted` what the last call has asked for. -/
structure DetectionService where
  cfg : AiConfig
  state : AiState := .disabled
  backend : String := ""
  lastError : String := ""
  demand : Bool := false
  det : Option ℕ := none
  thread : Option ℕ := none
  quit : Bool := false
  runDetector : String := ""
  threads : List PollThread := []
  detectors : List Bool := []
  stops : List Stop := []
  doubled : Bool := false
  wanted : Bool := false

inductive Call where
  | setEnabled (on : Bool)
  | setDetector (name : String)
  | setModelPath (path : String)
  | setInferenceFps (fps : ℤ)
  | applyConfig (cfg : AiConfig)
  | shutdown

namespace DetectionService

/-- The detectors after what `det_` holds is gone. -/
def dropDet (s : DetectionService) : List Bool :=
  s.det.elim s.detectors fun d => s.detectors.set d false

/-- A detector is made before the assignment drops the one that `det_` held. -/
def startLocked (answer : StartAnswer) (s : DetectionService) : Result × DetectionService :=
  if s.state = .active ∨ s.state = .starting then (.ok, s)
  else
    let doubled := s.doubled || s.detectors.contains true
    match answer with
    | .noBase =>
      (.error, { s with state := .error, lastError := "base did not come up", demand := false })
    | .noBackend =>
      (.unsupported, { s with
        state := .error
        lastError := "detector backend '" ++ s.cfg.detector ++ "' unavailable on this platform"
        demand := false
        det := none
        detectors := s.dropDet })
    | .startFails backend r =>
      (r, { s with
        state := .error
        lastError := "detector start failed"
        backend := backend
        demand := false
        det := none
        detectors := s.dropDet ++ [false]
        doubled := doubled })
    | .starts backend =>
      (.ok, { s with
        state := .active
        lastError := ""
        backend := backend
        demand := true
        det := some s.detectors.length
        detectors := s.dropDet ++ [true]
        doubled := doubled
        quit := false
        runDetector := s.cfg.detector
        thread := some s.threads.length
        threads := s.threads ++ [{}] })

/-- `stop_locked` behind the join. -/
def finishStop (s : DetectionService) : DetectionService :=
  { s with
    det := none
    detectors := s.dropDet
    demand := false
    backend := ""
    state := if s.state = .error then .error else .disabled }

def afterStop (after : AfterStop) (answer : StartAnswer) (s : DetectionService) :
    Result × DetectionService :=
  match after with
  | .done => (.ok, s)
  | .restart => s.startLocked answer
  | .ifEnabled => if s.cfg.enabled then s.startLocked answer else (.ok, s)

/-- `stop_locked` and what the caller does behind it; `none` is a call that joins. -/
def stopThen (after : AfterStop) (answer : StartAnswer) (s : DetectionService) :
    Option Result × DetectionService :=
  let s := { s with quit := true }
  match s.thread with
  | some t => (none, { s with stops := s.stops ++ [⟨some t, after⟩] })
  | none => (s.finishStop.afterStop after answer).map some id

def shouldRun (s : DetectionService) : Bool :=
  s.state = .active || s.state = .starting || (s.state = .error && s.cfg.enabled)

def setEnabled (on : Bool) (answer : StartAnswer) (s : DetectionService) :
    Option Result × DetectionService :=
  let s := { s with cfg := { s.cfg with enabled := on } }
  if on then (s.startLocked answer).map some id else s.stopThen .done answer

def setDetector (name : String) (answer : StartAnswer) (s : DetectionService) :
    Option Result × DetectionService :=
  let s := { s with cfg := { s.cfg with detector := name } }
  if s.shouldRun then s.stopThen .restart answer else (some .ok, s)

def setModelPath (path : String) (answer : StartAnswer) (s : DetectionService) :
    Option Result × DetectionService :=
  if s.cfg.modelPath = path then (some .ok, s)
  else
    let s := { s with cfg := { s.cfg with modelPath := path } }
    if s.shouldRun && s.cfg.detector ≠ "motion" then s.stopThen .restart answer else (some .ok, s)

def setInferenceFps (fps : ℤ) (answer : StartAnswer) (s : DetectionService) :
    Option Result × DetectionService :=
  if fps < 1 ∨ 60 < fps then (some .error, s)
  else
    let s := { s with cfg := { s.cfg with inferenceFps := fps } }
    if s.shouldRun then s.stopThen .restart answer else (some .ok, s)

def applyConfig (cfg : AiConfig) (answer : StartAnswer) (s : DetectionService) :
    Option Result × DetectionService :=
  let was := s.state = .active ∨ s.state = .starting
  let s := { s with cfg := cfg }
  if was then s.stopThen .ifEnabled answer else (s.afterStop .ifEnabled answer).map some id

def shutdown (answer : StartAnswer) (s : DetectionService) : Option Result × DetectionService :=
  s.stopThen .done answer

end DetectionService

/-- What a call asks for, where it asks for anything. -/
def Call.asks (wanted : Bool) : Call → Bool
  | .setEnabled on => on
  | .applyConfig cfg => cfg.enabled
  | .shutdown => false
  | _ => wanted

inductive Step where
  | call (c : Call) (answer : StartAnswer)
  | pollEnds (t : ℕ)
  | joined (i : ℕ)
  | resume (i : ℕ) (answer : StartAnswer)

namespace DetectionService

/-- A control call up to its end or to the join. -/
def call (c : Call) (answer : StartAnswer) (s : DetectionService) :
    Option Result × DetectionService :=
  let s := { s with wanted := c.asks s.wanted }
  match c with
  | .setEnabled on => s.setEnabled on answer
  | .setDetector name => s.setDetector name answer
  | .setModelPath path => s.setModelPath path answer
  | .setInferenceFps fps => s.setInferenceFps fps answer
  | .applyConfig cfg => s.applyConfig cfg answer
  | .shutdown => s.shutdown answer

/-- The loop of `run` ends once it sees `quit_`. -/
def pollEnds (t : ℕ) (s : DetectionService) : DetectionService :=
  if s.quit then { s with threads := s.threads.modify t fun th => { th with ended := true } } else s

/-- A join returns, which leaves `thread_` without a thread. -/
def joined (i : ℕ) (s : DetectionService) : DetectionService :=
  match s.stops[i]? with
  | some ⟨some t, after⟩ =>
    if s.threads[t]?.any PollThread.ended then
      { s with
        threads := s.threads.modify t fun th => { th with joins := th.joins + 1 }
        thread := none
        stops := s.stops.set i ⟨none, after⟩ }
    else s
  | _ => s

/-- The caller has the lock again and goes on to its end. -/
def resume (i : ℕ) (answer : StartAnswer) (s : DetectionService) : DetectionService :=
  match s.stops[i]? with
  | some ⟨none, after⟩ =>
    (({ s with stops := s.stops.eraseIdx i } : DetectionService).finishStop.afterStop after answer).2
  | _ => s

def step (s : DetectionService) : Step → DetectionService
  | .call c answer => (s.call c answer).2
  | .pollEnds t => s.pollEnds t
  | .joined i => s.joined i
  | .resume i answer => s.resume i answer

/-- The constructor. -/
def create (cfg : AiConfig) (answer : StartAnswer) : DetectionService :=
  let s : DetectionService := { cfg := cfg, wanted := cfg.enabled }
  if cfg.enabled then (s.startLocked answer).2 else s

end DetectionService

end Machino.Detection
