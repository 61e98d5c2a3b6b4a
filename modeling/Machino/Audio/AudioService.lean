import Machino.Stream.StreamHub

namespace Machino.Audio

open Machino.Stream

structure AudioConfig where
  enabled : Bool := false
  srate : ℕ := 8000
  graceMs : ℤ := 2000

/-- Where a capture thread stands: before its first locked section, in the loop with the device it
has read there, past its decision to stop with the device it closes, or at its end. -/
inductive Phase where
  | starting
  | capturing (dev : Option ℕ)
  | closing (dev : ℕ)
  | ended
  deriving DecidableEq

structure CaptureThread where
  phase : Phase := .starting
  graceMs : ℤ := 0
  idleSince : ℤ := -1
  deriving DecidableEq

/-- `inDev` and `thread` are what the service holds; `threads` and `devices` are all that were ever
made, with the devices that are open. -/
structure Capture where
  inDev : Option ℕ := none
  thread : Option ℕ := none
  running : Bool := false
  threads : List CaptureThread := []
  devices : List Bool := []

/-- `joining` is a `listen` that holds the lock and waits for the thread to end. -/
structure AudioService extends Capture where
  cfg : AudioConfig
  hasInput : Bool
  hub : StreamHub := { keySupersedes := false }
  shutdown : Bool := false
  quit : Bool := false
  rate : ℕ := 0
  starts : ℕ := 0
  lastError : String := ""
  joining : Bool := false

namespace AudioService

def kListenerDepth : ℕ := 8

def hasEnded (s : AudioService) (t : ℕ) : Bool := s.threads[t]?.any fun th => th.phase = .ended

/-- The sink of the new listener by its number. -/
def subscribe (s : AudioService) : Except String ℕ × AudioService :=
  (.ok s.hub.subscribers.length, { s with hub := s.hub.subscribe kListenerDepth })

/-- What is left of `listen` behind the join; `granted` is the factory's answer. A device that
`in_` still held would be closed by the assignment. -/
def openDevice (granted : Bool) (s : AudioService) : Except String ℕ × AudioService :=
  if granted then
    subscribe { s with
      inDev := some s.devices.length
      devices := (s.inDev.elim s.devices fun d => s.devices.set d false) ++ [true]
      rate := s.cfg.srate
      running := true
      quit := false
      starts := s.starts + 1
      lastError := ""
      thread := some s.threads.length
      threads := s.threads ++ [{}] }
  else
    let why := "the codec refused the microphone at " ++ toString s.cfg.srate ++ " Hz"
    (.error why, { s with lastError := why })

/-- `none` is a call that waits in the join. -/
def listen (granted : Bool) (s : AudioService) : Option (Except String ℕ) × AudioService :=
  if s.shutdown then (some (.error "shutting down"), s)
  else if !s.hasInput then (some (.error "this platform has no audio input"), s)
  else if !s.cfg.enabled then (some (.error "audio is disabled (audio.enabled=false)"), s)
  else if s.running then s.subscribe.map some id
  else
    match s.thread with
    | none => (s.openDevice granted).map some id
    | some t =>
      if s.hasEnded t then (openDevice granted { s with thread := none }).map some id
      else (none, { s with joining := true })

/-- The join has returned. -/
def listenJoined (granted : Bool) (s : AudioService) : Except String ℕ × AudioService :=
  openDevice granted { s with thread := none, joining := false }

def setEnabled (on : Bool) (s : AudioService) : AudioService :=
  { s with
    cfg := { s.cfg with enabled := on }
    hub := if on then s.hub else s.hub.closeAll }

def setSampleRate (hz : ℕ) (s : AudioService) : AudioService :=
  if hz ≠ 8000 ∧ hz ≠ 16000 then s else { s with cfg := { s.cfg with srate := hz } }

/-- The locked section; what it takes out of `thread_` is joined behind it. -/
def shutdownLocked (s : AudioService) : AudioService :=
  { s with shutdown := true, quit := true, hub := s.hub.closeAll, thread := none }

/-- The first section of the capture loop. -/
def captureStart (t : ℕ) (s : AudioService) : AudioService :=
  match s.threads[t]? with
  | some ⟨.starting, _, idleSince⟩ =>
    { s with threads := s.threads.set t ⟨.capturing s.inDev, s.cfg.graceMs, idleSince⟩ }
  | _ => s

/-- Whether the loop stops, with the time since which nobody has listened. -/
def stopDecision (s : AudioService) (graceMs idleSince now : ℤ) : Bool × ℤ :=
  if s.quit || !s.cfg.enabled then (true, idleSince)
  else if s.hub.consumers = 0 then
    let idleSince := if idleSince < 0 then now else idleSince
    (decide (graceMs * 1000 ≤ now - idleSince), idleSince)
  else (false, -1)

/-- The section behind each frame. The loop ends where there is a device to close. -/
def captureDecide (t : ℕ) (now : ℤ) (s : AudioService) : AudioService :=
  match s.threads[t]? with
  | some ⟨.capturing dev, graceMs, idleSince⟩ =>
    let decision := s.stopDecision graceMs idleSince now
    if decision.1 then
      { s with
        running := false
        inDev := none
        threads := s.threads.set t
          ⟨s.inDev.elim (.capturing dev) .closing, graceMs, decision.2⟩ }
    else { s with threads := s.threads.set t ⟨.capturing dev, graceMs, decision.2⟩ }
  | _ => s

/-- Outside the lock. -/
def captureClose (t : ℕ) (s : AudioService) : AudioService :=
  match s.threads[t]? with
  | some ⟨.closing d, graceMs, idleSince⟩ =>
    { s with
      devices := s.devices.set d false
      threads := s.threads.set t ⟨.ended, graceMs, idleSince⟩ }
  | _ => s

end AudioService

/-- What can happen next. `unlisten` closes the sink and then erases it, neither under the lock of
the service. -/
inductive Step where
  | listen (granted : Bool)
  | listenJoined (granted : Bool)
  | close (k : ℕ)
  | erase (k : ℕ)
  | pop (k : ℕ)
  | setEnabled (on : Bool)
  | setSampleRate (hz : ℕ)
  | shutdown
  | captureStart (t : ℕ)
  | publish (au : AccessUnit)
  | captureDecide (t : ℕ) (now : ℤ)
  | captureClose (t : ℕ)

namespace AudioService

/-- A section that takes the lock waits while another holds it. -/
def locked (f : AudioService → AudioService) (s : AudioService) : AudioService :=
  if s.joining then s else f s

def step (s : AudioService) : Step → AudioService
  | .listen granted => s.locked fun s => (s.listen granted).2
  | .listenJoined granted =>
    if s.joining && s.thread.any s.hasEnded then (s.listenJoined granted).2 else s
  | .close k => { s with hub := s.hub.step (.close k) }
  | .erase k => { s with hub := s.hub.step (.erase k) }
  | .pop k => { s with hub := s.hub.step (.pop k) }
  | .setEnabled on => s.locked (setEnabled on)
  | .setSampleRate hz => s.locked (setSampleRate hz)
  | .shutdown => s.locked shutdownLocked
  | .captureStart t => s.locked (captureStart t)
  | .publish au => { s with hub := s.hub.publish au }
  | .captureDecide t now => s.locked (captureDecide t now)
  | .captureClose t => s.captureClose t

end AudioService

end Machino.Audio
