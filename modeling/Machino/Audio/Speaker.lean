import Mathlib.Data.Int.Notation
import Mathlib.Data.Nat.Notation
import Machino.Core.Result

namespace Machino.Audio

/-- A clip that was accepted, with its number among those. -/
structure Clip where
  id : ℕ
  pcm : List Int16
  rate : ℤ

def kMaxQueueSeconds : ℕ := 70

namespace Speaker

/-- How the writing of a clip ended. -/
inductive Outcome where
  | played | cut | failed

/-- Where the loop is between two locked sections: it waits for a clip, has one in hand whose
device is exchanged, opened or written to, or closes the device with none in hand. -/
inductive Phase where
  | waiting
  | exchanging (c : Clip)
  | opening (c : Clip)
  | writing (c : Clip) (off : ℕ)
  | finishing (c : Clip) (outcome : Outcome)
  | closing
  | ended

/-- How many clips the loop has in hand. -/
def Phase.inHand : Phase → ℕ
  | .exchanging _ | .opening _ | .writing _ _ | .finishing _ _ => 1
  | .waiting | .closing | .ended => 0

inductive Event where
  | accepted (id : ℕ)
  | off
  | started (id : ℕ)
  deriving DecidableEq

end Speaker

open Speaker

structure Speaker where
  /-- The platform has an output. -/
  available : Bool
  enabled : Bool
  queue : List Clip := []
  queuedSamples : ℕ := 0
  queuedRate : ℤ := 8000
  quit : Bool := false
  cut : Bool := false
  opened : Bool := false
  playing : Bool := false
  clips : UInt32 := 0
  dropped : UInt32 := 0
  lastError : String := ""
  phase : Phase := .waiting
  /-- The rate of the device that is open. -/
  dev : Option ℤ := none

namespace Speaker

/-- The speaker, how many clips were accepted, played and discarded, whether it was switched off
since a clip was last taken, and what happened, the latest first. -/
structure State extends Speaker where
  accepted : ℕ := 0
  played : ℕ := 0
  discarded : ℕ := 0
  switchedOff : Bool := false
  log : List Event := []

/-- What `play` refuses, and why. -/
def check (s : Speaker) (pcm : List Int16) (rate : ℤ) : Except (Result × String) Unit :=
  if !s.available then .error (.unsupported, "this platform has no audio output")
  else if s.quit then .error (.busy, "shutting down")
  else if !s.enabled then
    .error (.busy, "the speaker is switched off (audio.outputEnabled is false)")
  else if rate ≠ 8000 ∧ rate ≠ 16000 then
    .error (.unsupported, "the speaker plays 8000 or 16000 Hz, not " ++ toString rate)
  else if pcm = [] then .error (.error, "the clip is empty")
  else if kMaxQueueSeconds * rate.toNat < s.queuedSamples + pcm.length then
    .error (.busy, "the speaker queue is full (" ++ toString kMaxQueueSeconds ++ " s)")
  else .ok ()

namespace State

def play (pcm : List Int16) (rate : ℤ) (s : State) : Except (Result × String) Unit × State :=
  match s.check pcm rate with
  | .error e => (.error e, s)
  | .ok () => (.ok (), { s with
      queuedSamples := s.queuedSamples + pcm.length
      queuedRate := rate
      queue := s.queue ++ [{ id := s.accepted, pcm, rate }]
      accepted := s.accepted + 1
      log := .accepted s.accepted :: s.log })

def setEnabled (on : Bool) (s : State) : State :=
  if on then { s with enabled := true }
  else { s with
    enabled := false
    dropped := s.dropped + .ofNat s.queue.length
    discarded := s.discarded + s.queue.length
    queue := []
    queuedSamples := 0
    cut := s.playing
    switchedOff := true
    log := .off :: s.log }

/-- `shutdown`, up to the wait for the loop. -/
def shutdown (s : State) : State :=
  { s with quit := true, cut := true, queue := [], queuedSamples := 0 }

def discard (s : State) : State :=
  { s with dropped := s.dropped + 1, discarded := s.discarded + 1, phase := .waiting }

/-- `close_locked`: the device goes, with the lock dropped meanwhile. -/
def closeLocked (phase : Phase) (s : State) : State :=
  { s with opened := false, dev := none, phase }

/-- The device is open: the clip is written to it, unless the speaker is off. -/
def start (c : Clip) (s : State) : State :=
  if !s.enabled then s.discard
  else { s with
    playing := true, cut := false, phase := .writing c 0, log := .started c.id :: s.log }

/-- The first clip of the queue is taken, for the device that is open. -/
def take (c : Clip) (queue : List Clip) (s : State) : State :=
  let s := { s with
    queue
    queuedSamples := s.queuedSamples - min s.queuedSamples c.pcm.length
    switchedOff := false }
  match s.dev with
  | none => { s with phase := .opening c }
  | some rate =>
    if rate = c.rate then s.start c
    else s.closeLocked (.exchanging c)

/-- After the last of a clip's writes. -/
def finish (outcome : Outcome) (s : State) : State :=
  match outcome with
  | .failed => { s.discard with
      playing := false, lastError := "writing to the speaker failed" }.closeLocked .closing
  | .cut => { s.discard with playing := false }
  | .played => { s with
      playing := false, clips := s.clips + 1, played := s.played + 1, phase := .waiting }

/-- The loop's next locked section; `ok` is whether the grace is over, the device could be opened
or the chunk written. -/
def loop (ok : Bool) (s : State) : State :=
  match s.phase with
  | .waiting =>
    if s.quit then s.closeLocked .ended
    else match s.queue with
      | [] => if s.dev.isSome && ok then s.closeLocked .closing else s
      | c :: queue => s.take c queue
  | .exchanging c => { s with phase := .opening c }
  | .opening c =>
    if !ok then { s.discard with
      lastError := "the codec refused the speaker at " ++ toString c.rate ++ " Hz" }
    else { s with dev := some c.rate, opened := true, lastError := "" }.start c
  | .writing c off =>
    if s.cut || s.quit then { s with phase := .finishing c .cut }
    else if !ok then { s with phase := .finishing c .failed }
    else
      let off := off + c.rate.toNat / 5
      { s with phase := if off < c.pcm.length then .writing c off else .finishing c .played }
  | .finishing _ outcome => s.finish outcome
  | .closing => { s with phase := .waiting }
  | .ended => s

end State

inductive Input where
  | play (pcm : List Int16) (rate : ℤ)
  | setEnabled (on : Bool)
  | shutdown
  | loop (ok : Bool)

def step (s : State) : Input → State
  | .play pcm rate => (s.play pcm rate).2
  | .setEnabled on => s.setEnabled on
  | .shutdown => s.shutdown
  | .loop ok => s.loop ok

/-- As it is made. -/
def boot (available enabled : Bool) : State := { available, enabled }

end Speaker

end Machino.Audio
