import Mathlib.Data.List.Basic
import Mathlib.Data.List.Count
import Mathlib.Data.Int.Notation
import Mathlib.Data.Nat.Notation
import Machino.Core.Result

namespace Machino.Watchdog

/-- What the driver is asked to do. -/
inductive Ask where
  | openDevice
  | setTimeout (seconds : ℤ)
  | feed
  | close (disarm : Bool)
  deriving DecidableEq

/-- The service; the times are those of a steady clock. -/
structure WatchdogService where
  timeoutS : ℤ
  feedMs : ℕ
  stallAfterMs : ℕ
  epoch : ℕ := 0
  fedAtEpoch : ℕ := 0
  feeds : ℕ := 0
  skipped : ℕ := 0
  feedErrors : ℕ := 0
  openErrors : ℕ := 0
  nextDueMs : ℕ := 0
  lastFeedMs : Option ℕ := none
  isOpen : Bool := false
  everOpened : Bool := false
  effectiveTimeoutS : ℤ := 0
  hasHandler : Bool := false
  stallReported : Bool := false

/-- A third of the timeout, unless an interval is given. -/
def feedInterval (timeoutS feedIntervalMs : ℤ) : ℕ :=
  let feed := if 0 < feedIntervalMs then feedIntervalMs else timeoutS * 1000 / 3
  (if feed < 100 then 100 else feed).toNat

namespace WatchdogService

def new (timeoutS feedIntervalMs : ℤ) : WatchdogService :=
  let timeoutS := if timeoutS < 1 then 1 else timeoutS
  { timeoutS, feedMs := feedInterval timeoutS feedIntervalMs
    stallAfterMs := feedInterval timeoutS feedIntervalMs * 2 }

def setStallHandler (w : WatchdogService) (stallAfterMs : ℤ) : WatchdogService :=
  { w with
    hasHandler := true
    stallAfterMs := if 0 < stallAfterMs then stallAfterMs.toNat else w.stallAfterMs }

/-- The driver opens or not, takes a timeout of its own or refuses, and takes the feed or not. -/
def start (w : WatchdogService) (now : ℕ) (opens : Bool) (took : Option ℤ) (taken : Bool) :
    WatchdogService × Result × List Ask :=
  if w.isOpen then (w, .ok, [])
  else if !opens then ({ w with openErrors := w.openErrors + 1 }, .unsupported, [.openDevice])
  else
    ({ w with
        isOpen := true
        everOpened := true
        -- a driver that refuses keeps a timeout of its own
        effectiveTimeoutS := took.getD w.timeoutS
        feeds := if taken then w.feeds + 1 else w.feeds
        lastFeedMs := if taken then some now else w.lastFeedMs
        fedAtEpoch := w.epoch
        nextDueMs := now + w.feedMs },
      .ok, [.openDevice, .setTimeout w.timeoutS, .feed])

def stop (w : WatchdogService) : WatchdogService × List Ask :=
  if w.isOpen then ({ w with isOpen := false }, [.close true]) else (w, [])

def heartbeat (w : WatchdogService) : WatchdogService := { w with epoch := w.epoch + 1 }

/-- Whether the loop has been still for long enough to be reported. -/
def stalls (w : WatchdogService) (now : ℕ) : Bool :=
  w.hasHandler && !w.stallReported &&
    match w.lastFeedMs with
    | some fed => fed + w.stallAfterMs ≤ now
    | none => false

end WatchdogService

/-- What comes of a tick. -/
structure Outcome where
  fed : Bool := false
  asks : List Ask := []
  marked : Bool := false
  deriving DecidableEq

namespace WatchdogService

def tick (w : WatchdogService) (now : ℕ) (taken : Bool) : WatchdogService × Outcome :=
  if !w.isOpen || now < w.nextDueMs then (w, {})
  else
    let w := { w with nextDueMs := now + w.feedMs }
    if w.epoch = w.fedAtEpoch then
      ({ w with skipped := w.skipped + 1, stallReported := w.stallReported || w.stalls now },
        { marked := w.stalls now })
    else if taken then
      ({ w with
          fedAtEpoch := w.epoch
          feeds := w.feeds + 1
          lastFeedMs := some now
          stallReported := false },
        { fed := true, asks := [.feed] })
    else
      -- a feed that fails uses the heartbeat up as well, and the time of the last feed stays
      ({ w with fedAtEpoch := w.epoch, feedErrors := w.feedErrors + 1 }, { asks := [.feed] })

end WatchdogService

/-- A heartbeat of the loop or a tick, with the time it comes at. -/
inductive Input where
  | heartbeat (time : ℕ)
  | tick (time : ℕ) (taken : Bool)
  deriving DecidableEq

namespace Input

def time : Input → ℕ
  | heartbeat t => t
  | tick t _ => t

def isHeartbeat : Input → Bool
  | heartbeat _ => true
  | tick _ _ => false

end Input

def step (w : WatchdogService) : Input → WatchdogService × Outcome
  | .heartbeat _ => (w.heartbeat, {})
  | .tick now taken => w.tick now taken

def run (w : WatchdogService) : List Input → WatchdogService × List Outcome
  | [] => (w, [])
  | i :: is =>
    let r := step w i
    let rs := run r.1 is
    (rs.1, r.2 :: rs.2)

/-- How often the driver is asked to feed. -/
def feedCalls (os : List Outcome) : ℕ := (os.flatMap Outcome.asks).count .feed

def markers (os : List Outcome) : ℕ := os.countP Outcome.marked

def heartbeats (is : List Input) : ℕ := is.countP Input.isHeartbeat

/-- The ticks that find the time has come; each puts the next one off. -/
def due (feedMs nextDue : ℕ) : List Input → List (ℕ × Bool)
  | [] => []
  | .heartbeat _ :: is => due feedMs nextDue is
  | .tick t taken :: is =>
    if t < nextDue then due feedMs nextDue is else (t, taken) :: due feedMs (t + feedMs) is

/-- The service after a due tick that finds the loop where it was. -/
def WatchdogService.skip (w : WatchdogService) (now : ℕ) : WatchdogService :=
  { w with
    nextDueMs := now + w.feedMs
    skipped := w.skipped + 1
    stallReported := w.stallReported || w.stalls now }

/-- The service after a due tick that finds the loop advanced. -/
def WatchdogService.feedNow (w : WatchdogService) (now : ℕ) (taken : Bool) : WatchdogService :=
  { w with
    nextDueMs := now + w.feedMs
    fedAtEpoch := w.epoch
    feeds := if taken then w.feeds + 1 else w.feeds
    feedErrors := if taken then w.feedErrors else w.feedErrors + 1
    lastFeedMs := if taken then some now else w.lastFeedMs
    stallReported := !taken && w.stallReported }

section tick

variable {w : WatchdogService} {now : ℕ} (taken : Bool)

theorem tick_closed (h : w.isOpen = false) : w.tick now taken = (w, {}) :=
  if_pos (by simp [h])

theorem tick_early (h : now < w.nextDueMs) : w.tick now taken = (w, {}) :=
  if_pos (by simp [h])

theorem tick_still (ho : w.isOpen = true) (hd : w.nextDueMs ≤ now) (he : w.epoch = w.fedAtEpoch) :
    w.tick now taken = (w.skip now, { marked := w.stalls now }) := by
  unfold WatchdogService.tick
  rw [if_neg (by simpa [ho] using hd)]
  exact if_pos he

theorem tick_moved (ho : w.isOpen = true) (hd : w.nextDueMs ≤ now) (he : w.epoch ≠ w.fedAtEpoch) :
    w.tick now taken = (w.feedNow now taken, { fed := taken, asks := [.feed] }) := by
  unfold WatchdogService.tick
  rw [if_neg (by simpa [ho] using hd)]
  dsimp only
  rw [if_neg he]
  cases taken <;> rfl

/-- What a tick can do. -/
theorem tick_cases (w : WatchdogService) (now : ℕ) :
    w.tick now taken = (w, {}) ∨
      (w.isOpen = true ∧ w.nextDueMs ≤ now ∧ w.epoch = w.fedAtEpoch ∧
        w.tick now taken = (w.skip now, { marked := w.stalls now })) ∨
      (w.isOpen = true ∧ w.nextDueMs ≤ now ∧ w.epoch ≠ w.fedAtEpoch ∧
        w.tick now taken = (w.feedNow now taken, { fed := taken, asks := [.feed] })) := by
  cases ho : w.isOpen with
  | false => exact .inl (tick_closed taken ho)
  | true =>
    rcases Nat.lt_or_ge now w.nextDueMs with hd | hd
    · exact .inl (tick_early taken hd)
    · by_cases he : w.epoch = w.fedAtEpoch
      · exact .inr (.inl ⟨rfl, hd, he, tick_still taken ho hd he⟩)
      · exact .inr (.inr ⟨rfl, hd, he, tick_moved taken ho hd he⟩)

end tick

theorem run_append (w : WatchdogService) (is is' : List Input) :
    run w (is ++ is') =
      ((run (run w is).1 is').1, (run w is).2 ++ (run (run w is).1 is').2) := by
  induction is generalizing w with
  | nil => rfl
  | cons i is ih => simp [run, ih]

end Machino.Watchdog
