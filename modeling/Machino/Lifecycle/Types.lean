import Machino.Core.Result
import Mathlib.Data.Fintype.Basic
import Mathlib.Data.Finset.Insert

namespace Machino.Lifecycle

inductive State where
  | coldIdle | starting | active | graceIdle | stopping | failed
  deriving DecidableEq, Repr

inductive ConsumerType where
  | rtsp | snapshot | recording | ai | httpStream | onvif | manual
  deriving DecidableEq, Repr

instance : Fintype ConsumerType where
  elems := {.rtsp, .snapshot, .recording, .ai, .httpStream, .onvif, .manual}
  complete t := by cases t <;> decide

/-- The four units demand is counted for: UNIT_MAIN, UNIT_SUB, UNIT_JPEG and UNIT_AI. -/
inductive UnitId where
  | main | sub | jpeg | ai
  deriving DecidableEq, Repr

/-- The indices of the manager's unit array. -/
inductive Slot where
  | main | sub
  deriving DecidableEq, Repr

def UnitId.slot : UnitId → Option Slot
  | .main => some .main
  | .sub => some .sub
  | .jpeg => none
  | .ai => none

def Slot.unitId : Slot → UnitId
  | .main => .main
  | .sub => .sub

@[simp] theorem Slot.slot_unitId (i : Slot) : i.unitId.slot = some i := by cases i <;> rfl

theorem UnitId.slot_eq_some {u : UnitId} {i : Slot} : u.slot = some i ↔ u = i.unitId := by
  cases u <;> cases i <;> simp [UnitId.slot, Slot.unitId]

def unitName : Slot → String
  | .main => "main"
  | .sub => "sub"

structure DemandHandle where
  type : ConsumerType
  unit : UnitId
  deriving DecidableEq, Repr

structure LifecycleConfig where
  idleGraceMs : Int := 5000
  pollTimeoutMs : Int := 500
  deriving DecidableEq, Repr

inductive RcMode where
  | cbr | vbr | fixQp
  deriving DecidableEq, Repr

structure EffectiveStream where
  width : Int := 0
  height : Int := 0
  fps : Int := 0
  nativeWidth : Int := 0
  nativeHeight : Int := 0
  gop : Int := 40
  bitrateKbps : Int := 3000
  profile : Int := 2
  qp : Int := 35
  buffers : Int := 2
  encoderBuffers : Int := 0
  rc : RcMode := .cbr
  deriving DecidableEq, Repr

structure JpegParams where
  width : Int := 0
  height : Int := 0
  quality : Int := 80
  buffers : Int := 1
  deriving DecidableEq, Repr

/-- A one-shot timer. -/
structure GraceTimer where
  armed : Bool := false
  ms : Int := 0
  deriving DecidableEq, Repr

namespace GraceTimer

def arm (_ : GraceTimer) (ms : Int) : GraceTimer := ⟨true, ms⟩
def disarm (t : GraceTimer) : GraceTimer := { t with armed := false }

@[simp] theorem armed_arm (t : GraceTimer) (ms : Int) : (t.arm ms).armed = true := rfl
@[simp] theorem armed_disarm (t : GraceTimer) : t.disarm.armed = false := rfl

end GraceTimer

/-- The calls into the media platform and its objects, with the platform's answer where the
manager looks at it. An object is named by the position of the call that created it. -/
inductive Call where
  | bringUp (r : Result)
  | tearDown
  | createFramesource (unit : Slot) (fs : ℕ) (s : EffectiveStream) (r : Result)
  | createEncoder (unit : Slot) (enc : ℕ) (s : EffectiveStream) (r : Result)
  | bind (unit : Slot) (fs enc : ℕ) (r : Result)
  | enable (unit : Slot) (fs : ℕ) (r : Result)
  | start (unit : Slot) (enc : ℕ) (r : Result)
  | stop (unit : Slot) (enc : ℕ)
  | disable (unit : Slot) (fs : ℕ)
  | unbind (unit : Slot) (fs enc : ℕ)
  | destroyEncoder (unit : Slot) (enc : ℕ)
  | destroyFramesource (unit : Slot) (fs : ℕ)
  | setSensorFps (fps : Int) (r : Result)
  | postStart
  | createJpeg (enc : ℕ) (p : JpegParams) (r : Result)
  | captureJpeg (enc : ℕ)
  | destroyJpeg (enc : ℕ)
  deriving DecidableEq, Repr

/-- The media objects of one unit, and what has actually been acquired on them. -/
structure Chain where
  fs : Option ℕ := none
  enc : Option ℕ := none
  bound : Bool := false
  fsEnabled : Bool := false
  encStarted : Bool := false
  running : Bool := false
  deriving DecidableEq, Repr

structure StreamUnit where
  stream : EffectiveStream := {}
  configured : Bool := false
  demand : ConsumerType → ℕ := fun _ => 0
  total : ℕ := 0
  chain : Chain := {}
  /-- Whether a grace timer is wired to the unit. -/
  hasTimer : Bool := false
  timer : GraceTimer := {}
  graceArmed : Bool := false

structure JpegUnit where
  configured : Bool := false
  enabled : Bool := true
  params : JpegParams := {}
  cacheMs : Int := 300
  graceMs : Int := 2000
  demand : ℕ := 0
  enc : Option ℕ := none
  hasTimer : Bool := false
  timer : GraceTimer := {}
  graceArmed : Bool := false
  captures : ℕ := 0
  failures : ℕ := 0
  lastCaptureMs : Int := -1
  cache : List UInt8 := []
  cacheAtUs : Int := -1

structure Units where
  main : StreamUnit
  sub : StreamUnit

namespace Units

def get (us : Units) : Slot → StreamUnit
  | .main => us.main
  | .sub => us.sub

def modify (us : Units) (i : Slot) (f : StreamUnit → StreamUnit) : Units :=
  match i with
  | .main => { us with main := f us.main }
  | .sub => { us with sub := f us.sub }

@[simp] theorem get_modify_self (us : Units) (i : Slot) (f : StreamUnit → StreamUnit) :
    (us.modify i f).get i = f (us.get i) := by cases i <;> rfl

@[simp] theorem get_modify_of_ne (us : Units) {i j : Slot} (h : j ≠ i)
    (f : StreamUnit → StreamUnit) : (us.modify i f).get j = us.get j := by
  cases i <;> cases j <;> first | rfl | exact absurd rfl h

def map (us : Units) (f : StreamUnit → StreamUnit) : Units := ⟨f us.main, f us.sub⟩

@[simp] theorem get_map (us : Units) (f : StreamUnit → StreamUnit) (i : Slot) :
    (us.map f).get i = f (us.get i) := by cases i <;> rfl

@[ext] theorem ext_get {us vs : Units} (h : ∀ i, us.get i = vs.get i) : us = vs := by
  cases us; cases vs
  simpa [get] using And.intro (h .main) (h .sub)

end Units

end Machino.Lifecycle
