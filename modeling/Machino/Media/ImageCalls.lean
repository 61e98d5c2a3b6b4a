import Machino.Media.TuningService

namespace Machino.Media

open Api Power

/-- What a call of an HTTP thread does next. -/
inductive HttpCall where
  /-- The value has passed the hold and goes to the pipeline. -/
  | write (c : ImageControl) (value : ℤ)
  | note (c : ImageControl) (eff : ℤ)
  | askState
  | restart
  /-- The start below is this call's own. -/
  | restarting

/-- What the call of the night mode does next; it makes one at a time. -/
inductive NightCall where
  | write (c : ImageControl) (value : ℤ)
  | note (c : ImageControl) (eff : ℤ)
  | undo (c : ImageControl) (before : ℤ)
  | giveBack (c : ImageControl) (value : ℤ)

/-- The pipeline holds its lock from `opening` until it runs. -/
inductive Pipeline where
  | down
  | running
  | opening (thread : Option ℕ)
  | applying (thread : Option ℕ) (values : ImageControl → ℤ) (todo : List ImageControl)
  | noting (thread : Option ℕ) (values : ImageControl → ℤ) (c : ImageControl) (eff : ℤ)
    (todo : List ImageControl)

structure World where
  service : Tuning
  /-- What has been written since the last start. -/
  isp : ImageControl → Option ℤ
  pipeline : Pipeline
  http : ℕ → Option HttpCall
  night : Option NightCall

/-- One locked section or one call of the pipeline; an amount is what is read back after a write. -/
inductive Step where
  | setImage (i : ℕ) (c : ImageControl) (value : ℤ) (record : Bool)
  | clearImage (i : ℕ) (c : ImageControl)
  | http (i : ℕ) (eff : ℤ)
  | setImageOverride (c : ImageControl) (value : ℤ)
  | clearImageOverride (c : ImageControl) (fallback : ℤ)
  | night (eff : ℤ)
  | start
  | fail
  | stop
  | apply (eff : ℤ)

namespace World

variable (w : World)

def setHttp (i : ℕ) (call : Option HttpCall) : World :=
  { w with http := fun j => if j = i then call else w.http j }

def write (c : ImageControl) (value : ℤ) : World :=
  { w with isp := fun d => if d = c then some value else w.isp d }

def noted (c : ImageControl) (eff : ℤ) : World :=
  { w with service := { w.service with effective := update w.service.effective c eff } }

/-- `set_image` and `set_image_live` up to the end of their first locked section. -/
def setImage (i : ℕ) (c : ImageControl) (value : ℤ) (record : Bool) : World :=
  match w.http i, w.service.checkImage c value with
  | none, .ok _ =>
    let service :=
      if record then { w.service with requested := update w.service.requested c value }
      else w.service
    -- stored; the night mode holds this control
    if 0 ≤ service.override c then { w with service }
    else { w with service }.setHttp i (some (.write c value))
  | _, _ => w

def clearImage (i : ℕ) (c : ImageControl) : World :=
  match w.http i with
  | some _ => w
  | none =>
    if (w.service.caps c).support ≠ .supported then w
    else
      { w with
        service := { w.service with
          requested := update w.service.requested c (-1)
          effective := update w.service.effective c (-1) } }.setHttp i (some .askState)

/-- The rest of a call; what needs the pipeline's lock waits while a start holds it. -/
def httpNext (i : ℕ) (eff : ℤ) : World :=
  match w.http i, w.pipeline with
  | some (.write c value), .running => (w.write c value).setHttp i (some (.note c eff))
  | some (.write _ _), .down => w.setHttp i none
  | some (.note c eff), _ => (w.noted c eff).setHttp i none
  | some .askState, .running => w.setHttp i (some .restart)
  | some .askState, .down => w.setHttp i none
  | some .restart, .running =>
    { w with isp := fun _ => none, pipeline := .opening (some i) }.setHttp i (some .restarting)
  | some .restart, .down => w.setHttp i none
  | _, _ => w

/-- The hold is recorded before its value is written. -/
def setImageOverride (c : ImageControl) (value : ℤ) : World :=
  match w.night with
  | some _ => w
  | none =>
    { w with
      service := { w.service with override := update w.service.override c value }
      night :=
        match w.service.checkImage c value with
        | .ok _ => some (.write c value)
        | .error _ => some (.undo c (w.service.override c)) }

/-- The value that was asked for comes back, or else the one the caller names. -/
def clearImageOverride (c : ImageControl) (fallback : ℤ) : World :=
  match w.night with
  | some _ => w
  | none =>
    let back := if w.service.requested c < 0 then fallback else w.service.requested c
    { w with
      service := { w.service with override := update w.service.override c (-1) }
      night := if 0 ≤ back then some (.giveBack c back) else none }

def nightNext (eff : ℤ) : World :=
  match w.night, w.pipeline with
  | some (.write c value), .running => { w.write c value with night := some (.note c eff) }
  | some (.write _ _), .down => { w with night := none }
  | some (.note c eff), _ => { w.noted c eff with night := none }
  | some (.undo c before), _ =>
    { w with
      service := { w.service with override := update w.service.override c before }
      night := none }
  | some (.giveBack c value), _ =>
    match w.service.checkImage c value with
    | .error _ => { w with night := none }
    | .ok _ =>
      if 0 ≤ w.service.override c then { w with night := none }
      else { w with night := some (.write c value) }
  | _, _ => w

/-- The call that waits for the start returns. -/
def wake : Option ℕ → World
  | some i => w.setHttp i none
  | none => w

/-- What is set again after a start: a held control wins. -/
def wanted (c : ImageControl) : ℤ :=
  if 0 ≤ w.service.override c then w.service.override c else w.service.requested c

/-- One step of `apply_images_after_start`, and the end of the start. -/
def applyNext (eff : ℤ) : World :=
  match w.pipeline with
  | .opening thread =>
    { w with
      pipeline := .applying thread w.wanted (if w.service.image then ImageControl.all else []) }
  | .applying thread values (c :: todo) =>
    if values c < 0 then { w with pipeline := .applying thread values todo }
    else { w.write c (values c) with pipeline := .noting thread values c eff todo }
  | .noting thread values c eff todo =>
    { w.noted c eff with pipeline := .applying thread values todo }
  | .applying thread _ [] => { w with pipeline := .running }.wake thread
  | _ => w

def start : World :=
  match w.pipeline with
  | .down => { w with isp := fun _ => none, pipeline := .opening none }
  | _ => w

/-- A start that fails has not come to the image controls. -/
def fail : World :=
  match w.pipeline with
  | .opening thread => { w with pipeline := .down }.wake thread
  | _ => w

def stop : World :=
  match w.pipeline with
  | .running => { w with pipeline := .down }
  | _ => w

end World

def World.next (w : World) : Step → World
  | .setImage i c value record => w.setImage i c value record
  | .clearImage i c => w.clearImage i c
  | .http i eff => w.httpNext i eff
  | .setImageOverride c value => w.setImageOverride c value
  | .clearImageOverride c fallback => w.clearImageOverride c fallback
  | .night eff => w.nightNext eff
  | .start => w.start
  | .fail => w.fail
  | .stop => w.stop
  | .apply eff => w.applyNext eff

end Machino.Media
