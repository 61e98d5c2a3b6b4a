import Machino.Core.Number
import Machino.Core.Result

namespace Machino.Night

structure NightPins where
  ircut : Bool
  ircutPin1 : Text
  ircutPin2 : Text
  ircutSingleInvert : Bool
  backlight : Bool
  backlightPin : Text
  lightSensorPin : Text
  lightSensorInvert : Bool
  lightMonitor : Bool
  colorToGray : Bool
  autoNightDelayS : ℤ
  autoDayDelayS : ℤ

/-- What the automation remembers. -/
structure Auto where
  inputPin : Text := []
  retryAtMs : ℤ := 0
  committed : Option Bool := none
  candidate : Option Bool := none
  candidateSinceMs : ℤ := 0
  raw : Option Bool := none
  pendingS : Option ℤ := none
  announced : Bool := false
  error : String := ""
  switchError : String := ""
  actuatorPending : Bool := false
  actuatorTries : ℕ := 0

structure NightService where
  night : Bool := false
  ircut : Bool := true
  /-- The direction the coil was pulsed in last. -/
  ircutDriven : Option Bool := none
  light : Bool := false
  defIrcutPin1 : Text := []
  defIrcutPin2 : Text := []
  defLightSensorPin : Text := []
  auto : Auto := {}

/-- The calls to the GPIO that put a level on a pin. -/
inductive Call where
  | configureOutput | write
  deriving DecidableEq

/-- What the pin is driven for. -/
inductive Use where
  | pulse | hold | light
  deriving DecidableEq

/-- The pins of the filter: one that holds a level, or the two ends of a coil. -/
inductive Wired (P : Type) where
  | one (pin : P) (invert : Bool)
  | two (pin1 pin2 : P)

/-- A call to the GPIO with how it went, or the filter's drive reporting success. -/
inductive Event (P : Type) where
  | call (c : Call) (use : Use) (pin : P) (level : Bool) (rc : Result)
  | drove (engaged : Bool) (w : Wired P)

/-- The service and what has happened, the latest first. -/
structure State (P : Type) where
  m : NightService
  log : List (Event P) := []

variable {P : Type}

def State.did (s : State P) (e : Event P) : State P := { s with log := e :: s.log }

/-- Names of a bank's letter and an index in it. -/
structure BankPinResolver where
  bankSize : ℕ := 32
  banks : ℕ := 6

def parseIndex (s : Text) (limit : ℕ) : Option ℕ :=
  if s = [] ∨ (1 < s.length ∧ s.head? = some '0') then none
  else s.foldl (fun v c => v.bind fun v =>
    if c.isDigit ∧ v * 10 + (c.toNat - '0'.toNat) ≤ limit then
      some (v * 10 + (c.toNat - '0'.toNat))
    else none) (some 0)

def BankPinResolver.resolve (r : BankPinResolver) (name : Text) : Option ℕ :=
  match name with
  | p :: letter :: index =>
    if (p = 'P' ∨ p = 'p') ∧ 'A' ≤ letter.toUpper ∧
        letter.toUpper.toNat - 'A'.toNat < r.banks then
      (parseIndex index (r.bankSize - 1)).map
        ((letter.toUpper.toNat - 'A'.toNat) * r.bankSize + ·)
    else none
  | _ => none

def BankPinResolver.nameOf (r : BankPinResolver) (number : ℤ) : Text :=
  if number < 0 ∨ r.banks * r.bankSize ≤ number then []
  else 'P' :: Char.ofNat ('A'.toNat + number.toNat / r.bankSize) ::
    Text.ofNat (number.toNat % r.bankSize)

/-- The names of pins: by their numbers, where there is a resolver, and what the GPIO makes of
them. -/
structure Gpio (P : Type) where
  nameOf : Option (ℤ → Text) := none
  resolve : Text → P

def BankPinResolver.gpio (r : BankPinResolver) : Gpio (Option ℕ) where
  nameOf := some r.nameOf
  resolve := r.resolve

def gpioErr (what : String) (pin : Text) (r : Result) : String :=
  let why := match r.status with
    | .busy => "pin is held by another driver"
    | .unsupported => "not supported on this platform"
    | .timeout => "timed out"
    | _ => "failed"
  what ++ " " ++ String.ofList pin ++ ": " ++ why ++
    if r.code ≠ 0 then " (code " ++ toString r.code ++ ")" else ""

/-- `pin_name_`. -/
def Gpio.pinName (g : Gpio P) (pin : Text) : Text :=
  if pin = [] then []
  else if pin.all Char.isDigit then
    match g.nameOf with
    | none => []
    | some nameOf => nameOf (Text.atoi pin)
  else pin

def secs (v : Text) (default : ℤ) : ℤ :=
  if v = [] then default
  else
    let n := Text.atoi v
    if 0 ≤ n ∧ n ≤ 3600 then n else default

/-- The settings as the store has them, over the board's defaults. -/
def NightService.pins (m : NightService) (get : String → Text) : NightPins :=
  let pin1 := get "night.ircut_pin1"
  let pin2 := get "night.ircut_pin2"
  let sensor := get "night.light_sensor_pin"
  let unset := pin1 = [] ∧ pin2 = []
  { ircut := get "night.ircut" = "true".toList
    ircutPin1 := if unset then m.defIrcutPin1 else pin1
    ircutPin2 := if unset then m.defIrcutPin2 else pin2
    ircutSingleInvert := get "night.ircut_single_invert" = "true".toList
    backlight := get "night.backlight" = "true".toList
    backlightPin := get "night.backlight_pin"
    lightSensorPin := if sensor = [] then m.defLightSensorPin else sensor
    lightSensorInvert := get "night.light_sensor_invert" = "true".toList
    lightMonitor := get "night.light_monitor" = "true".toList
    colorToGray := get "night.color_to_gray" ≠ "false".toList
    autoNightDelayS := secs (get "night.auto_night_delay") 3
    autoDayDelayS := secs (get "night.auto_day_delay") 3 }

/-- What the store and the GPIO answer while the filter is driven, the calls in their order. -/
structure IrcutAnswers where
  get : String → Text
  available : Bool := true
  config1 : Result := .ok
  config2 : Result := .ok
  write1 : Result := .ok
  write2 : Result := .ok
  write3 : Result := .ok

/-- The names of the filter's pins, the second for a coil only. -/
def Gpio.wiring (g : Gpio P) (p : NightPins) (available : Bool) :
    Except String (Text × Option Text) :=
  if !p.ircut then .error "the IR-cut filter is set to off in Day / Night settings"
  else if !available then .error "no GPIO on this platform"
  else if p.ircutPin1 = [] then .error "no IR-cut pin configured in Day / Night settings"
  else
    let n1 := g.pinName p.ircutPin1
    if n1 = [] then
      .error ("IR-cut pin 1 '" ++ String.ofList p.ircutPin1 ++ "': not a valid pin")
    else if p.ircutPin2 = [] then .ok (n1, none)
    else
      let n2 := g.pinName p.ircutPin2
      if n2 = [] then
        .error ("IR-cut pin 2 '" ++ String.ofList p.ircutPin2 ++ "': not a valid pin")
      else .ok (n1, some n2)

section drive

variable (g : Gpio P)

/-- One pin holds the level. -/
def hold (n1 : Text) (invert : Bool) (a : IrcutAnswers) (engaged : Bool) (s : State P) :
    Except String Unit × State P :=
  let level := engaged != invert
  let s := s.did (.call .configureOutput .hold (g.resolve n1) level a.config1)
  if !a.config1.isOk then (.error (gpioErr "IR-cut pin" n1 a.config1), s)
  else
    let s := s.did (.call .write .hold (g.resolve n1) level a.write1)
    if !a.write1.isOk then (.error (gpioErr "IR-cut pin" n1 a.write1), s)
    else ({ s with m.ircut := engaged }.did (.drove engaged (.one (g.resolve n1) invert))
      |> (.ok (), ·))

/-- One end of the coil is high for a while. -/
def pulse (n1 n2 : Text) (a : IrcutAnswers) (engaged : Bool) (s : State P) :
    Except String Unit × State P :=
  let hi := if engaged then n1 else n2
  let lo := if engaged then n2 else n1
  let s := s.did (.call .configureOutput .pulse (g.resolve hi) false a.config1)
  if !a.config1.isOk then (.error (gpioErr "IR-cut pin" hi a.config1), s)
  else
    let s := s.did (.call .configureOutput .pulse (g.resolve lo) false a.config2)
    if !a.config2.isOk then (.error (gpioErr "IR-cut pin" lo a.config2), s)
    else
      -- How the writes go is not looked at.
      let s := s.did (.call .write .pulse (g.resolve lo) false a.write1)
      let s := s.did (.call .write .pulse (g.resolve hi) true a.write2)
      let s := s.did (.call .write .pulse (g.resolve hi) false a.write3)
      ({ s with m.ircut := engaged, m.ircutDriven := some engaged }.did
        (.drove engaged (.two (g.resolve n1) (g.resolve n2))) |> (.ok (), ·))

/-- `drive_ircut_`. -/
def driveIrcut (a : IrcutAnswers) (engaged : Bool) (s : State P) :
    Except String Unit × State P :=
  let p := s.m.pins a.get
  match g.wiring p a.available with
  | .error e => (.error e, s)
  | .ok (n1, none) => hold g n1 p.ircutSingleInvert a engaged s
  | .ok (n1, some n2) =>
    if s.m.ircutDriven = some engaged then
      ({ s with m.ircut := engaged }.did (.drove engaged (.two (g.resolve n1) (g.resolve n2)))
        |> (.ok (), ·))
    else pulse g n1 n2 a engaged s

structure LightAnswers where
  get : String → Text
  available : Bool := true
  config : Result := .ok
  write : Result := .ok

/-- `drive_light_`. -/
def driveLight (a : LightAnswers) (on : Bool) (s : State P) : Except String Unit × State P :=
  let p := s.m.pins a.get
  if !p.backlight then (.error "the camera light is set to off in Day / Night settings", s)
  else if !a.available then (.error "no GPIO on this platform", s)
  else if p.backlightPin = [] then
    (.error "no light pin configured in Day / Night settings", s)
  else
    let bn := g.pinName p.backlightPin
    if bn = [] then
      (.error ("light pin '" ++ String.ofList p.backlightPin ++ "': not a valid pin"), s)
    else
      let s := s.did (.call .configureOutput .light (g.resolve bn) on a.config)
      if !a.config.isOk then (.error (gpioErr "light pin" bn a.config), s)
      else
        let s := s.did (.call .write .light (g.resolve bn) on a.write)
        if !a.write.isOk then (.error (gpioErr "light pin" bn a.write), s)
        else (.ok (), { s with m.light := on })

/-- What is answered to a request, in all it may ask for. -/
structure Answers where
  sensorGet : String → Text
  sensorAvailable : Bool := true
  input : Result := .ok
  read : Result := .ok
  level : Bool := false
  modeGet : String → Text
  /-- `set_image_override`, with its message where it fails. -/
  override : Except String Unit := .ok ()
  ircut : IrcutAnswers
  light : LightAnswers

/-- The mode can be set, which takes the image override at night. -/
def Answers.mode (a : Answers) (on : Bool) : Except String Unit :=
  match on, a.override with
  | true, .error e => .error (if e = "" then "running_mode could not be applied" else e)
  | _, _ => .ok ()

/-- The filter moves with the mode. -/
def NightPins.ircutFollows (p : NightPins) : Bool := p.ircut && p.ircutPin1 ≠ []

def NightPins.lightFollows (p : NightPins) : Bool := p.backlight && p.backlightPin ≠ []

/-- `set_night_locked_`, with the actuators' first error beside the result. -/
def setNightLocked (a : Answers) (on : Bool) (s : State P) :
    Except String Unit × Except String Unit × State P :=
  match a.mode on with
  | .error e => (.error e, .ok (), s)
  | .ok () =>
    let p := s.m.pins a.modeGet
    let s := { s with m.night := on }
    let (ae, s) := if p.ircutFollows then driveIrcut g a.ircut (!on) s else (.ok (), s)
    let (le, s) := if p.lightFollows then driveLight g a.light on s else (.ok (), s)
    (.ok (), match ae with | .error e => .error e | .ok () => le, s)

/-- The sensor does not tell. -/
def Auto.fail (auto : Auto) (why : String) : Auto × Option Bool :=
  ({ auto with error := why, raw := none, pendingS := none }, none)

/-- Whether it is dark, where the automation is on and its sensor can be read. -/
def sense (a : Answers) (p : NightPins) (now : ℤ) (auto : Auto) : Auto × Option Bool :=
  if !p.lightMonitor then
    ({ auto with
      committed := none, candidate := none, raw := none, pendingS := none
      announced := false, actuatorPending := false, actuatorTries := 0
      error := "", switchError := "" }, none)
  else if !a.sensorAvailable then auto.fail "no GPIO on this platform"
  else if p.lightSensorPin = [] then
    auto.fail "no daylight sensor pin configured in Day / Night settings"
  else
    let name := g.pinName p.lightSensorPin
    if name = [] then
      auto.fail ("daylight sensor pin '" ++ String.ofList p.lightSensorPin ++
        "': not a valid pin")
    else if auto.inputPin ≠ name ∧ now < auto.retryAtMs then (auto, none)
    else if auto.inputPin ≠ name ∧ !a.input.isOk then
      { auto with retryAtMs := now + 60000 }.fail (gpioErr "daylight sensor" name a.input)
    else if !a.read.isOk then
      { auto with inputPin := [], retryAtMs := now + 60000 }.fail
        (gpioErr "daylight sensor" name a.read)
    else
      let dark := a.level != p.lightSensorInvert
      ({ auto with inputPin := name, error := "", raw := some dark }, some dark)

/-- A switch that is due: for the first time, or again for an actuator that failed. -/
structure Switch where
  dark : Bool
  again : Bool

def due (p : NightPins) (now : ℤ) (dark night : Bool) (auto : Auto) : Auto × Option Switch :=
  match auto.committed with
  | none => ({ auto with announced := true }, some { dark, again := false })
  | some committed =>
    if dark = committed then
      let auto := { auto with candidate := none, pendingS := none }
      if !auto.actuatorPending then (auto, none)
      else if night = dark then (auto, some { dark, again := true })
      else ({ auto with actuatorPending := false }, none)
    else
      let auto := if auto.candidate = some dark then auto else
        { auto with candidate := some dark, candidateSinceMs := now, switchError := "" }
      let needMs := (if dark then p.autoNightDelayS else p.autoDayDelayS) * 1000
      let leftMs := needMs - (now - auto.candidateSinceMs)
      if 0 < leftMs then ({ auto with pendingS := some ((leftMs + 999) / 1000) }, none)
      else (auto, some { dark, again := false })

/-- What `tick` finds before it switches. -/
def plan (a : Answers) (now : ℤ) (m : NightService) : Auto × Option Switch :=
  let p := m.pins a.sensorGet
  match sense g a p now m.auto with
  | (auto, none) => (auto, none)
  | (auto, some dark) => due p now dark m.night auto

/-- After a switch; one whose mode failed stays due. -/
def Auto.applied (auto : Auto) (dark : Bool) : Except String Unit → Except String Unit → Auto
  | .error e, _ => { auto with switchError := e, pendingS := some 0 }
  | .ok (), .error ae => { auto with
      committed := some dark, candidate := none, pendingS := none
      switchError := ae, actuatorPending := true, actuatorTries := 0 }
  | .ok (), .ok () => { auto with
      committed := some dark, candidate := none, pendingS := none
      switchError := "", actuatorPending := false }

/-- After another attempt at an actuator; the fifth is the last. -/
def Auto.retried (auto : Auto) : Except String Unit → Auto
  | .ok () => { auto with actuatorPending := false, switchError := "" }
  | .error ae => { auto with
      actuatorTries := auto.actuatorTries + 1, switchError := ae
      actuatorPending := !decide (5 ≤ auto.actuatorTries + 1) }

def tick (a : Answers) (now : ℤ) (s : State P) : State P :=
  match plan g a now s.m with
  | (auto, none) => { s with m.auto := auto }
  | (auto, some sw) =>
    let (e, ae, s) := setNightLocked g a sw.dark { s with m.auto := auto }
    { s with m.auto := if sw.again then s.m.auto.retried ae else s.m.auto.applied sw.dark e ae }

inductive Op where
  | setNight (on : Bool)
  | toggleNight
  | toggleIrcut
  | toggleLight
  | tick (now : ℤ)

/-- A request or a tick, with what is answered meanwhile. -/
structure Request extends Answers where
  op : Op

def step (s : State P) (i : Request) : State P :=
  match i.op with
  | .setNight on => (setNightLocked g i.toAnswers on s).2.2
  | .toggleNight => (setNightLocked g i.toAnswers (!s.m.night) s).2.2
  | .toggleIrcut => (driveIrcut g i.ircut (!s.m.ircut) s).2
  | .toggleLight => (driveLight g i.light (!s.m.light) s).2
  | .tick now => tick g i.toAnswers now s

end drive

end Machino.Night
