import Machino.Cellular.Settings

namespace Machino.Usb

open Cellular (KeyValues boolText boolOf word)

inductive UsbPowerMode where
  | boardDefault | gpio | alwaysOn | none
  deriving DecidableEq, Repr

inductive UsbFunction where
  | off | wifi | cellular
  deriving DecidableEq, Repr

def usbPowerModeName : UsbPowerMode → Text
  | .boardDefault => "board-default".toList
  | .gpio => "gpio".toList
  | .alwaysOn => "always-on".toList
  | .none => "none".toList

def usbPowerModeParse (s : Text) : Option UsbPowerMode :=
  if s = "board-default".toList then some .boardDefault
  else if s = "gpio".toList then some .gpio
  else if s = "always-on".toList then some .alwaysOn
  else if s = "none".toList then some .none
  else Option.none

def usbFunctionName : UsbFunction → Text
  | .off => "off".toList
  | .wifi => "wifi".toList
  | .cellular => "cellular".toList

def usbFunctionParse (s : Text) : Option UsbFunction :=
  if s = "off".toList then some .off
  else if s = "wifi".toList then some .wifi
  else if s = "cellular".toList then some .cellular
  else none

def levelName (high : Bool) : Text := if high then "high".toList else "low".toList

/-- Whether the level is high. -/
def levelParse (s : Text) : Option Bool :=
  if s = "high".toList then some true
  else if s = "low".toList then some false
  else none

@[simp] theorem usbPowerModeParse_name (m : UsbPowerMode) :
    usbPowerModeParse (usbPowerModeName m) = some m := by
  cases m <;> decide

@[simp] theorem usbFunctionParse_name (f : UsbFunction) :
    usbFunctionParse (usbFunctionName f) = some f := by
  cases f <;> decide

@[simp] theorem levelParse_name (high : Bool) : levelParse (levelName high) = some high := by
  cases high <;> decide

structure UsbConfig where
  enabled : Bool := false
  mode : UsbPowerMode := .boardDefault
  pin : Text := []
  activeHigh : Bool := true
  enableAtBoot : Bool := true
  expert : Bool := false
  function : UsbFunction := .off
  storage : Bool := false
  deriving DecidableEq, Repr

/-- `reject_unknown` inside a member, whose name goes before the field's. -/
def rejectUnknownIn (o : Json) (allowed : List String) (place : String) : Except String Unit :=
  match o.members.find? fun m => !allowed.any fun a => m.1 = a.toList with
  | some m => .error ("unknown field: " ++ place ++ "." ++ String.ofList m.1)
  | none => .ok ()

def powerFromJson (p : Json) (next : UsbConfig) : Except String UsbConfig := do
  ensure p.isObject "power must be an object"
  rejectUnknownIn p ["mode", "pin", "activeLevel", "enableAtBoot", "expert"] "power"
  let mode ← getWord p "mode" 32 usbPowerModeParse
    "power.mode must be board-default, gpio, always-on or none" next.mode
  let pin ← getString p "pin" next.pin 32
  let activeHigh ← getWord p "activeLevel" 8 levelParse "power.activeLevel must be high or low"
    next.activeHigh
  let enableAtBoot ← getBool p "enableAtBoot" next.enableAtBoot
  let expert ← getBool p "expert" next.expert
  return { next with mode, pin, activeHigh, enableAtBoot, expert }

def usbConfigFromJson (body : Json) (cfg : UsbConfig) : Except String UsbConfig := do
  ensure body.isObject "body must be an object"
  rejectUnknown body ["enabled", "power", "mode", "storage"]
  let enabled ← getBool body "enabled" cfg.enabled
  let function ← getWord body "mode" 16 usbFunctionParse "mode must be off, wifi or cellular"
    cfg.function
  let storage ← getBool body "storage" cfg.storage
  ensure (!((body.get "storage").isSome && storage && function = .off))
    ("storage needs a port role: set mode to wifi or cellular first " ++
      "(with the port off nothing enumerates)")
  let next := { cfg with enabled, function, storage }
  match body.get "power" with
  | some p => powerFromJson p next
  | none => return next

/-- The last of them mirrors the role for older boot helpers. -/
def usbConfigToSettings (cfg : UsbConfig) : KeyValues :=
  [("usb.enabled", boolText cfg.enabled),
    ("usb.power.mode", usbPowerModeName cfg.mode),
    ("usb.power.pin", cfg.pin),
    ("usb.power.active_level", levelName cfg.activeHigh),
    ("usb.power.enable_at_boot", boolText cfg.enableAtBoot),
    ("usb.power.expert", boolText cfg.expert),
    ("usb.mode", usbFunctionName cfg.function),
    ("usb.storage", boolText cfg.storage),
    ("usb.wifi.enabled", boolText (cfg.function = .wifi))]

/-- The configuration as far as it is read, whether its role was given, and the older key. -/
structure UsbReading where
  next : UsbConfig
  haveMode : Bool := false
  legacyWifi : Option Bool := none
  deriving DecidableEq, Repr

def usbSetting (r : UsbReading) (kv : String × Text) : Except String UsbReading :=
  let v := kv.2
  match kv.1 with
  | "usb.enabled" => .ok { r with next.enabled := boolOf v }
  | "usb.wifi.enabled" => .ok { r with legacyWifi := some (boolOf v) }
  | "usb.mode" =>
    (word (usbFunctionParse v) ("usb.mode must be off, wifi or cellular, not: " ++
      String.ofList v)).map fun f => { r with next.function := f, haveMode := true }
  | "usb.storage" => .ok { r with next.storage := boolOf v || v = "on".toList }
  | "usb.power.pin" => .ok { r with next.pin := v }
  | "usb.power.enable_at_boot" => .ok { r with next.enableAtBoot := boolOf v }
  | "usb.power.expert" => .ok { r with next.expert := boolOf v }
  | "usb.power.active_level" =>
    (word (levelParse v) "usb.power.active_level must be high or low").map
      fun high => { r with next.activeHigh := high }
  | "usb.power.mode" =>
    (word (usbPowerModeParse v) ("usb.power.mode is not a known mode: " ++ String.ofList v)).map
      fun m => { r with next.mode := m }
  | _ => .ok r

/-- The older key counts only where the role is not given. -/
def usbConfigFromSettings (kvs : KeyValues) (cfg : UsbConfig) : Except String UsbConfig := do
  let r ← kvs.foldlM usbSetting { next := cfg }
  match r.haveMode, r.legacyWifi with
  | false, some wifi => return { r.next with function := if wifi then .wifi else .off }
  | _, _ => return r.next

section keys

variable (r : UsbReading)

theorem usbSetting_power_mode (m : UsbPowerMode) :
    usbSetting r ("usb.power.mode", usbPowerModeName m) = .ok { r with next.mode := m } := by
  cases m <;> rfl

theorem usbSetting_active_level (high : Bool) :
    usbSetting r ("usb.power.active_level", levelName high) =
      .ok { r with next.activeHigh := high } := by
  cases high <;> rfl

theorem usbSetting_mode (f : UsbFunction) :
    usbSetting r ("usb.mode", usbFunctionName f) =
      .ok { r with next.function := f, haveMode := true } := by
  cases f <;> rfl

theorem usbSetting_storage (on : Bool) :
    usbSetting r ("usb.storage", boolText on) = .ok { r with next.storage := on } := by
  cases on <;> rfl

theorem usbSetting_enabled (on : Bool) :
    usbSetting r ("usb.enabled", boolText on) = .ok { r with next.enabled := on } := by
  cases on <;> rfl

theorem usbSetting_enable_at_boot (on : Bool) :
    usbSetting r ("usb.power.enable_at_boot", boolText on) =
      .ok { r with next.enableAtBoot := on } := by
  cases on <;> rfl

theorem usbSetting_expert (on : Bool) :
    usbSetting r ("usb.power.expert", boolText on) = .ok { r with next.expert := on } := by
  cases on <;> rfl

theorem usbSetting_pin (pin : Text) :
    usbSetting r ("usb.power.pin", pin) = .ok { r with next.pin := pin } := rfl

theorem usbSetting_wifi (on : Bool) :
    usbSetting r ("usb.wifi.enabled", boolText on) = .ok { r with legacyWifi := some on } := by
  cases on <;> rfl

end keys

/-- Every configuration of the port is read back as it was. -/
theorem usbConfigFromSettings_toSettings (c cfg : UsbConfig) :
    usbConfigFromSettings (usbConfigToSettings c) cfg = .ok c := by
  have hread : (usbConfigToSettings c).foldlM usbSetting { next := cfg } =
      .ok { next := c, haveMode := true, legacyWifi := some (c.function = .wifi) } := by
    simp only [usbConfigToSettings, List.foldlM_cons, List.foldlM_nil, usbSetting_enabled,
      usbSetting_power_mode, usbSetting_pin, usbSetting_active_level, usbSetting_enable_at_boot,
      usbSetting_expert, usbSetting_mode, usbSetting_storage, usbSetting_wifi, bind, Except.bind]
    rfl
  unfold usbConfigFromSettings
  rw [hread]
  rfl

end Machino.Usb
