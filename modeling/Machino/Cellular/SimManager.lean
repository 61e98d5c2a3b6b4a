import Machino.Basic.Effects
import Machino.Cellular.AtParse
import Machino.Cellular.CellularConfig

namespace Machino.Cellular

open Effects

/-- What the service asks of the modem's port and of the note kept across restarts. -/
inductive ModemCall where
  | available
  | command (cmd : Text) (timeoutMs : ℕ)
  | loadNote
  | storeNote (token : Text)

abbrev ModemAnswer : ModemCall → Type
  | .available => Bool
  | .command _ _ => AtExchange
  | .loadNote => Option Text
  | .storeNote _ => Unit

abbrev Modem := Prog ModemCall ModemAnswer

def available : Modem Bool := Prog.perform ModemCall.available

def command (cmd : Text) (timeoutMs : ℕ) : Modem AtExchange :=
  Prog.perform (ModemCall.command cmd timeoutMs)

/-- A question with the timeout the port has by default. -/
def ask (cmd : String) : Modem AtExchange := command cmd.toList 3000

def loadNote : Modem (Option Text) := Prog.perform ModemCall.loadNote

def storeNote (token : Text) : Modem Unit := Prog.perform (ModemCall.storeNote token)

def fnv1a (s : Text) : UInt32 :=
  s.foldl (fun h c => (h ^^^ UInt32.ofNat c.toNat) * 16777619) 2166136261

def hex8 (n : UInt32) : Text :=
  let digits := Nat.toDigits 16 n.toNat
  List.replicate (8 - digits.length) '0' ++ digits

/-- Length and checksum of a PIN, from which it cannot be read. -/
def simAttemptToken (pin : Text) : Text :=
  if pin = [] then [] else Nat.toDigits 10 pin.length ++ ':' :: hex8 (fnv1a pin)

theorem simAttemptToken_ne_nil {pin : Text} (h : pin ≠ []) : simAttemptToken pin ≠ [] := by
  unfold simAttemptToken
  rw [if_neg h]
  simp

structure SimSnapshot where
  state : SimState := .unknown
  detail : String := ""
  pinAttempted : Bool := false
  pinRejected : Bool := false
  deriving DecidableEq, Repr

/-- The manager, with the note of the PIN last tried. -/
structure SimManager where
  last : SimSnapshot := {}
  attemptLog : Text := []
  loaded : Bool := false
  deriving DecidableEq, Repr

def SimManager.alreadyFailedFor (m : SimManager) (pin : Text) : Bool :=
  simAttemptToken pin ≠ [] && simAttemptToken pin = m.attemptLog

def rememberAttempt (m : SimManager) (pin : Text) : Modem SimManager := do
  storeNote (simAttemptToken pin)
  return { m with attemptLog := simAttemptToken pin }

def forgetAttempt (m : SimManager) : Modem SimManager := do
  storeNote []
  return { m with attemptLog := [] }

/-- The note of an earlier process counts from the first round on. -/
def reloadNote (m : SimManager) : Modem SimManager := do
  if m.loaded then
    return m
  match ← loadNote with
  | some token => return { m with attemptLog := token, loaded := true }
  | none => return { m with loaded := true }

def SimManager.report (m : SimManager) (s : SimSnapshot) : SimSnapshot × SimManager :=
  (s, { m with last := s })

def cpinCommand (pin : Text) : Text := "AT+CPIN=\"".toList ++ pin ++ "\"".toList

/-- The note is set before the PIN is sent: what counts is the attempt, not how it ends. -/
def unlock (m : SimManager) (pin : Text) : Modem (SimSnapshot × SimManager) := do
  let m ← rememberAttempt m pin
  let reply ← command (cpinCommand pin) 10000
  if !reply.ok then
    return m.report {
      state := .pinRequired, pinAttempted := true, pinRejected := true, detail := "PIN abgelehnt" }
  let after ← ask "AT+CPIN?"
  if parseCpin after.raw = .ready then
    let m ← forgetAttempt m
    return m.report {
      state := .ready, pinAttempted := true, detail := "SIM bereit (mit PIN entsperrt)" }
  return m.report {
    state := parseCpin after.raw, pinAttempted := true
    detail := "PIN gesendet, SIM meldet noch kein READY" }

/-- Asks for the state of the SIM, and unlocks it where that is needed and allowed. -/
def ensureReady (m : SimManager) (pin : Text) : Modem (SimSnapshot × SimManager) := do
  let m ← reloadNote m
  let r ← ask "AT+CPIN?"
  if r.deviceGone then
    return m.report { detail := "Modem nicht erreichbar" }
  if r.timedOut then
    return m.report { detail := "keine Antwort auf AT+CPIN?" }
  let state := parseCpin r.raw
  match state with
  | .ready =>
    let m ← forgetAttempt m
    return m.report { state, detail := "SIM bereit" }
  | .pukRequired =>
    return m.report {
      state, detail := "SIM gesperrt - PUK noetig, nur ausserhalb der Kamera entsperrbar" }
  | .notInserted => return m.report { state, detail := "keine SIM erkannt" }
  | .unknown | .error => return m.report { state, detail := "SIM-Zustand unklar" }
  | .pinRequired =>
    if pin = [] then
      return m.report { state, detail := "SIM verlangt eine PIN, es ist keine konfiguriert" }
    if m.alreadyFailedFor pin then
      return m.report {
        state, pinAttempted := true, pinRejected := true
        detail := "PIN wurde bereits abgelehnt - kein weiterer Versuch (PUK-Schutz). " ++
          "PIN pruefen, dann neu starten" }
    unlock m pin

structure CellularStatus where
  present : Bool := false
  responsive : Bool := false
  identity : ModemIdentity := {}
  imei : Text := []
  sim : SimState := .unknown
  simDetail : String := ""
  registration : RegState := .unknown
  lastError : String := ""
  deriving DecidableEq, Repr

structure CellularService where
  cfg : CellularConfig := {}
  sim : SimManager := {}
  st : CellularStatus := {}
  identityRead : Bool := false
  deriving DecidableEq, Repr

/-- A changed PIN may be tried once again. -/
def setConfig (c : CellularConfig) (svc : CellularService) : Modem CellularService := do
  if c.simPin ≠ svc.cfg.simPin then
    let sim ← forgetAttempt svc.sim
    return { svc with sim := sim, cfg := c }
  return { svc with cfg := c }

/-- Who the modem is does not change, and is asked for until it has answered. -/
def readIdentity (svc : CellularService) (s : CellularStatus) :
    Modem (CellularStatus × Bool) := do
  if svc.identityRead then
    return ({ s with identity := svc.st.identity, imei := svc.st.imei }, true)
  let identity := parseAti (← ask "ATI").payload
  let imei := firstNumericLine (← ask "AT+CGSN").payload
  return ({ s with identity := identity, imei := imei },
    identity.model ≠ [] || imei ≠ [])

/-- The registration and, where there is one, the questions that make sense only then. -/
def readNetwork (s : CellularStatus) : Modem CellularStatus := do
  let _ ← ask "AT+QCCID"
  let _ ← ask "AT+CIMI"
  let registration := parseCereg (← ask "AT+CEREG?").raw
  let s := { s with registration := registration }
  let _ ← ask "AT+CSQ"
  if regIsRegistered registration then
    let _ ← ask "AT+COPS?"
    let _ ← ask "AT+QNWINFO"
    let _ ← ask "AT+QENG=\"servingcell\""
    let _ ← ask "AT+CGPADDR"
    return s
  return { s with lastError := "nicht registriert: " ++ regStateName registration }

/-- One round of questions, which ends as soon as something is missing. -/
def poll (svc : CellularService) : Modem CellularService := do
  let s : CellularStatus := { present := ← available }
  if !s.present then
    return { svc with st := { s with lastError := "kein AT-Port - Modem nicht erkannt" } }
  let ping ← command "AT".toList 2000
  if !ping.ok then
    let err := if ping.deviceGone then "Modem verschwunden"
      else if ping.timedOut then "keine Antwort auf AT" else "AT abgelehnt"
    return { svc with st := { s with lastError := err } }
  let (s, identityRead) ← readIdentity svc { s with responsive := true }
  let (snapshot, sim) ← ensureReady svc.sim svc.cfg.simPin
  let s := { s with sim := snapshot.state, simDetail := snapshot.detail }
  if s.sim ≠ .ready then
    let _ ← ask "AT+QCCID"
    return { svc with
      sim := sim, identityRead := identityRead, st := { s with lastError := snapshot.detail } }
  return { svc with sim := sim, identityRead := identityRead, st := ← readNetwork s }

open Effects

inductive SimLockAction where
  | status | enable | disable | change
  deriving DecidableEq, Repr

structure SimLockRequest where
  action : SimLockAction := .status
  pin : Text := []
  newPin : Text := []
  deriving DecidableEq, Repr

def pinWellFormed (pin : Text) : Bool :=
  4 ≤ pin.length && pin.length ≤ 8 && pin.all Char.isDigit

/-- Only the form: whether the card takes the PIN is known when the action is carried out. -/
def SimLockRequest.check (r : SimLockRequest) : Except String Unit :=
  match r.action with
  | .enable | .disable => ensure (pinWellFormed r.pin) "a SIM PIN is 4 to 8 digits"
  | .change =>
    ensure (pinWellFormed r.pin && pinWellFormed r.newPin)
      "the current and the new PIN are 4 to 8 digits each"
  | .status => .ok ()

structure SimLockReport where
  action : SimLockAction
  ok : Bool := false
  detail : String := ""
  enabled : Option Int := none
  counters : PinCounters := {}
  cpin : Text := []
  deriving DecidableEq, Repr

/-- The error code and never the raw text, which has the PIN in it. -/
def cmeOf (x : AtExchange) : String :=
  let cme := atExtract x.raw "+CME ERROR:"
  if cme ≠ [] then " (+CME ERROR: " ++ String.ofList cme ++ ")"
  else if x.timedOut then " (no answer)"
  else if x.deviceGone then " (modem gone)"
  else ""

def quoted (s : Text) : Text := "\"".toList ++ s ++ "\"".toList

def clckCommand (enable : Bool) (pin : Text) : Text :=
  "AT+CLCK=\"SC\",".toList ++ (if enable then '1' else '0') :: ',' :: quoted pin

def cpwdCommand (pin newPin : Text) : Text :=
  "AT+CPWD=\"SC\",".toList ++ quoted pin ++ ',' :: quoted newPin

/-- What the card is asked to do, and the PIN to keep where it has done it. -/
def sendSimLock (r : SimLockRequest) : Modem (SimLockReport × Option Text) := do
  match r.action with
  | .enable | .disable =>
    let enable : Bool := r.action = .enable
    let x ← command (clckCommand enable r.pin) 10000
    if x.ok then
      let detail := if enable then "PIN lock enabled - the PIN is stored for the next connection"
        else "PIN lock disabled - the stored PIN was cleared"
      return ({ action := r.action, ok := true, detail := detail },
        some (if enable then r.pin else []))
    return ({ action := r.action
              detail := "the card rejected the request" ++ cmeOf x ++
                " - a wrong PIN costs one of the three attempts" }, none)
  | .change =>
    let x ← command (cpwdCommand r.pin r.newPin) 10000
    if x.ok then
      return ({ action := r.action, ok := true
                detail := "PIN changed - the new PIN is stored for the next connection" },
        some r.newPin)
    return ({ action := r.action
              detail := "the card rejected the change" ++ cmeOf x ++
                " - the lock must be enabled and the current PIN correct" }, none)
  | .status => return ({ action := r.action, ok := true, detail := "status read" }, none)

/-- The state of the lock goes with every report. -/
def runSimLock (r : SimLockRequest) : Modem (SimLockReport × Option Text) := do
  let (report, newPin) ← sendSimLock r
  let enabled := parseClck (← ask "AT+CLCK=\"SC\",2").raw
  let counters := parseQpinc (← ask "AT+QPINC=\"SC\"").raw
  let cpin := atExtract (← ask "AT+CPIN?").raw "+CPIN:"
  return ({ report with enabled, counters, cpin }, newPin)

/-- What is to be done once on the modem, and the report of the last SIM action. -/
structure ModemActions where
  nbRequested : Bool := false
  restartRequested : Bool := false
  simRequested : Option SimLockRequest := none
  report : Option SimLockReport := none
  deriving DecidableEq, Repr

namespace ModemActions

/-- `newPin` is the PIN to keep, where the card has changed it; empty to clear it. -/
structure Outcome where
  newPin : Option Text := none
  restarted : Bool := false
  deriving DecidableEq, Repr

def requestSimLock (r : SimLockRequest) (a : ModemActions) : Except String ModemActions := do
  ensure a.simRequested.isNone "a SIM action is already waiting"
  r.check
  return { a with simRequested := some r }

/-- What waits while no modem answers is reported and dropped. -/
def dropped (a : ModemActions) : ModemActions where
  report :=
    match a.simRequested with
    | some r => some { action := r.action, detail := "no modem answering - nothing sent" }
    | none => a.report

/-- At most one action, which is used up whatever comes of it. -/
def tick (s : CellularStatus) (a : ModemActions) : Modem (Outcome × ModemActions) := do
  if !s.present || !s.responsive then
    return ({}, a.dropped)
  if a.restartRequested then
    let _ ← command "AT+CFUN=1,1".toList 10000
    return ({ restarted := true }, { a with restartRequested := false })
  match a.simRequested with
  | some r =>
    let (report, newPin) ← runSimLock r
    return ({ newPin := newPin }, { a with simRequested := none, report := some report })
  | none =>
    if a.nbRequested then
      let _ ← command "AT+QENG=\"neighbourcell\"".toList 8000
      return ({}, { a with nbRequested := false })
    return ({}, a)

end ModemActions

end Machino.Cellular
