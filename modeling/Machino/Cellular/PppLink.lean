import Machino.Cellular.EcmLink

namespace Machino.Cellular

open Effects

def kNegotiateWaitMs : ℕ := 12000

def kDialWaitMs : ℕ := 8000

/-- Why `pppd` has stopped. -/
inductive PppExit where
  | none | ok | noDevice | dialFailed | authFailed | negotiationFailed | linkTerminated | other
  deriving DecidableEq, Repr

/-- What the process is started with. -/
structure PppRequest where
  tty : Text := []
  baud : ℕ := 115200
  apn : Text := []
  dial : Text := []
  pdp : PdpType := .ipv4
  auth : AuthMode := .none
  username : Text := []
  password : Text := []
  deriving DecidableEq, Repr

structure PppStatus where
  running : Bool := false
  ifname : Text := []
  address : LinkAddress := {}
  exit : PppExit := .none
  detail : String := ""
  deriving DecidableEq, Repr

namespace PppLink

/-- The clock and the calls into the modem's port and the backend. -/
inductive Call where
  | now
  | command (cmd : Text) (timeoutMs : ℕ)
  | status
  | start (req : PppRequest)
  | stop
  | note (n : LinkNote)
  deriving DecidableEq

/-- A status that could not be read is none; the start is answered with whether it went well. -/
abbrev Answer : Call → Type
  | .now => ℕ
  | .command _ _ => AtExchange
  | .status => Option PppStatus
  | .start _ => Bool
  | .stop | .note _ => Unit

end PppLink

abbrev Ppp := Prog PppLink.Call PppLink.Answer

structure PppLink where
  cfg : CellularConfig := {}
  st : CellularLinkState := { kind := .ppp }
  modemTty : Text := []
  wantUp : Bool := false
  nextDueMs : ℕ := 0
  negotiateDeadlineMs : ℕ := 0
  /-- A process has been asked for. -/
  started : Bool := false
  deriving DecidableEq, Repr

namespace PppLink

def now : Ppp ℕ := Prog.perform Call.now
def command (cmd : Text) (timeoutMs : ℕ) : Ppp AtExchange := Prog.perform (Call.command cmd timeoutMs)
def pppStatus : Ppp (Option PppStatus) := Prog.perform Call.status
def start (req : PppRequest) : Ppp Bool := Prog.perform (Call.start req)
def stop : Ppp Unit := Prog.perform Call.stop
def note (n : LinkNote) : Ppp Unit := Prog.perform (Call.note n)

def enter (m : PppLink) (s : DataLinkState) (detail : String) : PppLink :=
  { m with st := m.st.enter s detail }

/-- A process that has been asked for is stopped. -/
def stopProcess (m : PppLink) : Ppp PppLink := do
  if m.started then
    stop
    return { m with started := false }
  return m

/-- Clearing up belongs to a failure: a process left over would keep the modem's port. -/
def fail (detail : String) (m : PppLink) : Ppp PppLink := do
  let attempts := m.st.attempts + 1
  let t ← now
  note (.failed attempts)
  let m ← stopProcess { m with
    st := { m.st with attempts := attempts }, nextDueMs := t + backoffMs attempts }
  return m.enter .failed detail

/-- A failed try is not yet to be repeated. -/
def waiting (m : PppLink) : Ppp Bool := do
  if m.st.state ≠ .failed ∨ m.nextDueMs = 0 then
    return false
  return (← now) < m.nextDueMs

def connect (m : PppLink) : Ppp PppLink := do
  if m.wantUp then
    return m
  note .lifecycle
  let m := { m with wantUp := true, st := { m.st with attempts := 0 }, nextDueMs := 0 }
  return m.enter .waitDevice "Verbindung angefordert"

def disconnect (m : PppLink) : Ppp PppLink := do
  note .lifecycle
  let m ← stopProcess { m with wantUp := false }
  let st := { m.st with interfaceName := [], address := {}, modemPdpAddress := [], attempts := 0 }
  return { m with st := st, nextDueMs := 0 }.enter .disabled "getrennt"

/-- What is said of a process that has stopped. -/
def exitDetail (tty : Text) (ps : PppStatus) : String :=
  match ps.exit with
  | .authFailed => "Authentifizierung abgelehnt - Benutzername oder Passwort pruefen"
  | .dialFailed => "kein CONNECT auf " ++ String.ofList tty ++ " - Einwahlnummer oder APN pruefen"
  | .negotiationFailed => "PPP-Aushandlung gescheitert"
  | .noDevice => "der Modem-Port ist verschwunden"
  | .linkTerminated => "die Gegenstelle hat die Verbindung beendet"
  | .none | .ok | .other => if ps.detail = "" then "pppd hat aufgehoert" else ps.detail

def connected (ps : PppStatus) (m : PppLink) : PppLink :=
  { m with
    st := { m.st with interfaceName := ps.ifname, address := ps.address, attempts := 0 }
    nextDueMs := 0 }.enter .up ("verbunden ueber " ++ String.ofList ps.ifname)

/-- The link and the process negotiate, but not for ever. -/
def negotiate (ps : PppStatus) (m : PppLink) : Ppp PppLink := do
  let m := { m with st := { m.st with interfaceName := ps.ifname } }
  if m.negotiateDeadlineMs < (← now) then
    fail ("Aushandlung haengt (" ++ toString (kNegotiateWaitMs / 1000) ++
      " s ohne Ergebnis) - Abbruch und neuer Versuch") m
  else if ps.ifname = [] then
    return m.enter .dial "Einwahl laeuft"
  else
    return m.enter .negotiating ("Aushandlung auf " ++ String.ofList ps.ifname)

/-- A status that cannot be read does not mean that nothing runs. -/
def supervise (ps : Option PppStatus) (m : PppLink) : Ppp PppLink :=
  match ps with
  | none => return m.enter m.st.state "Zustand des PPP-Prozesses nicht lesbar"
  | some ps =>
    if !ps.running then
      fail (exitDetail m.modemTty ps) { m with started := false }
    else if ps.ifname ≠ [] ∧ ps.address.hasAddress then
      return m.connected ps
    else
      negotiate ps m

def pdpCommand (cfg : CellularConfig) : Text :=
  "AT+CGDCONT=1,\"".toList ++ pdpTypeName cfg.pdp ++ "\",\"".toList ++ cfg.apn ++ "\"".toList

def request (m : PppLink) : PppRequest where
  tty := m.modemTty
  apn := m.cfg.apn
  dial := if m.cfg.dial = [] then "*99***1#".toList else m.cfg.dial
  pdp := m.cfg.pdp
  auth := m.cfg.auth
  username := m.cfg.username
  password := m.cfg.password

/-- An old session is ended from the other port; that there is none is no failure. -/
def dial (m : PppLink) : Ppp PppLink := do
  if m.modemTty = [] then
    return m.enter .waitDevice "kein Modem-Port gefunden"
  else if m.cfg.apn = [] then
    fail "kein APN konfiguriert - ohne den weiss das Netz nicht, wohin" m
  else
    let m := m.enter .configurePdp "PDP-Kontext wird gesetzt"
    let _ ← command "AT+CGACT=0,1".toList 10000
    if !(← command (pdpCommand m.cfg) 3000).ok then
      fail "das Modem hat den APN abgelehnt" m
    else if !(← start m.request) then
      fail "der PPP-Prozess liess sich nicht starten" m
    else
      let t ← now
      return { m with
        started := true, negotiateDeadlineMs := t + kDialWaitMs + kNegotiateWaitMs }.enter
        .dial ("Einwahl mit " ++ String.ofList m.request.dial)

/-- The modem is there and answers. -/
def proceed (status : CellularStatus) (ps : Option PppStatus) (m : PppLink) : Ppp PppLink := do
  if ← waiting m then
    return m
  if status.sim ≠ .ready then
    return m.enter .waitSim
      (if status.simDetail = "" then "SIM nicht bereit" else status.simDetail)
  if !regIsRegistered status.registration then
    return m.enter .waitRegistration ("nicht im Netz: " ++ regStateName status.registration)
  if m.started then
    supervise ps m
  else
    dial m

/-- The modem is not there or does not answer, and what hung on it is gone too. -/
def modemGone (present : Bool) (m : PppLink) : Ppp PppLink := do
  let m ← stopProcess m
  let m := { m with st := { m.st with interfaceName := [], address := {} } }
  if present then
    return m.enter .waitAt "Modem antwortet nicht"
  else
    return m.enter .waitDevice "kein Modem"

def tick (status : CellularStatus) (m : PppLink) : Ppp PppLink := do
  note (.tick (status.present && status.responsive))
  if !m.wantUp then
    if m.st.state ≠ .disabled then disconnect m else return m
  else
    let ps ← pppStatus
    if !status.present || !status.responsive then
      modemGone status.present m
    else
      proceed status ps m

/-- What a run leaves behind: the time. -/
structure Trace where
  pace : Pace := {}
  deriving DecidableEq

/-- How long the next call takes and what it is answered; the clock has its own answer. -/
structure Outcome where
  elapsed : ℕ := 0
  answer : (e : Call) → Answer e

def Trace.answer (w : Trace) (o : Outcome) : (e : Call) → Answer e
  | .now => w.pace.clock + o.elapsed
  | .command cmd timeoutMs => o.answer (.command cmd timeoutMs)
  | .status => o.answer .status
  | .start req => o.answer (.start req)
  | .stop | .note _ => ()

/-- Commands and dials are tries. -/
def Trace.record (w : Trace) : Call → Trace
  | .command _ _ | .start _ => { w with pace := w.pace.tried }
  | .note n => { w with pace := w.pace.note n }
  | .now | .status | .stop => w

/-- A note takes no time. -/
def Call.time (o : Outcome) : Call → ℕ
  | .note _ => 0
  | _ => o.elapsed

def exec (e : Call) (o : Outcome) (w : Trace) : Answer e × Trace :=
  (w.answer o e, { w.record e with pace := (w.record e).pace.pass (e.time o) })

/-- The operations of the link, and the time between them. -/
inductive Job where
  | connect
  | disconnect
  | setConfig (c : CellularConfig)
  | setModemPort (tty : Text)
  | tick (status : CellularStatus)
  | wait
  deriving DecidableEq

def Job.run : Job → PppLink → Ppp PppLink
  | .connect, m => m.connect
  | .disconnect, m => m.disconnect
  | .setConfig c, m => return { m with cfg := c }
  | .setModemPort tty, m => return { m with modemTty := tty }
  | .tick status, m => m.tick status
  | .wait, m => do
    let _ ← now
    return m

def machine : Machine Call Answer Outcome Trace Job Empty PppLink where
  exec := exec
  job := Job.run
  boot b := b.elim

/-- A link that stands between two operations. -/
def idle (w : Trace) (m : PppLink) : State Call Answer Trace Job Empty PppLink where
  world := w
  job := .inl .wait
  proc := .ret m

end PppLink

end Machino.Cellular
