import Machino.Basic.Effects
import Machino.Basic.Ledger
import Machino.Basic.Runs
import Machino.Cellular.CellularConfig
import Machino.Cellular.SimManager

namespace Machino.Cellular

/-- One scale for both kinds of link; neither takes every state. -/
inductive DataLinkState where
  | disabled | waitDevice | waitAt | waitSim | waitRegistration | ensureEcmMode
  | waitReenumeration | configurePdp | startData | waitNetif | addressing | dial | negotiating
  | disconnecting | up | failed
  deriving DecidableEq, Repr

structure LinkAddress where
  ipv4 : Text := []
  netmask : Text := []
  gateway : Text := []
  dns1 : Text := []
  dns2 : Text := []
  mtu : Int := 0
  deriving DecidableEq, Repr

def LinkAddress.hasAddress (a : LinkAddress) : Bool := a.ipv4 ≠ []

structure CellularLinkState where
  state : DataLinkState := .disabled
  kind : DataLinkKind := .ecm
  interfaceName : Text := []
  address : LinkAddress := {}
  modemPdpAddress : Text := []
  nicMode : Bool := false
  detail : String := ""
  attempts : ℕ := 0
  deriving DecidableEq, Repr

def CellularLinkState.enter (st : CellularLinkState) (s : DataLinkState) (detail : String) :
    CellularLinkState := { st with state := s, detail := detail }

/-- Doubled at most so often, and not beyond the first value from 30 on. -/
def backoffLoop : ℕ → ℕ → ℕ
  | 0, s => s
  | n + 1, s => if s < 30 then backoffLoop n (s * 2) else s

def backoffMs : ℕ → ℕ
  | 0 => 0
  | n + 1 => min (backoffLoop n 2) 30 * 1000

theorem backoffLoop_eq (n s : ℕ) : min (backoffLoop n s) 30 = min (2 ^ n * s) 30 := by
  induction n generalizing s with
  | zero => simp [backoffLoop]
  | succ n ih =>
    unfold backoffLoop
    split
    · rw [ih, pow_succ, mul_assoc, mul_comm s 2]
    · rename_i hs
      have hge : s ≤ 2 ^ (n + 1) * s := Nat.le_mul_of_pos_left s (Nat.two_pow_pos _)
      rw [min_eq_right (by omega), min_eq_right (by omega)]

/-- 2, 4, 8, 16 and then always 30 seconds. -/
theorem backoffMs_succ (n : ℕ) : backoffMs (n + 1) = min (2 ^ (n + 1)) 30 * 1000 := by
  rw [backoffMs, backoffLoop_eq, pow_succ]

example : (List.range 7).map backoffMs = [0, 2000, 4000, 8000, 16000, 30000, 30000] := by decide

open Effects

/-- The modem is asked again only after so many milliseconds when it restarts. -/
def kReenumWaitMs : ℕ := 90000

def kNetifWaitMs : ℕ := 20000

def kDhcpWaitMs : ℕ := 30000

def kUnresponsiveTeardownTicks : ℕ := 3

/-- What a trace is told beside the calls of the code: a lifecycle begins or ends, a try fails for
the so-manieth time, and a tick finds the modem there and answering, or not. -/
inductive LinkNote where
  | lifecycle
  | failed (attempts : ℕ)
  | tick (there : Bool)
  deriving DecidableEq, Repr

namespace EcmLink

/-- The clock and the calls into the modem's port and the backend. The interface is looked for with
the name it is known under, if there is one. -/
inductive Call where
  | now
  | command (cmd : Text) (timeoutMs : ℕ)
  | findInterface (known : Option Text)
  | setUp (ifname : Text) (up : Bool)
  | dhcpStart (ifname : Text)
  | dhcpStop (ifname : Text)
  | readAddress (ifname : Text)
  | setAddress (ifname : Text) (a : LinkAddress)
  | teardown (ifname : Text)
  | note (n : LinkNote)
  deriving DecidableEq

abbrev Answer : Call → Type
  | .now => ℕ
  | .command _ _ => AtExchange
  | .findInterface _ => Option Text
  | .setUp _ _ | .dhcpStart _ | .dhcpStop _ | .setAddress _ _ => Bool
  | .readAddress _ => Option LinkAddress
  | .teardown _ | .note _ => Unit

end EcmLink

abbrev Ecm := Prog EcmLink.Call EcmLink.Answer

namespace EcmLink

def now : Ecm ℕ := Prog.perform Call.now
def command (cmd : Text) (timeoutMs : ℕ) : Ecm AtExchange := Prog.perform (Call.command cmd timeoutMs)
def findInterface (known : Option Text) : Ecm (Option Text) := Prog.perform (Call.findInterface known)
def setUp (ifname : Text) (up : Bool) : Ecm Bool := Prog.perform (Call.setUp ifname up)
def dhcpStart (ifname : Text) : Ecm Bool := Prog.perform (Call.dhcpStart ifname)
def dhcpStop (ifname : Text) : Ecm Bool := Prog.perform (Call.dhcpStop ifname)
def readAddress (ifname : Text) : Ecm (Option LinkAddress) := Prog.perform (Call.readAddress ifname)

def setAddress (ifname : Text) (a : LinkAddress) : Ecm Bool :=
  Prog.perform (Call.setAddress ifname a)

def teardown (ifname : Text) : Ecm Unit := Prog.perform (Call.teardown ifname)
def note (n : LinkNote) : Ecm Unit := Prog.perform (Call.note n)

/-- A question with the timeout the port has by default. -/
def ask (cmd : String) : Ecm AtExchange := command cmd.toList 3000

end EcmLink

structure EcmLink where
  cfg : CellularConfig := {}
  st : CellularLinkState := {}
  wantUp : Bool := false
  nextDueMs : ℕ := 0
  reenumDeadlineMs : ℕ := 0
  netifDeadlineMs : ℕ := 0
  dhcpDeadlineMs : ℕ := 0
  usbnetSwitchTried : Bool := false
  natSwitchTried : Bool := false
  dhcpRunning : Bool := false
  dhcpIface : Text := []
  unresponsiveTicks : ℕ := 0
  deriving DecidableEq, Repr

namespace EcmLink

def enter (m : EcmLink) (s : DataLinkState) (detail : String) : EcmLink :=
  { m with st := m.st.enter s detail }

/-- The next try is put off the longer the more have failed. -/
def fail (detail : String) (m : EcmLink) : Ecm EcmLink := do
  let attempts := m.st.attempts + 1
  let t ← now
  note (.failed attempts)
  let m := { m with st := { m.st with attempts := attempts }, nextDueMs := t + backoffMs attempts }
  return m.enter .failed detail

/-- A failed try is not yet to be repeated. -/
def waiting (m : EcmLink) : Ecm Bool := do
  if m.st.state ≠ .failed ∨ m.nextDueMs = 0 then
    return false
  return (← now) < m.nextDueMs

/-- The switches may be tried once more, the user has done something. -/
def connect (m : EcmLink) : Ecm EcmLink := do
  if m.wantUp then
    return m
  note .lifecycle
  let m := { m with
    wantUp := true, st := { m.st with attempts := 0 }, nextDueMs := 0
    usbnetSwitchTried := false, natSwitchTried := false }
  return m.enter .waitDevice "Verbindung angefordert"

/-- The running client is stopped where it was started. -/
def stopDhcp (m : EcmLink) : Ecm EcmLink := do
  if m.dhcpRunning then
    let _ ← dhcpStop m.dhcpIface
    return { m with dhcpRunning := false }
  return m

def forgetInterface (m : EcmLink) : EcmLink := { m with st := { m.st with interfaceName := [] } }

/-- An interface that is known is taken down, once. -/
def dropInterface (m : EcmLink) : Ecm EcmLink := do
  if m.st.interfaceName = [] then
    return m
  teardown m.st.interfaceName
  return m.forgetInterface

def disconnect (m : EcmLink) : Ecm EcmLink := do
  note .lifecycle
  let m ← stopDhcp { m with wantUp := false }
  let m ← dropInterface m
  let st := { m.st with address := {}, modemPdpAddress := [], attempts := 0 }
  return { m with st := st, nextDueMs := 0 }.enter .disabled "getrennt"

def rebootCommand : Text := "AT+CFUN=1,1".toList

/-- The modem keeps what is written here, and has to restart for it. -/
def switchMode (cmd : Text) (detail : String) (m : EcmLink) : Ecm EcmLink := do
  let _ ← command cmd 3000
  let _ ← command rebootCommand 10000
  let t ← now
  return { m with reenumDeadlineMs := t + kReenumWaitMs }.enter .waitReenumeration detail

def usbnetCommand : Text := "AT+QCFG=\"usbnet\",1".toList

def natCommand (nic : Bool) : Text := "AT+QCFG=\"nat\",".toList ++ (if nic then ['1'] else ['0'])

def wantNat (cfg : CellularConfig) : Int := if cfg.nicMode then 1 else 0

/-- The modem does what it says, and what is configured when it says nothing. -/
def settleNat (nat : Option Int) (m : EcmLink) : EcmLink :=
  { m with st := { m.st with nicMode := (nat.map fun v => decide (v = 1)).getD m.cfg.nicMode } }.enter
    .configurePdp "Betriebsart in Ordnung"

/-- Routing or the public address itself. A modem that stays as it is after a try is taken so. -/
def ensureNat (m : EcmLink) : Ecm EcmLink := do
  let nat := parseQcfgInt (← ask "AT+QCFG=\"nat\"").raw "nat"
  if nat.any (· ≠ wantNat m.cfg) && !m.natSwitchTried then
    switchMode (natCommand m.cfg.nicMode) "Betriebsart umgestellt, Modem startet neu"
      { m with natSwitchTried := true }
  else
    return m.settleNat nat

/-- The states behind the choice of the mode. -/
def modeSettled (s : DataLinkState) : Bool :=
  s = .configurePdp || s = .startData || s = .waitNetif || s = .addressing || s = .up

def ensureMode (m : EcmLink) : Ecm EcmLink := do
  if modeSettled m.st.state then
    return m
  let m := m.enter .ensureEcmMode "pruefe Betriebsart"
  match parseQcfgInt (← ask "AT+QCFG=\"usbnet\"").raw "usbnet" with
  | none => fail "AT+QCFG=\"usbnet\" nicht lesbar - Modus unbekannt, nichts umgestellt" m
  | some usbnet =>
    if usbnet = 1 then
      ensureNat m
    else if m.usbnetSwitchTried then
      fail ("Modem bleibt nach der Umstellung auf usbnet=" ++ toString usbnet ++
        " - ECM wird hier nicht unterstuetzt") m
    else
      switchMode usbnetCommand "auf ECM umgestellt, Modem startet neu"
        { m with usbnetSwitchTried := true }

def pdpCommand (cfg : CellularConfig) : Text :=
  "AT+CGDCONT=1,\"".toList ++ pdpTypeName cfg.pdp ++ "\",\"".toList ++ cfg.apn ++ "\"".toList

def credentialsCommand (cfg : CellularConfig) : Text :=
  let ctxType := if cfg.pdp = .ipv4v6 then "3" else "1"
  let auth := match cfg.auth with
    | .chap => "2"
    | .pap => "1"
    | .none => "0"
  "AT+QICSGP=1,".toList ++ ctxType.toList ++ ",\"".toList ++ cfg.apn ++ "\",\"".toList ++
    cfg.username ++ "\",\"".toList ++ cfg.password ++ "\",".toList ++ auth.toList

def configurePdp (m : EcmLink) : Ecm EcmLink := do
  if m.st.state ≠ .configurePdp then
    return m
  if m.cfg.apn = [] then
    fail "kein APN konfiguriert" m
  else if !(← command (pdpCommand m.cfg) 3000).ok then
    fail "AT+CGDCONT abgelehnt - APN oder PDP-Typ passt nicht" m
  else
    let _ ← command (credentialsCommand m.cfg) 3000
    return m.enter .startData "PDP-Kontext gesetzt"

def startData (m : EcmLink) : Ecm EcmLink := do
  if m.st.state ≠ .startData then
    return m
  if !(← command "AT+QNETDEVCTL=3,1".toList 10000).ok then
    fail "AT+QNETDEVCTL abgelehnt - Datenkanal kam nicht hoch" m
  else
    let t ← now
    return { m with netifDeadlineMs := t + kNetifWaitMs }.enter .waitNetif
      "Datenkanal an, warte auf das Interface"

/-- The interface that has appeared is the link's from here on. -/
def takeInterface (name : Text) (m : EcmLink) : Ecm EcmLink := do
  let m := { m with st := { m.st with interfaceName := name } }
  let _ ← setUp name true
  let t ← now
  return { m with dhcpDeadlineMs := t + kDhcpWaitMs }.enter .addressing
    ("Interface " ++ String.ofList name ++ " da")

def waitNetif (m : EcmLink) : Ecm EcmLink := do
  if m.st.state ≠ .waitNetif then
    return m
  match ← findInterface none with
  | some name => takeInterface name m
  | none =>
    if m.netifDeadlineMs < (← now) then
      fail "kein ECM-Netzwerkinterface erschienen - cdc_ether geladen?" m
    else
      return m

/-- The interface is gone, and with it what ran on it. -/
def interfaceGone (m : EcmLink) : Ecm EcmLink := do
  let m ← stopDhcp m
  fail "Interface verschwunden" m.forgetInterface

/-- The client runs from here on, if it could be started. -/
def startDhcp (m : EcmLink) : Ecm (Bool × EcmLink) := do
  if m.dhcpRunning then
    return (true, m)
  if ← dhcpStart m.st.interfaceName then
    return (true, { m with dhcpRunning := true, dhcpIface := m.st.interfaceName })
  return (false, m)

def connected (a : LinkAddress) (detail : String) (m : EcmLink) : EcmLink :=
  { m with st := { m.st with address := a, attempts := 0 } }.enter .up detail

/-- Without DHCP there may be the address the modem reports, unless its gateway is a DNS server. -/
def staticAddress (rdp : PdpContextParams) (m : EcmLink) : Ecm EcmLink := do
  let _ ← dhcpStop m.st.interfaceName
  let m := { m with dhcpRunning := false }
  let gwIsDns : Bool := rdp.gateway ≠ [] && (rdp.gateway = rdp.dns1 || rdp.gateway = rdp.dns2)
  let ipv4Usable : Bool := rdp.ipv4 ≠ [] && rdp.ipv4 ≠ "0.0.0.0".toList
  if !ipv4Usable || rdp.gateway = [] || gwIsDns then
    fail "DHCP lieferte keine Adresse" m
  else
    let s : LinkAddress := {
      ipv4 := rdp.ipv4, netmask := rdp.netmask, gateway := rdp.gateway
      dns1 := rdp.dns1, dns2 := rdp.dns2 }
    if ← setAddress m.st.interfaceName s then
      return m.connected s "verbunden (statisch aus CGCONTRDP, DHCP-Fallback)"
    else
      fail "DHCP lieferte keine Adresse" m

/-- An address by DHCP, or when its time is up the one the modem reports. -/
def awaitAddress (rdp : PdpContextParams) (m : EcmLink) : Ecm EcmLink := do
  let a := (← readAddress m.st.interfaceName).getD {}
  if a.hasAddress then
    return m.connected a "verbunden (DHCP)"
  else if m.dhcpDeadlineMs < (← now) then
    staticAddress rdp m
  else
    return m

def addressing (m : EcmLink) : Ecm EcmLink := do
  if (← findInterface (some m.st.interfaceName)) ≠ some m.st.interfaceName then
    interfaceGone m
  else
    let rdp := parseCgcontrdp (← ask "AT+CGCONTRDP=1").raw
    let (ok, m) ← startDhcp { m with st := { m.st with modemPdpAddress := rdp.ipv4 } }
    if ok then
      awaitAddress rdp m
    else
      fail "DHCP liess sich nicht starten" m

/-- A gap in what is read does not lose the gateway. -/
def bridgeGap (old a : LinkAddress) : LinkAddress :=
  if a.gateway = [] ∧ a.ipv4 = old.ipv4 ∧ old.gateway ≠ [] then
    { a with
      gateway := old.gateway
      dns1 := if a.dns1 = [] then old.dns1 else a.dns1
      dns2 := if a.dns2 = [] then old.dns2 else a.dns2 }
  else a

/-- An address that is lost is waited for, the client goes on. -/
def keepUp (m : EcmLink) : Ecm EcmLink := do
  if (← findInterface (some m.st.interfaceName)) ≠ some m.st.interfaceName then
    interfaceGone { m with st := { m.st with address := {} } }
  else
    let a := (← readAddress m.st.interfaceName).getD {}
    if a.hasAddress then
      return { m with st := { m.st with address := bridgeGap m.st.address a } }
    else
      let t ← now
      return { m with dhcpDeadlineMs := t + kDhcpWaitMs }.enter .addressing
        "Adresse verloren, hole neue"

/-- The steps in their order; one that ends the tick leaves a state none of the others works in. -/
def advance (m : EcmLink) : Ecm EcmLink := do
  let m ← ensureMode m
  let m ← configurePdp m
  let m ← startData m
  let m ← waitNetif m
  match m.st.state with
  | .addressing => addressing m
  | .up => keepUp m
  | _ => return m

/-- A restart is over when the modem answers. -/
def cameBack (m : EcmLink) : EcmLink :=
  if m.st.state = .waitReenumeration then m.enter .ensureEcmMode "Modem ist zurueck" else m

/-- The modem is there and answers. -/
def proceed (status : CellularStatus) (m : EcmLink) : Ecm EcmLink := do
  let m := m.cameBack
  if ← waiting m then
    return m
  if status.sim ≠ .ready then
    return m.enter .waitSim
      (if status.simDetail = "" then "SIM nicht bereit" else status.simDetail)
  if !regIsRegistered status.registration then
    return m.enter .waitRegistration ("nicht im Netz: " ++ regStateName status.registration)
  advance m

/-- The modem is not there or does not answer, and what hung on it is gone too. -/
def modemGone (present : Bool) (m : EcmLink) : Ecm EcmLink := do
  let m ← stopDhcp { m with unresponsiveTicks := 0 }
  let m := { m with st := { m.st with address := {} } }
  if m.st.state = .waitReenumeration then
    if m.reenumDeadlineMs < (← now) then
      fail "Modem kam nach dem Moduswechsel nicht zurueck" m
    else
      return m
  else if present then
    return m.enter .waitAt "Modem antwortet nicht"
  else
    return m.enter .waitDevice "kein Modem"

/-- The modem is silent on a standing connection, which outlives that a few times. -/
def tolerated (status : CellularStatus) (m : EcmLink) : Bool :=
  status.present && !status.responsive && (m.st.state = .up || m.st.state = .addressing) &&
    m.unresponsiveTicks + 1 < kUnresponsiveTeardownTicks

def tick (status : CellularStatus) (m : EcmLink) : Ecm EcmLink := do
  note (.tick (status.present && status.responsive))
  if !m.wantUp then
    if m.st.state ≠ .disabled then disconnect m else return m
  else if tolerated status m then
    return { m with unresponsiveTicks := m.unresponsiveTicks + 1 }
  else if !status.present || !status.responsive then
    modemGone status.present m
  else
    proceed status { m with unresponsiveTicks := 0 }

end EcmLink

open Effects Ledger

/-- The clock, when the next try is allowed, whether the modem has been gone since the last one
failed, and whether a try has been made before its time. -/
structure Pace where
  clock : ℕ := 0
  notBefore : ℕ := 0
  lapsed : Bool := false
  early : Bool := false
  deriving DecidableEq, Repr

namespace Pace

def pass (p : Pace) (ms : ℕ) : Pace := { p with clock := p.clock + ms }

/-- Something is asked of the modem for the sake of a connection. -/
def tried (p : Pace) : Pace := { p with early := p.early || p.clock < p.notBefore }

/-- A failed try puts the next one off. -/
def note (p : Pace) : LinkNote → Pace
  | .lifecycle => { p with notBefore := 0, lapsed := false }
  | .failed attempts => { p with notBefore := p.clock + backoffMs attempts, lapsed := false }
  | .tick there => { p with lapsed := p.lapsed || !there }

end Pace

/-- A modem that is registered, with its card ready. -/
def registered : CellularStatus where
  present := true
  responsive := true
  sim := .ready
  registration := .registeredHome

namespace EcmLink

/-- What a run leaves behind: the time, the DHCP clients started and stopped, and the commands. -/
structure Trace where
  pace : Pace := {}
  clients : List (Entry Text) := []
  commands : List Text := []
  deriving DecidableEq

/-- The clients that run: started and not yet stopped. -/
def Trace.running (w : Trace) : List Text := (held [] w.clients).getD []

/-- How long the next call takes and what it is answered; the clock has its own answer. -/
structure Outcome where
  elapsed : ℕ := 0
  answer : (e : Call) → Answer e

def Trace.answer (w : Trace) (o : Outcome) : (e : Call) → Answer e
  | .now => w.pace.clock + o.elapsed
  | .command cmd timeoutMs => o.answer (.command cmd timeoutMs)
  | .findInterface known => o.answer (.findInterface known)
  | .setUp ifname up => o.answer (.setUp ifname up)
  | .dhcpStart ifname => o.answer (.dhcpStart ifname)
  | .dhcpStop ifname => o.answer (.dhcpStop ifname)
  | .readAddress ifname => o.answer (.readAddress ifname)
  | .setAddress ifname a => o.answer (.setAddress ifname a)
  | .teardown _ | .note _ => ()

/-- A client that could not be started does not run. -/
def Trace.record (w : Trace) : (e : Call) → Answer e → Trace
  | .command cmd _, _ => { w with pace := w.pace.tried, commands := w.commands ++ [cmd] }
  | .dhcpStart ifname, ok =>
    if ok then { w with clients := w.clients ++ [.acquired ifname] } else w
  | .dhcpStop ifname, _ => { w with clients := w.clients ++ [.undone ifname] }
  | .note n, _ => { w with pace := w.pace.note n }
  | .now, _ | .findInterface _, _ | .setUp _ _, _ | .readAddress _, _ | .setAddress _ _, _
  | .teardown _, _ => w

/-- A note takes no time. -/
def Call.time (o : Outcome) : Call → ℕ
  | .note _ => 0
  | _ => o.elapsed

def exec (e : Call) (o : Outcome) (w : Trace) : Answer e × Trace :=
  (w.answer o e,
    { w.record e (w.answer o e) with
      pace := (w.record e (w.answer o e)).pace.pass (e.time o) })

/-- The operations of the link, and the time between them. -/
inductive Job where
  | connect
  | disconnect
  | setConfig (c : CellularConfig)
  | tick (status : CellularStatus)
  | wait
  deriving DecidableEq

def Job.run : Job → EcmLink → Ecm EcmLink
  | .connect, m => m.connect
  | .disconnect, m => m.disconnect
  | .setConfig c, m => return { m with cfg := c }
  | .tick status, m => m.tick status
  | .wait, m => do
    let _ ← now
    return m

def machine : Machine Call Answer Outcome Trace Job Empty EcmLink where
  exec := exec
  job := Job.run
  boot b := b.elim

/-- A link that stands between two operations. -/
def idle (w : Trace) (m : EcmLink) : State Call Answer Trace Job Empty EcmLink where
  world := w
  job := .inl .wait
  proc := .ret m

/-- A modem in ECM mode, with its interface under the name, the address given out and each call
taking so long. -/
def attached (name : Text) (address : Option LinkAddress) (elapsed : ℕ) : Outcome where
  elapsed := elapsed
  answer
    | .now => 0
    | .command cmd _ => {
        result := .ok
        raw := if cmd = "AT+QCFG=\"usbnet\"".toList then "+QCFG: \"usbnet\",1\n".toList
          else if cmd = "AT+QCFG=\"nat\"".toList then "+QCFG: \"nat\",1\n".toList
          else "OK\n".toList }
    | .findInterface _ => some name
    | .readAddress _ => address
    | .setUp _ _ | .dhcpStart _ | .dhcpStop _ | .setAddress _ _ => true
    | .teardown _ | .note _ => ()

end EcmLink

end Machino.Cellular
