import Machino.Basic.Effects
import Machino.Basic.Ledger
import Machino.Core.Number
import Machino.Ipsec.IpsecConfig

namespace Machino.Ipsec

open Effects

inductive VpnState where
  | disabled | disconnected | connecting | ikeEstablished | childEstablished | failed
  deriving DecidableEq, Repr

inductive VpnFailure where
  | none | authenticationFailed | noProposalChosen | tsUnacceptable | transportTimeout
  | underlayLost | other
  deriving DecidableEq, Repr

/-- The part of a status the service acts on. -/
structure VpnStatus where
  daemonRunning : Bool := false
  state : VpnState := .disabled
  failure : VpnFailure := .none
  rawState : Text := []
  childGeneration : UInt32 := 0
  lastNotify : UInt32 := 0
  deriving DecidableEq, Repr

/-- An unknown name counts as failed. -/
def stateFromRaw (raw : Text) : VpnState :=
  if raw = "IDLE".toList then .disconnected
  else if raw = "SA_INIT_SENT".toList then .connecting
  else if raw = "SA_INIT_DONE".toList then .connecting
  else if raw = "AUTH_SENT".toList then .connecting
  else if raw = "IKE_SA_ESTABLISHED".toList then .ikeEstablished
  else if raw = "CHILD_SA_ESTABLISHED".toList then .childEstablished
  else if raw = "CLOSED".toList then .disconnected
  else .failed

def failureOf (lastNotify : UInt32) : VpnFailure :=
  if lastNotify = 24 then .authenticationFailed
  else if lastNotify = 14 then .noProposalChosen
  else if lastNotify = 38 then .tsUnacceptable
  else if lastNotify = 0 then .transportTimeout
  else .other

/-- One line of the daemon's answer; a line without `=` or with an unknown key says nothing. -/
def readLine (st : VpnStatus) (line : Text) : VpnStatus :=
  let line := Text.trim line
  let k := line.takeWhile (· ≠ '=')
  let v := (line.dropWhile (· ≠ '=')).drop 1
  if k = line then st
  else if k = "state".toList then { st with rawState := v }
  else if k = "child_generation".toList then { st with childGeneration := Text.strtoul v }
  else if k = "last_notify".toList then { st with lastNotify := Text.strtoul v }
  else st

def parseStatus (text : Text) (daemonRunning enabled : Bool) : VpnStatus :=
  if !daemonRunning then
    { daemonRunning := daemonRunning, state := if enabled then .disconnected else .disabled }
  else
    let st := (text.splitOn '\n').foldl readLine { daemonRunning := daemonRunning }
    let st := { st with state := stateFromRaw st.rawState }
    if st.state = .failed then { st with failure := failureOf st.lastNotify } else st

def reconnectDelayMs : ℕ → UInt32
  | 0 | 1 => 0
  | 2 => 2000
  | 3 => 5000
  | 4 => 10000
  | _ => 30000

/-- The host route that keeps the traffic to the gateway on the underlay. -/
structure PeerRoute where
  peerIp : Text := []
  ifname : Text := []
  gatewayIp : Text := []
  deriving DecidableEq, Repr

structure UnderlayView where
  usable : Bool := false
  kind : Text := []
  ifname : Text := []
  ipv4 : Text := []
  gateway : Text := []
  deriving DecidableEq, Repr

structure Session where
  active : Bool := false
  lost : Bool := false
  underlayKind : Text := []
  ifname : Text := []
  ipv4 : Text := []
  gatewayIp : Text := []
  peerIp : Text := []
  peerRoute : Bool := false
  deriving DecidableEq, Repr

def Session.route (s : Session) : PeerRoute := ⟨s.peerIp, s.ifname, s.gatewayIp⟩

structure IpsecService where
  /-- Whether a provider of uplinks is wired. -/
  uplinks : Bool := true
  session : Session := {}
  manualStop : Bool := false
  reconnectAttempt : ℕ := 0
  nextReconnectMs : UInt32 := 0
  reconnectScheduled : Bool := false
  lastChildGen : UInt32 := 0
  rekeyUntilMs : UInt32 := 0
  rng : UInt32 := 0x9e3779b9
  bootChecked : Bool := false
  cachedGateway : Text := []
  cachedPeerIp : Text := []
  deriving DecidableEq, Repr

inductive DaemonKey where
  | psk | eapPassword
  deriving DecidableEq, Repr

/-- What a trace is told beside the calls of the code: who asks for a connection, and what is
written to `reconnect_scheduled_`. -/
inductive Note where
  | connect | disconnect | autoConnect
  | scheduled (on : Bool)
  deriving DecidableEq, Repr

/-- The calls into the backend, the uplinks and the two files. -/
inductive Effect where
  | config
  | daemonKey (k : DaemonKey)
  | daemonRunning
  | startDaemon
  | stopDaemon
  | ctlStatus
  | resolve4 (host : Text)
  | select (wanted : Underlay)
  | addPeerRoute (r : PeerRoute)
  | delPeerRoute (r : PeerRoute)
  | sessionConf (c : IpsecConfig) (net : SessionNet)
  | writeSessionConf (c : IpsecConfig) (net : SessionNet)
  | writeCaPem (pem : Text)
  | writeExtraPem (pem : Text)
  | daemonConf (c : IpsecConfig) (secrets : IpsecSecrets)
  | writeDaemonConf (c : IpsecConfig) (secrets : IpsecSecrets)
  | writeMachinoConf (c : IpsecConfig)
  | note (n : Note)
  deriving DecidableEq

/-- A refusal comes with its reason, which may be empty. The file generated for the daemon is
answered with whether it has the credential. -/
abbrev Answer : Effect → Type
  | .config => IpsecConfig
  | .daemonKey _ | .daemonRunning | .sessionConf _ _ | .daemonConf _ _ => Bool
  | .startDaemon | .stopDaemon | .addPeerRoute _ | .delPeerRoute _ | .writeSessionConf _ _
  | .writeCaPem _ | .writeExtraPem _ | .writeDaemonConf _ _ | .writeMachinoConf _ =>
    Except String Unit
  | .ctlStatus => Option Text
  | .resolve4 _ => Option Text
  | .select _ => Except String UnderlayView
  | .note _ => Unit

abbrev Svc := Prog Effect Answer

def config : Svc IpsecConfig := Prog.perform Effect.config
def daemonKey (k : DaemonKey) : Svc Bool := Prog.perform (Effect.daemonKey k)
def daemonRunning : Svc Bool := Prog.perform Effect.daemonRunning
def startDaemon : Svc (Except String Unit) := Prog.perform Effect.startDaemon
def stopDaemon : Svc (Except String Unit) := Prog.perform Effect.stopDaemon
def ctlStatus : Svc (Option Text) := Prog.perform Effect.ctlStatus
def resolve4 (host : Text) : Svc (Option Text) := Prog.perform (Effect.resolve4 host)
def select (wanted : Underlay) : Svc (Except String UnderlayView) := Prog.perform (Effect.select wanted)
def addPeerRoute (r : PeerRoute) : Svc (Except String Unit) := Prog.perform (Effect.addPeerRoute r)
def delPeerRoute (r : PeerRoute) : Svc (Except String Unit) := Prog.perform (Effect.delPeerRoute r)

def sessionConf (c : IpsecConfig) (net : SessionNet) : Svc Bool :=
  Prog.perform (Effect.sessionConf c net)

def writeSessionConf (c : IpsecConfig) (net : SessionNet) : Svc (Except String Unit) :=
  Prog.perform (Effect.writeSessionConf c net)

def writeCaPem (pem : Text) : Svc (Except String Unit) := Prog.perform (Effect.writeCaPem pem)
def writeExtraPem (pem : Text) : Svc (Except String Unit) := Prog.perform (Effect.writeExtraPem pem)

def daemonConf (c : IpsecConfig) (secrets : IpsecSecrets) : Svc Bool :=
  Prog.perform (Effect.daemonConf c secrets)

def writeDaemonConf (c : IpsecConfig) (secrets : IpsecSecrets) : Svc (Except String Unit) :=
  Prog.perform (Effect.writeDaemonConf c secrets)

def writeMachinoConf (c : IpsecConfig) : Svc (Except String Unit) :=
  Prog.perform (Effect.writeMachinoConf c)

def note (n : Note) : Svc Unit := Prog.perform (Effect.note n)

/-- The reason given, or the one put in its place when it is empty. -/
def reasonOr (err default : String) : String := if err = "" then default else err

/-- Every write to `reconnect_scheduled_`. -/
def setScheduled (on : Bool) (m : IpsecService) : Svc IpsecService := do
  note (.scheduled on)
  return { m with reconnectScheduled := on }

/-- What is missing for the configured way of authentication, empty for nothing. -/
def missingCredential (c : IpsecConfig) : Svc String := do
  match c.auth with
  | .eapMschapv2 =>
    if c.eapUser = [] then
      return "kein EAP-Benutzer gesetzt"
    if !(← daemonKey .eapPassword) then
      return "kein EAP-Passwort gesetzt"
    return ""
  | .psk =>
    if !(← daemonKey .psk) then
      return "kein PSK gesetzt"
    return ""

/-- The underlay the connection is to use, or why there is none. -/
def selectUnderlay (c : IpsecConfig) (m : IpsecService) : Svc (Except String UnderlayView) := do
  if m.uplinks then
    match ← select c.underlay with
    | .error uerr => return .error (reasonOr uerr "kein nutzbares Underlay")
    | .ok uv =>
      if !uv.usable ∨ uv.ipv4 = [] ∨ uv.ifname = [] then
        return .error ("underlay '" ++ underlayName c.underlay ++ "': nicht nutzbar (keine Adresse)")
      return .ok uv
  else if c.underlay ≠ .auto then
    return .error ("underlay '" ++ underlayName c.underlay ++ "': kein Uplink-Provider verdrahtet")
  else
    return .ok {}

/-- The gateway's address, from the last connection when it may be reused. -/
def resolvePeer (preferCached : Bool) (c : IpsecConfig) (m : IpsecService) :
    Svc (Except String Text) := do
  if preferCached ∧ m.cachedGateway = c.gateway ∧ m.cachedPeerIp ≠ [] then
    return .ok m.cachedPeerIp
  let failed := "gateway '" ++ String.ofList c.gateway ++ "': DNS-Aufloesung fehlgeschlagen"
  match ← resolve4 c.gateway with
  | none => return .error failed
  | some ip => return if ip = [] then .error failed else .ok ip

/-- The peer route of a session that has one is deleted. -/
def dropRoute (s : Session) : Svc Unit := do
  if s.peerRoute then
    let _ ← delPeerRoute s.route

def teardownSession (lost : Bool) (m : IpsecService) : Svc IpsecService := do
  dropRoute m.session
  let kind := m.session.underlayKind
  return { m with session := { lost := lost, underlayKind := if lost then kind else [] } }

/-- The daemon's file is written for this connection and the daemon started on it. -/
def launch (c : IpsecConfig) (net : SessionNet) : Svc String := do
  if !(← sessionConf c net) then
    return "kein Credential gesetzt"
  match ← writeSessionConf c net with
  | .error err => return "weirdike.conf: " ++ err
  | .ok () =>
    match ← startDaemon with
    | .error err => return reasonOr err "Daemon-Start fehlgeschlagen"
    | .ok () => return ""

/-- The session of a daemon that has been started. -/
def IpsecService.open (m : IpsecService) (c : IpsecConfig) (uv : UnderlayView) (peerIp : Text) :
    IpsecService :=
  { m with
    session := { m.session with
      active := true, underlayKind := if m.uplinks then uv.kind else []
      ifname := uv.ifname, ipv4 := uv.ipv4, gatewayIp := uv.gateway, peerIp := peerIp }
    manualStop := false, cachedGateway := c.gateway, cachedPeerIp := peerIp }

/-- The peer route is added where there are uplinks. -/
def claimRoute (r : PeerRoute) (m : IpsecService) : Svc (Except String Unit) :=
  if m.uplinks then addPeerRoute r else return .ok ()

/-- The peer route first, then the daemon; a failure takes the session down again. -/
def establish (c : IpsecConfig) (uv : UnderlayView) (peerIp : Text) (m : IpsecService) :
    Svc (String × IpsecService) := do
  match ← claimRoute ⟨peerIp, uv.ifname, uv.gateway⟩ m with
  | .error err => return ("Peer-Route: " ++ reasonOr err "fehlgeschlagen", m)
  | .ok () =>
    let m := { m with session := { m.session with peerRoute := m.uplinks } }
    let err ← launch c { gatewayIp := peerIp, bindIp := uv.ipv4, bindDev := uv.ifname }
    if err ≠ "" then
      let m ← teardownSession false m
      return (err, m)
    let m ← setScheduled false (m.open c uv peerIp)
    return ("", m)

/-- `connect_`: empty when the daemon runs, otherwise why it does not. -/
def connectWith (preferCached : Bool) (m : IpsecService) : Svc (String × IpsecService) := do
  let c ← config
  if !c.enabled then
    return ("ipsec ist deaktiviert (enabled=false)", m)
  if c.gateway = [] then
    return ("kein Gateway konfiguriert", m)
  let missing ← missingCredential c
  if missing ≠ "" then
    return (missing, m)
  if ← daemonRunning then
    return ("", m)
  let m := { m with session := {} }
  match ← selectUnderlay c m with
  | .error err => return (err, m)
  | .ok uv =>
    match ← resolvePeer preferCached c m with
    | .error err => return (err, m)
    | .ok peerIp => establish c uv peerIp m

def connect (m : IpsecService) : Svc (String × IpsecService) := do
  note .connect
  connectWith false m

/-- Empty when the daemon does not run afterwards. -/
def stopIfRunning : Svc String := do
  if !(← daemonRunning) then
    return ""
  match ← stopDaemon with
  | .error err => return reasonOr err "Daemon-Stopp fehlgeschlagen"
  | .ok () => return ""

/-- The peer route goes even where the daemon could not be stopped. -/
def disconnect (m : IpsecService) : Svc (String × IpsecService) := do
  let m ← setScheduled false { m with manualStop := true, reconnectAttempt := 0 }
  note .disconnect
  let out ← stopIfRunning
  let m ← teardownSession false m
  return (out, m)

section validate

-- The checks of `validate`, empty for a valid configuration.
variable (validate : IpsecConfig → String)

/-- The credential the way of authentication needs is there. -/
def credentialOk (c : IpsecConfig) : Svc Bool := do
  match c.auth with
  | .eapMschapv2 => if c.eapUser = [] then return false else daemonKey .eapPassword
  | .psk => daemonKey .psk

/-- The next number of the jitter. -/
def nextRng (rng : UInt32) : UInt32 :=
  let rng := rng ^^^ (rng <<< 13)
  let rng := rng ^^^ (rng >>> 17)
  rng ^^^ (rng <<< 5)

/-- The next attempt, one more than the last, up to a quarter later than its delay. -/
def IpsecService.nextAttempt (m : IpsecService) (nowMs : UInt32) : IpsecService :=
  let attempt := m.reconnectAttempt + 1
  let rng := nextRng m.rng
  let base := reconnectDelayMs attempt
  let jit := if base = 0 then 0 else rng % (base / 4 + 1)
  { m with reconnectAttempt := attempt, rng := rng, nextReconnectMs := nowMs + base + jit }

/-- `schedule_reconnect_`: nothing is scheduled for a reason that lasts. -/
def scheduleReconnect (nowMs : UInt32) (c : IpsecConfig) (m : IpsecService) :
    Svc IpsecService := do
  if m.manualStop || !c.enabled then
    setScheduled false m
  else
    let credOk ← credentialOk c
    if validate c ≠ "" ∨ c.gateway = [] ∨ credOk = false then
      setScheduled false m
    else
      setScheduled true (m.nextAttempt nowMs)

/-- The clock has come to `t`, with the wrap of the 32 bits. -/
def reached (nowMs t : UInt32) : Bool := !((nowMs - t).toInt32 < 0)

/-- The first tick plans a connection when the configuration says so and there is none. -/
def autoStart (nowMs : UInt32) (c : IpsecConfig) (m : IpsecService) : Svc IpsecService := do
  if m.bootChecked then
    return m
  let m := { m with bootChecked := true }
  if !c.enabled || !c.autoConnect || m.session.active then
    return m
  if ← daemonRunning then
    return m
  scheduleReconnect validate nowMs c { m with reconnectAttempt := 0 }

/-- Whether the underlay the session is bound to has gone or changed. -/
def underlayLost (c : IpsecConfig) (m : IpsecService) : Svc Bool := do
  if !m.uplinks then
    return false
  match ← select c.underlay with
  | .error _ => return true
  | .ok uv => return !uv.usable || uv.ifname ≠ m.session.ifname || uv.ipv4 ≠ m.session.ipv4

/-- What a status that is `seen` changes: a rekey shows for three seconds, and a child that stands
ends the back-off. -/
def IpsecService.observe (m : IpsecService) (nowMs : UInt32) (seen : Bool) (s : VpnStatus) :
    IpsecService :=
  if seen then
    { m with
      rekeyUntilMs := if m.lastChildGen < s.childGeneration ∧ m.lastChildGen ≠ 0 then nowMs + 3000
        else m.rekeyUntilMs
      lastChildGen := if s.childGeneration ≠ 0 then s.childGeneration else m.lastChildGen
      reconnectAttempt := if s.state = .childEstablished then 0 else m.reconnectAttempt }
  else m

@[simp] theorem IpsecService.session_observe (m : IpsecService) (nowMs : UInt32) (seen : Bool)
    (s : VpnStatus) : (m.observe nowMs seen s).session = m.session := by
  unfold observe
  split <;> rfl

@[simp] theorem IpsecService.reconnectScheduled_observe (m : IpsecService) (nowMs : UInt32)
    (seen : Bool) (s : VpnStatus) :
    (m.observe nowMs seen s).reconnectScheduled = m.reconnectScheduled := by
  unfold observe
  split <;> rfl

/-- The window in which a rekey shows runs out. -/
def IpsecService.expireRekey (m : IpsecService) (nowMs : UInt32) : IpsecService :=
  if m.rekeyUntilMs ≠ 0 ∧ reached nowMs m.rekeyUntilMs then { m with rekeyUntilMs := 0 } else m

@[simp] theorem IpsecService.session_expireRekey (m : IpsecService) (nowMs : UInt32) :
    (m.expireRekey nowMs).session = m.session := by
  unfold expireRekey
  split <;> rfl

@[simp] theorem IpsecService.reconnectScheduled_expireRekey (m : IpsecService) (nowMs : UInt32) :
    (m.expireRekey nowMs).reconnectScheduled = m.reconnectScheduled := by
  unfold expireRekey
  split <;> rfl

/-- The running session is looked after: a lost one is taken down and scheduled again. -/
def superviseSession (nowMs : UInt32) (c : IpsecConfig) (m : IpsecService) :
    Svc IpsecService := do
  let moved ← underlayLost c m
  let text := (← ctlStatus).getD []
  let running : Bool := text ≠ []
  let s := parseStatus text running c.enabled
  let m := m.observe nowMs (!moved && running) s
  if moved ∨ !running ∨ s.state = .failed then
    let _ ← stopDaemon
    let m ← teardownSession true m
    scheduleReconnect validate nowMs c m
  else
    return m

/-- A scheduled attempt that is due is made, and the next one scheduled when it fails. -/
def retry (nowMs : UInt32) (c : IpsecConfig) (m : IpsecService) : Svc IpsecService := do
  if m.reconnectScheduled ∧ m.manualStop = false ∧ reached nowMs m.nextReconnectMs then
    let m ← setScheduled false m
    note .autoConnect
    let (e, m) ← connectWith true m
    if e ≠ "" then
      scheduleReconnect validate nowMs c m
    else
      return m
  else
    return m

def tick (nowMs : UInt32) (m : IpsecService) : Svc IpsecService := do
  let c ← config
  let m ← autoStart validate nowMs c m
  let m := m.expireRekey nowMs
  if m.session.active then
    superviseSession validate nowMs c m
  else
    retry validate nowMs c m

/-- A status is asked for, of which the session and the daemon's answer are the sources. -/
def status (m : IpsecService) : Svc VpnStatus := do
  let text := (← ctlStatus).getD []
  let running : Bool := text ≠ []
  let c ← config
  let st := parseStatus text running c.enabled
  return if m.session.lost ∧ !running then { st with state := .failed, failure := .underlayLost }
    else st

/-- A certificate file is written when there is a new one; empty when nothing went wrong. -/
def savePem (name : String) (pem : Text) (write : Text → Svc (Except String Unit)) :
    Svc String := do
  if pem = [] then
    return ""
  match ← write pem with
  | .error err => return name ++ ": " ++ err
  | .ok () => return ""

/-- The daemon's file, which carries the secret, and then the service's own. -/
def saveConf (c : IpsecConfig) (secrets : IpsecSecrets) : Svc String := do
  let credPresent ← daemonConf c secrets
  if c.enabled && !credPresent then
    let field := match c.auth with
      | .eapMschapv2 => "eapPassword"
      | .psk => "psk"
    return field ++ ": erforderlich, wenn enabled=true (write-only; einmal setzen genuegt)"
  match ← writeDaemonConf c secrets with
  | .error err => return "weirdike.conf: " ++ err
  | .ok () =>
    match ← writeMachinoConf c with
    | .error err => return "ipsec.conf: " ++ err
    | .ok () => return ""

/-- A new configuration is checked and stored; empty when it has been. -/
def setConfig (c : IpsecConfig) (secrets : IpsecSecrets) : Svc String := do
  if validate c ≠ "" then
    return validate c
  if pskCheck "psk" secrets.psk ≠ "" then
    return pskCheck "psk" secrets.psk
  if pskCheck "eapPassword" secrets.eapPassword ≠ "" then
    return pskCheck "eapPassword" secrets.eapPassword
  let ca ← savePem "ca.pem" secrets.caPem writeCaPem
  if ca ≠ "" then
    return ca
  let extra ← savePem "extra.pem" secrets.extraPem writeExtraPem
  if extra ≠ "" then
    return extra
  saveConf c secrets

inductive Job where
  | connect
  | disconnect
  | tick (nowMs : UInt32)
  | setConfig (c : IpsecConfig) (secrets : IpsecSecrets)
  | status
  deriving DecidableEq

def Job.run : Job → IpsecService → Svc IpsecService
  | .connect, m => do return (← Ipsec.connect m).2
  | .disconnect, m => do return (← Ipsec.disconnect m).2
  | .tick nowMs, m => Ipsec.tick validate nowMs m
  | .setConfig c secrets, m => do
    let _ ← Ipsec.setConfig validate c secrets
    return m
  | .status, m => do
    let _ ← Ipsec.status m
    return m

end validate

end Machino.Ipsec
