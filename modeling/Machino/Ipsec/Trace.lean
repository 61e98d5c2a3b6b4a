import Machino.Ipsec.IpsecService

namespace Machino.Ipsec

open Effects Ledger

/-- The daemon reports that the gateway has refused the authentication or every proposal. -/
def Refusal (text : Text) : Prop :=
  text ≠ [] ∧ ((parseStatus text true true).failure = .authenticationFailed ∨
    (parseStatus text true true).failure = .noProposalChosen)

instance (text : Text) : Decidable (Refusal text) := inferInstanceAs (Decidable (_ ∧ (_ ∨ _)))

/-- What a run leaves behind: the peer routes added and deleted, the configuration last read,
whether a reconnect is scheduled, whether the user or a refusal has stopped reconnects since the
user last asked for a connection, and the attempts made all the same. -/
structure Trace where
  ledger : List (Entry PeerRoute) := []
  config : IpsecConfig := {}
  scheduled : Bool := false
  stopped : Bool := false
  retries : ℕ := 0

def Trace.note (w : Trace) : Note → Trace
  | .connect => { w with stopped := false }
  | .disconnect => { w with stopped := true }
  | .autoConnect => if w.stopped then { w with retries := w.retries + 1 } else w
  | .scheduled on => { w with scheduled := on }

def Trace.record (w : Trace) : (e : Effect) → Answer e → Trace
  | .config, c => { w with config := c }
  | .addPeerRoute r, .ok () => { w with ledger := w.ledger ++ [.acquired r] }
  | .addPeerRoute _, .error _ => w
  | .delPeerRoute r, _ => { w with ledger := w.ledger ++ [.undone r] }
  | .ctlStatus, some text => if Refusal text then { w with stopped := true } else w
  | .ctlStatus, none => w
  | .note n, _ => w.note n
  | .daemonKey _, _ | .daemonRunning, _ | .startDaemon, _ | .stopDaemon, _ | .resolve4 _, _
  | .select _, _ | .sessionConf _ _, _ | .writeSessionConf _ _, _ | .writeCaPem _, _
  | .writeExtraPem _, _ | .daemonConf _ _, _ | .writeDaemonConf _ _, _
  | .writeMachinoConf _, _ => w

theorem Trace.ledger_note (w : Trace) (n : Note) : (w.note n).ledger = w.ledger := by
  cases n with
  | autoConnect =>
    change (if w.stopped then { w with retries := w.retries + 1 } else w : Trace).ledger = w.ledger
    split <;> rfl
  | connect => rfl
  | disconnect => rfl
  | scheduled on => rfl

theorem Trace.ledger_ctlStatus (w : Trace) (answer : Option Text) :
    (w.record .ctlStatus answer).ledger = w.ledger := by
  cases answer with
  | none => rfl
  | some text =>
    change (if Refusal text then { w with stopped := true } else w : Trace).ledger = w.ledger
    split <;> rfl

/-- Any answer to the next call. -/
abbrev Outcome := (e : Effect) → Answer e

def exec (e : Effect) (o : Outcome) (w : Trace) : Answer e × Trace := (o e, w.record e (o e))

/-- The service runs one operation at a time, against any answers. -/
def service (validate : IpsecConfig → String) :
    Machine Effect Answer Outcome Trace Job Empty IpsecService where
  exec := exec
  job := Job.run validate
  boot b := b.elim

/-- A service that has just been constructed, with or without a provider of uplinks. -/
def constructed (uplinks : Bool) : State Effect Answer Trace Job Empty IpsecService where
  world := {}
  job := .inl .status
  proc := .ret { uplinks := uplinks }

/-- A camera on which everything works, the credential set and an underlay up. -/
def working : Outcome
  | .config => { enabled := true, gateway := "vpn".toList, remoteSubnet := "10.0.0.0/8".toList }
  | .daemonKey _ => true
  | .daemonRunning => false
  | .startDaemon | .stopDaemon => .ok ()
  | .ctlStatus => some "state=CHILD_SA_ESTABLISHED".toList
  | .resolve4 _ => some "198.51.100.7".toList
  | .select _ => .ok ⟨true, "wifi".toList, "wlan0".toList, "192.0.2.5".toList, "192.0.2.1".toList⟩
  | .addPeerRoute _ | .delPeerRoute _ => .ok ()
  | .sessionConf _ _ | .daemonConf _ _ => true
  | .writeSessionConf _ _ | .writeCaPem _ | .writeExtraPem _ | .writeDaemonConf _ _
  | .writeMachinoConf _ => .ok ()
  | .note _ => ()

/-- A call the trace says nothing about. -/
def Effect.Silent : Effect → Prop
  | .daemonKey _ | .daemonRunning | .startDaemon | .stopDaemon | .resolve4 _ | .select _
  | .sessionConf _ _ | .writeSessionConf _ _ | .writeCaPem _ | .writeExtraPem _
  | .daemonConf _ _ | .writeDaemonConf _ _ | .writeMachinoConf _ => True
  | .config | .addPeerRoute _ | .delPeerRoute _ | .ctlStatus | .note _ => False

theorem Trace.record_silent {e : Effect} (h : e.Silent) (a : Answer e) (w : Trace) :
    w.record e a = w := by
  cases e <;> first | rfl | exact h.elim

/-- A call, whatever it is answered, and then the rest. -/
theorem holds_ask {α : Type} {ok : Trace → Effect → Outcome → Prop} {P : Trace → Prop} {e : Effect}
    {k : Answer e → Svc α} {w : Trace} {Q : α → Trace → Prop} (hw : P w)
    (h : ∀ o, ok w e o → (k (o e)).Holds exec ok P (w.record e (o e)) Q) :
    (Prog.perform e >>= k).Holds exec ok P w Q := Prog.holds_ask hw h

/-- A silent program leaves the trace as it is. -/
theorem holds_silent {α : Type} {ok : Trace → Effect → Outcome → Prop} {P : Trace → Prop}
    {p : Svc α} (hp : p.Uses Effect.Silent) {w : Trace} (hw : P w) {Q : α → Trace → Prop}
    (hq : ∀ a, Q a w) : p.Holds exec ok P w Q := by
  have hsame : p.Holds exec ok P w fun _ w' => w' = w := by
    refine hp.holds (fun w' h => h ▸ hw) (fun e o w' he h => ?_) rfl
    exact (Trace.record_silent he (o e) w').trans h
  exact hsame.mono fun a w' _ h => h ▸ hq a

theorem missingCredential_silent (c : IpsecConfig) : (missingCredential c).Uses Effect.Silent := by
  unfold missingCredential
  cases c.auth with
  | psk =>
    refine Prog.Uses.bind (Prog.uses_perform trivial) fun set => ?_
    cases set <;> exact trivial
  | eapMschapv2 =>
    dsimp only
    split
    · exact trivial
    · refine Prog.Uses.bind (Prog.uses_perform trivial) fun set => ?_
      cases set <;> exact trivial

theorem selectUnderlay_silent (c : IpsecConfig) (m : IpsecService) :
    (selectUnderlay c m).Uses Effect.Silent := by
  unfold selectUnderlay
  split
  · refine Prog.Uses.bind (Prog.uses_perform trivial) fun view => ?_
    cases view with
    | error err => exact trivial
    | ok uv => dsimp only; split <;> exact trivial
  · split <;> exact trivial

theorem resolvePeer_silent (preferCached : Bool) (c : IpsecConfig) (m : IpsecService) :
    (resolvePeer preferCached c m).Uses Effect.Silent := by
  unfold resolvePeer
  split
  · exact trivial
  · refine Prog.Uses.bind (Prog.uses_perform trivial) fun ip => ?_
    cases ip <;> exact trivial

theorem launch_silent (c : IpsecConfig) (net : SessionNet) : (launch c net).Uses Effect.Silent := by
  unfold launch
  refine Prog.Uses.bind (Prog.uses_perform trivial) fun present => ?_
  cases present with
  | false => exact trivial
  | true =>
    refine Prog.Uses.bind (Prog.uses_perform trivial) fun written => ?_
    cases written with
    | error err => exact trivial
    | ok _ =>
      refine Prog.Uses.bind (Prog.uses_perform trivial) fun started => ?_
      cases started <;> exact trivial

theorem stopIfRunning_silent : stopIfRunning.Uses Effect.Silent := by
  unfold stopIfRunning
  refine Prog.Uses.bind (Prog.uses_perform trivial) fun running => ?_
  cases running with
  | false => exact trivial
  | true =>
    refine Prog.Uses.bind (Prog.uses_perform trivial) fun stopped => ?_
    cases stopped <;> exact trivial

theorem credentialOk_silent (c : IpsecConfig) : (credentialOk c).Uses Effect.Silent := by
  unfold credentialOk
  cases c.auth with
  | psk => exact Prog.uses_perform trivial
  | eapMschapv2 =>
    dsimp only
    split
    · exact trivial
    · exact Prog.uses_perform trivial

theorem underlayLost_silent (c : IpsecConfig) (m : IpsecService) :
    (underlayLost c m).Uses Effect.Silent := by
  unfold underlayLost
  split
  · exact trivial
  · refine Prog.Uses.bind (Prog.uses_perform trivial) fun view => ?_
    cases view <;> exact trivial

theorem savePem_silent {name : String} {pem : Text} {write : Text → Svc (Except String Unit)}
    (hw : (write pem).Uses Effect.Silent) : (savePem name pem write).Uses Effect.Silent := by
  unfold savePem
  split
  · exact trivial
  · refine Prog.Uses.bind hw fun written => ?_
    cases written <;> exact trivial

theorem saveConf_silent (c : IpsecConfig) (secrets : IpsecSecrets) :
    (saveConf c secrets).Uses Effect.Silent := by
  unfold saveConf
  refine Prog.Uses.bind (Prog.uses_perform trivial) fun present => ?_
  split
  · exact trivial
  · refine Prog.Uses.bind (Prog.uses_perform trivial) fun written => ?_
    cases written with
    | error err => exact trivial
    | ok _ =>
      refine Prog.Uses.bind (Prog.uses_perform trivial) fun stored => ?_
      cases stored <;> exact trivial

/-- Saving a configuration touches the files only. -/
theorem setConfig_silent (validate : IpsecConfig → String) (c : IpsecConfig)
    (secrets : IpsecSecrets) : (setConfig validate c secrets).Uses Effect.Silent := by
  unfold setConfig
  split
  · exact trivial
  split
  · exact trivial
  split
  · exact trivial
  refine Prog.Uses.bind (savePem_silent (Prog.uses_perform trivial)) fun ca => ?_
  split
  · exact trivial
  refine Prog.Uses.bind (savePem_silent (Prog.uses_perform trivial)) fun extra => ?_
  split
  · exact trivial
  · exact saveConf_silent c secrets

end Machino.Ipsec
