import Machino.Cellular.EcmLink

namespace Machino.Cellular.EcmLink

open Effects Runs

/-- The modem is told to behave otherwise from now on, or to restart for it. -/
def IsSwitch (cmd : Text) : Prop :=
  cmd = usbnetCommand ∨ cmd = natCommand true ∨ cmd = natCommand false ∨ cmd = rebootCommand

theorem not_isSwitch {cmd : Text} (hq : cmd.take 6 ≠ "AT+QCF".toList)
    (hc : cmd.take 6 ≠ "AT+CFU".toList) : ¬ IsSwitch cmd := by
  rintro (rfl | rfl | rfl | rfl)
  · exact hq rfl
  · exact hq rfl
  · exact hq rfl
  · exact hc rfl

def usbnetSwitches (w : Trace) : ℕ := w.commands.count usbnetCommand

def natSwitches (w : Trace) : ℕ :=
  w.commands.count (natCommand true) + w.commands.count (natCommand false)

def reboots (w : Trace) : ℕ := w.commands.count rebootCommand

/-- Since `w₀` each switch has been made once at most, and no restart without one. -/
structure Bounded (w₀ w : Trace) : Prop where
  usbnet : usbnetSwitches w ≤ usbnetSwitches w₀ + 1
  nat : natSwitches w ≤ natSwitches w₀ + 1
  reboots : reboots w ≤ reboots w₀ + 2

/-- A switch made since `w₀` is one the link remembers, and so is the restart for it. -/
structure Counted (w₀ : Trace) (m : EcmLink) (w : Trace) : Prop where
  usbnet : usbnetSwitches w ≤ usbnetSwitches w₀ + m.usbnetSwitchTried.toNat
  nat : natSwitches w ≤ natSwitches w₀ + m.natSwitchTried.toNat
  reboots : reboots w ≤ reboots w₀ + m.usbnetSwitchTried.toNat + m.natSwitchTried.toNat

/-- Which switches the link takes for tried. -/
def tried (m : EcmLink) : Bool × Bool := (m.usbnetSwitchTried, m.natSwitchTried)

/-- What the steps to a connection leave alone, the switches apart. -/
def intent (m : EcmLink) : Bool × ℕ := (m.wantUp, m.unresponsiveTicks)

/-- What a step that switches nothing leaves alone. -/
def carried (m : EcmLink) : (Bool × Bool) × Bool × ℕ := (m.tried, m.intent)

theorem tried_of_carried {m m' : EcmLink} (h : m'.carried = m.carried) : m'.tried = m.tried :=
  congrArg Prod.fst h

theorem intent_of_carried {m m' : EcmLink} (h : m'.carried = m.carried) : m'.intent = m.intent :=
  congrArg Prod.snd h

namespace Counted

variable {w₀ w : Trace} {m : EcmLink}

theorem bounded (h : Counted w₀ m w) : Bounded w₀ w := by
  have hu := m.usbnetSwitchTried.toNat_le
  have hn := m.natSwitchTried.toNat_le
  have hr := h.reboots
  exact ⟨h.usbnet.trans (by omega), h.nat.trans (by omega), by omega⟩

theorem of_tried (h : Counted w₀ m w) {m' : EcmLink} (ht : m'.tried = m.tried) :
    Counted w₀ m' w := by
  simp only [tried, Prod.mk.injEq] at ht
  obtain ⟨hu, hn⟩ := ht
  exact ⟨by rw [hu]; exact h.usbnet, by rw [hn]; exact h.nat, by rw [hu, hn]; exact h.reboots⟩

/-- What is sent besides leaves the switches counted. -/
theorem of_sent (h : Counted w₀ m w) {w' : Trace} {cmd : Text} (hcmd : ¬ IsSwitch cmd)
    (hw : w'.commands = w.commands ++ [cmd]) : Counted w₀ m w' := by
  simp only [IsSwitch, not_or] at hcmd
  obtain ⟨hu, ht, hf, hr⟩ := hcmd
  refine ⟨?_, ?_, ?_⟩
  · simpa [usbnetSwitches, hw, hu] using h.usbnet
  · simpa [natSwitches, hw, ht, hf] using h.nat
  · simpa [EcmLink.reboots, hw, hr] using h.reboots

theorem of_commands (h : Counted w₀ m w) {w' : Trace} (hw : w'.commands = w.commands) :
    Counted w₀ m w' := by
  refine ⟨?_, ?_, ?_⟩
  · simpa [usbnetSwitches, hw] using h.usbnet
  · simpa [natSwitches, hw] using h.nat
  · simpa [EcmLink.reboots, hw] using h.reboots

end Counted

/-- A call that switches nothing. -/
def Call.Plain : Call → Prop
  | .command cmd _ => ¬ IsSwitch cmd
  | .now | .findInterface _ | .setUp _ _ | .dhcpStart _ | .dhcpStop _ | .readAddress _
  | .setAddress _ _ | .teardown _ | .note _ => True

theorem Counted.of_exec {w₀ w : Trace} {m : EcmLink} (h : Counted w₀ m w) {e : Call}
    (he : e.Plain) (o : Outcome) : Counted w₀ m (exec e o w).2 := by
  cases e with
  | command cmd timeoutMs => exact h.of_sent he rfl
  | dhcpStart ifname =>
    refine h.of_commands ?_
    change (if _ then _ else _ : Trace).commands = _
    split <;> rfl
  | now | findInterface _ | setUp _ _ | dhcpStop _ | readAddress _ | setAddress _ _ | teardown _
  | note _ => exact h.of_commands rfl

theorem fail_plain (detail : String) (m : EcmLink) :
    (fail detail m).Yields Call.Plain (·.carried = m.carried) :=
  ⟨trivial, fun _ => ⟨trivial, fun _ => rfl⟩⟩

theorem waiting_plain (m : EcmLink) : (waiting m).Uses Call.Plain := by
  unfold waiting
  split
  · trivial
  · exact ⟨trivial, fun _ => trivial⟩

theorem stopDhcp_plain (m : EcmLink) : (stopDhcp m).Yields Call.Plain (·.carried = m.carried) := by
  unfold stopDhcp
  split
  · exact ⟨trivial, fun _ => rfl⟩
  · rfl

theorem dropInterface_plain (m : EcmLink) :
    (dropInterface m).Yields Call.Plain (·.carried = m.carried) := by
  unfold dropInterface
  split
  · rfl
  · exact ⟨trivial, fun _ => rfl⟩

theorem disconnect_plain (m : EcmLink) : (disconnect m).Yields Call.Plain (·.tried = m.tried) := by
  unfold disconnect
  refine Prog.Uses.bind (Prog.uses_perform trivial) fun _ => ?_
  refine (stopDhcp_plain { m with wantUp := false }).bind fun m₁ h₁ => ?_
  exact (dropInterface_plain m₁).bind fun m₂ h₂ =>
    (tried_of_carried h₂).trans (congrArg Prod.fst h₁)

theorem configurePdp_plain (m : EcmLink) :
    (configurePdp m).Yields Call.Plain (·.carried = m.carried) := by
  have hpdp : ¬ IsSwitch (pdpCommand m.cfg) := by
    have htake : (pdpCommand m.cfg).take 6 = "AT+CGD".toList := rfl
    exact not_isSwitch (by rw [htake]; decide) (by rw [htake]; decide)
  have hcred : ¬ IsSwitch (credentialsCommand m.cfg) := by
    have htake : (credentialsCommand m.cfg).take 6 = "AT+QIC".toList := rfl
    exact not_isSwitch (by rw [htake]; decide) (by rw [htake]; decide)
  unfold configurePdp
  split
  · rfl
  split
  · exact fail_plain _ m
  refine Prog.Uses.bind (Prog.uses_perform hpdp) fun answer => ?_
  split
  · exact fail_plain _ m
  · exact Prog.Uses.bind (Prog.uses_perform hcred) fun _ => rfl

theorem startData_plain (m : EcmLink) :
    (startData m).Yields Call.Plain (·.carried = m.carried) := by
  have hdata : ¬ IsSwitch "AT+QNETDEVCTL=3,1".toList := not_isSwitch (by decide) (by decide)
  unfold startData
  split
  · rfl
  refine Prog.Uses.bind (Prog.uses_perform hdata) fun answer => ?_
  split
  · exact fail_plain _ m
  · exact Prog.Uses.bind (Prog.uses_perform trivial) fun _ => rfl

theorem waitNetif_plain (m : EcmLink) :
    (waitNetif m).Yields Call.Plain (·.carried = m.carried) := by
  unfold waitNetif
  split
  · rfl
  refine Prog.Uses.bind (Prog.uses_perform trivial) fun found => ?_
  cases found with
  | none =>
    refine Prog.Uses.bind (Prog.uses_perform trivial) fun t => ?_
    split
    · exact fail_plain _ m
    · rfl
  | some name => exact ⟨trivial, fun _ => ⟨trivial, fun _ => rfl⟩⟩

theorem interfaceGone_plain (m : EcmLink) :
    (interfaceGone m).Yields Call.Plain (·.carried = m.carried) := by
  unfold interfaceGone
  refine (stopDhcp_plain m).bind fun m₁ h₁ => ?_
  exact (fail_plain _ m₁.forgetInterface).mono (fun _ => id) fun _ h => h.trans h₁

theorem startDhcp_plain (m : EcmLink) :
    (startDhcp m).Yields Call.Plain (·.2.carried = m.carried) := by
  unfold startDhcp
  split
  · rfl
  · refine Prog.Uses.bind (Prog.uses_perform trivial) fun ok => ?_
    cases ok with
    | true => rfl
    | false => rfl

theorem staticAddress_plain (rdp : PdpContextParams) (m : EcmLink) :
    (staticAddress rdp m).Yields Call.Plain (·.carried = m.carried) := by
  unfold staticAddress
  refine Prog.Uses.bind (Prog.uses_perform trivial) fun _ => ?_
  dsimp only
  split
  · exact fail_plain _ { m with dhcpRunning := false }
  · refine Prog.Uses.bind (Prog.uses_perform trivial) fun ok => ?_
    split
    · rfl
    · exact fail_plain _ { m with dhcpRunning := false }

theorem awaitAddress_plain (rdp : PdpContextParams) (m : EcmLink) :
    (awaitAddress rdp m).Yields Call.Plain (·.carried = m.carried) := by
  unfold awaitAddress
  refine Prog.Uses.bind (Prog.uses_perform trivial) fun a => ?_
  dsimp only
  split
  · rfl
  · refine Prog.Uses.bind (Prog.uses_perform trivial) fun t => ?_
    split
    · exact staticAddress_plain rdp m
    · rfl

theorem addressing_plain (m : EcmLink) :
    (addressing m).Yields Call.Plain (·.carried = m.carried) := by
  have hrdp : ¬ IsSwitch "AT+CGCONTRDP=1".toList := not_isSwitch (by decide) (by decide)
  unfold addressing
  refine Prog.Uses.bind (Prog.uses_perform trivial) fun there => ?_
  split
  · exact interfaceGone_plain m
  · refine Prog.Uses.bind (Prog.uses_perform hrdp) fun reply => ?_
    refine (startDhcp_plain { m with st := { m.st with
      modemPdpAddress := (parseCgcontrdp reply.raw).ipv4 } }).bind ?_
    rintro ⟨ok, m₁⟩ h₁
    dsimp only
    split
    · exact (awaitAddress_plain _ m₁).mono (fun _ => id) fun _ h => h.trans h₁
    · exact (fail_plain _ m₁).mono (fun _ => id) fun _ h => h.trans h₁

theorem keepUp_plain (m : EcmLink) : (keepUp m).Yields Call.Plain (·.carried = m.carried) := by
  unfold keepUp
  refine Prog.Uses.bind (Prog.uses_perform trivial) fun there => ?_
  split
  · exact interfaceGone_plain { m with st := { m.st with address := {} } }
  · refine Prog.Uses.bind (Prog.uses_perform trivial) fun a => ?_
    dsimp only
    split
    · rfl
    · exact Prog.Uses.bind (Prog.uses_perform trivial) fun _ => rfl

theorem modemGone_plain (present : Bool) (m : EcmLink) :
    (modemGone present m).Yields Call.Plain (·.tried = m.tried) := by
  unfold modemGone
  refine (stopDhcp_plain { m with unresponsiveTicks := 0 }).bind fun m₁ h₁ => ?_
  have htried : m₁.tried = m.tried := congrArg Prod.fst h₁
  dsimp only
  split
  · refine Prog.Uses.bind (Prog.uses_perform trivial) fun t => ?_
    split
    · exact (fail_plain _ { m₁ with st := { m₁.st with address := {} } }).mono (fun _ => id)
        fun _ h => (tried_of_carried h).trans htried
    · exact htried
  split
  · exact htried
  · exact htried

section jobs

variable {w₀ w : Trace} {α : Type} {m : EcmLink}

/-- Whatever is asked for and answered, no switch is made too often, and `Q` holds in the end. -/
abbrev Sp (w₀ : Trace) (p : Ecm α) (w : Trace) (Q : α → Trace → Prop) : Prop :=
  p.Holds exec (fun _ _ _ => True) (Bounded w₀) w Q

theorem sp_plain {p : Ecm α} {Q : α → Prop} (hp : p.Yields Call.Plain Q) (h : Counted w₀ m w) :
    Sp w₀ p w fun a w' => Counted w₀ m w' ∧ Q a :=
  hp.holds (fun _ h => h.bounded) (fun _ o _ he h => h.of_exec he o) h

theorem sp_step {p : Ecm EcmLink} (hp : p.Yields Call.Plain (·.tried = m.tried))
    (h : Counted w₀ m w) : Sp w₀ p w (Counted w₀) :=
  (sp_plain hp h).mono fun _ _ _ h' => h'.1.of_tried h'.2

theorem sp_steady {p : Ecm EcmLink} (hp : p.Yields Call.Plain (·.carried = m.carried))
    (h : Counted w₀ m w) : Sp w₀ p w (Counted w₀) :=
  sp_step (hp.mono (fun _ => id) fun _ => tried_of_carried) h

theorem sp_ask {e : Call} {k : Answer e → Ecm α} {Q : α → Trace → Prop} (he : e.Plain)
    (h : Counted w₀ m w) (hk : ∀ a w', Counted w₀ m w' → Sp w₀ (k a) w' Q) :
    Sp w₀ (Prog.perform e >>= k) w Q :=
  Prog.holds_ask h.bounded fun o _ => hk _ _ (h.of_exec he o)

/-- The switch itself, and then the restart for it. -/
def IsSwitching (cmd : Text) (cmds : List Text) : Prop := cmds = [cmd] ∨ cmds = [cmd, rebootCommand]

theorem sent_usbnet (h : Counted w₀ m w) (hm : m.usbnetSwitchTried = false) {w' : Trace}
    {cmds : List Text} (hc : IsSwitching usbnetCommand cmds)
    (hw : w'.commands = w.commands ++ cmds) :
    Counted w₀ { m with usbnetSwitchTried := true } w' := by
  have hu : cmds.count usbnetCommand = 1 := by rcases hc with rfl | rfl <;> decide
  have hn : cmds.count (natCommand true) + cmds.count (natCommand false) = 0 := by
    rcases hc with rfl | rfl <;> decide
  have hr : cmds.count rebootCommand ≤ 1 := by rcases hc with rfl | rfl <;> decide
  have husb := h.usbnet
  have hnat := h.nat
  have hreb := h.reboots
  simp only [usbnetSwitches, natSwitches, reboots, hm, Bool.toNat_false] at husb hnat hreb
  refine ⟨?_, ?_, ?_⟩
  · simp only [usbnetSwitches, hw, List.count_append, hu, Bool.toNat_true]
    omega
  · simp only [natSwitches, hw, List.count_append]
    omega
  · simp only [reboots, hw, List.count_append, Bool.toNat_true]
    omega

theorem sent_nat (h : Counted w₀ m w) (hm : m.natSwitchTried = false) {w' : Trace} {nic : Bool}
    {cmds : List Text} (hc : IsSwitching (natCommand nic) cmds)
    (hw : w'.commands = w.commands ++ cmds) :
    Counted w₀ { m with natSwitchTried := true } w' := by
  have hu : cmds.count usbnetCommand = 0 := by
    rcases hc with rfl | rfl <;> cases nic <;> decide
  have hn : cmds.count (natCommand true) + cmds.count (natCommand false) = 1 := by
    rcases hc with rfl | rfl <;> cases nic <;> decide
  have hr : cmds.count rebootCommand ≤ 1 := by
    rcases hc with rfl | rfl <;> cases nic <;> decide
  have husb := h.usbnet
  have hnat := h.nat
  have hreb := h.reboots
  simp only [usbnetSwitches, natSwitches, reboots, hm, Bool.toNat_false] at husb hnat hreb
  refine ⟨?_, ?_, ?_⟩
  · simp only [usbnetSwitches, hw, List.count_append, hu]
    omega
  · simp only [natSwitches, hw, List.count_append, Bool.toNat_true]
    omega
  · simp only [reboots, hw, List.count_append, Bool.toNat_true]
    omega

/-- A switch that the link counts as tried, and the restart for it. -/
theorem sp_switchMode {cmd : Text} {detail : String} (h : Bounded w₀ w)
    (hsent : ∀ cmds, IsSwitching cmd cmds → ∀ w', w'.commands = w.commands ++ cmds →
      Counted w₀ m w') :
    Sp w₀ (switchMode cmd detail m) w (Counted w₀) := by
  unfold switchMode
  refine Prog.holds_ask (e := Call.command cmd 3000) h fun o _ => ?_
  refine Prog.holds_ask (e := Call.command rebootCommand 10000) ?_ fun o' _ => ?_
  · exact (hsent [cmd] (.inl rfl) _ rfl).bounded
  · have hboth := hsent [cmd, rebootCommand] (.inr rfl)
      (exec (.command rebootCommand 10000) o' (exec (.command cmd 3000) o w).2).2
      (List.append_assoc _ _ _)
    exact sp_ask (e := .now) trivial hboth fun t w₃ h₃ => ⟨h₃.bounded, h₃.of_tried rfl⟩

theorem sp_ensureNat (h : Counted w₀ m w) : Sp w₀ (ensureNat m) w (Counted w₀) := by
  have hask : ¬ IsSwitch "AT+QCFG=\"nat\"".toList := by unfold IsSwitch; decide
  unfold ensureNat
  refine sp_ask (e := .command "AT+QCFG=\"nat\"".toList 3000) hask h fun answer w₁ h₁ => ?_
  dsimp only
  split
  · rename_i hswitch
    have hfresh : m.natSwitchTried = false := by
      rw [Bool.and_eq_true] at hswitch
      simpa using hswitch.2
    exact sp_switchMode (m := { m with natSwitchTried := true }) h₁.bounded
      fun cmds hc w' hw' => sent_nat h₁ hfresh hc hw'
  · exact ⟨h₁.bounded, h₁.of_tried rfl⟩

theorem sp_ensureMode (h : Counted w₀ m w) : Sp w₀ (ensureMode m) w (Counted w₀) := by
  have hask : ¬ IsSwitch "AT+QCFG=\"usbnet\"".toList := by unfold IsSwitch; decide
  unfold ensureMode
  split
  · exact ⟨h.bounded, h⟩
  refine sp_ask (e := .command "AT+QCFG=\"usbnet\"".toList 3000) hask h fun answer w₁ h₁ => ?_
  have h₂ : Counted w₀ (m.enter .ensureEcmMode "pruefe Betriebsart") w₁ := h₁.of_tried rfl
  split
  · exact sp_steady (fail_plain _ (m.enter _ _)) h₂
  split
  · exact sp_ensureNat h₂
  split
  · exact sp_steady (fail_plain _ (m.enter _ _)) h₂
  · rename_i htried
    have hfresh : (m.enter .ensureEcmMode "pruefe Betriebsart").usbnetSwitchTried = false := by
      simpa using htried
    exact sp_switchMode (m := { m.enter .ensureEcmMode "pruefe Betriebsart" with
      usbnetSwitchTried := true }) h₂.bounded fun cmds hc w' hw' => sent_usbnet h₂ hfresh hc hw'

theorem sp_advance (h : Counted w₀ m w) : Sp w₀ (advance m) w (Counted w₀) := by
  unfold advance
  refine Prog.holds_bind.mpr ((sp_ensureMode h).mono fun m₁ w₁ _ h₁ => ?_)
  refine Prog.holds_bind.mpr ((sp_steady (configurePdp_plain m₁) h₁).mono fun m₂ w₂ _ h₂ => ?_)
  refine Prog.holds_bind.mpr ((sp_steady (startData_plain m₂) h₂).mono fun m₃ w₃ _ h₃ => ?_)
  refine Prog.holds_bind.mpr ((sp_steady (waitNetif_plain m₃) h₃).mono fun m₄ w₄ _ h₄ => ?_)
  split
  · exact sp_steady (addressing_plain m₄) h₄
  · exact sp_steady (keepUp_plain m₄) h₄
  · exact ⟨h₄.bounded, h₄⟩

theorem tried_cameBack (m : EcmLink) : m.cameBack.tried = m.tried := by
  unfold cameBack
  split <;> rfl

theorem sp_proceed {status : CellularStatus} (h : Counted w₀ m w) :
    Sp w₀ (proceed status m) w (Counted w₀) := by
  have h₀ : Counted w₀ m.cameBack w := h.of_tried m.tried_cameBack
  unfold proceed
  refine Prog.holds_bind.mpr ((sp_plain (waiting_plain _) h₀).mono fun waits w₁ _ h₁ => ?_)
  split
  · exact ⟨h₁.1.bounded, h₁.1⟩
  split
  · exact ⟨h₁.1.bounded, h₁.1.of_tried rfl⟩
  split
  · exact ⟨h₁.1.bounded, h₁.1.of_tried rfl⟩
  · exact sp_advance h₁.1

theorem sp_tick {status : CellularStatus} (h : Counted w₀ m w) :
    Sp w₀ (tick status m) w (Counted w₀) := by
  unfold tick
  refine sp_ask (e := .note _) trivial h fun _ w₁ h₁ => ?_
  split
  · split
    · exact sp_step (disconnect_plain m) h₁
    · exact ⟨h₁.bounded, h₁⟩
  split
  · exact ⟨h₁.bounded, h₁.of_tried rfl⟩
  split
  · exact sp_step (modemGone_plain _ m) h₁
  · exact sp_proceed (h₁.of_tried rfl)

/-- Any operation but a connect, and any answers. -/
def undisturbed : Rules Call Outcome Trace Job Empty EcmLink where
  starts j _ _ := j ≠ .connect
  outcome _ _ _ _ := True
  reboots b _ := b.elim

theorem keeps_counted (w₀ : Trace) : machine.Keeps undisturbed (Bounded w₀) (Counted w₀) where
  job j m w _ h hj := by
    cases j with
    | connect => exact absurd rfl hj
    | disconnect => exact sp_step (disconnect_plain m) h
    | setConfig c => exact ⟨h.bounded, h.of_tried rfl⟩
    | tick status => exact sp_tick h
    | wait => exact sp_ask (e := .now) trivial h fun _ w₁ h₁ => ⟨h₁.bounded, h₁⟩
  boot b := b.elim

end jobs

theorem along_undisturbed {s : State Call Answer Trace Job Empty EcmLink}
    {is : List (Input Outcome Job Empty)} (h : ∀ j, .start j ∈ is → j ≠ .connect) :
    Along machine.step undisturbed.Admissible s is := by
  induction is generalizing s with
  | nil => trivial
  | cons i is ih =>
    refine ⟨?_, ih fun j hj => h j (List.mem_cons_of_mem _ hj)⟩
    obtain ⟨w, job, proc⟩ := s
    cases i with
    | start j =>
      cases proc with
      | ret m => exact h j List.mem_cons_self
      | call e k => trivial
    | answer o => cases proc <;> trivial
    | crash b => exact b.elim

/-- From wherever the link stands, until the next connect each switch is made once at most, and
the modem restarted twice at most. -/
theorem mode_switches_run (w : Trace) (m : EcmLink) (is : List (Input Outcome Job Empty))
    (h : ∀ j, .start j ∈ is → j ≠ .connect) :
    Always machine.step (fun s => Bounded w s.world) (idle w m) is := by
  have h0 : Counted w m w := ⟨Nat.le_add_right _ _, Nat.le_add_right _ _, by omega⟩
  exact (keeps_counted w).run ⟨h0.bounded, h0⟩ (along_undisturbed h)

/-- A modem that is to route and does not is switched and restarted. -/
theorem mode_switches_run_routing :
    Always machine.step (fun s => Bounded {} s.world)
      (idle {} { wantUp := true, cfg := { apn := "internet".toList, nicMode := false } })
      (.start (.tick registered) :: List.replicate 6 (.answer (attached [] none 0)) ++
        [.start .disconnect]) := by
  refine mode_switches_run _ _ _ ?_
  intro j hj
  simp only [List.cons_append, List.mem_cons, List.mem_append, List.mem_replicate, reduceCtorEq,
    and_false, List.not_mem_nil, or_false, false_or, Input.start.injEq] at hj
  rcases hj with rfl | rfl
  · exact nofun
  · exact nofun

end Machino.Cellular.EcmLink
