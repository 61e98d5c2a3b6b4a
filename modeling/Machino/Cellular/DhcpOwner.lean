import Machino.Cellular.EcmLink

namespace Machino.Cellular.EcmLink

open Effects Ledger Runs

/-- Which interface the client runs on, if it does, and which one is the link's. -/
def owner (m : EcmLink) : Bool × Text × Text := (m.dhcpRunning, m.dhcpIface, m.st.interfaceName)

/-- A call that starts and stops no client. -/
def Call.Apart : Call → Prop
  | .dhcpStart _ | .dhcpStop _ => False
  | .now | .command _ _ | .findInterface _ | .setUp _ _ | .readAddress _ | .setAddress _ _
  | .teardown _ | .note _ => True

/-- An interface that appears while a client runs is the client's. -/
def steady : Rules Call Outcome Trace Job Empty EcmLink where
  starts _ _ _ := True
  outcome _ w e o := match e with
    | .findInterface none => ∀ name ∈ o.answer (.findInterface none), ∀ i ∈ w.running, i = name
    | _ => True
  reboots b _ := b.elim

/-- Every client stopped was running where it is stopped, and no two run at once. -/
structure Paired (w : Trace) : Prop where
  matched : held [] w.clients ≠ none
  single : w.running.length ≤ 1

/-- The clients are paired, and the one that runs is on the link's interface. -/
structure ClientsOwned (s : State Call Answer Trace Job Empty EcmLink) : Prop where
  paired : Paired s.world
  named : ∀ m, s.proc = .ret m → ∀ i ∈ s.world.running, i = m.st.interfaceName

/-- The link knows which client runs, and it is on the link's interface. -/
structure Owns (m : EcmLink) (w : Trace) : Prop where
  held : held [] w.clients = some (if m.dhcpRunning then [m.dhcpIface] else [])
  named : m.dhcpRunning = true → m.dhcpIface = m.st.interfaceName

namespace Owns

variable {m : EcmLink} {w : Trace}

theorem running_eq (h : Owns m w) : w.running = if m.dhcpRunning then [m.dhcpIface] else [] := by
  unfold Trace.running
  rw [h.held]
  rfl

theorem paired (h : Owns m w) : Paired w := by
  refine ⟨by rw [h.held]; simp, ?_⟩
  rw [h.running_eq]
  split
  · exact le_refl 1
  · exact Nat.zero_le 1

/-- Nothing else of the link matters. -/
theorem of_owner (h : Owns m w) {m' : EcmLink} (ho : m'.owner = m.owner) : Owns m' w := by
  simp only [owner, Prod.mk.injEq] at ho
  obtain ⟨hrun, hiface, hname⟩ := ho
  exact ⟨by rw [hrun, hiface]; exact h.held, by rw [hrun, hiface, hname]; exact h.named⟩

theorem of_clients (h : Owns m w) {w' : Trace} (hc : w'.clients = w.clients) : Owns m w' :=
  ⟨by rw [hc]; exact h.held, h.named⟩

/-- Without a client any interface may be the link's. -/
theorem of_stopped (hw : Ledger.held [] w.clients = some []) (hm : m.dhcpRunning = false) :
    Owns m w := ⟨by rw [hw, hm]; rfl, by simp [hm]⟩

theorem held_stopped (h : Owns m w) (hm : m.dhcpRunning = false) :
    Ledger.held [] w.clients = some [] := by simpa [hm] using h.held

end Owns

theorem Call.Apart.clients_exec {e : Call} (he : e.Apart) (o : Outcome) (w : Trace) :
    (exec e o w).2.clients = w.clients := by
  cases e <;> first | rfl | exact he.elim

/-- The client that runs is given up where it runs. -/
theorem held_dhcpStop {w : Trace} {i : Text} (h : held [] w.clients = some [i]) (o : Outcome) :
    held [] (exec (.dhcpStop i) o w).2.clients = some [] := by
  change held [] (w.clients ++ [.undone i]) = some []
  rw [held_append_of_eq h, held_undone_top, held_nil]

theorem fail_apart (detail : String) (m : EcmLink) :
    (fail detail m).Yields Call.Apart (·.owner = m.owner) :=
  ⟨trivial, fun _ => ⟨trivial, fun _ => rfl⟩⟩

theorem switchMode_apart (cmd : Text) (detail : String) (m : EcmLink) :
    (switchMode cmd detail m).Yields Call.Apart (·.owner = m.owner) :=
  ⟨trivial, fun _ => ⟨trivial, fun _ => ⟨trivial, fun _ => rfl⟩⟩⟩

theorem waiting_apart (m : EcmLink) : (waiting m).Uses Call.Apart := by
  unfold waiting
  split
  · trivial
  · exact ⟨trivial, fun _ => trivial⟩

theorem ensureNat_apart (m : EcmLink) :
    (ensureNat m).Yields Call.Apart (·.owner = m.owner) := by
  unfold ensureNat
  refine Prog.Uses.bind (Prog.uses_perform trivial) fun answer => ?_
  dsimp only
  split
  · exact switchMode_apart _ _ { m with natSwitchTried := true }
  · rfl

theorem ensureMode_apart (m : EcmLink) :
    (ensureMode m).Yields Call.Apart (·.owner = m.owner) := by
  unfold ensureMode
  split
  · rfl
  refine Prog.Uses.bind (Prog.uses_perform trivial) fun answer => ?_
  split
  · exact fail_apart _ (m.enter _ _)
  · split
    · exact ensureNat_apart (m.enter _ _)
    · split
      · exact fail_apart _ (m.enter _ _)
      · exact switchMode_apart _ _ { m.enter _ _ with usbnetSwitchTried := true }

theorem configurePdp_apart (m : EcmLink) :
    (configurePdp m).Yields Call.Apart (·.owner = m.owner) := by
  unfold configurePdp
  split
  · rfl
  split
  · exact fail_apart _ m
  refine Prog.Uses.bind (Prog.uses_perform trivial) fun answer => ?_
  split
  · exact fail_apart _ m
  · exact Prog.Uses.bind (Prog.uses_perform trivial) fun _ => rfl

theorem startData_apart (m : EcmLink) :
    (startData m).Yields Call.Apart (·.owner = m.owner) := by
  unfold startData
  split
  · rfl
  refine Prog.Uses.bind (Prog.uses_perform trivial) fun answer => ?_
  split
  · exact fail_apart _ m
  · exact Prog.Uses.bind (Prog.uses_perform trivial) fun _ => rfl

section jobs

variable {j : Job ⊕ Empty} {w : Trace} {α : Type} {m : EcmLink}

/-- The program, run for `j`, keeps the clients paired and ends in `Q`. -/
abbrev Wp (j : Job ⊕ Empty) (p : Ecm α) (w : Trace) (Q : α → Trace → Prop) : Prop :=
  p.Holds exec (steady.outcome j) Paired w Q

theorem wp_apart {p : Ecm α} {Q : α → Prop} (hp : p.Yields Call.Apart Q) (h : Owns m w) :
    Wp j p w fun a w' => Owns m w' ∧ Q a :=
  hp.holds (fun _ h => h.paired) (fun _ o w' he h => h.of_clients (he.clients_exec o w')) h

/-- A step that leaves the client alone. -/
theorem wp_step {p : Ecm EcmLink} (hp : p.Yields Call.Apart (·.owner = m.owner))
    (h : Owns m w) : Wp j p w Owns :=
  (wp_apart hp h).mono fun _ _ _ h' => h'.1.of_owner h'.2

/-- What comes after a call that leaves the clients alone. -/
theorem wp_ask {e : Call} {k : Answer e → Ecm α} {Q : α → Trace → Prop} (he : e.Apart)
    (h : Owns m w) (hk : ∀ a w', Owns m w' → Wp j (k a) w' Q) :
    Wp j (Prog.perform e >>= k) w Q :=
  Prog.holds_ask h.paired fun o _ => hk _ _ (h.of_clients (he.clients_exec o w))

theorem wp_stopDhcp (h : Owns m w) : Wp j (stopDhcp m) w fun m' w' =>
    Owns m' w' ∧ m'.dhcpRunning = false := by
  have hheld := h.held
  unfold stopDhcp
  split
  · rename_i hrun
    rw [if_pos hrun] at hheld
    refine Prog.holds_ask (e := Call.dhcpStop m.dhcpIface) h.paired fun o _ => ?_
    have hown : Owns { m with dhcpRunning := false } (exec (.dhcpStop m.dhcpIface) o w).2 :=
      .of_stopped (held_dhcpStop hheld o) rfl
    exact ⟨hown.paired, hown, rfl⟩
  · rename_i hrun
    exact ⟨h.paired, h, by simpa using hrun⟩

theorem wp_dropInterface (h : Owns m w) (hm : m.dhcpRunning = false) :
    Wp j (dropInterface m) w Owns := by
  unfold dropInterface
  split
  · exact ⟨h.paired, h⟩
  · refine wp_ask trivial h fun _ w₁ h₁ => ?_
    have h₂ : Owns m.forgetInterface w₁ := .of_stopped (h₁.held_stopped hm) hm
    exact ⟨h₂.paired, h₂⟩

theorem wp_disconnect (h : Owns m w) : Wp j (disconnect m) w Owns := by
  unfold disconnect
  refine wp_ask trivial h fun _ w₁ h₁ => ?_
  have h₂ : Owns { m with wantUp := false } w₁ := h₁.of_owner rfl
  refine Prog.holds_bind.mpr ((wp_stopDhcp h₂).mono fun m₂ w₂ _ h₃ => ?_)
  refine Prog.holds_bind.mpr ((wp_dropInterface h₃.1 h₃.2).mono fun m₃ w₃ _ h₄ => ?_)
  exact ⟨h₄.paired, h₄.of_owner rfl⟩

theorem wp_connect (h : Owns m w) : Wp j (connect m) w Owns := by
  unfold connect
  split
  · exact ⟨h.paired, h⟩
  · exact wp_ask trivial h fun _ w₁ h₁ => ⟨h₁.paired, h₁.of_owner rfl⟩

/-- With a client running, what appears is the interface it runs on. -/
theorem wp_waitNetif (h : Owns m w) : Wp j (waitNetif m) w Owns := by
  unfold waitNetif
  split
  · exact ⟨h.paired, h⟩
  refine Prog.holds_ask (e := Call.findInterface none) h.paired fun o ho => ?_
  have h₁ : Owns m (exec (.findInterface none) o w).2 := h.of_clients rfl
  have hfound : ∀ name ∈ o.answer (.findInterface none), m.dhcpRunning = true →
      m.dhcpIface = name := by
    intro name hname hrun
    refine ho name hname m.dhcpIface ?_
    simp [h.running_eq, hrun]
  change Wp j (match o.answer (.findInterface none) with
    | some name => takeInterface name m
    | none => _) _ Owns
  generalize o.answer (.findInterface none) = found at hfound ⊢
  generalize (exec (.findInterface none) o w).2 = w₁ at h₁ ⊢
  cases found with
  | none =>
    refine wp_ask trivial h₁ fun t w₂ h₂ => ?_
    split
    · exact wp_step (fail_apart _ m) h₂
    · exact ⟨h₂.paired, h₂⟩
  | some name =>
    have h₂ : Owns { m with st := { m.st with interfaceName := name } } w₁ :=
      ⟨h₁.held, hfound name rfl⟩
    refine wp_ask trivial h₂ fun _ w₂ h₃ => ?_
    exact wp_ask trivial h₃ fun t w₃ h₄ => ⟨h₄.paired, h₄.of_owner rfl⟩

theorem wp_interfaceGone (h : Owns m w) : Wp j (interfaceGone m) w Owns := by
  unfold interfaceGone
  refine Prog.holds_bind.mpr ((wp_stopDhcp h).mono fun m₁ w₁ _ h₁ => ?_)
  have h₂ : Owns m₁.forgetInterface w₁ := .of_stopped (h₁.1.held_stopped h₁.2) h₁.2
  exact wp_step (fail_apart _ m₁.forgetInterface) h₂

theorem wp_startDhcp (h : Owns m w) : Wp j (startDhcp m) w fun r w' =>
    Owns r.2 w' ∧ (r.1 = true → r.2.dhcpRunning = true) := by
  unfold startDhcp
  split
  · rename_i hrun
    exact ⟨h.paired, h, fun _ => hrun⟩
  · rename_i hrun
    have hheld := h.held_stopped (by simpa using hrun)
    refine Prog.holds_ask (e := Call.dhcpStart m.st.interfaceName) h.paired fun o _ => ?_
    change Wp j (if o.answer (.dhcpStart m.st.interfaceName) = true then _ else _) _ _
    split
    · rename_i hok
      have hnew : Ledger.held [] (exec (.dhcpStart m.st.interfaceName) o w).2.clients =
          some [m.st.interfaceName] := by
        simp [exec, Trace.answer, Trace.record, hok, held_append_of_eq hheld]
      have hown : Owns { m with dhcpRunning := true, dhcpIface := m.st.interfaceName }
          (exec (.dhcpStart m.st.interfaceName) o w).2 := ⟨hnew, fun _ => rfl⟩
      exact ⟨hown.paired, hown, fun _ => rfl⟩
    · rename_i hok
      have hsame : (exec (.dhcpStart m.st.interfaceName) o w).2.clients = w.clients := by
        simp [exec, Trace.answer, Trace.record, hok]
      exact ⟨(h.of_clients hsame).paired, h.of_clients hsame, nofun⟩

/-- The client that is given up is the one that runs. -/
theorem wp_staticAddress {rdp : PdpContextParams} (h : Owns m w) (hrun : m.dhcpRunning = true) :
    Wp j (staticAddress rdp m) w Owns := by
  have hheld := h.held
  rw [if_pos hrun, h.named hrun] at hheld
  unfold staticAddress
  refine Prog.holds_ask (e := Call.dhcpStop m.st.interfaceName) h.paired fun o _ => ?_
  -- the source gives up the client of the link's interface, whichever it was started on
  have h₁ : Owns { m with dhcpRunning := false } (exec (.dhcpStop m.st.interfaceName) o w).2 :=
    .of_stopped (held_dhcpStop hheld o) rfl
  generalize (exec (.dhcpStop m.st.interfaceName) o w).2 = w₁ at h₁ ⊢
  dsimp only
  split
  · exact wp_step (fail_apart _ { m with dhcpRunning := false }) h₁
  · refine wp_ask trivial h₁ fun ok w₂ h₂ => ?_
    split
    · exact ⟨h₂.paired, h₂.of_owner rfl⟩
    · exact wp_step (fail_apart _ { m with dhcpRunning := false }) h₂

theorem wp_awaitAddress {rdp : PdpContextParams} (h : Owns m w) (hrun : m.dhcpRunning = true) :
    Wp j (awaitAddress rdp m) w Owns := by
  unfold awaitAddress
  refine wp_ask trivial h fun a w₁ h₁ => ?_
  dsimp only
  split
  · exact ⟨h₁.paired, h₁.of_owner rfl⟩
  · refine wp_ask trivial h₁ fun t w₂ h₂ => ?_
    split
    · exact wp_staticAddress h₂ hrun
    · exact ⟨h₂.paired, h₂⟩

theorem wp_addressing (h : Owns m w) : Wp j (addressing m) w Owns := by
  unfold addressing
  refine wp_ask trivial h fun there w₁ h₁ => ?_
  split
  · exact wp_interfaceGone h₁
  · refine wp_ask trivial h₁ fun reply w₂ h₂ => ?_
    have h₃ : Owns { m with st := { m.st with
        modemPdpAddress := (parseCgcontrdp reply.raw).ipv4 } } w₂ := h₂.of_owner rfl
    refine Prog.holds_bind.mpr ((wp_startDhcp h₃).mono ?_)
    rintro ⟨ok, m₃⟩ w₃ _ ⟨h₄, hrun⟩
    dsimp only
    split
    · rename_i hok
      exact wp_awaitAddress h₄ (hrun hok)
    · exact wp_step (fail_apart _ m₃) h₄

theorem wp_keepUp (h : Owns m w) : Wp j (keepUp m) w Owns := by
  unfold keepUp
  refine wp_ask trivial h fun there w₁ h₁ => ?_
  split
  · exact wp_interfaceGone (h₁.of_owner rfl)
  · refine wp_ask trivial h₁ fun a w₂ h₂ => ?_
    dsimp only
    split
    · exact ⟨h₂.paired, h₂.of_owner rfl⟩
    · exact wp_ask trivial h₂ fun t w₃ h₃ => ⟨h₃.paired, h₃.of_owner rfl⟩

theorem wp_advance (h : Owns m w) : Wp j (advance m) w Owns := by
  unfold advance
  refine Prog.holds_bind.mpr ((wp_step (ensureMode_apart m) h).mono fun m₁ w₁ _ h₁ => ?_)
  refine Prog.holds_bind.mpr ((wp_step (configurePdp_apart m₁) h₁).mono fun m₂ w₂ _ h₂ => ?_)
  refine Prog.holds_bind.mpr ((wp_step (startData_apart m₂) h₂).mono fun m₃ w₃ _ h₃ => ?_)
  refine Prog.holds_bind.mpr ((wp_waitNetif h₃).mono fun m₄ w₄ _ h₄ => ?_)
  split
  · exact wp_addressing h₄
  · exact wp_keepUp h₄
  · exact ⟨h₄.paired, h₄⟩

theorem owner_cameBack (m : EcmLink) : m.cameBack.owner = m.owner := by
  unfold cameBack
  split <;> rfl

theorem wp_proceed {status : CellularStatus} (h : Owns m w) : Wp j (proceed status m) w Owns := by
  have h₀ : Owns m.cameBack w := h.of_owner m.owner_cameBack
  unfold proceed
  refine Prog.holds_bind.mpr ((wp_apart (waiting_apart _) h₀).mono fun waits w₁ _ h₁ => ?_)
  split
  · exact ⟨h₁.1.paired, h₁.1⟩
  split
  · exact ⟨h₁.1.paired, h₁.1.of_owner rfl⟩
  split
  · exact ⟨h₁.1.paired, h₁.1.of_owner rfl⟩
  · exact wp_advance h₁.1

theorem wp_modemGone {present : Bool} (h : Owns m w) : Wp j (modemGone present m) w Owns := by
  have h₀ : Owns { m with unresponsiveTicks := 0 } w := h.of_owner rfl
  unfold modemGone
  refine Prog.holds_bind.mpr ((wp_stopDhcp h₀).mono fun m₁ w₁ _ h₁ => ?_)
  have h₂ : Owns { m₁ with st := { m₁.st with address := {} } } w₁ := h₁.1.of_owner rfl
  dsimp only
  split
  · refine wp_ask trivial h₂ fun t w₂ h₃ => ?_
    split
    · exact wp_step (fail_apart _ { m₁ with st := { m₁.st with address := {} } }) h₃
    · exact ⟨h₃.paired, h₃⟩
  split
  · exact ⟨h₂.paired, h₂.of_owner rfl⟩
  · exact ⟨h₂.paired, h₂.of_owner rfl⟩

theorem wp_tick {status : CellularStatus} (h : Owns m w) : Wp j (tick status m) w Owns := by
  unfold tick
  refine wp_ask trivial h fun _ w₁ h₁ => ?_
  split
  · split
    · exact wp_disconnect h₁
    · exact ⟨h₁.paired, h₁⟩
  split
  · exact ⟨h₁.paired, h₁.of_owner rfl⟩
  split
  · exact wp_modemGone h₁
  · exact wp_proceed (h₁.of_owner rfl)

/-- Between two operations the link knows which client runs. -/
theorem keeps_owns : machine.Keeps steady Paired Owns where
  job j m w _ h _ := by
    cases j with
    | connect => exact wp_connect h
    | disconnect => exact wp_disconnect h
    | setConfig c => exact ⟨h.paired, h.of_owner rfl⟩
    | tick status => exact wp_tick h
    | wait => exact wp_ask trivial h fun _ w₁ h₁ => ⟨h₁.paired, h₁⟩
  boot b := b.elim

end jobs

/-- As long as no interface appears under another name while a client runs, each client stopped
was running there, at most one runs, and it runs on the link's interface. -/
theorem clients_owned_run (is : List (Input Outcome Job Empty))
    (h : Along machine.step steady.Admissible (idle {} {}) is) :
    Always machine.step ClientsOwned (idle {} {}) is := by
  have h0 : Owns {} {} := ⟨rfl, nofun⟩
  refine (keeps_owns.run_idle (s := idle {} {}) ⟨h0.paired, h0⟩ h).mono fun s hs => ?_
  refine ⟨hs.1, fun m hm i hi => ?_⟩
  have hown := hs.2 m hm
  rw [hown.running_eq] at hi
  split at hi
  · rename_i hrun
    rw [List.mem_singleton.mp hi]
    exact hown.named hrun
  · simp at hi

instance (j : Job) (m : EcmLink) (w : Trace) : Decidable (steady.starts j m w) := .isTrue trivial

instance (j : Job ⊕ Empty) (w : Trace) (e : Call) (o : Outcome) :
    Decidable (steady.outcome j w e o) :=
  match e with
  | .findInterface none => inferInstanceAs
      (Decidable (∀ name ∈ o.answer (.findInterface none), ∀ i ∈ w.running, i = name))
  | .findInterface (some _) | .now | .command _ _ | .setUp _ _ | .dhcpStart _ | .dhcpStop _
  | .readAddress _ | .setAddress _ _ | .teardown _ | .note _ => .isTrue trivial

instance (b : Empty) (w : Trace) : Decidable (steady.reboots b w) := b.elim

/-- The card is lost and found while the client runs, and the interface keeps its name. -/
theorem clients_owned_run_steady :
    Always machine.step ClientsOwned (idle {} {})
      (.start (.setConfig { apn := "internet".toList }) :: .start .connect ::
        .answer (attached "usb0".toList none 0) :: .start (.tick registered) ::
          List.replicate 15 (.answer (attached "usb0".toList none 0)) ++
        .start (.tick { registered with sim := .unknown }) ::
          List.replicate 1 (.answer (attached "usb0".toList none 0)) ++
        .start (.tick registered) ::
          List.replicate 15 (.answer (attached "usb0".toList none 0))) := by
  refine clients_owned_run _ ?_
  decide

/-- The card is lost and found while the client runs, the interface comes back under another name,
and its time is up before it has an address. -/
theorem not_clientsOwned_renamed :
    ¬ ClientsOwned (run machine.step (idle {} {})
      (.start (.setConfig { apn := "internet".toList }) :: .start .connect ::
        .answer (attached "usb0".toList none 0) :: .start (.tick registered) ::
          List.replicate 15 (.answer (attached "usb0".toList none 0)) ++
        .start (.tick { registered with sim := .unknown }) ::
          List.replicate 1 (.answer (attached "usb0".toList none 0)) ++
        .start (.tick registered) ::
          List.replicate 14 (.answer (attached "usb1".toList none 0)) ++
        .start (.tick registered) ::
          List.replicate 6 (.answer (attached "usb1".toList none 30001)))) := by
  intro h
  exact h.paired.matched (by decide)

end Machino.Cellular.EcmLink
