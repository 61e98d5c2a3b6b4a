import Machino.Ipsec.Trace

namespace Machino.Ipsec

open Effects Ledger Runs

/-- The peer routes that are there: added and not yet deleted. -/
def Trace.open (w : Trace) : List PeerRoute := (held [] w.ledger).getD []

/-- Once a peer route has been added, the file is written and the daemon starts, and a daemon
found dead by a connection attempt has left no route behind. -/
def launched : Rules Effect Outcome Trace Job Empty IpsecService where
  starts _ _ _ := True
  outcome j w e o := match e with
    | .daemonRunning => j ≠ .inl .disconnect → o .daemonRunning = false → w.open = []
    | .sessionConf c net => w.open ≠ [] → o (.sessionConf c net) = true
    | .writeSessionConf c net => w.open ≠ [] → o (.writeSessionConf c net) = .ok ()
    | .startDaemon => w.open ≠ [] → o .startDaemon = .ok ()
    | _ => True
  reboots b _ := b.elim

instance (j : Job) (m : IpsecService) (w : Trace) : Decidable (launched.starts j m w) :=
  .isTrue trivial

instance (j : Job ⊕ Empty) (w : Trace) (e : Effect) (o : Outcome) :
    Decidable (launched.outcome j w e o) :=
  match e with
  | .daemonRunning => inferInstanceAs
      (Decidable (j ≠ .inl .disconnect → o .daemonRunning = false → w.open = []))
  | .sessionConf c net => inferInstanceAs (Decidable (w.open ≠ [] → o (.sessionConf c net) = true))
  | .writeSessionConf c net => inferInstanceAs
      (Decidable (w.open ≠ [] → o (.writeSessionConf c net) = .ok ()))
  | .startDaemon => inferInstanceAs (Decidable (w.open ≠ [] → o .startDaemon = .ok ()))
  | .config | .daemonKey _ | .stopDaemon | .ctlStatus | .resolve4 _ | .select _
  | .addPeerRoute _ | .delPeerRoute _ | .writeCaPem _ | .writeExtraPem _ | .daemonConf _ _
  | .writeDaemonConf _ _ | .writeMachinoConf _ | .note _ => .isTrue trivial

instance (b : Empty) (w : Trace) : Decidable (launched.reboots b w) := b.elim

/-- No route is deleted that is not there. -/
def Matched (w : Trace) : Prop := held [] w.ledger ≠ none

/-- Every deletion matches an addition, and without a session each addition has been matched by
exactly one deletion. -/
structure RoutesReturned (s : State Effect Answer Trace Job Empty IpsecService) : Prop where
  matched : Matched s.world
  balanced : ∀ m, s.proc = .ret m → m.session.active = false → Balanced s.world.ledger
  once : ∀ m, s.proc = .ret m → m.session.active = false → ∀ r,
    s.world.ledger.count (.acquired r) = s.world.ledger.count (.undone r)

/-- The route that is there is the session's. -/
structure Tracks (s : Session) (w : Trace) : Prop where
  held : held [] w.ledger = some (if s.peerRoute then [s.route] else [])
  active : s.peerRoute = true → s.active = true

namespace Tracks

variable {s : Session} {w : Trace}

theorem matched (h : Tracks s w) : Matched w := by
  unfold Matched
  rw [h.held]
  simp

theorem of_ledger (h : Tracks s w) {w' : Trace} (hl : w'.ledger = w.ledger) : Tracks s w' :=
  ⟨by rw [hl]; exact h.held, h.active⟩

/-- Without a route of its own, one session is as good as another. -/
theorem of_held (h : Ledger.held [] w.ledger = some []) {s : Session} (hs : s.peerRoute = false) :
    Tracks s w := ⟨by rw [h, hs]; rfl, by simp [hs]⟩

theorem open_eq (h : Tracks s w) : w.open = if s.peerRoute then [s.route] else [] := by
  unfold Trace.open
  rw [h.held]
  rfl

theorem peerRoute_of_open (h : Tracks s w) (ho : w.open = []) : s.peerRoute = false := by
  rw [h.open_eq] at ho
  by_contra hp
  simp [hp] at ho

end Tracks

section jobs

variable {j : Job ⊕ Empty} {w : Trace} {α : Type}

/-- The program, run for `j`, deletes only what is there and ends in `Q`. -/
abbrev Wp (j : Job ⊕ Empty) (p : Svc α) (w : Trace) (Q : α → Trace → Prop) : Prop :=
  p.Holds exec (launched.outcome j) Matched w Q

theorem wp_setScheduled {on : Bool} {m : IpsecService} (h : Tracks m.session w) :
    Wp j (setScheduled on m) w fun m' w' => Tracks m'.session w' :=
  ⟨h.matched, fun _ _ => ⟨h.matched, h.of_ledger rfl⟩⟩

/-- The route of a session goes with it. -/
theorem wp_teardownSession {lost : Bool} {m : IpsecService} (h : Tracks m.session w) :
    Wp j (teardownSession lost m) w fun m' w' =>
      Tracks m'.session w' ∧ m'.session.active = false := by
  have hheld := h.held
  have hdrop : Wp j (dropRoute m.session) w fun _ w' => held [] w'.ledger = some [] := by
    unfold dropRoute
    split
    · rename_i hp
      rw [if_pos hp] at hheld
      have hgone : held [] (w.ledger ++ [.undone m.session.route]) = some [] := by
        rw [held_append_of_eq hheld, held_undone_top, held_nil]
      refine holds_ask (e := .delPeerRoute m.session.route) h.matched fun o _ => ?_
      refine ⟨?_, hgone⟩
      unfold Matched Trace.record
      simp [hgone]
    · rename_i hp
      rw [if_neg hp] at hheld
      exact ⟨h.matched, hheld⟩
  unfold teardownSession
  refine Prog.holds_bind.mpr (hdrop.mono fun _ w' hw' hempty => ?_)
  exact ⟨hw', .of_held hempty rfl, rfl⟩

/-- With a route there, the daemon's file is written and the daemon starts. -/
theorem wp_launch {c : IpsecConfig} {net : SessionNet} (hw : Matched w) :
    Wp j (launch c net) w fun err w' => w' = w ∧ (w.open ≠ [] → err = "") := by
  unfold launch
  refine holds_ask (e := .sessionConf c net) hw fun o ho => ?_
  rw [Trace.record_silent (e := .sessionConf c net) trivial]
  cases hp : o (.sessionConf c net) with
  | false =>
    refine ⟨hw, rfl, fun hopen => ?_⟩
    cases hp.symm.trans (ho hopen)
  | true =>
    refine holds_ask (e := .writeSessionConf c net) hw fun o ho => ?_
    rw [Trace.record_silent (e := .writeSessionConf c net) trivial]
    cases hp : o (.writeSessionConf c net) with
    | error err =>
      refine ⟨hw, rfl, fun hopen => ?_⟩
      cases hp.symm.trans (ho hopen)
    | ok _ =>
      refine holds_ask (e := .startDaemon) hw fun o ho => ?_
      rw [Trace.record_silent (e := .startDaemon) trivial]
      cases hp : o .startDaemon with
      | error err =>
        refine ⟨hw, rfl, fun hopen => ?_⟩
        cases hp.symm.trans (ho hopen)
      | ok _ => exact ⟨hw, rfl, fun _ => rfl⟩

/-- A route that is added is the only one there; none is where there are no uplinks. -/
theorem wp_claimRoute {r : PeerRoute} {m : IpsecService} (hw : held [] w.ledger = some []) :
    Wp j (claimRoute r m) w fun added w' =>
      held [] w'.ledger = some (if added = .ok () ∧ m.uplinks = true then [r] else []) := by
  have hm : Matched w := by simp [Matched, hw]
  unfold claimRoute
  split
  · rename_i hup
    refine ⟨hm, fun o _ => ?_⟩
    cases ha : o (.addPeerRoute r) with
    | error err =>
      have hrec : (exec (.addPeerRoute r) o w).2 = w := by simp [exec, Trace.record, ha]
      rw [hrec]
      exact ⟨hm, by simpa [exec, ha] using hw⟩
    | ok u =>
      have hrec : held [] (exec (.addPeerRoute r) o w).2.ledger = some [r] := by
        simp [exec, Trace.record, ha, held_append_of_eq hw]
      exact ⟨by simp [Matched, hrec], by simpa [exec, ha, hup] using hrec⟩
  · rename_i hup
    exact ⟨hm, by simp [hup, hw]⟩

/-- An attempt from nothing ends with the session's route, or with none. -/
theorem wp_establish {c : IpsecConfig} {uv : UnderlayView} {peerIp : Text} {m : IpsecService}
    (hw : held [] w.ledger = some []) (hm : m.session.peerRoute = false) :
    Wp j (establish c uv peerIp m) w fun r w' => Tracks r.2.session w' := by
  unfold establish
  refine Prog.holds_bind.mpr ((wp_claimRoute hw).mono fun added w' hw' hheld => ?_)
  cases added with
  | error err => exact ⟨hw', .of_held (by simpa using hheld) hm⟩
  | ok u =>
    have hroute : held [] w'.ledger =
        some (if m.uplinks then [⟨peerIp, uv.ifname, uv.gateway⟩] else []) := by
      simpa using hheld
    have hopen : w'.open = if m.uplinks then [⟨peerIp, uv.ifname, uv.gateway⟩] else [] := by
      unfold Trace.open
      rw [hroute]
      rfl
    refine Prog.holds_bind.mpr ((wp_launch hw').mono ?_)
    rintro err w₂ _ ⟨rfl, hok⟩
    split
    · rename_i herr
      -- only without uplinks can the start have failed, and then there is no route
      have hup : m.uplinks = false := by
        by_contra hup
        exact herr (hok (by simp [hopen, hup]))
      have ht : Tracks { m.session with peerRoute := m.uplinks } w₂ :=
        .of_held (by simpa [hup] using hroute) hup
      exact Prog.holds_bind.mpr ((wp_teardownSession (m := { m with
        session := { m.session with peerRoute := m.uplinks } }) ht).mono fun _ _ hw h => ⟨hw, h.1⟩)
    · refine Prog.holds_bind.mpr ((wp_setScheduled (m := IpsecService.open _ c uv peerIp) ?_).mono
        fun _ _ hw h => ⟨hw, h⟩)
      exact ⟨hroute, fun _ => rfl⟩

/-- A connection attempt of the user or of the main thread. -/
theorem wp_connectWith {preferCached : Bool} {m : IpsecService} (hj : j ≠ .inl .disconnect)
    (h : Tracks m.session w) :
    Wp j (connectWith preferCached m) w fun r w' => Tracks r.2.session w' := by
  unfold connectWith
  refine holds_ask (e := .config) h.matched fun o _ => ?_
  have h₁ : Tracks m.session (w.record .config (o .config)) := h.of_ledger rfl
  generalize w.record .config (o .config) = w₁ at h₁ ⊢
  generalize o .config = c
  dsimp only
  split
  · exact ⟨h₁.matched, h₁⟩
  split
  · exact ⟨h₁.matched, h₁⟩
  refine Prog.holds_bind.mpr (holds_silent (missingCredential_silent c) h₁.matched fun missing => ?_)
  split
  · exact ⟨h₁.matched, h₁⟩
  refine holds_ask (e := .daemonRunning) h₁.matched fun o ho => ?_
  rw [Trace.record_silent (e := .daemonRunning) trivial]
  cases hr : o .daemonRunning with
  | true => exact ⟨h₁.matched, h₁⟩
  | false =>
    -- no daemon runs, so no session is open and no peer route can be held from one
    have hnone : held [] w₁.ledger = some [] := by
      have hp := h₁.peerRoute_of_open (ho hj hr)
      simpa [hp] using h₁.held
    have h₂ : Tracks {} w₁ := .of_held hnone rfl
    refine Prog.holds_bind.mpr (holds_silent (selectUnderlay_silent c _) h₂.matched fun view => ?_)
    cases view with
    | error err => exact ⟨h₂.matched, h₂⟩
    | ok uv =>
      refine Prog.holds_bind.mpr (holds_silent (resolvePeer_silent _ c _) h₂.matched fun ip => ?_)
      cases ip with
      | error err => exact ⟨h₂.matched, h₂⟩
      | ok peerIp => exact wp_establish hnone rfl

theorem wp_disconnect {m : IpsecService} (h : Tracks m.session w) :
    Wp j (disconnect m) w fun r w' => Tracks r.2.session w' := by
  unfold disconnect
  refine Prog.holds_bind.mpr ((wp_setScheduled (m := { m with
    manualStop := true, reconnectAttempt := 0 }) h).mono fun m₁ w₁ _ h₁ => ?_)
  refine holds_ask (e := .note .disconnect) h₁.matched fun o _ => ?_
  have h₂ : Tracks m₁.session (w₁.record (.note .disconnect) (o (.note .disconnect))) :=
    h₁.of_ledger rfl
  refine Prog.holds_bind.mpr (holds_silent stopIfRunning_silent h₂.matched fun out => ?_)
  exact Prog.holds_bind.mpr ((wp_teardownSession h₂).mono fun _ _ hw h => ⟨hw, h.1⟩)

section validate

variable {validate : IpsecConfig → String} {nowMs : UInt32} {c : IpsecConfig} {m : IpsecService}

theorem wp_scheduleReconnect (h : Tracks m.session w) :
    Wp j (scheduleReconnect validate nowMs c m) w fun m' w' => Tracks m'.session w' := by
  unfold scheduleReconnect
  split
  · exact wp_setScheduled h
  · refine Prog.holds_bind.mpr (holds_silent (credentialOk_silent c) h.matched fun credOk => ?_)
    split
    · exact wp_setScheduled h
    · exact wp_setScheduled (m := m.nextAttempt nowMs) h

theorem wp_autoStart (h : Tracks m.session w) :
    Wp j (autoStart validate nowMs c m) w fun m' w' => Tracks m'.session w' := by
  unfold autoStart
  split
  · exact ⟨h.matched, h⟩
  dsimp only
  split
  · exact ⟨h.matched, h⟩
  refine holds_ask (e := .daemonRunning) h.matched fun o _ => ?_
  rw [Trace.record_silent (e := .daemonRunning) trivial]
  split
  · exact ⟨h.matched, h⟩
  · exact wp_scheduleReconnect (m := { m with bootChecked := true, reconnectAttempt := 0 }) h

theorem wp_superviseSession (h : Tracks m.session w) :
    Wp j (superviseSession validate nowMs c m) w fun m' w' => Tracks m'.session w' := by
  unfold superviseSession
  refine Prog.holds_bind.mpr (holds_silent (underlayLost_silent c m) h.matched fun moved => ?_)
  refine holds_ask (e := .ctlStatus) h.matched fun o _ => ?_
  have h₁ : Tracks m.session (w.record .ctlStatus (o .ctlStatus)) :=
    h.of_ledger (w.ledger_ctlStatus _)
  generalize w.record .ctlStatus (o .ctlStatus) = w₁ at h₁ ⊢
  have h₂ (seen : Bool) (s : VpnStatus) : Tracks (m.observe nowMs seen s).session w₁ := by
    rw [IpsecService.session_observe]
    exact h₁
  dsimp only
  split
  · refine holds_ask (e := .stopDaemon) h₁.matched fun o _ => ?_
    rw [Trace.record_silent (e := .stopDaemon) trivial]
    refine Prog.holds_bind.mpr ((wp_teardownSession (h₂ _ _)).mono fun m₃ w₃ _ h₃ => ?_)
    exact wp_scheduleReconnect h₃.1
  · exact ⟨h₁.matched, h₂ _ _⟩

theorem wp_retry (hj : j ≠ .inl .disconnect) (h : Tracks m.session w) :
    Wp j (retry validate nowMs c m) w fun m' w' => Tracks m'.session w' := by
  unfold retry
  split
  · refine Prog.holds_bind.mpr ((wp_setScheduled h).mono fun m₁ w₁ _ h₁ => ?_)
    refine holds_ask (e := .note .autoConnect) h₁.matched fun o _ => ?_
    refine Prog.holds_bind.mpr ((wp_connectWith hj (h₁.of_ledger (w₁.ledger_note _))).mono ?_)
    rintro ⟨e, m₂⟩ w₂ hw₂ h₂
    dsimp only
    split
    · exact wp_scheduleReconnect h₂
    · exact ⟨hw₂, h₂⟩
  · exact ⟨h.matched, h⟩

theorem wp_tick (hj : j ≠ .inl .disconnect) (h : Tracks m.session w) :
    Wp j (tick validate nowMs m) w fun m' w' => Tracks m'.session w' := by
  unfold tick
  refine holds_ask (e := .config) h.matched fun o _ => ?_
  have h₁ : Tracks m.session (w.record .config (o .config)) := h.of_ledger rfl
  refine Prog.holds_bind.mpr ((wp_autoStart h₁).mono fun m₂ w₂ _ h₂ => ?_)
  have h₃ : Tracks (m₂.expireRekey nowMs).session w₂ := by
    rw [IpsecService.session_expireRekey]
    exact h₂
  dsimp only
  split
  · exact wp_superviseSession h₃
  · exact wp_retry hj h₃

theorem wp_status (h : Tracks m.session w) :
    Wp j (status m) w fun _ w' => Tracks m.session w' := by
  unfold status
  refine holds_ask (e := .ctlStatus) h.matched fun o _ => ?_
  have h₁ : Tracks m.session (w.record .ctlStatus (o .ctlStatus)) :=
    h.of_ledger (w.ledger_ctlStatus _)
  refine holds_ask (e := .config) h₁.matched fun o _ => ?_
  have h₂ : Tracks m.session (Trace.record _ .config (o .config)) := h₁.of_ledger rfl
  exact ⟨h₂.matched, h₂⟩

/-- Between two operations the route that is there is the session's. -/
theorem keeps_tracks (validate : IpsecConfig → String) :
    (service validate).Keeps launched Matched fun m w => Tracks m.session w where
  job j m w _ h _ := by
    cases j with
    | connect =>
      refine Prog.holds_bind.mpr (holds_ask (e := .note .connect) h.matched fun o _ => ?_)
      refine (wp_connectWith (by simp) (h.of_ledger (w.ledger_note _))).mono ?_
      exact fun _ _ hw hr => ⟨hw, hr⟩
    | disconnect =>
      exact Prog.holds_bind.mpr ((wp_disconnect h).mono fun _ _ hw hr => ⟨hw, hr⟩)
    | tick nowMs => exact wp_tick (by simp) h
    | setConfig c secrets =>
      refine Prog.holds_bind.mpr (holds_silent (setConfig_silent validate c secrets) h.matched ?_)
      exact fun _ => ⟨h.matched, h⟩
    | status =>
      exact Prog.holds_bind.mpr ((wp_status h).mono fun _ _ hw hr => ⟨hw, hr⟩)
  boot b := b.elim

end validate

end jobs

/-- As long as no attempt fails with its route already added, and none finds a dead daemon whose
route is still there, every peer route added is deleted by the time there is no session. -/
theorem peer_routes_run (validate : IpsecConfig → String) (uplinks : Bool)
    (is : List (Input Outcome Job Empty))
    (h : Along (service validate).step launched.Admissible (constructed uplinks) is) :
    Always (service validate).step RoutesReturned (constructed uplinks) is := by
  have h0 : (service validate).Good launched Matched (fun m w => Tracks m.session w)
      (constructed uplinks) := ⟨by simp [Matched, constructed], rfl, by simp⟩
  refine ((keeps_tracks validate).run_idle h0 h).mono fun s hs => ?_
  have hb (m : IpsecService) (hm : s.proc = .ret m) (ha : m.session.active = false) :
      Balanced s.world.ledger := by
    have ht := hs.2 m hm
    have hp : m.session.peerRoute = false := by
      by_contra hp
      simp [ht.active (by simpa using hp)] at ha
    exact balanced_of_held _ (by simpa [hp] using ht.held)
  exact ⟨hs.1, hb, fun m hm ha r => (hb m hm ha).count_eq r⟩

/-- The user connects and disconnects, and everything works. -/
theorem peer_routes_run_working :
    Always (service fun _ => "").step RoutesReturned (constructed true)
      (.start .connect :: List.replicate 12 (.answer working) ++
        .start .disconnect :: List.replicate 5 (.answer working)) := by
  refine peer_routes_run _ _ _ ?_
  decide

/-- The daemon does not start: the route to the gateway that was added for it stays. -/
theorem not_routesReturned_launch :
    ¬ RoutesReturned (run (service fun _ => "").step (constructed true)
      (.start .connect :: List.replicate 9 (.answer working) ++
        List.replicate 2 (.answer fun e => match e with
          | .startDaemon => .error ""
          | e => working e))) := by
  intro h
  exact h.matched (by decide)

end Machino.Ipsec
