import Machino.Ipsec.Trace

namespace Machino.Ipsec

open Effects Runs

/-- After a refusal or a stop by the user nothing is scheduled, and no attempt was made. -/
structure Quiet (w : Trace) : Prop where
  scheduled : w.stopped = true → w.scheduled = false
  retries : w.retries = 0

/-- A refusal is heard only while nothing is scheduled, and the main thread that has heard one
finds the credential only under a configuration that cannot be used. -/
def heeded (validate : IpsecConfig → String) :
    Rules Effect Outcome Trace Job Empty IpsecService where
  starts _ _ _ := True
  outcome j w e o := match e with
    | .ctlStatus => (∃ text ∈ o .ctlStatus, Refusal text) → w.stopped = true ∨ w.scheduled = false
    | .daemonKey k => (∃ nowMs, j = .inl (.tick nowMs)) → w.stopped = true →
      o (.daemonKey k) = true → validate w.config ≠ "" ∨ w.config.gateway = []
    | _ => True
  reboots b _ := b.elim

instance (validate : IpsecConfig → String) (j : Job) (m : IpsecService) (w : Trace) :
    Decidable ((heeded validate).starts j m w) := .isTrue trivial

instance (validate : IpsecConfig → String) (j : Job ⊕ Empty) (w : Trace) (e : Effect)
    (o : Outcome) : Decidable ((heeded validate).outcome j w e o) :=
  match e with
  | .ctlStatus => inferInstanceAs (Decidable
      ((∃ text ∈ o .ctlStatus, Refusal text) → w.stopped = true ∨ w.scheduled = false))
  | .daemonKey k =>
    match j with
    | .inl (.tick nowMs) => decidable_of_iff (w.stopped = true → o (.daemonKey k) = true →
        validate w.config ≠ "" ∨ w.config.gateway = []) ⟨fun h _ => h, fun h => h ⟨nowMs, rfl⟩⟩
    | .inl .connect | .inl .disconnect | .inl (.setConfig _ _) | .inl .status =>
      .isTrue fun ⟨_, h⟩ => nomatch h
  | .config | .daemonRunning | .startDaemon | .stopDaemon | .resolve4 _ | .select _
  | .addPeerRoute _ | .delPeerRoute _ | .sessionConf _ _ | .writeSessionConf _ _ | .writeCaPem _
  | .writeExtraPem _ | .daemonConf _ _ | .writeDaemonConf _ _ | .writeMachinoConf _
  | .note _ => .isTrue trivial

instance (validate : IpsecConfig → String) (b : Empty) (w : Trace) :
    Decidable ((heeded validate).reboots b w) := b.elim

/-- The trace and the memory agree about what is scheduled, and `stopped` is what the trace has
heard. -/
structure Heard (stopped : Bool) (m : IpsecService) (w : Trace) : Prop where
  stopped : w.stopped = stopped
  scheduled : w.scheduled = m.reconnectScheduled
  quiet : Quiet w

/-- A call that neither reads the configuration nor hears of a stop. -/
def Effect.Calm (e : Effect) : Prop :=
  e.Silent ∨ (∃ r, e = .addPeerRoute r) ∨ ∃ r, e = .delPeerRoute r

/-- The parts of a trace that say what is scheduled and why not. -/
structure SameCourse (w w' : Trace) : Prop where
  config : w'.config = w.config
  stopped : w'.stopped = w.stopped
  scheduled : w'.scheduled = w.scheduled
  retries : w'.retries = w.retries

theorem SameCourse.refl (w : Trace) : SameCourse w w := ⟨rfl, rfl, rfl, rfl⟩

theorem SameCourse.record {e : Effect} (he : e.Calm) {w w' : Trace} (h : SameCourse w w')
    (a : Answer e) : SameCourse w (w'.record e a) := by
  obtain hs | ⟨r, rfl⟩ | ⟨r, rfl⟩ := he
  · rwa [Trace.record_silent hs]
  · cases a with
    | error err => exact h
    | ok u => exact ⟨h.config, h.stopped, h.scheduled, h.retries⟩
  · exact ⟨h.config, h.stopped, h.scheduled, h.retries⟩

theorem Heard.of_same {stopped : Bool} {m : IpsecService} {w w' : Trace} (h : Heard stopped m w)
    (hs : SameCourse w w') : Heard stopped m w' where
  stopped := hs.stopped.trans h.stopped
  scheduled := hs.scheduled.trans h.scheduled
  quiet := {
    scheduled := by
      rw [hs.stopped, hs.scheduled]
      exact h.quiet.scheduled
    retries := hs.retries.trans h.quiet.retries }

theorem Heard.of_memory {stopped : Bool} {m m' : IpsecService} {w : Trace} (h : Heard stopped m w)
    (hm : m'.reconnectScheduled = m.reconnectScheduled) : Heard stopped m' w :=
  ⟨h.stopped, h.scheduled.trans hm.symm, h.quiet⟩

section jobs

variable {validate : IpsecConfig → String} {j : Job ⊕ Empty} {w : Trace} {α : Type}
  {stopped : Bool} {m : IpsecService}

/-- The program, run for `j`, stays quiet and ends in `Q`. -/
abbrev Hp (validate : IpsecConfig → String) (j : Job ⊕ Empty) (p : Svc α) (w : Trace)
    (Q : α → Trace → Prop) : Prop :=
  p.Holds exec ((heeded validate).outcome j) Quiet w Q

/-- A calm program leaves what is scheduled alone. -/
theorem hp_calm {p : Svc α} (hp : p.Uses Effect.Calm) (hw : Quiet w) :
    Hp validate j p w fun _ w' => SameCourse w w' := by
  refine hp.holds (fun w' hs => ?_) (fun e o w' he hs => hs.record he (o e)) (SameCourse.refl w)
  exact ⟨by rw [hs.stopped, hs.scheduled]; exact hw.scheduled, hs.retries.trans hw.retries⟩

/-- Nothing is written to `reconnect_scheduled_` but `false` after a stop. -/
theorem hp_setScheduled {on : Bool} (h : Heard stopped m w) (hon : on = true → stopped = false) :
    Hp validate j (setScheduled on m) w fun m' w' => Heard stopped m' w' ∧
      m' = { m with reconnectScheduled := on } ∧ w'.config = w.config := by
  have hquiet : Quiet (w.note (.scheduled on)) := by
    refine ⟨fun hs => ?_, h.quiet.retries⟩
    change on = false
    by_contra hne
    have hstop : w.stopped = true := hs
    rw [h.stopped, hon (by simpa using hne)] at hstop
    cases hstop
  exact ⟨h.quiet, fun _ _ => ⟨hquiet, ⟨h.stopped, rfl, hquiet⟩, rfl, rfl⟩⟩

theorem claimRoute_calm (r : PeerRoute) (m : IpsecService) :
    (claimRoute r m).Uses Effect.Calm := by
  unfold claimRoute
  split
  · exact Prog.uses_perform (.inr (.inl ⟨_, rfl⟩))
  · trivial

/-- What goes on under `Heard` after a calm program. -/
theorem hp_calm_bind {β : Type} {p : Svc α} {k : α → Svc β} {Q : β → Trace → Prop}
    (hp : p.Uses Effect.Calm) (h : Heard stopped m w)
    (hk : ∀ a w', SameCourse w w' → Heard stopped m w' → Hp validate j (k a) w' Q) :
    Hp validate j (p >>= k) w Q :=
  Prog.holds_bind.mpr ((hp_calm hp h.quiet).mono fun a w' _ hs => hk a w' hs (h.of_same hs))

theorem hp_teardownSession {lost : Bool} (h : Heard stopped m w) :
    Hp validate j (teardownSession lost m) w fun m' w' =>
      Heard stopped m' w' ∧ m'.manualStop = m.manualStop ∧ SameCourse w w' := by
  have hdrop : (dropRoute m.session).Uses Effect.Calm := by
    unfold dropRoute
    split
    · exact Prog.Uses.bind (Prog.uses_perform (.inr (.inr ⟨_, rfl⟩))) fun _ => trivial
    · trivial
  unfold teardownSession
  exact hp_calm_bind hdrop h fun _ w' hs h' => ⟨h'.quiet, h'.of_memory rfl, rfl, hs⟩

theorem hp_establish {c : IpsecConfig} {uv : UnderlayView} {peerIp : Text}
    (h : Heard stopped m w) :
    Hp validate j (establish c uv peerIp m) w fun r w' => Heard stopped r.2 w' := by
  unfold establish
  refine hp_calm_bind (claimRoute_calm _ m) h fun added w₁ _ h₁ => ?_
  cases added with
  | error err => exact ⟨h₁.quiet, h₁⟩
  | ok u =>
    refine hp_calm_bind ((launch_silent c _).mono fun _ he => .inl he) h₁ fun err w₂ _ h₂ => ?_
    split
    · have h₃ : Heard stopped { m with session := { m.session with peerRoute := m.uplinks } } w₂ :=
        h₂.of_memory rfl
      refine Prog.holds_bind.mpr ((hp_teardownSession h₃).mono ?_)
      exact fun _ _ hw h => ⟨hw, h.1⟩
    · have h₃ : Heard stopped (IpsecService.open { m with
          session := { m.session with peerRoute := m.uplinks } } c uv peerIp) w₂ :=
        h₂.of_memory rfl
      refine Prog.holds_bind.mpr ((hp_setScheduled h₃ (by simp)).mono ?_)
      exact fun _ _ hw h => ⟨hw, h.1⟩

/-- An attempt schedules nothing. -/
theorem hp_connectWith {preferCached : Bool} (h : Heard stopped m w) :
    Hp validate j (connectWith preferCached m) w fun r w' => Heard stopped r.2 w' := by
  unfold connectWith
  refine holds_ask (e := .config) h.quiet fun o _ => ?_
  have h₁ : Heard stopped m (w.record .config (o .config)) :=
    ⟨h.stopped, h.scheduled, h.quiet.scheduled, h.quiet.retries⟩
  generalize w.record .config (o .config) = w₁ at h₁ ⊢
  generalize o .config = c
  dsimp only
  split
  · exact ⟨h₁.quiet, h₁⟩
  split
  · exact ⟨h₁.quiet, h₁⟩
  refine hp_calm_bind ((missingCredential_silent c).mono fun _ he => .inl he) h₁
    fun missing w₂ _ h₂ => ?_
  split
  · exact ⟨h₂.quiet, h₂⟩
  refine hp_calm_bind (Prog.uses_perform (.inl trivial)) h₂ fun running w₃ _ h₃ => ?_
  cases running with
  | true => exact ⟨h₃.quiet, h₃⟩
  | false =>
    have h₄ : Heard stopped { m with session := {} } w₃ := h₃.of_memory rfl
    refine hp_calm_bind ((selectUnderlay_silent c _).mono fun _ he => .inl he) h₄
      fun view w₄ _ h₅ => ?_
    cases view with
    | error err => exact ⟨h₅.quiet, h₅⟩
    | ok uv =>
      refine hp_calm_bind ((resolvePeer_silent _ c _).mono fun _ he => .inl he) h₅
        fun ip w₅ _ h₆ => ?_
      cases ip with
      | error err => exact ⟨h₆.quiet, h₆⟩
      | ok peerIp => exact hp_establish h₆

theorem hp_disconnect (h : Heard stopped m w) :
    Hp validate j (disconnect m) w fun r w' => Heard true r.2 w' := by
  unfold disconnect
  have h₀ : Heard stopped { m with manualStop := true, reconnectAttempt := 0 } w := h.of_memory rfl
  refine Prog.holds_bind.mpr ((hp_setScheduled h₀ (by simp)).mono fun m₁ w₁ _ h₁ => ?_)
  refine holds_ask (e := .note .disconnect) h₁.1.quiet fun o _ => ?_
  have hoff : w₁.scheduled = false := by rw [h₁.1.scheduled, h₁.2.1]
  have h₂ : Heard true m₁ (w₁.record (.note .disconnect) (o (.note .disconnect))) :=
    ⟨rfl, h₁.1.scheduled, fun _ => hoff, h₁.1.quiet.retries⟩
  refine hp_calm_bind (stopIfRunning_silent.mono fun _ he => .inl he) h₂ fun out w₃ _ h₃ => ?_
  exact Prog.holds_bind.mpr ((hp_teardownSession h₃).mono fun _ _ hw h => ⟨hw, h.1⟩)

variable {nowMs : UInt32} {c : IpsecConfig}

/-- Under a configuration that could be used, the credential is not found after a stop. -/
theorem hp_credentialOk {now : UInt32} (h : Heard stopped m w) (hc : stopped = true → w.config = c) :
    Hp validate (.inl (.tick now)) (credentialOk c) w fun ok w' => SameCourse w w' ∧
      (ok = true → stopped = true → validate c ≠ "" ∨ c.gateway = []) := by
  have hkey (k : DaemonKey) : Hp validate (.inl (.tick now)) (daemonKey k) w fun ok w' =>
      SameCourse w w' ∧ (ok = true → stopped = true → validate c ≠ "" ∨ c.gateway = []) := by
    refine ⟨h.quiet, fun o ho => ⟨h.quiet, SameCourse.refl w, fun hok hs => ?_⟩⟩
    have hfound := ho ⟨now, rfl⟩ (h.stopped.trans hs) hok
    rwa [hc hs] at hfound
  unfold credentialOk
  cases c.auth with
  | psk => exact hkey .psk
  | eapMschapv2 =>
    dsimp only
    split
    · exact ⟨h.quiet, SameCourse.refl w, nofun⟩
    · exact hkey .eapPassword

/-- After a stop nothing is scheduled. -/
theorem hp_scheduleReconnect {now : UInt32} (h : Heard stopped m w)
    (hc : stopped = true → w.config = c) :
    Hp validate (.inl (.tick now)) (scheduleReconnect validate nowMs c m) w fun m' w' =>
      Heard stopped m' w' ∧ w'.config = w.config := by
  unfold scheduleReconnect
  split
  · exact (hp_setScheduled h (by simp)).mono fun _ _ _ h' => ⟨h'.1, h'.2.2⟩
  · refine Prog.holds_bind.mpr ((hp_credentialOk h hc).mono fun credOk w₁ _ hcred => ?_)
    have h₁ := h.of_same hcred.1
    split
    · refine (hp_setScheduled h₁ (by simp)).mono fun _ _ _ h' => ⟨h'.1, ?_⟩
      exact h'.2.2.trans hcred.1.config
    · rename_i husable
      have hon : stopped = false := by
        by_contra hs
        have hfound := hcred.2 (by simpa using fun hf => husable (.inr (.inr hf)))
          (by simpa using hs)
        exact husable (hfound.imp_right .inl)
      have h₂ : Heard stopped (m.nextAttempt nowMs) w₁ := h₁.of_memory rfl
      refine (hp_setScheduled h₂ fun _ => hon).mono fun _ _ _ h' => ⟨h'.1, ?_⟩
      exact h'.2.2.trans hcred.1.config

theorem hp_autoStart {now : UInt32} (h : Heard stopped m w) (hc : w.config = c) :
    Hp validate (.inl (.tick now)) (autoStart validate nowMs c m) w fun m' w' =>
      Heard stopped m' w' ∧ w'.config = c := by
  unfold autoStart
  split
  · exact ⟨h.quiet, h, hc⟩
  dsimp only
  have h₁ : Heard stopped { m with bootChecked := true } w := h.of_memory rfl
  split
  · exact ⟨h.quiet, h₁, hc⟩
  refine hp_calm_bind (Prog.uses_perform (.inl trivial)) h₁ fun running w₂ hs h₂ => ?_
  have hc₂ : w₂.config = c := hs.config.trans hc
  split
  · exact ⟨h₂.quiet, h₂, hc₂⟩
  · have h₃ : Heard stopped { m with bootChecked := true, reconnectAttempt := 0 } w₂ :=
      h₂.of_memory rfl
    exact (hp_scheduleReconnect h₃ fun _ => hc₂).mono fun _ _ _ h' => ⟨h'.1, h'.2.trans hc₂⟩

/-- What is reported may be a refusal, and then nothing is scheduled. -/
theorem heard_ctlStatus {o : Outcome} (h : Heard stopped m w)
    (ho : (heeded validate).outcome j w .ctlStatus o) :
    ∃ stopped', Heard stopped' m (w.record .ctlStatus (o .ctlStatus)) ∧
      (w.record .ctlStatus (o .ctlStatus)).config = w.config := by
  have ho : (∃ text ∈ o .ctlStatus, Refusal text) → w.stopped = true ∨ w.scheduled = false := ho
  generalize o .ctlStatus = answer at ho ⊢
  cases answer with
  | none => exact ⟨stopped, h, rfl⟩
  | some text =>
    by_cases hr : Refusal text
    · have hrec : w.record .ctlStatus (some text) = { w with stopped := true } := if_pos hr
      rw [hrec]
      refine ⟨true, ⟨rfl, h.scheduled, fun _ => ?_, h.quiet.retries⟩, rfl⟩
      exact (ho ⟨text, rfl, hr⟩).elim h.quiet.scheduled id
    · have hrec : w.record .ctlStatus (some text) = w := if_neg hr
      rw [hrec]
      exact ⟨stopped, h, rfl⟩

theorem hp_superviseSession {now : UInt32} (h : Heard stopped m w) (hc : w.config = c) :
    Hp validate (.inl (.tick now)) (superviseSession validate nowMs c m) w fun m' w' =>
      ∃ stopped', Heard stopped' m' w' := by
  unfold superviseSession
  refine hp_calm_bind ((underlayLost_silent c m).mono fun _ he => .inl he) h fun moved w₁ hs h₁ => ?_
  refine holds_ask (e := .ctlStatus) h₁.quiet fun o ho => ?_
  obtain ⟨stopped', h₂, hc₂⟩ := heard_ctlStatus h₁ ho
  generalize w₁.record .ctlStatus (o .ctlStatus) = w₂ at h₂ hc₂ ⊢
  have hobs (seen : Bool) (s : VpnStatus) := m.reconnectScheduled_observe nowMs seen s
  dsimp only
  split
  · refine hp_calm_bind (Prog.uses_perform (.inl trivial)) h₂ fun _ w₃ hs₃ h₃ => ?_
    refine Prog.holds_bind.mpr
      ((hp_teardownSession (h₃.of_memory (hobs _ _))).mono fun m₄ w₄ _ h₅ => ?_)
    have hc₄ : w₄.config = c :=
      h₅.2.2.config.trans (hs₃.config.trans (hc₂.trans (hs.config.trans hc)))
    exact (hp_scheduleReconnect h₅.1 fun _ => hc₄).mono fun _ _ _ h' => ⟨stopped', h'.1⟩
  · exact ⟨h₂.quiet, stopped', h₂.of_memory (hobs _ _)⟩

/-- What is due has been scheduled, so nobody has stopped it. -/
theorem hp_retry {now : UInt32} (h : Heard stopped m w) :
    Hp validate (.inl (.tick now)) (retry validate nowMs c m) w fun m' w' =>
      Heard stopped m' w' := by
  unfold retry
  split
  · rename_i hdue
    -- a stopped service has nothing scheduled, so a due retry means it is not stopped
    have hstop : stopped = false := by
      by_contra hs
      have hoff := h.quiet.scheduled (h.stopped.trans (by simpa using hs))
      rw [h.scheduled, hdue.1] at hoff
      cases hoff
    subst hstop
    refine Prog.holds_bind.mpr ((hp_setScheduled h (by simp)).mono fun m₁ w₁ _ h₁ => ?_)
    refine holds_ask (e := .note .autoConnect) h₁.1.quiet fun o _ => ?_
    have hsame : w₁.record (.note .autoConnect) (o (.note .autoConnect)) = w₁ :=
      if_neg (by rw [h₁.1.stopped]; simp)
    rw [hsame]
    refine Prog.holds_bind.mpr ((hp_connectWith h₁.1).mono ?_)
    rintro ⟨e, m₂⟩ w₂ hw₂ h₂
    dsimp only
    split
    · exact (hp_scheduleReconnect h₂ nofun).mono fun _ _ _ h' => h'.1
    · exact ⟨hw₂, h₂⟩
  · exact ⟨h.quiet, h⟩

theorem hp_tick {now : UInt32} (h : Heard stopped m w) :
    Hp validate (.inl (.tick now)) (tick validate nowMs m) w fun m' w' =>
      ∃ stopped', Heard stopped' m' w' := by
  unfold tick
  refine holds_ask (e := .config) h.quiet fun o _ => ?_
  have h₁ : Heard stopped m (w.record .config (o .config)) :=
    ⟨h.stopped, h.scheduled, h.quiet.scheduled, h.quiet.retries⟩
  refine Prog.holds_bind.mpr ((hp_autoStart h₁ rfl).mono fun m₂ w₂ _ h₂ => ?_)
  have h₃ : Heard stopped (m₂.expireRekey nowMs) w₂ :=
    h₂.1.of_memory (IpsecService.reconnectScheduled_expireRekey m₂ nowMs)
  dsimp only
  split
  · exact hp_superviseSession h₃ h₂.2
  · exact (hp_retry h₃).mono fun _ _ _ h' => ⟨stopped, h'⟩

theorem hp_status (h : Heard stopped m w) :
    Hp validate j (status m) w fun _ w' => ∃ stopped', Heard stopped' m w' := by
  unfold status
  refine holds_ask (e := .ctlStatus) h.quiet fun o ho => ?_
  obtain ⟨stopped', h₁, -⟩ := heard_ctlStatus h ho
  refine holds_ask (e := .config) h₁.quiet fun o' _ => ?_
  have h₂ : Heard stopped' m (Trace.record _ .config (o' .config)) :=
    ⟨h₁.stopped, h₁.scheduled, h₁.quiet.scheduled, h₁.quiet.retries⟩
  exact ⟨h₂.quiet, stopped', h₂⟩

theorem keeps_quiet (validate : IpsecConfig → String) :
    (service validate).Keeps (heeded validate) Quiet fun m w => ∃ stopped, Heard stopped m w where
  job j m w _ h _ := by
    obtain ⟨stopped, h⟩ := h
    cases j with
    | connect =>
      refine Prog.holds_bind.mpr (holds_ask (e := .note .connect) h.quiet fun o _ => ?_)
      have h₁ : Heard false m (w.record (.note .connect) (o (.note .connect))) :=
        ⟨rfl, h.scheduled, nofun, h.quiet.retries⟩
      exact (hp_connectWith h₁).mono fun _ _ hw hr => ⟨hw, false, hr⟩
    | disconnect =>
      exact Prog.holds_bind.mpr ((hp_disconnect h).mono fun _ _ hw hr => ⟨hw, true, hr⟩)
    | tick nowMs => exact hp_tick h
    | setConfig c secrets =>
      refine hp_calm_bind ((setConfig_silent validate c secrets).mono fun _ he => .inl he) h ?_
      exact fun _ _ _ h' => ⟨h'.quiet, stopped, h'⟩
    | status =>
      exact Prog.holds_bind.mpr ((hp_status h).mono fun _ _ hw hr => ⟨hw, hr⟩)
  boot b := b.elim

end jobs

/-- As long as no refusal meets a configuration that can be used, none is followed by a reconnect,
and neither is a stop by the user, until the user connects again. -/
theorem reconnects_run (validate : IpsecConfig → String) (uplinks : Bool)
    (is : List (Input Outcome Job Empty))
    (h : Along (service validate).step (heeded validate).Admissible (constructed uplinks) is) :
    Always (service validate).step (fun s => Quiet s.world) (constructed uplinks) is := by
  refine (keeps_quiet validate).run ?_ h
  have hq : Quiet (constructed uplinks).world := ⟨nofun, rfl⟩
  exact ⟨hq, false, rfl, rfl, hq⟩

/-- The user connects, disconnects while the tunnel is up, and the main thread goes on. -/
theorem reconnects_run_working :
    Always (service fun _ => "").step (fun s => Quiet s.world) (constructed true)
      (.start .connect :: List.replicate 12 (.answer working) ++
        .start (.tick 0) :: List.replicate 4 (.answer working) ++
        .start .disconnect :: List.replicate 5 (.answer working) ++
        .start (.tick 5000) :: List.replicate 4 (.answer working)) := by
  refine reconnects_run _ _ _ ?_
  decide

/-- The gateway refuses the authentication while the tunnel is up. -/
def refusing : Outcome
  | .ctlStatus => some "state=FAILED
last_notify=24".toList
  | e => working e

/-- The refused connection is scheduled again. -/
theorem not_quiet_refused :
    ¬ Quiet (run (service fun _ => "").step (constructed true)
      (.start .connect :: List.replicate 11 (.answer working) ++
        .start (.tick 0) :: List.replicate 8 (.answer refusing))).world := by
  intro h
  exact absurd (h.scheduled (by decide)) (by decide)

end Machino.Ipsec
