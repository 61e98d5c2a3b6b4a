import Machino.Cellular.SimManager

namespace Machino.Cellular

open Effects Runs

/-- The note that outlives the process, and the unlock commands that went out since the SIM was
last seen ready. -/
structure SimWorld where
  record : Text := []
  sent : List Text := []
  deriving DecidableEq, Repr

/-- Any answer of the port and of the modem. -/
structure ModemReply where
  available : Bool := true
  exchange : AtExchange := {}
  deriving DecidableEq, Repr

/-- A reply that reads ready begins a new count; an unlock command adds to it. -/
def SimWorld.observe (w : SimWorld) (cmd : Text) (x : AtExchange) : SimWorld :=
  if cmd = "AT+CPIN?".toList ∧ parseCpin x.raw = .ready then { w with sent := [] }
  else if "AT+CPIN=".toList.isPrefixOf cmd then { w with sent := cmd :: w.sent }
  else w

def SimWorld.exec : (e : ModemCall) → ModemReply → SimWorld → ModemAnswer e × SimWorld
  | .available, o, w => (o.available, w)
  | .command cmd _, o, w => (o.exchange, w.observe cmd o.exchange)
  | .loadNote, _, w => (if w.record = [] then none else some w.record, w)
  | .storeNote token, _, w => ((), { w with record := token })

inductive CellularJob where
  | setConfig (c : CellularConfig)
  | poll

/-- A restart is a fresh service that is given the stored configuration. -/
def cellularDaemon :
    Machine ModemCall ModemAnswer ModemReply SimWorld CellularJob CellularConfig CellularService where
  exec := SimWorld.exec
  job
    | .setConfig c, svc => setConfig c svc
    | .poll, svc => poll svc
  boot stored := setConfig stored {}

/-- The first start, with nothing on record and nothing sent. -/
def coldStart (stored : CellularConfig) :
    State ModemCall ModemAnswer SimWorld CellularJob CellularConfig CellularService where
  world := {}
  job := .inr stored
  proc := setConfig stored {}

/-- No unlock command has gone out twice since the SIM was last seen ready. -/
def SentOnce (w : SimWorld) : Prop := w.sent.Nodup

/-- The service is never given another PIN than it has that was sent before; a fresh service has
none. -/
def pinRules : Rules ModemCall ModemReply SimWorld CellularJob CellularConfig CellularService where
  starts
    | .setConfig c, svc, w => c.simPin ≠ svc.cfg.simPin → cpinCommand c.simPin ∉ w.sent
    | .poll, _, _ => True
  outcome _ _ _ _ := True
  reboots stored w := stored.simPin ≠ [] → cpinCommand stored.simPin ∉ w.sent

instance (j : CellularJob) (svc : CellularService) (w : SimWorld) :
    Decidable (pinRules.starts j svc w) :=
  match j with
  | .setConfig c =>
    inferInstanceAs (Decidable (c.simPin ≠ svc.cfg.simPin → cpinCommand c.simPin ∉ w.sent))
  | .poll => .isTrue trivial

instance (j : CellularJob ⊕ CellularConfig) (w : SimWorld) (e : ModemCall) (o : ModemReply) :
    Decidable (pinRules.outcome j w e o) := .isTrue trivial

instance (stored : CellularConfig) (w : SimWorld) : Decidable (pinRules.reboots stored w) :=
  inferInstanceAs (Decidable (stored.simPin ≠ [] → cpinCommand stored.simPin ∉ w.sent))

/-- The note in memory is the one on record, once it has been read. -/
def Noted (m : SimManager) (w : SimWorld) : Prop :=
  m.attemptLog = if m.loaded then w.record else []

/-- A PIN that was sent is on record. -/
def Tried (pin : Text) (w : SimWorld) : Prop :=
  pin ≠ [] → cpinCommand pin ∈ w.sent → w.record = simAttemptToken pin

/-- What holds of service and world between two jobs. -/
structure Guarded (svc : CellularService) (w : SimWorld) : Prop where
  noted : Noted svc.sim w
  tried : Tried svc.cfg.simPin w

section calls

variable {α : Type} {j : CellularJob ⊕ CellularConfig} {w : SimWorld} {m : SimManager} {pin : Text}

/-- The program, run for `j`, sends no PIN twice and ends in `Q`. -/
abbrev Wp (j : CellularJob ⊕ CellularConfig) (p : Modem α) (w : SimWorld)
    (Q : α → SimWorld → Prop) : Prop :=
  p.Holds SimWorld.exec (pinRules.outcome j) SentOnce w Q

/-- A question that is not about the PIN. -/
def quiet (cmd : Text) : Bool :=
  cmd ≠ "AT+CPIN?".toList && !"AT+CPIN=".toList.isPrefixOf cmd

theorem observe_quiet {cmd : Text} (h : quiet cmd = true) (x : AtExchange) :
    w.observe cmd x = w := by
  unfold quiet at h
  simp only [Bool.and_eq_true, decide_eq_true_eq, Bool.not_eq_true'] at h
  unfold SimWorld.observe
  rw [if_neg (fun hc => h.1 hc.1), if_neg (by rw [h.2]; decide)]

theorem wp_command {cmd : Text} {t : ℕ} {Q : AtExchange → SimWorld → Prop} (hw : SentOnce w)
    (h : ∀ x, SentOnce (w.observe cmd x) ∧ Q x (w.observe cmd x)) : Wp j (command cmd t) w Q :=
  ⟨hw, fun o _ => h o.exchange⟩

theorem wp_quiet {cmd : Text} {t : ℕ} {Q : AtExchange → SimWorld → Prop}
    (hq : quiet cmd = true) (hw : SentOnce w) (h : ∀ x, Q x w) : Wp j (command cmd t) w Q := by
  apply wp_command hw
  intro x
  rw [observe_quiet hq]
  exact ⟨hw, h x⟩

theorem wp_cpinQuery {Q : AtExchange → SimWorld → Prop} (hw : SentOnce w)
    (hready : ∀ x, parseCpin x.raw = .ready → Q x { w with sent := [] })
    (hother : ∀ x, parseCpin x.raw ≠ .ready → Q x w) : Wp j (ask "AT+CPIN?") w Q := by
  apply wp_command hw
  intro x
  unfold SimWorld.observe
  by_cases hx : parseCpin x.raw = .ready
  · rw [if_pos ⟨rfl, hx⟩]
    exact ⟨List.nodup_nil, hready x hx⟩
  · rw [if_neg (fun hc => hx hc.2), if_neg (by decide)]
    exact ⟨hw, hother x hx⟩

theorem wp_forgetAttempt {Q : SimManager → SimWorld → Prop} (hw : SentOnce w)
    (h : Q { m with attemptLog := [] } { w with record := [] }) : Wp j (forgetAttempt m) w Q :=
  ⟨hw, fun _ _ => ⟨hw, h⟩⟩

theorem wp_rememberAttempt {Q : SimManager → SimWorld → Prop} (hw : SentOnce w)
    (h : Q { m with attemptLog := simAttemptToken pin } { w with record := simAttemptToken pin }) :
    Wp j (rememberAttempt m pin) w Q :=
  ⟨hw, fun _ _ => ⟨hw, h⟩⟩

theorem wp_reloadNote {Q : SimManager → SimWorld → Prop} (hw : SentOnce w) (hm : Noted m w)
    (h : ∀ m, m.loaded = true → m.attemptLog = w.record → Q m w) :
    Wp j (reloadNote m) w Q := by
  unfold reloadNote
  unfold Noted at hm
  split
  · rename_i hl
    rw [if_pos hl] at hm
    exact ⟨hw, h m hl hm⟩
  · rename_i hl
    rw [if_neg hl] at hm
    apply Prog.holds_bind.mpr
    refine ⟨hw, fun o _ => ⟨hw, ?_⟩⟩
    dsimp only [SimWorld.exec]
    by_cases hrec : w.record = []
    · rw [if_pos hrec]
      exact ⟨hw, h _ rfl (hm.trans hrec.symm)⟩
    · rw [if_neg hrec]
      exact ⟨hw, h _ rfl rfl⟩

theorem cpinCommand_ne_query (pin : Text) : cpinCommand pin ≠ "AT+CPIN?".toList := by
  intro h
  have hseven : some '=' = some '?' := congrArg (fun s : Text => s[7]?) h
  exact absurd hseven (by decide)

theorem observe_unlock (x : AtExchange) :
    w.observe (cpinCommand pin) x = { w with sent := cpinCommand pin :: w.sent } := by
  have hpre : "AT+CPIN=".toList.isPrefixOf (cpinCommand pin) = true := rfl
  unfold SimWorld.observe
  rw [if_neg (fun hc => cpinCommand_ne_query pin hc.1), if_pos hpre]

theorem noted_forgotten {s : SimSnapshot} {w : SimWorld} (h : w.record = []) :
    Noted { m with attemptLog := [], last := s } w := by
  unfold Noted
  rw [h]
  split <;> rfl

/-- A PIN that has not gone out since the SIM was last ready may be sent. -/
theorem wp_unlock (hw : SentOnce w) (hl : m.loaded = true) (hnew : cpinCommand pin ∉ w.sent) :
    Wp j (unlock m pin) w fun r w' => Noted r.2 w' ∧ Tried pin w' := by
  unfold unlock
  apply Prog.holds_bind.mpr
  -- the note is on the store before the PIN is on the line
  apply wp_rememberAttempt hw
  apply Prog.holds_bind.mpr
  have hnoted : ∀ w' : SimWorld, w'.record = simAttemptToken pin →
      Noted { m with attemptLog := simAttemptToken pin } w' := by
    intro w' hrec
    unfold Noted
    dsimp only
    rw [if_pos hl, hrec]
  have hstored : SentOnce { w with record := simAttemptToken pin } := hw
  apply wp_command hstored
  intro reply
  rw [observe_unlock]
  have hsent : SentOnce { record := simAttemptToken pin, sent := cpinCommand pin :: w.sent } :=
    List.nodup_cons.mpr ⟨hnew, hw⟩
  refine ⟨hsent, ?_⟩
  -- the note of a refused PIN stays, that of an accepted one until the card says READY
  split
  · exact ⟨hsent, hnoted _ rfl, fun _ _ => rfl⟩
  · apply Prog.holds_bind.mpr
    apply wp_cpinQuery hsent
    · intro after hready
      rw [if_pos hready]
      apply Prog.holds_bind.mpr
      have hnil : SentOnce { record := simAttemptToken pin, sent := [] } := List.nodup_nil
      apply wp_forgetAttempt hnil
      exact ⟨List.nodup_nil, noted_forgotten rfl, fun _ hmem => absurd hmem List.not_mem_nil⟩
    · intro after hready
      rw [if_neg hready]
      exact ⟨hsent, hnoted _ rfl, fun _ _ => rfl⟩

theorem wp_ensureReady (hw : SentOnce w) (hm : Noted m w) (ht : Tried pin w) :
    Wp j (ensureReady m pin) w fun r w' => Noted r.2 w' ∧ Tried pin w' := by
  unfold ensureReady
  apply Prog.holds_bind.mpr
  apply wp_reloadNote hw hm
  intro m hl hlog
  have hnoted : ∀ (s : SimSnapshot) (w' : SimWorld), w'.record = w.record →
      Noted { m with last := s } w' := by
    intro s w' hrec
    unfold Noted
    dsimp only
    rw [if_pos hl, hlog, hrec]
  apply Prog.holds_bind.mpr
  apply wp_cpinQuery hw
  -- READY: whatever was sent before has been accepted, so the log starts again
  · intro x hready
    have hseen : Tried pin { w with sent := [] } := by
      intro _ hmem
      exact absurd hmem List.not_mem_nil
    have hkept : ∀ s, Noted { m with last := s } { w with sent := [] } := fun s => hnoted s _ rfl
    have hnil : SentOnce { w with sent := [] } := List.nodup_nil
    split
    · exact ⟨hnil, hkept _, hseen⟩
    · split
      · exact ⟨hnil, hkept _, hseen⟩
      · dsimp only
        rw [hready]
        dsimp only
        apply Prog.holds_bind.mpr
        apply wp_forgetAttempt hnil
        exact ⟨List.nodup_nil, noted_forgotten rfl, fun _ hmem => absurd hmem List.not_mem_nil⟩
  -- not READY: a PIN goes out only when the note does not already hold it
  · intro x hready
    have hkept : ∀ s, Noted { m with last := s } w := fun s => hnoted s _ rfl
    split
    · exact ⟨hw, hkept _, ht⟩
    · split
      · exact ⟨hw, hkept _, ht⟩
      · dsimp only
        split
        · exact absurd ‹_› hready
        · exact ⟨hw, hkept _, ht⟩
        · exact ⟨hw, hkept _, ht⟩
        · exact ⟨hw, hkept _, ht⟩
        · exact ⟨hw, hkept _, ht⟩
        · split
          · exact ⟨hw, hkept _, ht⟩
          · rename_i hpin
            split
            · exact ⟨hw, hkept _, ht⟩
            · rename_i hfailed
              apply wp_unlock hw hl
              intro hmem
              apply hfailed
              unfold SimManager.alreadyFailedFor
              rw [hlog, ht hpin hmem]
              simp [simAttemptToken_ne_nil hpin]

theorem wp_ask {cmd : String} {Q : AtExchange → SimWorld → Prop} (hw : SentOnce w)
    (hq : quiet cmd.toList = true) (h : ∀ x, Q x w) : Wp j (ask cmd) w Q :=
  wp_quiet hq hw h

theorem wp_readIdentity {svc : CellularService} {s : CellularStatus} (hw : SentOnce w) :
    Wp j (readIdentity svc s) w fun _ w' => w' = w := by
  unfold readIdentity
  split
  · exact ⟨hw, rfl⟩
  · apply Prog.holds_bind.mpr
    apply wp_ask hw (by decide)
    intro x
    apply Prog.holds_bind.mpr
    apply wp_ask hw (by decide)
    exact fun y => ⟨hw, rfl⟩

theorem wp_readNetwork {s : CellularStatus} (hw : SentOnce w) :
    Wp j (readNetwork s) w fun _ w' => w' = w := by
  unfold readNetwork
  apply Prog.holds_bind.mpr
  apply wp_ask hw (by decide)
  intro iccid
  apply Prog.holds_bind.mpr
  apply wp_ask hw (by decide)
  intro imsi
  apply Prog.holds_bind.mpr
  apply wp_ask hw (by decide)
  intro reg
  apply Prog.holds_bind.mpr
  apply wp_ask hw (by decide)
  intro csq
  split
  · apply Prog.holds_bind.mpr
    apply wp_ask hw (by decide)
    intro cops
    apply Prog.holds_bind.mpr
    apply wp_ask hw (by decide)
    intro nw
    apply Prog.holds_bind.mpr
    apply wp_ask hw (by decide)
    intro cell
    apply Prog.holds_bind.mpr
    apply wp_ask hw (by decide)
    exact fun pdp => ⟨hw, rfl⟩
  · exact ⟨hw, rfl⟩

theorem wp_poll {svc : CellularService} (hw : SentOnce w) (hg : Guarded svc w) :
    Wp j (poll svc) w Guarded := by
  unfold poll
  apply Prog.holds_bind.mpr
  refine ⟨hw, fun o _ => ⟨hw, ?_⟩⟩
  dsimp only [SimWorld.exec]
  split
  · exact ⟨hw, hg.noted, hg.tried⟩
  · apply Prog.holds_bind.mpr
    apply wp_quiet (by decide) hw
    intro ping
    split
    · exact ⟨hw, hg.noted, hg.tried⟩
    · apply Prog.holds_bind.mpr
      refine (wp_readIdentity hw).mono ?_
      rintro ⟨s, identityRead⟩ w' hw' rfl
      apply Prog.holds_bind.mpr
      refine (wp_ensureReady hw' hg.noted hg.tried).mono ?_
      rintro ⟨snapshot, sim⟩ w'' hw'' ⟨hnoted, htried⟩
      dsimp only
      split
      · apply Prog.holds_bind.mpr
        apply wp_ask hw'' (by decide)
        exact fun iccid => ⟨hw'', hnoted, htried⟩
      · apply Prog.holds_bind.mpr
        refine (wp_readNetwork hw'').mono ?_
        rintro st w₃ hw₃ rfl
        exact ⟨hw₃, hnoted, htried⟩

theorem wp_setConfig {svc : CellularService} {c : CellularConfig} (hw : SentOnce w)
    (hg : Guarded svc w) (hc : c.simPin ≠ svc.cfg.simPin → cpinCommand c.simPin ∉ w.sent) :
    Wp j (setConfig c svc) w Guarded := by
  unfold setConfig
  split
  · rename_i hne
    apply Prog.holds_bind.mpr
    have hclear : SentOnce { w with record := [] } := hw
    apply wp_forgetAttempt hw
    exact ⟨hclear, noted_forgotten rfl, fun _ hmem => absurd hmem (hc hne)⟩
  · rename_i heq
    have hpin : c.simPin = svc.cfg.simPin := by simpa using heq
    refine ⟨hw, hg.noted, ?_⟩
    rw [hpin]
    exact hg.tried

end calls

theorem guarded_fresh (w : SimWorld) : Guarded {} w where
  noted := rfl
  tried h := absurd rfl h

theorem cellularDaemon_keeps : cellularDaemon.Keeps pinRules SentOnce Guarded where
  job j svc w hw hg hs := by
    cases j with
    | setConfig c => exact wp_setConfig hw hg hs
    | poll => exact wp_poll hw hg
  boot stored w hw hs := wp_setConfig hw (guarded_fresh w) hs

/-- In every run of configurations, polls and restarts, with any replies, in which the service is
never changed to a PIN that was sent before, no PIN goes out twice between two ready SIMs. -/
theorem sentOnce_run (stored : CellularConfig)
    (is : List (Input ModemReply CellularJob CellularConfig))
    (h : Along cellularDaemon.step pinRules.Admissible (coldStart stored) is) :
    Always cellularDaemon.step (fun s => SentOnce s.world) (coldStart stored) is := by
  apply cellularDaemon_keeps.run _ h
  exact wp_setConfig List.nodup_nil (guarded_fresh {}) fun _ => List.not_mem_nil

/-- A SIM that asks for its PIN whatever it is sent. -/
def lockedSim : ModemReply :=
  { exchange := { result := .ok, raw := "+CPIN: SIM PIN".toList } }

def withPin (pin : String) : CellularConfig := { simPin := pin.toList }

/-- A round of the service with such a SIM. -/
def pollLocked : List (Input ModemReply CellularJob CellularConfig) :=
  .start .poll :: List.replicate 10 (.answer lockedSim)

/-- A PIN that does not unlock is tried in one round and not in the next; another one may then be
tried. -/
theorem sentOnce_run_corrected :
    Always cellularDaemon.step (fun s => SentOnce s.world) (coldStart (withPin "1234"))
      (.answer lockedSim :: pollLocked ++ pollLocked ++ .start (.setConfig (withPin "4321")) ::
        .answer lockedSim :: pollLocked) :=
  sentOnce_run _ _ (by decide)

/-- A restart forgets the attempt when it is given the PIN again, and sends it a second time. -/
theorem not_sentOnce_restart :
    ¬ ∀ stored is, Always cellularDaemon.step (fun s => SentOnce s.world) (coldStart stored) is := by
  intro h
  have hs := h (withPin "1234") (.answer lockedSim :: pollLocked ++ .crash (withPin "1234") ::
    .answer lockedSim :: pollLocked) _ List.prefix_rfl
  revert hs
  unfold SentOnce
  decide

end Machino.Cellular
