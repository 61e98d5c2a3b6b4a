import Machino.Cellular.RadioTuner

namespace Machino.Cellular

open Effects Runs

/-- A command and what the modem has answered to it. -/
abbrev Exchange := Text × AtExchange

/-- The modem's answers of one step, in which no command is sent twice. -/
abbrev Replies := Text → AtExchange

def CellularStatus.answering (s : CellularStatus) : Bool := s.present && s.responsive

/-- What happens to the tuner, all of it in the main thread. -/
inductive RadioEvent where
  | setConfig (c : CellularConfig)
  | requestScan
  | tick (s : CellularStatus) (cell : ServingCell) (nowMs : UInt64) (reply : Replies)

/-- Another intent than the last one. -/
def RadioTuner.newIntent (c : CellularConfig) (t : RadioTuner) : Bool :=
  t.haveCfg &&
    (profileMask c.bandProfile c.bandMask ≠ t.desiredMask || c.netMode ≠ t.desiredMode)

/-- One event and what the tuner has sent in it, the newest first. -/
structure RadioRound where
  event : RadioEvent
  before : RadioTuner
  sent : List Exchange
  after : RadioTuner

namespace RadioRound

/-- The modem disappears. -/
def lost (r : RadioRound) : Bool :=
  match r.event with
  | .tick s _ _ _ => !s.answering && r.before.alive
  | _ => false

/-- A change of the intent. -/
def changes (r : RadioRound) : Bool :=
  match r.event with
  | .setConfig c => r.before.newIntent c
  | _ => false

/-- A scan begins. -/
def startsScan (r : RadioRound) : Bool :=
  match r.event with
  | .requestScan => r.before.scanRefusal.isNone
  | _ => false

end RadioRound

/-- The tuner, and what it has gone through, the newest first. -/
structure RadioRun where
  tuner : RadioTuner := {}
  log : List RadioRound := []

namespace RadioRun

def exec (reply : Replies) : (e : ModemCall) → List Exchange → ModemAnswer e × List Exchange
  | .available, sent => (true, sent)
  | .command cmd _, sent => (reply cmd, (cmd, reply cmd) :: sent)
  | .loadNote, sent => (none, sent)
  | .storeNote _, sent => ((), sent)

@[simp] theorem eval_command (reply : Replies) (cmd : Text) (timeoutMs : ℕ) (sent : List Exchange) :
    (command cmd timeoutMs).eval (exec reply) sent = (reply cmd, (cmd, reply cmd) :: sent) := rfl

@[simp] theorem eval_ask (reply : Replies) (cmd : String) (sent : List Exchange) :
    (ask cmd).eval (exec reply) sent =
      (reply cmd.toList, (cmd.toList, reply cmd.toList) :: sent) := rfl

def round (t : RadioTuner) (e : RadioEvent) : RadioRound :=
  match e with
  | .setConfig c => ⟨e, t, [], t.setConfig c⟩
  | .requestScan => ⟨e, t, [], t.requestScan⟩
  | .tick s cell nowMs reply =>
    let r := (t.tick s cell nowMs).eval (exec reply) []
    ⟨e, t, r.2, r.1.2⟩

def step (s : RadioRun) (e : RadioEvent) : RadioRun :=
  ⟨(round s.tuner e).after, round s.tuner e :: s.log⟩

end RadioRun

namespace RadioTuner

open RadioRun

/-- The mask that the next step of the scan locks, 0 where it locks none. -/
def lockTarget (t : RadioTuner) : UInt64 :=
  match t.scanPhase with
  | .lock =>
    match (t.scanBands[t.scanIdx]?).bind lteBandByNumber with
    | none => 0
    | some b => bandBit b.bit
  | .measure => 0
  | .restore => t.desiredMask

/-- What a lock sends: nothing without a band, and no more when the radio stays on. -/
def lockSent (reply : Replies) (mask : UInt64) : List Exchange :=
  if mask = 0 then []
  else if !(reply cfun0).ok then [(cfun0, reply cfun0)]
  else
    [(cfun1, reply cfun1), (bandCommand mask, reply (bandCommand mask)), (cfun0, reply cfun0)]

theorem eval_lockMask (reply : Replies) (mask : UInt64) :
    (lockMask mask).eval (exec reply) [] =
      (mask ≠ 0 && (lockSent reply mask).all (·.2.ok), lockSent reply mask) := by
  unfold lockMask lockSent
  by_cases hm : mask = 0
  · simp [hm]
  · by_cases h0 : (reply cfun0).ok = true
    · simp [hm, h0, Bool.and_comm]
    · simp [hm, h0]

/-- The scan leaves what is to be written, and what has been said of it, as it was. -/
structure ScanFrame (t t' : RadioTuner) : Prop where
  sync : t'.sync = t.sync
  detail : t'.detail = t.detail
  desiredMask : t'.desiredMask = t.desiredMask
  desiredMode : t'.desiredMode = t.desiredMode
  writes : t'.writes = t.writes
  haveCfg : t'.haveCfg = t.haveCfg
  applyPending : t'.applyPending = t.applyPending
  restorePending : t'.restorePending = t.restorePending
  phase : t'.phase = t.phase
  radioReenableOwed : t'.radioReenableOwed = t.radioReenableOwed
  radioReenableTries : t'.radioReenableTries = t.radioReenableTries

/-- Until its bands are restored the scan goes on, and afterwards the bands are to be checked. -/
structure Scanned (t t' : RadioTuner) : Prop extends ScanFrame t t' where
  goesOn : t.scanPhase ≠ .restore → t'.scan = t.scan ∧ t'.verified = t.verified
  ends : t.scanPhase = .restore → t'.scan ≠ .running ∧ t'.verified = false

theorem Scanned.of_alive {t t' : RadioTuner} (h : Scanned { t with alive := true } t') :
    Scanned t t' :=
  ⟨⟨h.sync, h.detail, h.desiredMask, h.desiredMode, h.writes, h.haveCfg, h.applyPending,
    h.restorePending, h.phase, h.radioReenableOwed, h.radioReenableTries⟩, h.goesOn, h.ends⟩

theorem scanFrame_scanFinish (t : RadioTuner) : ScanFrame t t.scanFinish := by
  unfold scanFinish
  split <;> constructor <;> rfl

theorem scanFinish_ends (t : RadioTuner) :
    t.scanFinish.scan ≠ .running ∧ t.scanFinish.verified = false := by
  unfold scanFinish
  split <;> simp

theorem scanned_scanMeasure (s : CellularStatus) (cell : ServingCell) (nowMs : UInt64)
    {t : RadioTuner} (h : t.scanPhase ≠ .restore) : Scanned t (t.scanMeasure s cell nowMs) := by
  refine ⟨?_, fun _ => ?_, fun h' => absurd h' h⟩
  all_goals
    unfold scanMeasure scanTimeout
    dsimp only
    repeat' split
  all_goals first | exact ⟨rfl, rfl⟩ | constructor <;> rfl

theorem eval_scanLock (reply : Replies) (nowMs : UInt64) {t : RadioTuner}
    (h : t.scanPhase = .lock) :
    ∃ t', (t.scanLock nowMs).eval (exec reply) [] = (t', lockSent reply t.lockTarget) ∧
      Scanned t t' := by
  have hne : t.scanPhase ≠ .restore := by simp [h]
  unfold scanLock lockTarget
  rw [h]
  dsimp only
  cases (t.scanBands[t.scanIdx]?).bind lteBandByNumber with
  | none => exact ⟨t, rfl, by constructor <;> rfl, fun _ => ⟨rfl, rfl⟩, fun h' => absurd h' hne⟩
  | some b =>
    dsimp only
    rw [Prog.eval_bind, eval_lockMask]
    dsimp only
    split
    all_goals
      refine ⟨_, rfl, ?_, fun _ => ⟨rfl, rfl⟩, fun h' => absurd h' hne⟩
      constructor <;> rfl

/-- A step of the scan sends one lock at most. -/
theorem eval_scanStep (s : CellularStatus) (cell : ServingCell) (nowMs : UInt64) (reply : Replies)
    (t : RadioTuner) :
    ∃ t', (t.scanStep s cell nowMs).eval (exec reply) [] = (t', lockSent reply t.lockTarget) ∧
      Scanned t t' := by
  unfold scanStep
  cases h : t.scanPhase with
  | lock => exact eval_scanLock reply nowMs h
  | measure =>
    have hsent : lockSent reply t.lockTarget = [] := by simp [lockTarget, h, lockSent]
    exact ⟨_, by rw [hsent]; rfl, scanned_scanMeasure s cell nowMs (by simp [h])⟩
  | restore =>
    refine ⟨t.scanFinish, ?_, scanFrame_scanFinish t, ?_, fun _ => scanFinish_ends t⟩
    · simp [eval_lockMask, lockTarget, h]
    · exact fun h' => absurd h h'

theorem take_bandCommand (mask : UInt64) : (bandCommand mask).take 4 = "AT+Q".toList := by
  unfold bandCommand
  rw [List.take_append_of_le_length (by decide)]
  decide

/-- A mask is set by other commands than those of a check. -/
theorem bandCommand_notMem (mask : UInt64) : bandCommand mask ∉
    [cfun0, "AT+QCFG=\"nwscanmode\"".toList, "AT+QCFG=\"band\"".toList] := by
  have htake : (bandCommand mask).take 15 = "AT+QCFG=\"band\",".toList := by
    unfold bandCommand
    rw [List.take_append_of_le_length (by decide)]
    decide
  intro h
  have hne : ∀ cmd ∈ [cfun0, "AT+QCFG=\"nwscanmode\"".toList, "AT+QCFG=\"band\"".toList],
      cmd.take 15 ≠ "AT+QCFG=\"band\",".toList := by decide
  exact hne _ h htake

theorem take_nwscanmodeCommand (mode : NetMode) :
    (nwscanmodeCommand mode).take 4 = "AT+Q".toList := by
  unfold nwscanmodeCommand
  rw [List.append_assoc, List.take_append_of_le_length (by decide)]
  decide

theorem ne_cfun_of_take {cmd : Text} (h : cmd.take 4 = "AT+Q".toList) :
    cmd ≠ cfun0 ∧ cmd ≠ cfun1 := by
  constructor
  all_goals
    rintro rfl
    exact absurd h (by decide)

/-- The commands of a write, and the radio on again after them. -/
def writeSent (reply : Replies) (t : RadioTuner) : List Exchange :=
  [(cfun1, reply cfun1),
    (nwscanmodeCommand t.desiredMode, reply (nwscanmodeCommand t.desiredMode)),
    (bandCommand t.desiredMask, reply (bandCommand t.desiredMask))]

/-- How the second half of a write ends: with the radio on, with another try, or given up. -/
inductive Written (reply : Replies) (t : RadioTuner) : RadioTuner → Prop
  | radioOn (hon : (reply cfun1).ok = true) {v : Bool} {y : RadioSync} {d : RadioDetail}
      (hy : y ≠ .inSync) :
    Written reply t { t with
      writes := t.writes + 1, radioReenableOwed := false, radioReenableTries := 0, phase := .idle
      verified := v, sync := y, detail := d }
  | again (hon : (reply cfun1).ok = false) (htries : t.radioReenableTries < kMaxRadioReenable) :
    Written reply t { t with
      writes := t.writes + 1, radioReenableTries := t.radioReenableTries + 1, phase := .rfOff
      sync := .pending, detail := .retrying }
  | givenUp (hon : (reply cfun1).ok = false) (htries : kMaxRadioReenable ≤ t.radioReenableTries) :
    Written reply t { t with
      writes := t.writes + 1, radioReenableOwed := false, radioReenableTries := 0, phase := .idle
      verified := true, sync := .failed, detail := .mayBeOff }

theorem Written.frame {reply : Replies} {t t' : RadioTuner} (h : Written reply t t') :
    t'.haveCfg = t.haveCfg ∧ t'.desiredMask = t.desiredMask ∧ t'.scan = t.scan := by
  cases h <;> exact ⟨rfl, rfl, rfl⟩

theorem eval_writeStep (reply : Replies) (t : RadioTuner) :
    ∃ t', t.writeStep.eval (exec reply) [] = (t', t.writeSent reply) ∧ Written reply t t' := by
  unfold writeStep
  rw [Prog.eval_bind, Prog.eval_bind, Prog.eval_bind, eval_command, eval_command, eval_command]
  dsimp only
  split
  · rename_i hon
    split
    · exact ⟨_, rfl, .radioOn hon (by simp)⟩
    · exact ⟨_, rfl, .radioOn hon (by simp)⟩
  · rename_i hon
    rw [Bool.not_eq_true] at hon
    split
    · exact ⟨_, rfl, .again hon ‹_›⟩
    · exact ⟨_, rfl, .givenUp hon (by omega)⟩

def questions (reply : Replies) : List Exchange :=
  ["AT+QCFG=\"nwscanmode\"".toList, "AT+QCFG=\"band\"".toList].map fun cmd => (cmd, reply cmd)

/-- Whether the modem reports the intent, where its report can be read. -/
def reportMatches (reply : Replies) (t : RadioTuner) : Option Bool :=
  match (parseQcfgBand (reply "AT+QCFG=\"band\"".toList).raw).lte,
    parseQcfgInt (reply "AT+QCFG=\"nwscanmode\"".toList).raw "nwscanmode" with
  | some mask, some mode => some (t.maskInSync mask && mode = netModeNwscanmode t.desiredMode)
  | _, _ => none

/-- How a check ends: with a finding, or with a write that the modem refuses or takes up. -/
inductive Checked (reply : Replies) (t : RadioTuner) : RadioTuner → List Exchange → Prop
  | inSync (howed : t.radioReenableOwed = false) (hr : t.reportMatches reply = some true)
      {lte : Option UInt64} {nw : Option Int} {d : RadioDetail} :
    Checked reply t { t with
      modemMask := lte, modemNwscanmode := nw, verified := true, applyPending := false
      sync := .inSync, detail := d } (questions reply)
  | notWrittenAgain (happly : t.applyPending = false) (hwrites : 0 < t.writes)
      (hr : t.radioReenableOwed = true ∨ t.reportMatches reply = some false)
      {lte : Option UInt64} {nw : Option Int} {mask : UInt64} :
    Checked reply t { t with
      modemMask := lte, modemNwscanmode := nw, verified := true, sync := .failed
      detail := .notWrittenAgain mask t.desiredMask } (questions reply)
  | unreadable (happly : t.applyPending = false) (hr : t.reportMatches reply = none)
      {lte : Option UInt64} {nw : Option Int} :
    Checked reply t { t with
      modemMask := lte, modemNwscanmode := nw, verified := true, sync := .unverified
      detail := .unreadable } (questions reply)
  | refused (hdue : t.applyPending = true ∨ t.writes = 0) (hoff : (reply cfun0).ok = false)
      {lte : Option UInt64} {nw : Option Int} :
    Checked reply t { t with
      modemMask := lte, modemNwscanmode := nw, applyPending := false, verified := true
      sync := .failed, detail := .radioOffRejected } ((cfun0, reply cfun0) :: questions reply)
  | radioOff (hdue : t.applyPending = true ∨ t.writes = 0) (hoff : (reply cfun0).ok = true)
      {lte : Option UInt64} {nw : Option Int} :
    Checked reply t { t with
      modemMask := lte, modemNwscanmode := nw, applyPending := false, radioReenableOwed := true
      phase := .rfOff, sync := .pending, detail := .radioOff }
      ((cfun0, reply cfun0) :: questions reply)

theorem checked_writeStart {reply : Replies} {t : RadioTuner} {lte : Option UInt64}
    {nw : Option Int} (hdue : t.applyPending = true ∨ t.writes = 0) :
    let r := (writeStart { t with modemMask := lte, modemNwscanmode := nw }).eval (exec reply)
      (questions reply)
    Checked reply t r.1.2 r.2 := by
  unfold writeStart
  rw [Prog.eval_bind, eval_command]
  dsimp only
  split
  · rename_i hoff
    exact .refused hdue (by simpa using hoff)
  · rename_i hoff
    exact .radioOff hdue (by simpa using hoff)

theorem checked_readBack (reply : Replies) (t : RadioTuner) :
    let r := t.readBack.eval (exec reply) []
    Checked reply t r.1.2 r.2 := by
  unfold readBack
  rw [Prog.eval_bind, Prog.eval_bind, eval_ask, eval_ask]
  dsimp only
  split
  · rename_i mask mode hmask hmode
    have hr : t.reportMatches reply =
        some (t.maskInSync mask && mode = netModeNwscanmode t.desiredMode) := by
      unfold reportMatches
      rw [hmask, hmode]
    split
    · rename_i h
      rw [Bool.and_assoc, Bool.and_eq_true, Bool.not_eq_true'] at h
      exact .inSync h.1 (hr.trans (congrArg some h.2))
    · rename_i h
      rw [Bool.and_assoc, Bool.and_eq_true, Bool.not_eq_true', not_and_or, Bool.not_eq_false,
        Bool.not_eq_true] at h
      split
      · rename_i hdue
        rw [Bool.and_eq_true, Bool.not_eq_true', decide_eq_true_eq] at hdue
        exact .notWrittenAgain hdue.1 hdue.2 (h.imp_right fun h => hr.trans (congrArg some h))
      · rename_i hdue
        exact checked_writeStart (by simpa [or_iff_not_imp_left] using hdue)
  · rename_i hno
    split
    · rename_i happly
      refine .unreadable (by simpa using happly) ?_
      unfold reportMatches
      split
      · exact (hno _ _ ‹_› ‹_›).elim
      · rfl
    · rename_i happly
      exact checked_writeStart (.inl (by simpa using happly))

theorem Checked.frame {reply : Replies} {t t' : RadioTuner} {new : List Exchange}
    (h : Checked reply t t' new) : t'.haveCfg = t.haveCfg ∧ t'.desiredMask = t.desiredMask := by
  cases h <;> exact ⟨rfl, rfl⟩

theorem Checked.sent {reply : Replies} {t t' : RadioTuner} {new : List Exchange}
    (h : Checked reply t t' new) :
    new = questions reply ∨ new = (cfun0, reply cfun0) :: questions reply := by
  cases h with
  | inSync | notWrittenAgain | unreadable => exact .inl rfl
  | refused | radioOff => exact .inr rfl

theorem Checked.sent_mem {reply : Replies} {t t' : RadioTuner} {new : List Exchange}
    (h : Checked reply t t' new) (x : Exchange) (hx : x ∈ new) :
    x.1 ∈ [cfun0, "AT+QCFG=\"nwscanmode\"".toList, "AT+QCFG=\"band\"".toList] := by
  rcases h.sent with rfl | rfl
  · obtain ⟨cmd, hcmd, rfl⟩ := List.mem_map.mp hx
    exact List.mem_cons_of_mem _ hcmd
  · rcases List.mem_cons.mp hx with rfl | hx
    · exact List.mem_cons_self
    · obtain ⟨cmd, hcmd, rfl⟩ := List.mem_map.mp hx
      exact List.mem_cons_of_mem _ hcmd

/-- What a lost write and a radio that may be off leave to be done is to write. -/
def due (t : RadioTuner) : RadioTuner :=
  { t with
    alive := true
    restorePending := false
    applyPending := t.applyPending || t.restorePending || t.radioReenableOwed
    verified := t.verified && !t.restorePending && !t.radioReenableOwed }

/-- What one step comes to. -/
inductive Ticked (s : CellularStatus) (reply : Replies) (t : RadioTuner) :
    RadioTuner → List Exchange → Prop
  | gone (hs : s.answering = false) (halive : t.alive = true) : Ticked s reply t t.onModemGone []
  | absent (hs : s.answering = false) (halive : t.alive = false) : Ticked s reply t t []
  | scanned (hs : s.answering = true) (hscan : t.scan = .running) {t' : RadioTuner}
      (h : Scanned t t') : Ticked s reply t t' (lockSent reply t.lockTarget)
  | written (hs : s.answering = true) (hscan : t.scan ≠ .running) (hphase : t.phase = .rfOff)
      {t' : RadioTuner} (h : Written reply { t with alive := true } t') :
    Ticked s reply t t' (t.writeSent reply)
  | unconfigured (hs : s.answering = true) (hscan : t.scan ≠ .running) (hphase : t.phase = .idle)
      (hcfg : t.haveCfg = false) : Ticked s reply t { t with alive := true } []
  | noBand (hs : s.answering = true) (hscan : t.scan ≠ .running) (hphase : t.phase = .idle)
      (hcfg : t.haveCfg = true) (hmask : t.desiredMask = 0) :
    Ticked s reply t { t with
      alive := true, restorePending := false, sync := .failed, detail := .noBand
      applyPending := false, verified := true } []
  | settled (hs : s.answering = true) (hscan : t.scan ≠ .running) (hphase : t.phase = .idle)
      (hcfg : t.haveCfg = true) (hmask : t.desiredMask ≠ 0)
      (hdue : t.due.applyPending = false) (hver : t.due.verified = true) :
    Ticked s reply t t.due []
  | checked (hs : s.answering = true) (hscan : t.scan ≠ .running) (hphase : t.phase = .idle)
      (hcfg : t.haveCfg = true) (hmask : t.desiredMask ≠ 0)
      (hdue : t.due.applyPending = true ∨ t.due.verified = false) {t' : RadioTuner}
      {sent : List Exchange} (h : Checked reply t.due t' sent) : Ticked s reply t t' sent

/-- A lost write is to be made up for. -/
theorem restore_eq (t : RadioTuner) :
    (if t.restorePending = true then
      { t with alive := true, restorePending := false, applyPending := true, verified := false }
      else { t with alive := true }) =
    { t with
      alive := true
      restorePending := false
      applyPending := t.applyPending || t.restorePending
      verified := t.verified && !t.restorePending } := by
  cases h : t.restorePending <;> simp

/-- A radio that may be off is to be turned on again. -/
theorem reenable_eq (t : RadioTuner) :
    (if t.radioReenableOwed = true then
      { t with
        alive := true, restorePending := false, applyPending := true, verified := false }
      else
      { t with
        alive := true
        restorePending := false
        applyPending := t.applyPending || t.restorePending
        verified := t.verified && !t.restorePending }) = t.due := by
  unfold due
  cases h : t.radioReenableOwed <;> simp

theorem ticked_tick (s : CellularStatus) (cell : ServingCell) (nowMs : UInt64) (reply : Replies)
    (t : RadioTuner) :
    let r := (t.tick s cell nowMs).eval (exec reply) []
    Ticked s reply t r.1.2 r.2 := by
  unfold tick
  by_cases hs : s.answering = true
  · have hlive : (!s.present || !s.responsive) = false := by
      simpa [CellularStatus.answering] using hs
    rw [hlive, if_neg Bool.false_ne_true]
    dsimp only
    by_cases hscan : t.scan = .running
    · rw [if_pos hscan, Prog.eval_bind]
      obtain ⟨t', heq, h⟩ := eval_scanStep s cell nowMs reply { t with alive := true }
      rw [heq]
      exact .scanned hs hscan h.of_alive
    · rw [if_neg hscan]
      by_cases hphase : t.phase = .rfOff
      · rw [if_pos hphase, Prog.eval_bind]
        obtain ⟨t', heq, h⟩ := eval_writeStep reply { t with alive := true }
        rw [heq]
        exact .written hs hscan hphase h
      · rw [if_neg hphase]
        have hidle : t.phase = .idle := by
          cases h : t.phase with
          | idle => rfl
          | rfOff => exact absurd h hphase
        by_cases hcfg : t.haveCfg = true
        · rw [if_neg (by simp [hcfg]), restore_eq]
          by_cases hmask : t.desiredMask = 0
          · rw [if_pos hmask]
            exact .noBand hs hscan hidle hcfg hmask
          · rw [if_neg hmask]
            dsimp only
            rw [reenable_eq]
            by_cases hdue : (!t.due.applyPending && t.due.verified) = true
            · rw [if_pos hdue]
              rw [Bool.and_eq_true, Bool.not_eq_true'] at hdue
              exact .settled hs hscan hidle hcfg hmask hdue.1 hdue.2
            · rw [if_neg hdue]
              exact .checked hs hscan hidle hcfg hmask
                (by simpa [imp_iff_not_or] using hdue) (checked_readBack reply t.due)
        · rw [Bool.not_eq_true] at hcfg
          rw [if_pos (by simp [hcfg])]
          exact .unconfigured hs hscan hidle hcfg
  · rw [Bool.not_eq_true] at hs
    have hgone : (!s.present || !s.responsive) = true := by
      simpa [CellularStatus.answering, imp_iff_not_or] using hs
    rw [hgone, if_pos rfl]
    by_cases halive : t.alive = true
    · rw [if_pos halive]
      exact .gone hs halive
    · rw [if_neg halive]
      exact .absent hs (by simpa using halive)

/-- A new intent is to be written, and nothing else about the tuner depends on it. -/
theorem setConfig_eq (c : CellularConfig) (t : RadioTuner) :
    t.setConfig c =
      let t' := { t with
        haveCfg := true
        desiredMask := profileMask c.bandProfile c.bandMask
        desiredMode := c.netMode }
      if t.newIntent c then
        { t' with
          applyPending := true, verified := false, sync := .pending, detail := .changeWaiting }
      else t' := by
  unfold setConfig newIntent
  dsimp only
  cases t.haveCfg && (profileMask c.bandProfile c.bandMask ≠ t.desiredMask ||
    c.netMode ≠ t.desiredMode) <;> rfl

theorem same_of_not_newIntent {c : CellularConfig} {t : RadioTuner} (hcfg : t.haveCfg = true)
    (h : t.newIntent c = false) : profileMask c.bandProfile c.bandMask = t.desiredMask := by
  unfold newIntent at h
  rw [hcfg, Bool.true_and, Bool.or_eq_false_iff] at h
  simpa using h.1

theorem scanFrame_requestScan (t : RadioTuner) : ScanFrame t t.requestScan := by
  unfold requestScan
  split <;> constructor <;> rfl

theorem requestScan_verified (t : RadioTuner) : t.requestScan.verified = t.verified := by
  unfold requestScan
  split <;> rfl

/-- A refused scan does not run. -/
theorem requestScan_scan {t : RadioTuner} (h : t.scanRefusal ≠ none) :
    t.requestScan.scan ≠ .running := by
  unfold requestScan
  split
  · simp
  · exact absurd ‹_› h

theorem scanRefusal_noBand {t : RadioTuner} (h : t.desiredMask = 0) : t.scanRefusal ≠ none := by
  have hnone : bandsFromMask 0 = [] := by decide
  unfold scanRefusal
  rw [h, hnone, if_pos rfl]
  repeat' split
  all_goals simp

theorem onModemGone_unverified (t : RadioTuner) :
    t.onModemGone.haveCfg = t.haveCfg ∧ t.onModemGone.desiredMask = t.desiredMask ∧
      t.onModemGone.verified = false ∧ t.onModemGone.scan ≠ .running := by
  unfold onModemGone
  dsimp only
  split
  · exact ⟨rfl, rfl, rfl, ‹_›⟩
  · exact ⟨rfl, rfl, rfl, by simp⟩

end RadioTuner

namespace RadioRun

/-- The round of a step. -/
abbrev tickRound (run : RadioRun) (s : CellularStatus) (cell : ServingCell) (nowMs : UInt64)
    (reply : Replies) (new : List Exchange) (t' : RadioTuner) : RadioRound :=
  ⟨.tick s cell nowMs reply, run.tuner, new, t'⟩

theorem step_tick (run : RadioRun) (s : CellularStatus) (cell : ServingCell) (nowMs : UInt64)
    (reply : Replies) :
    ∃ t' new, run.tuner.Ticked s reply t' new ∧
      run.step (.tick s cell nowMs reply) =
        ⟨t', run.tickRound s cell nowMs reply new t' :: run.log⟩ :=
  ⟨_, _, RadioTuner.ticked_tick s cell nowMs reply run.tuner, rfl⟩

/-- A modem that reports these bands and accepts all but these commands. -/
def modem (mask : String) (refused : List Text) : Replies := fun cmd =>
  if cmd ∈ refused then { result := .error }
  else if cmd = "AT+QCFG=\"band\"".toList then
    { result := .ok, raw := "+QCFG: \"band\",d3,".toList ++ mask.toList }
  else if cmd = "AT+QCFG=\"nwscanmode\"".toList then
    { result := .ok, raw := "+QCFG: \"nwscanmode\",0".toList }
  else { result := .ok }

def answered (nowMs : UInt64) (reply : Replies) : RadioEvent :=
  .tick { present := true, responsive := true } {} nowMs reply

end RadioRun

end Machino.Cellular
