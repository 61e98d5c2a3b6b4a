import Machino.Cellular.RadioRun

namespace Machino.Cellular

open Runs RadioTuner

namespace RadioRun

/-- The times the radio has been told to go off outside a scan, since the intent has changed or
the modem has disappeared. -/
def cycles : List RadioRound → ℕ
  | [] => 0
  | r :: rs =>
    if r.lost || r.changes then 0
    else (if r.before.scan = .running then 0 else r.sent.countP (·.1 = cfun0)) + cycles rs

/-- The scans started in that time. -/
def scans : List RadioRound → ℕ
  | [] => 0
  | r :: rs =>
    if r.lost || r.changes then 0 else (if r.startsScan then 1 else 0) + scans rs

/-- One cycle, and one more for each scan the user asks for. -/
def Bounded (run : RadioRun) : Prop := cycles run.log ≤ 1 + scans run.log

instance (run : RadioRun) : Decidable run.Bounded := inferInstanceAs (Decidable (_ ≤ _))

/-- AT+CFUN=0 is accepted where the tuner sends it because it owes the radio. -/
def GoesOff (run : RadioRun) : RadioEvent → Prop
  | .tick s _ _ reply => s.answering = true → run.tuner.scan ≠ .running →
    run.tuner.phase = .idle → run.tuner.haveCfg = true → run.tuner.desiredMask ≠ 0 →
    run.tuner.radioReenableOwed = true → (reply cfun0).ok = true
  | _ => True

instance (run : RadioRun) : (e : RadioEvent) → Decidable (run.GoesOff e)
  | .tick .. => inferInstanceAs (Decidable (_ → _))
  | .setConfig _ => .isTrue trivial
  | .requestScan => .isTrue trivial

/-- A cycle is still to come, or may be: a scan can end in one. -/
def mayCycle (t : RadioTuner) : Bool :=
  t.scan = .running || t.applyPending || t.restorePending ||
    (t.phase = .idle && (t.radioReenableOwed || (!t.verified && t.writes = 0)))

/-- The cycle that may still come is within the bound. -/
def Budget (run : RadioRun) : Prop :=
  cycles run.log + (mayCycle run.tuner).toNat ≤ 1 + scans run.log

theorem Budget.bounded {run : RadioRun} (h : run.Budget) : run.Bounded :=
  (Nat.le_add_right _ _).trans h

/-- Where the count begins anew, one cycle may come. -/
theorem budget_of_fresh {t : RadioTuner} {r : RadioRound} {rs : List RadioRound}
    (h : (r.lost || r.changes) = true) : (RadioRun.mk t (r :: rs)).Budget := by
  have hle := Bool.toNat_le (mayCycle t)
  simp only [Budget, cycles, scans, if_pos h]
  omega

/-- A step that sends no AT+CFUN=0 outside a scan and makes no cycle due keeps the budget. -/
theorem Budget.of_quiet {run : RadioRun} (h : run.Budget) {t : RadioTuner} {r : RadioRound}
    (hsent : r.before.scan ≠ .running → r.sent.countP (·.1 = cfun0) = 0)
    (hmay : mayCycle t = true → mayCycle run.tuner = true) :
    (RadioRun.mk t (r :: run.log)).Budget := by
  have hle : (mayCycle t).toNat ≤ (mayCycle run.tuner).toNat := by
    cases ht : mayCycle t with
    | false => exact Nat.zero_le _
    | true => rw [hmay ht]
  by_cases hfresh : (r.lost || r.changes) = true
  · exact budget_of_fresh hfresh
  · have hcount : (if r.before.scan = .running then 0 else r.sent.countP (·.1 = cfun0)) = 0 := by
      split
      · rfl
      · exact hsent ‹_›
    simp only [Budget, cycles, scans, if_neg hfresh, hcount] at h ⊢
    omega

/-- The cycle that was due. -/
theorem Budget.of_cycle {run : RadioRun} (h : run.Budget) {t : RadioTuner} {r : RadioRound}
    (hsent : r.sent.countP (·.1 = cfun0) = 1) (hdue : mayCycle run.tuner = true)
    (hmay : mayCycle t = false) : (RadioRun.mk t (r :: run.log)).Budget := by
  by_cases hfresh : (r.lost || r.changes) = true
  · exact budget_of_fresh hfresh
  · have hcount : (if r.before.scan = .running then 0 else r.sent.countP (·.1 = cfun0)) ≤ 1 := by
      split
      · exact Nat.zero_le _
      · exact hsent.le
    simp only [Budget, cycles, scans, if_neg hfresh, hdue, hmay, Bool.toNat_true,
      Bool.toNat_false] at h ⊢
    omega

theorem mayCycle_of_frame {t t' : RadioTuner} (hf : ScanFrame t t')
    (hscan : t'.scan = .running → t.scan = .running) (hver : t'.verified = t.verified)
    (h : mayCycle t' = true) : mayCycle t = true := by
  unfold mayCycle at h ⊢
  rw [hf.applyPending, hf.restorePending, hf.phase, hf.radioReenableOwed, hf.writes, hver] at h
  simp only [Bool.or_eq_true, decide_eq_true_eq] at h ⊢
  exact h.imp_left (Or.imp_left (Or.imp_left hscan))

theorem mayCycle_setConfig {c : CellularConfig} {t : RadioTuner} (h : t.newIntent c ≠ true) :
    mayCycle (t.setConfig c) = mayCycle t := by
  rw [setConfig_eq]
  dsimp only
  rw [if_neg h]
  rfl

theorem Budget.setConfig {run : RadioRun} (h : run.Budget) (c : CellularConfig) :
    (run.step (.setConfig c)).Budget := by
  by_cases hnew : run.tuner.newIntent c = true
  · exact budget_of_fresh (by simp [round, RadioRound.changes, hnew])
  · exact h.of_quiet (fun _ => rfl) fun hmay => (mayCycle_setConfig hnew).symm.trans hmay

/-- A scan brings the cycle that it may end in. -/
theorem Budget.requestScan {run : RadioRun} (h : run.Budget) : (run.step .requestScan).Budget := by
  by_cases hscan : run.tuner.scanRefusal = none
  · have hle := Bool.toNat_le (mayCycle run.tuner.requestScan)
    have hbudget := h.bounded
    have hcycles : cycles (run.step .requestScan).log = cycles run.log := by
      simp [RadioRun.step, round, cycles, RadioRound.lost, RadioRound.changes]
    have hscans : scans (run.step .requestScan).log = 1 + scans run.log := by
      simp [RadioRun.step, round, scans, RadioRound.lost, RadioRound.changes,
        RadioRound.startsScan, hscan]
    unfold Bounded at hbudget
    change cycles (run.step .requestScan).log + (mayCycle run.tuner.requestScan).toNat ≤ _
    omega
  · refine h.of_quiet (fun _ => rfl) fun hmay => ?_
    exact mayCycle_of_frame (scanFrame_requestScan run.tuner)
      (fun h' => absurd h' (requestScan_scan hscan)) (requestScan_verified _) hmay

section tick

variable {run : RadioRun} {s : CellularStatus} {cell : ServingCell} {nowMs : UInt64}
  {reply : Replies} {t t' : RadioTuner} {new : List Exchange}

theorem countP_questions (reply : Replies) : (questions reply).countP (·.1 = cfun0) = 0 := rfl

theorem countP_writeSent (reply : Replies) (t : RadioTuner) :
    (t.writeSent reply).countP (·.1 = cfun0) = 0 := by
  have h1 : cfun1 ≠ cfun0 := by decide
  have hb := (ne_cfun_of_take (take_bandCommand t.desiredMask)).1
  have hn := (ne_cfun_of_take (take_nwscanmodeCommand t.desiredMode)).1
  simp [writeSent, h1, hb, hn]

/-- A write makes no cycle due. -/
theorem mayCycle_written (h : Written reply t t') (hmay : mayCycle t' = true) :
    mayCycle t = true := by
  have hwait : t.scan = .running ∨ t.applyPending = true ∨ t.restorePending = true := by
    cases h
    all_goals simpa [mayCycle, or_assoc] using hmay
  rcases hwait with h' | h' | h' <;> simp [mayCycle, h']

/-- What a check is to write, or may, has been due before. -/
theorem mayCycle_of_due (hphase : t.phase = .idle)
    (hdue : t.due.applyPending = true ∨ t.due.verified = false)
    (hwrite : t.due.applyPending = true ∨ t.due.writes = 0) : mayCycle t = true := by
  by_cases happly : t.due.applyPending = true
  · rw [due, Bool.or_eq_true, Bool.or_eq_true] at happly
    rcases happly with (h | h) | h <;> simp [mayCycle, h, hphase]
  · have hwrites : t.writes = 0 := hwrite.resolve_left happly
    have hver := hdue.resolve_left happly
    rw [due, Bool.not_eq_true, Bool.or_eq_false_iff, Bool.or_eq_false_iff] at happly
    have hver' : t.verified = false := by simpa [due, happly.1.2, happly.2] using hver
    simp [mayCycle, hver', hwrites, hphase]

theorem mayCycle_settled (hscan : t.scan ≠ .running) (hdue : t.due.applyPending = false)
    (hver : t.due.verified = true) : mayCycle t.due = false := by
  have howed := (Bool.or_eq_false_iff.mp hdue).2
  unfold mayCycle
  rw [hdue, hver]
  simp [due, hscan, howed]

/-- Once checked, only a radio that is still owed makes a cycle due. -/
theorem mayCycle_checked (h : Checked reply t.due t' new) (hscan : t.scan ≠ .running)
    (hoff : t.radioReenableOwed = true → (reply cfun0).ok = true) : mayCycle t' = false := by
  cases h with
  | inSync howed => simpa [mayCycle, due, hscan] using fun _ => howed
  | notWrittenAgain happly | unreadable happly =>
    rw [due, Bool.or_eq_false_iff] at happly
    simp [mayCycle, due, hscan, happly]
  | refused _ hno =>
    have howed : t.radioReenableOwed = false := by
      by_contra h
      exact absurd ((hoff (Bool.eq_true_of_not_eq_false h)).symm.trans hno) (by simp)
    simp [mayCycle, due, hscan, howed]
  | radioOff => simp [mayCycle, due, hscan]

theorem Budget.tick (h : run.Budget) (ht : run.tuner.Ticked s reply t' new)
    (hoff : run.GoesOff (.tick s cell nowMs reply)) :
    (RadioRun.mk t' (tickRound run s cell nowMs reply new t' :: run.log)).Budget := by
  cases ht with
  | gone hs ha => exact budget_of_fresh (by simp [RadioRound.lost, hs, ha])
  | absent => exact h.of_quiet (fun _ => rfl) id
  | scanned _ hscan =>
    exact h.of_quiet (fun h' => absurd hscan h') fun _ => by simp [mayCycle, hscan]
  | written _ hscan _ hw =>
    have hmay := mayCycle_written hw
    exact h.of_quiet (fun _ => countP_writeSent reply run.tuner) hmay
  | unconfigured => exact h.of_quiet (fun _ => rfl) id
  | noBand _ hscan hphase =>
    refine h.of_quiet (fun _ => rfl) fun hmay => ?_
    have howed : run.tuner.radioReenableOwed = true := by
      simpa [mayCycle, hscan, hphase] using hmay
    simp [mayCycle, hphase, howed]
  | settled _ hscan hphase _ _ hdue hver =>
    have hmay := mayCycle_settled hscan hdue hver
    exact h.of_quiet (fun _ => rfl) fun h' => absurd (hmay.symm.trans h') (by simp)
  | checked hs hscan hphase hcfg hmask hdue hc =>
    have hmay := mayCycle_checked hc hscan (hoff hs hscan hphase hcfg hmask)
    have hquiet : new = questions reply →
        (RadioRun.mk t' (tickRound run s cell nowMs reply new t' :: run.log)).Budget := by
      rintro rfl
      exact h.of_quiet (fun _ => countP_questions reply) fun h' => absurd (hmay.symm.trans h') (by simp)
    have hcycle : new = (cfun0, reply cfun0) :: questions reply → mayCycle run.tuner = true →
        (RadioRun.mk t' (tickRound run s cell nowMs reply new t' :: run.log)).Budget := by
      rintro rfl hm
      exact h.of_cycle rfl hm hmay
    cases hc with
    | inSync | notWrittenAgain | unreadable => exact hquiet rfl
    | refused hwrite | radioOff hwrite => exact hcycle rfl (mayCycle_of_due hphase hdue hwrite)

end tick

theorem Budget.step {run : RadioRun} (e : RadioEvent) (h : run.Budget) (hoff : run.GoesOff e) :
    (run.step e).Budget := by
  cases e with
  | setConfig c => exact h.setConfig c
  | requestScan => exact h.requestScan
  | tick s cell nowMs reply =>
    obtain ⟨t', new, ht, heq⟩ := run.step_tick s cell nowMs reply
    rw [heq]
    exact h.tick ht hoff

theorem budget_run {es : List RadioEvent} (h : Along step GoesOff {} es) :
    Always step Budget {} es := by
  have h0 : Budget {} := by
    change 0 + (mayCycle {}).toNat ≤ 1 + 0
    decide
  exact always_of_along (P := Budget) (fun _ e hb hoff => hb.step e hoff) h0 h

/-- While intent and modem last, the radio goes off once for a write and once more for each scan,
in every run in which AT+CFUN=0 is accepted where the tuner owes the radio. -/
theorem bounded_run {es : List RadioEvent} (h : Along step GoesOff {} es) :
    Always step Bounded {} es := (budget_run h).mono fun _ hb => hb.bounded

/-- A modem that disappears with the radio off for a write, and what it answers afterwards. -/
def lostRun (back : Replies) : List RadioEvent :=
  [.setConfig { bandProfile := .custom, bandMask := 20 }, answered 0 (modem "4" []),
    .tick {} {} 0 back, answered 0 back]

theorem bounded_run_lost : Always step Bounded {} (lostRun (modem "4" [])) :=
  bounded_run (by decide)

/-- A round that ends where it begins adds its cycle each time. -/
theorem cycles_replicate (run : RadioRun) {e : RadioEvent}
    (hafter : (round run.tuner e).after = run.tuner)
    (hlost : ((round run.tuner e).lost || (round run.tuner e).changes) = false)
    (hscan : (round run.tuner e).startsScan = false)
    (hcycle : (if (round run.tuner e).before.scan = .running then 0 else
      (round run.tuner e).sent.countP (·.1 = cfun0)) = 1) (n : ℕ) :
    cycles (Runs.run step run (List.replicate n e)).log = n + cycles run.log ∧
      scans (Runs.run step run (List.replicate n e)).log = scans run.log := by
  induction n generalizing run with
  | zero => simp
  | succ n ih =>
    have hstep : run.step e = ⟨run.tuner, round run.tuner e :: run.log⟩ := by
      rw [RadioRun.step, hafter]
    rw [List.replicate_succ, run_cons, hstep]
    obtain ⟨hc, hs⟩ := ih ⟨run.tuner, round run.tuner e :: run.log⟩ hafter hlost hscan hcycle
    rw [hc, hs]
    simp only [cycles, scans, hlost, hscan, hcycle, if_neg Bool.false_ne_true]
    omega

/-- A modem that then refuses AT+CFUN=0. -/
def stuckRun (n : ℕ) : List RadioEvent :=
  lostRun (modem "4" [cfun0]) ++ List.replicate n (answered 0 (modem "4" [cfun0]))

theorem not_bounded_stuckRun :
    ¬ ∃ bound, ∀ es, cycles (Runs.run step {} es).log ≤ bound + scans (Runs.run step {} es).log := by
  rintro ⟨bound, h⟩
  have hle := h (stuckRun (bound + 1))
  rw [stuckRun, run_append] at hle
  obtain ⟨hc, hs⟩ := cycles_replicate (Runs.run step {} (lostRun (modem "4" [cfun0])))
    (e := answered 0 (modem "4" [cfun0])) (by decide) (by decide) (by decide) (by decide)
    (bound + 1)
  have hzero : scans (Runs.run step {} (lostRun (modem "4" [cfun0]))).log = 0 := by decide
  rw [hc, hs, hzero] at hle
  omega

/-- The radio is owed only while a write goes on. -/
def Owing (run : RadioRun) : Prop :=
  run.tuner.radioReenableOwed = true → run.tuner.phase = .rfOff

theorem Owing.goesOff {run : RadioRun} (h : run.Owing) (e : RadioEvent) : run.GoesOff e := by
  cases e with
  | tick s cell nowMs reply =>
    intro _ _ hphase _ _ howed
    exact absurd (hphase.symm.trans (h howed)) (by simp)
  | setConfig | requestScan => trivial

theorem Owing.of_frame {run run' : RadioRun} (h : run.Owing)
    (hf : ScanFrame run.tuner run'.tuner) : run'.Owing :=
  fun howed => hf.phase.trans (h (hf.radioReenableOwed.symm.trans howed))

theorem Owing.tick {run : RadioRun} (h : run.Owing) {s : CellularStatus} {reply : Replies}
    {t' : RadioTuner} {new : List Exchange} (ht : run.tuner.Ticked s reply t' new)
    (hlost : s.answering = true ∨ run.tuner.alive = false) (log : List RadioRound) :
    (RadioRun.mk t' log).Owing := by
  cases ht with
  | gone hs ha => simp [hs, ha] at hlost
  | absent | unconfigured | noBand | settled => exact h
  | scanned _ _ hf => exact h.of_frame hf.toScanFrame
  | written _ _ _ hw =>
    cases hw with
    | again => exact fun _ => rfl
    | radioOn | givenUp => exact fun howed => absurd howed Bool.false_ne_true
  | checked _ _ _ _ _ _ hc =>
    cases hc with
    | radioOff => exact fun _ => rfl
    | inSync | notWrittenAgain | unreadable | refused => exact h

theorem Owing.step {run : RadioRun} (e : RadioEvent) (h : run.Owing)
    (hlost : (round run.tuner e).lost = false) : (run.step e).Owing := by
  cases e with
  | setConfig c =>
    change (run.tuner.setConfig c).radioReenableOwed = true → (run.tuner.setConfig c).phase = .rfOff
    rw [setConfig_eq]
    dsimp only
    split <;> exact h
  | requestScan => exact h.of_frame (scanFrame_requestScan run.tuner)
  | tick s cell nowMs reply =>
    obtain ⟨t', new, ht, heq⟩ := run.step_tick s cell nowMs reply
    rw [heq]
    exact h.tick ht (by simpa [round, RadioRound.lost, or_iff_not_imp_left] using hlost) _

/-- As long as the modem has not disappeared the bound holds whatever it answers. -/
theorem bounded_first_life {es : List RadioEvent}
    (h : Along step (fun run e => (round run.tuner e).lost = false) {} es) :
    Always step Bounded {} es := by
  have hoff : Along step GoesOff {} es :=
    h.of_invariant (P := Owing) (fun _ e ho hl => ho.step e hl) (fun _ e ho _ => ho.goesOff e)
      fun howed => absurd howed Bool.false_ne_true
  exact (budget_run hoff).mono fun _ hb => hb.bounded

end RadioRun

end Machino.Cellular
