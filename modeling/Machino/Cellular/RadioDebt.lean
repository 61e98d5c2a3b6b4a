import Machino.Cellular.RadioRun

namespace Machino.Cellular

open Runs RadioTuner

namespace RadioRun

/-- Of the commands, the newest first, the last AT+CFUN=0 that the modem has accepted is not
followed by an accepted AT+CFUN=1. -/
def radioOff : List Exchange → Bool
  | [] => false
  | x :: xs =>
    if x.2.ok && x.1 = cfun1 then false
    else if x.2.ok && x.1 = cfun0 then true
    else radioOff xs

/-- All the commands so far, the newest first. -/
def sent (run : RadioRun) : List Exchange := run.log.flatMap (·.sent)

/-- The bands are not reported in sync while the radio is off. -/
def Honest (run : RadioRun) : Prop := ¬ (run.tuner.sync = .inSync ∧ radioOff run.sent = true)

instance (run : RadioRun) : Decidable run.Honest := inferInstanceAs (Decidable (¬ _))

/-- The radio comes on again after a lock of the scan, unless a write owes that anyway, and at
the last try of a write. -/
def ComesOn (run : RadioRun) : RadioEvent → Prop
  | .tick s _ _ reply => s.answering = true →
    (run.tuner.scan = .running → run.tuner.lockTarget ≠ 0 →
      run.tuner.radioReenableOwed = false → (reply cfun0).ok = true → (reply cfun1).ok = true) ∧
    (run.tuner.scan ≠ .running → run.tuner.phase = .rfOff →
      kMaxRadioReenable ≤ run.tuner.radioReenableTries → (reply cfun1).ok = true)
  | _ => True

instance (run : RadioRun) : (e : RadioEvent) → Decidable (run.ComesOn e)
  | .tick .. => inferInstanceAs (Decidable (_ → _ ∧ _))
  | .setConfig _ => .isTrue trivial
  | .requestScan => .isTrue trivial

/-- The tuner knows that it owes the radio, and does not report the bands in sync as long. -/
structure Debt (run : RadioRun) : Prop where
  known : radioOff run.sent = true → run.tuner.radioReenableOwed = true
  unsettled : run.tuner.radioReenableOwed = true → run.tuner.sync ≠ .inSync

theorem Debt.honest {run : RadioRun} (h : run.Debt) : run.Honest :=
  fun hbad => h.unsettled (h.known hbad.2) hbad.1

@[simp] theorem radioOff_cfun1 (x : AtExchange) (xs : List Exchange) :
    radioOff ((cfun1, x) :: xs) = (!x.ok && radioOff xs) := by
  have hne : cfun1 ≠ cfun0 := by decide
  cases h : x.ok <;> simp [radioOff, h]

@[simp] theorem radioOff_cfun0 (x : AtExchange) (xs : List Exchange) :
    radioOff ((cfun0, x) :: xs) = (x.ok || radioOff xs) := by
  have hne : cfun0 ≠ cfun1 := by decide
  cases h : x.ok <;> simp [radioOff, h, hne]

/-- What is asked or set of the bands leaves the radio as it is. -/
theorem radioOff_of_take {x : Exchange} (h : x.1.take 4 = "AT+Q".toList) (xs : List Exchange) :
    radioOff (x :: xs) = radioOff xs := by
  obtain ⟨h0, h1⟩ := ne_cfun_of_take h
  simp [radioOff, h0, h1]

@[simp] theorem radioOff_bandCommand (mask : UInt64) (x : AtExchange) (xs : List Exchange) :
    radioOff ((bandCommand mask, x) :: xs) = radioOff xs :=
  radioOff_of_take (take_bandCommand mask) xs

@[simp] theorem radioOff_nwscanmodeCommand (mode : NetMode) (x : AtExchange) (xs : List Exchange) :
    radioOff ((nwscanmodeCommand mode, x) :: xs) = radioOff xs :=
  radioOff_of_take (take_nwscanmodeCommand mode) xs

@[simp] theorem radioOff_questions (reply : Replies) (xs : List Exchange) :
    radioOff (questions reply ++ xs) = radioOff xs :=
  (radioOff_of_take (by dsimp only; decide) _).trans (radioOff_of_take (by dsimp only; decide) _)

theorem radioOff_lockSent (reply : Replies) (mask : UInt64) (xs : List Exchange) :
    radioOff (lockSent reply mask ++ xs) =
      if mask ≠ 0 ∧ (reply cfun0).ok = true then !(reply cfun1).ok else radioOff xs := by
  unfold lockSent
  by_cases hm : mask = 0
  · simp [hm]
  · cases h0 : (reply cfun0).ok <;> simp [hm, h0]

theorem radioOff_writeSent (reply : Replies) (t : RadioTuner) (xs : List Exchange) :
    radioOff (t.writeSent reply ++ xs) = (!(reply cfun1).ok && radioOff xs) := by
  simp [writeSent]

theorem Debt.of_eq {run run' : RadioRun} (h : run.Debt) (hsent : radioOff run'.sent = radioOff run.sent)
    (howed : run'.tuner.radioReenableOwed = run.tuner.radioReenableOwed)
    (hsync : run'.tuner.sync = .inSync → run.tuner.sync = .inSync) : run'.Debt where
  known h' := howed.trans (h.known (hsent ▸ h'))
  unsettled h' hs := h.unsettled (howed ▸ h') (hsync hs)

theorem Debt.setConfig {run : RadioRun} (h : run.Debt) (c : CellularConfig) :
    (run.step (.setConfig c)).Debt := by
  have heq : (run.step (.setConfig c)).tuner = _ := setConfig_eq c run.tuner
  dsimp only at heq
  split at heq
  · exact h.of_eq rfl (by rw [heq]) (by simp [heq])
  · exact h.of_eq rfl (by rw [heq]) (by simp [heq])

theorem Debt.requestScan {run : RadioRun} (h : run.Debt) : (run.step .requestScan).Debt :=
  have hf := scanFrame_requestScan run.tuner
  h.of_eq rfl hf.radioReenableOwed fun hs => hf.sync.symm.trans hs

theorem Debt.checked {run : RadioRun} (h : run.Debt) {reply : Replies} {t' : RadioTuner}
    {new : List Exchange} (hc : Checked reply run.tuner.due t' new) {r : RadioRound}
    (hr : r.sent = new) : (RadioRun.mk t' (r :: run.log)).Debt := by
  have hsent : RadioRun.sent ⟨t', r :: run.log⟩ = new ++ run.sent := by rw [← hr]; rfl
  cases hc with
  | inSync howed =>
    refine ⟨fun hoff => ?_, fun h' => absurd h' (by simp [howed])⟩
    rw [hsent, radioOff_questions] at hoff
    exact h.known hoff
  | notWrittenAgain => exact h.of_eq (by simp [hsent]) rfl (by simp)
  | unreadable => exact h.of_eq (by simp [hsent]) rfl (by simp)
  | refused _ hoff => exact h.of_eq (by simp [hsent, hoff]) rfl (by simp)
  | radioOff => exact ⟨fun _ => rfl, fun _ => by simp⟩

theorem Debt.tick {run : RadioRun} (h : run.Debt) {s : CellularStatus} {reply : Replies}
    {t' : RadioTuner} {new : List Exchange} (ht : run.tuner.Ticked s reply t' new)
    {cell : ServingCell} {nowMs : UInt64} (hon : run.ComesOn (.tick s cell nowMs reply))
    {r : RadioRound} (hr : r.sent = new) : (RadioRun.mk t' (r :: run.log)).Debt := by
  have hsent : radioOff (RadioRun.sent ⟨t', r :: run.log⟩) = radioOff (new ++ run.sent) := by
    rw [← hr]
    rfl
  cases ht with
  | gone =>
    refine h.of_eq (by rw [hsent]; rfl) ?_ ?_
    · unfold onModemGone
      dsimp only
      split <;> rfl
    · unfold onModemGone
      dsimp only
      split <;> exact id
  | absent => exact h.of_eq (by rw [hsent]; rfl) rfl id
  | scanned hs hscan hf =>
    rw [radioOff_lockSent] at hsent
    refine ⟨fun hoff => hf.radioReenableOwed.trans ?_, fun ho hy => ?_⟩
    · by_contra howed
      rw [Bool.not_eq_true] at howed
      rw [hsent] at hoff
      split at hoff
      · rename_i hlock
        rw [(hon hs).1 hscan hlock.1 howed hlock.2] at hoff
        simp at hoff
      · exact Bool.false_ne_true (howed.symm.trans (h.known hoff))
    · exact h.unsettled (hf.radioReenableOwed.symm.trans ho) (hf.sync.symm.trans hy)
  | written hs hscan hphase hw =>
    rw [radioOff_writeSent] at hsent
    cases hw with
    | radioOn hok _ => exact ⟨fun hoff => by simp [hsent, hok] at hoff, fun ho => by simp at ho⟩
    | again hno _ => exact h.of_eq (by rw [hsent, hno]; rfl) rfl (by simp)
    | givenUp hno htries =>
      rw [(hon hs).2 hscan hphase htries] at hno
      exact absurd hno (by simp)
  | unconfigured => exact h.of_eq (by rw [hsent]; rfl) rfl id
  | noBand => exact h.of_eq (by rw [hsent]; rfl) rfl (by simp)
  | settled => exact h.of_eq (by rw [hsent]; rfl) rfl id
  | checked _ _ _ _ _ _ hc => exact h.checked hc hr

theorem Debt.step {run : RadioRun} (e : RadioEvent) (h : run.Debt) (hon : run.ComesOn e) :
    (run.step e).Debt := by
  cases e with
  | setConfig c => exact h.setConfig c
  | requestScan => exact h.requestScan
  | tick s cell nowMs reply =>
    obtain ⟨t', new, ht, heq⟩ := run.step_tick s cell nowMs reply
    rw [heq]
    exact h.tick ht hon rfl

/-- In no run in which the radio comes on again where it must are the bands reported in sync
while it is off. -/
theorem honest_run {es : List RadioEvent} (h : Along step ComesOn {} es) :
    Always step Honest {} es := by
  have h0 : Debt {} := ⟨fun hoff => by simp [sent, radioOff] at hoff, fun ho => by simp at ho⟩
  exact (always_of_along (fun _ e hd hon => hd.step e hon) h0 h).mono fun _ hd => hd.honest

/-- A scan of band 3, its two locks and the check after it, on a modem that has that band. -/
def scanRun (lock restore check : Replies) : List RadioEvent :=
  [.setConfig { bandProfile := .mid }, answered 0 (modem "4" []), .requestScan,
    answered 0 lock, answered 0 restore, answered 0 check]

/-- The modem refuses the band of the scan, and nothing else. -/
theorem honest_run_scan :
    Always step Honest {} (scanRun (modem "4" [bandCommand 4]) (modem "4" []) (modem "4" [])) :=
  honest_run (by decide)

/-- AT+CFUN=1 is refused when the bands are restored. -/
theorem not_honest_run_scan : ¬ ∀ es, Always step Honest {} es := by
  intro h
  exact absurd (h (scanRun (modem "4" [bandCommand 4]) (modem "4" [cfun1]) (modem "4" [])) _
    List.prefix_rfl) (by decide)

end RadioRun

open Runs RadioTuner

/-- A lock to no band: the mask has no digit but zeros. -/
def locksNone (cmd : Text) : Bool :=
  "AT+QCFG=\"band\",d3,".toList.isPrefixOf cmd && (cmd.drop 18).all (· = '0')

theorem ofHex_zeros {s : Text} (h : s.all (· = '0') = true) : ofHex s = 0 := by
  induction s using List.reverseRecOn with
  | nil => rfl
  | append_singleton s c ih =>
    rw [List.all_append, Bool.and_eq_true] at h
    have hc : c = '0' := by simpa using h.2
    rw [ofHex_append, ih h.1, hc]
    rfl

theorem locksNone_bandCommand (mask : UInt64) :
    locksNone (bandCommand mask) = decide (mask = 0) := by
  have hstart : "AT+QCFG=\"band\",d3,".toList.isPrefixOf (bandCommand mask) = true :=
    List.isPrefixOf_iff_prefix.mpr (List.prefix_append _ _)
  have hdrop : (bandCommand mask).drop 18 = maskHex mask := rfl
  unfold locksNone
  rw [hstart, Bool.true_and, hdrop, Bool.eq_iff_iff, decide_eq_true_eq]
  constructor
  · intro h
    have hzero : mask.toNat = 0 := by
      rw [← ofHex_toDigits mask.toNat]
      exact ofHex_zeros h
    exact UInt64.toNat_inj.mp hzero
  · rintro rfl
    decide

theorem locksNone_nwscanmodeCommand (mode : NetMode) :
    locksNone (nwscanmodeCommand mode) = false := by
  cases mode <;> decide

namespace RadioRun

/-- No command so far has locked the modem to no band. -/
def KeepsABand (run : RadioRun) : Prop := ∀ x ∈ run.sent, locksNone x.1 = false

instance (run : RadioRun) : Decidable run.KeepsABand :=
  inferInstanceAs (Decidable (∀ x ∈ run.sent, locksNone x.1 = false))

/-- The intent has a band when the tick is to write it, the radio being off for that. -/
def WritesABand (run : RadioRun) : RadioEvent → Prop
  | .tick s _ _ _ => s.answering = true → run.tuner.scan ≠ .running → run.tuner.phase = .rfOff →
    run.tuner.desiredMask ≠ 0
  | _ => True

instance (run : RadioRun) : (e : RadioEvent) → Decidable (run.WritesABand e)
  | .tick .. => inferInstanceAs (Decidable (_ → _))
  | .setConfig _ => .isTrue trivial
  | .requestScan => .isTrue trivial

/-- A step of the scan locks to a band or not at all. -/
theorem locksNone_lockSent {reply : Replies} {mask : UInt64} {x : Exchange}
    (hx : x ∈ lockSent reply mask) : locksNone x.1 = false := by
  have h0 : locksNone cfun0 = false := by decide
  have h1 : locksNone cfun1 = false := by decide
  unfold lockSent at hx
  split_ifs at hx with hm hoff
  · exact absurd hx List.not_mem_nil
  · rw [List.mem_singleton.mp hx]
    exact h0
  · have hband : locksNone (bandCommand mask) = false := by
      rw [locksNone_bandCommand, decide_eq_false hm]
    rcases List.mem_cons.mp hx with rfl | hx
    · exact h1
    rcases List.mem_cons.mp hx with rfl | hx
    · exact hband
    · rw [List.mem_singleton.mp hx]
      exact h0

theorem locksNone_checked {reply : Replies} {t t' : RadioTuner} {new : List Exchange}
    (h : Checked reply t t' new) {x : Exchange} (hx : x ∈ new) : locksNone x.1 = false := by
  have hplain : ∀ cmd ∈ [cfun0, "AT+QCFG=\"nwscanmode\"".toList, "AT+QCFG=\"band\"".toList],
      locksNone cmd = false := by decide
  exact hplain x.1 (h.sent_mem x hx)

/-- A write locks to the intent, whatever that is by then. -/
theorem locksNone_writeSent (reply : Replies) (t : RadioTuner) :
    (∀ x ∈ t.writeSent reply, locksNone x.1 = false) ↔ t.desiredMask ≠ 0 := by
  have h1 : locksNone cfun1 = false := by decide
  simp [writeSent, h1, locksNone_bandCommand, locksNone_nwscanmodeCommand]

theorem sent_step_tick {run : RadioRun} {s : CellularStatus} {cell : ServingCell}
    {nowMs : UInt64} {reply : Replies} {t' : RadioTuner} {new : List Exchange}
    (heq : run.step (.tick s cell nowMs reply) =
      ⟨t', run.tickRound s cell nowMs reply new t' :: run.log⟩) :
    (run.step (.tick s cell nowMs reply)).sent = new ++ run.sent := by
  rw [heq]
  rfl

theorem KeepsABand.step {run : RadioRun} (e : RadioEvent) (h : run.KeepsABand)
    (hw : run.WritesABand e) : (run.step e).KeepsABand := by
  cases e with
  | setConfig c => exact h
  | requestScan => exact h
  | tick s cell nowMs reply =>
    obtain ⟨t', new, ht, heq⟩ := run.step_tick s cell nowMs reply
    have hnew : ∀ x ∈ new, locksNone x.1 = false := by
      cases ht with
      | scanned => exact fun x => locksNone_lockSent
      | written hs hscan hphase =>
        exact (locksNone_writeSent reply run.tuner).mpr (hw hs hscan hphase)
      | checked _ _ _ _ _ _ hc => exact fun x => locksNone_checked hc
      | gone | absent | unconfigured | noBand | settled =>
        exact fun x hx => absurd hx List.not_mem_nil
    unfold KeepsABand
    rw [sent_step_tick heq]
    intro x hx
    rcases List.mem_append.mp hx with hx | hx
    · exact hnew x hx
    · exact h x hx

/-- The mask that is read again at the write is not checked again. -/
theorem not_keepsABand_step {run : RadioRun} {e : RadioEvent} (hw : ¬ run.WritesABand e) :
    ¬ (run.step e).KeepsABand := by
  cases e with
  | setConfig c => exact absurd trivial hw
  | requestScan => exact absurd trivial hw
  | tick s cell nowMs reply =>
    simp only [WritesABand, Classical.not_imp, not_not] at hw
    obtain ⟨hs, hscan, hphase, hmask⟩ := hw
    obtain ⟨t', new, ht, heq⟩ := run.step_tick s cell nowMs reply
    have hnew : new = run.tuner.writeSent reply := by
      cases ht with
      | written => rfl
      | gone hs' | absent hs' => exact absurd (hs.symm.trans hs') (by simp)
      | scanned _ hscan' => exact absurd hscan' hscan
      | unconfigured _ _ hidle | noBand _ _ hidle | settled _ _ hidle | checked _ _ hidle =>
        exact absurd (hphase.symm.trans hidle) (by simp)
    intro h
    unfold KeepsABand at h
    rw [sent_step_tick heq, hnew] at h
    refine (locksNone_writeSent reply run.tuner).mp (fun x hx => ?_) hmask
    exact h x (List.mem_append_left _ hx)

/-- The modem is never locked to no band in exactly the runs in which the intent has a band
whenever it is written. -/
theorem keepsABand_iff (es : List RadioEvent) :
    Always step KeepsABand {} es ↔ Along step WritesABand {} es :=
  always_iff_along (fun _ e h hw => h.step e hw) (fun _ => id)
    (fun _ _ _ hw => not_keepsABand_step hw) fun _ hx => absurd hx List.not_mem_nil

/-- The settings file, edited by hand, has a custom profile without a band. The change to another
profile is rolled back to it after the radio has gone off, before the mask is written. -/
theorem not_keepsABand_rolledBack : ¬ ∀ es, Always step KeepsABand {} es := by
  intro h
  exact absurd (h [.setConfig { bandProfile := .custom }, .setConfig { bandProfile := .mid },
    answered 0 (modem "8" []), .setConfig { bandProfile := .custom }, answered 2000 (modem "8" [])]
    _ List.prefix_rfl) (by decide)

end RadioRun

end Machino.Cellular
