import Machino.Cellular.RadioRun

namespace Machino.Cellular

open Runs RadioTuner

namespace RadioRun

/-- The tuner has found its bands in the modem, can read none there, or may not write them. -/
def Excused (t : RadioTuner) : Bool :=
  t.sync = .inSync || t.sync = .unverified || t.detail = .radioOffRejected

/-- The configured bands are written. -/
def wrote (r : RadioRound) : Bool := r.sent.any fun x => x.1 = bandCommand r.before.desiredMask

/-- The lock at the end of a scan is accepted. -/
def restored (r : RadioRound) : Bool := r.sent ≠ [] && r.sent.all (·.2.ok)

/-- The rounds since a scan left its bands in the modem, the tuner had an excuse or something
else happened that changes what is to be done; none where the bands have been written since. -/
def waited : List RadioRound → Option ℕ
  | [] => none
  | r :: rs =>
    if r.lost then if r.before.scan = .running then some 0 else (waited rs).map fun _ => 0
    else if r.changes then (waited rs).map fun _ => 0
    else
      match r.event with
      | .tick s _ _ _ =>
        if !s.answering then waited rs
        else if r.before.scan = .running then
          if r.before.scanPhase ≠ .restore then waited rs
          else if restored r then none
          else some 0
        else if wrote r then none
        else (waited rs).map fun n => if Excused r.after then 0 else n + 1
      | _ => waited rs

/-- After the scan each round finds an excuse or turns the radio off for a write, which the next
round goes through with. -/
def Restores (run : RadioRun) : Prop :=
  ∀ n ∈ waited run.log, run.tuner.desiredMask ≠ 0 → n = 0 ∨ n = 1 ∧ run.tuner.phase = .rfOff

instance (run : RadioRun) : Decidable run.Restores :=
  inferInstanceAs (Decidable (∀ n ∈ waited run.log, _))

/-- A check after the scan, no change of the intent waiting, finds other bands only when nothing
has been written in this life of the modem. -/
def Unwritten (run : RadioRun) : RadioEvent → Prop
  | .tick s _ _ reply => waited run.log ≠ none → s.answering = true →
    run.tuner.scan ≠ .running → run.tuner.phase = .idle → run.tuner.desiredMask ≠ 0 →
    run.tuner.due.applyPending = false → run.tuner.due.verified = false →
    run.tuner.reportMatches reply = some false → run.tuner.writes = 0
  | _ => True

instance (run : RadioRun) : (e : RadioEvent) → Decidable (run.Unwritten e)
  | .tick .. => inferInstanceAs (Decidable (_ → _))
  | .setConfig _ => .isTrue trivial
  | .requestScan => .isTrue trivial

/-- What has not been written after a scan is about to be checked or written. -/
structure Restoring (run : RadioRun) : Prop where
  fresh : run.tuner.haveCfg = false →
    run.tuner.desiredMask = 0 ∧ run.tuner.scan ≠ .running ∧ waited run.log = none
  waits : ∀ n ∈ waited run.log, run.tuner.desiredMask ≠ 0 →
    n = 0 ∧ (Excused run.tuner = true ∨ run.tuner.verified = false) ∨
      n = 1 ∧ run.tuner.phase = .rfOff

theorem Restoring.restores {run : RadioRun} (h : run.Restoring) : run.Restores :=
  fun n hn hm => (h.waits n hn hm).imp And.left id

theorem waited_setConfig (run : RadioRun) (c : CellularConfig) :
    waited (run.step (.setConfig c)).log =
      if run.tuner.newIntent c then (waited run.log).map fun _ => 0 else waited run.log := rfl

theorem waited_requestScan (run : RadioRun) :
    waited (run.step .requestScan).log = waited run.log := rfl

theorem Restoring.setConfig {run : RadioRun} (h : run.Restoring) (c : CellularConfig) :
    (run.step (.setConfig c)).Restoring := by
  have heq : (run.step (.setConfig c)).tuner = _ := setConfig_eq c run.tuner
  have hw := waited_setConfig run c
  by_cases hnew : run.tuner.newIntent c = true
  · dsimp only at heq
    rw [if_pos hnew] at heq hw
    refine ⟨fun hcfg => by simp [heq] at hcfg, fun n hn _ => .inl ⟨?_, .inr (by rw [heq])⟩⟩
    rw [hw] at hn
    obtain ⟨-, -, rfl⟩ := Option.mem_map.mp hn
    rfl
  · dsimp only at heq
    rw [if_neg hnew] at heq hw
    rw [Bool.not_eq_true] at hnew
    refine ⟨fun hcfg => by simp [heq] at hcfg, fun n hn hm => ?_⟩
    rw [hw] at hn
    cases hcfg : run.tuner.haveCfg with
    | false =>
      rw [(h.fresh hcfg).2.2] at hn
      cases hn
    | true =>
      rw [heq] at hm ⊢
      exact h.waits n hn ((same_of_not_newIntent hcfg hnew) ▸ hm)

/-- What is done besides checks and writes leaves what is outstanding as it is. -/
theorem Restoring.of_frame {run run' : RadioRun} (h : run.Restoring)
    (hw : waited run'.log = waited run.log) (hf : ScanFrame run.tuner run'.tuner)
    (hver : run.tuner.verified = false → run'.tuner.verified = false)
    (hscan : run.tuner.desiredMask = 0 → run.tuner.scan ≠ .running →
      run'.tuner.scan ≠ .running) : run'.Restoring := by
  refine ⟨fun hcfg => ?_, fun n hn hm => ?_⟩
  · obtain ⟨hmask, hidle, hnone⟩ := h.fresh (hf.haveCfg.symm.trans hcfg)
    exact ⟨hf.desiredMask.trans hmask, hscan hmask hidle, hw.trans hnone⟩
  · have hex : Excused run'.tuner = Excused run.tuner := by
      rw [Excused, hf.sync, hf.detail, Excused]
    rw [hex, hf.phase]
    exact (h.waits n (hw ▸ hn) (hf.desiredMask ▸ hm)).imp_left
      (And.imp_right (Or.imp_right hver))

theorem Restoring.requestScan {run : RadioRun} (h : run.Restoring) :
    (run.step .requestScan).Restoring :=
  h.of_frame (waited_requestScan run) (scanFrame_requestScan run.tuner)
    (fun hv => (requestScan_verified _).trans hv)
    fun hmask _ => requestScan_scan (scanRefusal_noBand hmask)

/-- Where no band is wanted nothing is waited for. -/
theorem Restoring.of_done {run : RadioRun} (hcfg : run.tuner.haveCfg = true)
    (h : run.tuner.desiredMask = 0) : run.Restoring :=
  ⟨fun h' => absurd (hcfg.symm.trans h') (by simp), fun _ _ hm => absurd h hm⟩

section tick

variable {run : RadioRun} {s : CellularStatus} {cell : ServingCell} {nowMs : UInt64}
  {reply : Replies} {t' : RadioTuner} {new : List Exchange}

theorem waited_gone (hs : s.answering = false) (ha : run.tuner.alive = true) :
    waited (tickRound run s cell nowMs reply new t' :: run.log) =
      if run.tuner.scan = .running then some 0 else (waited run.log).map fun _ => 0 := by
  simp [waited, RadioRound.lost, hs, ha]

theorem waited_absent (hs : s.answering = false) (ha : run.tuner.alive = false) :
    waited (tickRound run s cell nowMs reply new t' :: run.log) = waited run.log := by
  simp [waited, RadioRound.lost, RadioRound.changes, hs, ha]

theorem waited_scanned (hs : s.answering = true) (hscan : run.tuner.scan = .running) :
    waited (tickRound run s cell nowMs reply new t' :: run.log) =
      if run.tuner.scanPhase ≠ .restore then waited run.log
      else if restored (tickRound run s cell nowMs reply new t') then none
      else some 0 := by
  simp [waited, RadioRound.lost, RadioRound.changes, hs, hscan]

theorem waited_round (hs : s.answering = true) (hscan : run.tuner.scan ≠ .running) :
    waited (tickRound run s cell nowMs reply new t' :: run.log) =
      if wrote (tickRound run s cell nowMs reply new t') then none
      else (waited run.log).map fun n => if Excused t' then 0 else n + 1 := by
  simp [waited, RadioRound.lost, RadioRound.changes, hs, hscan]

/-- A question or a refused start of a write is no write. -/
theorem wrote_checked (h : Checked reply run.tuner.due t' new) :
    wrote (tickRound run s cell nowMs reply new t') = false := by
  rw [wrote, List.any_eq_false]
  intro x hx hw
  exact bandCommand_notMem _ (of_decide_eq_true hw ▸ h.sent_mem x hx)

theorem wrote_written {t : RadioTuner} (h : t.desiredMask = run.tuner.desiredMask) :
    wrote (tickRound run s cell nowMs reply (t.writeSent reply) t') = true := by
  simp [wrote, writeSent, h]

/-- A check finds an excuse, turns the radio off for a write, or finds other bands that it is not
to write again. -/
theorem excused_checked (h : Checked reply run.tuner.due t' new) :
    Excused t' = true ∨ t'.phase = .rfOff ∨
      run.tuner.due.applyPending = false ∧ 0 < run.tuner.writes ∧
        run.tuner.reportMatches reply = some false := by
  cases h with
  | inSync => exact .inl rfl
  | notWrittenAgain happly hwrites hr =>
    have howed : run.tuner.radioReenableOwed = false := by
      rw [due, Bool.or_eq_false_iff] at happly
      exact happly.2
    rcases hr with hr | hr
    · exact absurd (howed.symm.trans hr) Bool.false_ne_true
    · exact .inr (.inr ⟨happly, hwrites, hr⟩)
  | unreadable => exact .inl rfl
  | refused => exact .inl rfl
  | radioOff => exact .inr (.inl rfl)

/-- A modem that comes back is checked anew. -/
theorem Restoring.gone (h : run.Restoring) (hs : s.answering = false)
    (ha : run.tuner.alive = true) :
    (RadioRun.mk run.tuner.onModemGone
      (tickRound run s cell nowMs reply [] run.tuner.onModemGone :: run.log)).Restoring := by
  obtain ⟨hcfg, hmask, hver, hscan⟩ := onModemGone_unverified run.tuner
  have hw : waited (tickRound run s cell nowMs reply [] run.tuner.onModemGone :: run.log) = _ :=
    waited_gone hs ha
  refine ⟨fun h' => ?_, fun n hn hm => .inl ⟨?_, .inr hver⟩⟩
  · obtain ⟨hm, hidle, hnone⟩ := h.fresh (hcfg.symm.trans h')
    rw [if_neg hidle, hnone] at hw
    exact ⟨hmask.trans hm, hscan, hw⟩
  · rw [hw] at hn
    split at hn
    · exact (Option.some.inj hn).symm
    · obtain ⟨-, -, rfl⟩ := Option.mem_map.mp hn
      rfl

/-- A scan that ends with its lock refused leaves the bands to be checked. -/
theorem Restoring.scanned (h : run.Restoring) (hs : s.answering = true)
    (hscan : run.tuner.scan = .running) (hf : Scanned run.tuner t') :
    (RadioRun.mk t' (tickRound run s cell nowMs reply new t' :: run.log)).Restoring := by
  have hcfg : run.tuner.haveCfg = true := by
    by_contra hcfg
    exact (h.fresh (Bool.eq_false_of_not_eq_true hcfg)).2.1 hscan
  have hw : waited (tickRound run s cell nowMs reply new t' :: run.log) = _ :=
    waited_scanned hs hscan
  by_cases hr : run.tuner.scanPhase = .restore
  · refine ⟨fun h' => absurd (hf.haveCfg.symm.trans h') (by simp [hcfg]), fun n hn _ => ?_⟩
    rw [if_neg (not_not.mpr hr)] at hw
    rw [hw] at hn
    split at hn
    · cases hn
    · exact .inl ⟨(Option.some.inj hn).symm, .inr (hf.ends hr).2⟩
  · rw [if_pos hr] at hw
    exact h.of_frame hw hf.toScanFrame (fun hv => (hf.goesOn hr).2.trans hv)
      fun _ hidle => absurd hscan hidle

/-- A write settles what a scan has left. -/
theorem Restoring.written (h : run.Restoring) (hs : s.answering = true)
    (hscan : run.tuner.scan ≠ .running) (hwr : Written reply { run.tuner with alive := true } t') :
    (RadioRun.mk t' (tickRound run s cell nowMs reply (run.tuner.writeSent reply) t' ::
      run.log)).Restoring := by
  obtain ⟨hcfg, hmask, hsc⟩ := hwr.frame
  have hw : waited (tickRound run s cell nowMs reply (run.tuner.writeSent reply) t' ::
    run.log) = _ := waited_round hs hscan
  rw [wrote_written rfl, if_pos rfl] at hw
  refine ⟨fun h' => ?_, fun n hn => ?_⟩
  · exact ⟨hmask.trans (h.fresh (hcfg.symm.trans h')).1, fun h' => hscan (hsc.symm.trans h'), hw⟩
  · rw [hw] at hn
    cases hn

/-- The tuner rests only with an excuse. -/
theorem Restoring.settled (h : run.Restoring) (hs : s.answering = true)
    (hscan : run.tuner.scan ≠ .running) (hphase : run.tuner.phase = .idle)
    (hcfg : run.tuner.haveCfg = true) (hmask : run.tuner.desiredMask ≠ 0)
    (hver : run.tuner.due.verified = true) :
    (RadioRun.mk run.tuner.due
      (tickRound run s cell nowMs reply [] run.tuner.due :: run.log)).Restoring := by
  have hw : waited (tickRound run s cell nowMs reply [] run.tuner.due :: run.log) = _ :=
    waited_round hs hscan
  refine ⟨fun h' => absurd (hcfg.symm.trans h') (by simp), fun n hn _ => .inl ?_⟩
  rw [hw] at hn
  obtain ⟨m, hm, rfl⟩ := Option.mem_map.mp hn
  have hver' : run.tuner.verified = true := by
    rw [due, Bool.and_eq_true, Bool.and_eq_true] at hver
    exact hver.1.1
  rcases h.waits m hm hmask with ⟨-, he | hv⟩ | ⟨-, hp⟩
  · exact ⟨if_pos he, .inl he⟩
  · exact absurd (hver'.symm.trans hv) (by simp)
  · exact absurd (hphase.symm.trans hp) (by simp)

/-- A check that may write finds an excuse or begins to. -/
theorem Restoring.checked (h : run.Restoring) (hs : s.answering = true)
    (hscan : run.tuner.scan ≠ .running) (hphase : run.tuner.phase = .idle)
    (hcfg : run.tuner.haveCfg = true) (hmask : run.tuner.desiredMask ≠ 0)
    (hdue : run.tuner.due.applyPending = true ∨ run.tuner.due.verified = false)
    (hc : Checked reply run.tuner.due t' new) (hu : run.Unwritten (.tick s cell nowMs reply)) :
    (RadioRun.mk t' (tickRound run s cell nowMs reply new t' :: run.log)).Restoring := by
  have hw : waited (tickRound run s cell nowMs reply new t' :: run.log) = _ :=
    waited_round hs hscan
  rw [wrote_checked hc, if_neg Bool.false_ne_true] at hw
  refine ⟨fun h' => absurd (hc.frame.1.symm.trans h') (by simp [due, hcfg]), fun n hn _ => ?_⟩
  rw [hw] at hn
  obtain ⟨m, hm, rfl⟩ := Option.mem_map.mp hn
  by_cases he : Excused t' = true
  · exact .inl ⟨if_pos he, .inl he⟩
  · rcases excused_checked hc with he' | hoff | ⟨happly, hwrites, hr⟩
    · exact absurd he' he
    · refine .inr ⟨?_, hoff⟩
      rcases h.waits m hm hmask with ⟨rfl, -⟩ | ⟨-, hp⟩
      · exact if_neg he
      · exact absurd (hphase.symm.trans hp) (by simp)
    · have hver := hdue.resolve_left (by simp [happly])
      have hzero := hu (by rw [Option.mem_def.mp hm]; simp) hs hscan hphase hmask happly hver hr
      omega

theorem Restoring.tick (h : run.Restoring) (ht : run.tuner.Ticked s reply t' new)
    (hu : run.Unwritten (.tick s cell nowMs reply)) :
    (RadioRun.mk t' (tickRound run s cell nowMs reply new t' :: run.log)).Restoring := by
  cases ht with
  | gone hs ha => exact h.gone hs ha
  | absent hs ha =>
    exact h.of_frame (waited_absent hs ha) (by constructor <;> rfl) id fun _ hidle => hidle
  | scanned hs hscan hf => exact h.scanned hs hscan hf
  | written hs hscan hphase hwr => exact h.written hs hscan hwr
  | unconfigured hs hscan hphase hcfg =>
    have hnone : waited run.log = none := (h.fresh hcfg).2.2
    refine h.of_frame ?_ (by constructor <;> rfl) id fun _ hidle => hidle
    rw [waited_round hs hscan, hnone]
    exact ite_self none
  | noBand hs hscan hphase hcfg hmask => exact .of_done hcfg hmask
  | settled hs hscan hphase hcfg hmask hdue hver => exact h.settled hs hscan hphase hcfg hmask hver
  | checked hs hscan hphase hcfg hmask hdue hc =>
    exact h.checked hs hscan hphase hcfg hmask hdue hc hu

/-- Other bands that are not to be written again are no excuse. -/
theorem not_excused_checked (h : Checked reply run.tuner.due t' new)
    (happly : run.tuner.due.applyPending = false) (hwrites : run.tuner.writes ≠ 0)
    (hr : run.tuner.reportMatches reply = some false) :
    Excused t' = false ∧ t'.phase = run.tuner.phase := by
  cases h with
  | inSync _ hr' => exact absurd (Option.some.inj (hr.symm.trans hr')) Bool.false_ne_true
  | notWrittenAgain => exact ⟨rfl, rfl⟩
  | unreadable _ hr' => exact absurd (hr.symm.trans hr') (by simp)
  | refused hdue | radioOff hdue =>
    rcases hdue with hdue | hdue
    · exact absurd (happly.symm.trans hdue) Bool.false_ne_true
    · exact absurd hdue hwrites

/-- A check that finds other bands after a write in this life of the modem leaves them there. -/
theorem not_restores_tick (h : run.Restoring) (ht : run.tuner.Ticked s reply t' new)
    (hu : ¬ run.Unwritten (.tick s cell nowMs reply)) :
    ¬ (RadioRun.mk t' (tickRound run s cell nowMs reply new t' :: run.log)).Restores := by
  unfold Unwritten at hu
  push Not at hu
  obtain ⟨hwait, hs, hscan, hphase, hmask, happly, hver, hr, hwrites⟩ := hu
  obtain ⟨m, hm⟩ := Option.ne_none_iff_exists'.mp hwait
  cases ht with
  | gone hs' => exact absurd (hs.symm.trans hs') (by simp)
  | absent hs' => exact absurd (hs.symm.trans hs') (by simp)
  | scanned _ hscan' => exact absurd hscan' hscan
  | written _ _ hphase' => exact absurd (hphase.symm.trans hphase') (by simp)
  | unconfigured _ _ _ hcfg => exact absurd (h.fresh hcfg).1 hmask
  | noBand _ _ _ _ hmask' => exact absurd hmask' hmask
  | settled _ _ _ _ _ _ hver' => exact absurd (hver.symm.trans hver') (by simp)
  | checked _ _ _ _ _ _ hc =>
    obtain ⟨hex, hidle⟩ := not_excused_checked hc happly hwrites hr
    have hw : waited (tickRound run s cell nowMs reply new t' :: run.log) = _ :=
      waited_round hs hscan
    rw [wrote_checked hc, if_neg Bool.false_ne_true, hm] at hw
    intro hrest
    rcases hrest (m + 1) (hw.trans (by simp [hex])) (hc.frame.2.trans_ne hmask) with hz | ⟨-, hp⟩
    · exact absurd hz (Nat.succ_ne_zero m)
    · exact absurd (hphase.symm.trans (hidle.symm.trans hp)) (by simp)

end tick

theorem Restoring.step {run : RadioRun} (e : RadioEvent) (h : run.Restoring)
    (hu : run.Unwritten e) : (run.step e).Restoring := by
  cases e with
  | setConfig c => exact h.setConfig c
  | requestScan => exact h.requestScan
  | tick s cell nowMs reply =>
    obtain ⟨t', new, ht, heq⟩ := run.step_tick s cell nowMs reply
    rw [heq]
    exact h.tick ht hu

theorem not_restores_step {run : RadioRun} (e : RadioEvent) (h : run.Restoring)
    (hu : ¬ run.Unwritten e) : ¬ (run.step e).Restores := by
  cases e with
  | setConfig c => exact absurd trivial hu
  | requestScan => exact absurd trivial hu
  | tick s cell nowMs reply =>
    obtain ⟨t', new, ht, heq⟩ := run.step_tick s cell nowMs reply
    rw [heq]
    exact not_restores_tick h ht hu

/-- The bands that a scan leaves are written or excused in just those runs in which no check
after a scan finds other bands once something has been written in this life of the modem. -/
theorem restores_iff {es : List RadioEvent} :
    Always step Restores {} es ↔ Along step Unwritten {} es := by
  have h0 : Restoring {} := ⟨fun _ => ⟨rfl, by decide, rfl⟩, fun n hn => by cases hn⟩
  exact always_iff_along (P := Restoring) (fun _ e h hu => h.step e hu) (fun _ h => h.restores)
    (fun _ e h hu => not_restores_step e h hu) h0

/-- A modem that another host has left on band 3 is given bands 3 and 5. In the scan after that
it takes the lock of band 3 but neither that of band 5 nor the one at the end. -/
def rewrittenRun : List RadioEvent :=
  [.setConfig { bandProfile := .custom, bandMask := 20 }, answered 0 (modem "4" []),
    answered 0 (modem "4" []), answered 0 (modem "14" []), .requestScan, answered 0 (modem "4" []),
    answered 30000 (modem "4" []), answered 30000 (modem "4" [bandCommand 16]),
    answered 30000 (modem "4" [bandCommand 20]), answered 30000 (modem "4" [])]

theorem not_restores_rewrittenRun : ¬ ∀ es, Always step Restores {} es := by
  intro h
  exact absurd (h rewrittenRun _ List.prefix_rfl) (by decide)

end RadioRun

end Machino.Cellular
